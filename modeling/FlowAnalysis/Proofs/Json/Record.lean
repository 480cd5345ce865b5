import FlowAnalysis.Json.Record
import Mathlib.Data.List.Nodup
import Mathlib.Data.List.TakeDrop
import Mathlib.Data.List.TakeWhile

/-!
# Reading back what was written

Every reader gives back what its writer was given: ids as names (`idName?_toString`), lists, tables,
and records, of which a reader sees the members that are there (`Record.of?_record`).  The readers
of the items, the values and the fields need only read back what was written of them.
-/

namespace FlowAnalysis

/-! ### Tables from their entries -/

/-- Entries that each go to the end of what is there are in the end all there, in order. -/
theorem foldl_append_of_forall {τ ε : Type} {insert : τ → ε → τ} (entries : τ → List ε)
    (Fits : List ε → Prop)
    (hlast : ∀ t e rest, Fits (entries t ++ e :: rest) → entries (insert t e) = entries t ++ [e])
    (es : List ε) (t : τ) (h : Fits (entries t ++ es)) :
    entries (es.foldl insert t) = entries t ++ es := by
  induction es generalizing t with
  | nil => simp
  | cons e es ih =>
    have hone : entries (insert t e) = entries t ++ [e] := hlast t e es h
    have hrest : Fits (entries (insert t e) ++ es) := by
      rw [hone]
      simpa using h
    rw [List.foldl_cons, ih _ hrest, hone]
    simp

namespace ById

variable {α : Type}

theorem eq_of_entries {s t : ById α} (h : s.entries = t.entries) : s = t := by
  cases s
  cases t
  cases h
  rfl

/-- An entry with an id above all others comes last. -/
theorem insertEntry_of_gt {id : Int} {a : α} {es : List (Int × α)} (h : ∀ e ∈ es, e.1 < id) :
    insertEntry id a es = es ++ [(id, a)] := by
  induction es with
  | nil => rfl
  | cons e es ih =>
    have he : e.1 < id := h e List.mem_cons_self
    rw [insertEntry, if_neg (Int.lt_asymm he), if_neg (Int.ne_of_gt he),
      ih fun f hf => h f (List.mem_cons_of_mem _ hf)]
    rfl

/-- The table of the entries of a table is the table. -/
theorem ofList_entries (t : ById α) : ofList t.entries = t := by
  refine eq_of_entries (foldl_append_of_forall entries
    (List.Pairwise fun e f => e.1 < f.1) ?_ t.entries empty t.ascending)
  intro s e rest h
  exact insertEntry_of_gt fun f hf => (List.pairwise_append.1 h).2.2 f hf e List.mem_cons_self

end ById

namespace ByName

variable {α : Type}

theorem eq_of_entries {s t : ByName α} (h : s.entries = t.entries) : s = t := by
  cases s
  cases t
  cases h
  rfl

/-- An entry with a new name comes last. -/
theorem insertEntry_of_not_mem {name : String} {a : α} {es : List (String × α)}
    (h : name ∉ es.map Prod.fst) : insertEntry name a es = es ++ [(name, a)] := by
  induction es with
  | nil => rfl
  | cons e es ih =>
    rw [List.map_cons, List.mem_cons, not_or] at h
    rw [insertEntry, if_neg (Ne.symm h.1), ih h.2]
    rfl

/-- The table of the entries of a table is the table. -/
theorem ofList_entries (t : ByName α) : ofList t.entries = t := by
  refine eq_of_entries (foldl_append_of_forall entries
    (fun es => (es.map Prod.fst).Nodup) ?_ t.entries empty t.distinct)
  intro s e rest h
  refine insertEntry_of_not_mem fun hm => ?_
  rw [List.map_append, List.nodup_append] at h
  exact h.2.2 _ hm _ List.mem_cons_self rfl

end ByName

/-! ### Decimal digits -/

namespace Number

theorem ofDigits_toDigits (n : Nat) : ofDigits (Nat.toDigits 10 n) = n :=
  Nat.ofDigitChars_ten_toDigits

theorem isDigit_of_mem_toDigits {n : Nat} {c : Char} (h : c ∈ Nat.toDigits 10 n) :
    isDigit c = true := by
  have hc : c.isDigit = true := Nat.isDigit_of_mem_toDigits (by decide) (by decide) h
  simpa [isDigit, Char.isDigit, Char.le_def] using hc

/-- A number other than zero is written without a leading zero. -/
theorem head?_toDigits_ne_zero {n : Nat} (h : n ≠ 0) : (Nat.toDigits 10 n).head? ≠ some '0' := by
  induction n using Nat.strongRecOn with
  | _ n ih =>
    by_cases hlt : n < 10
    · have hdigit : ∀ m < 10, m ≠ 0 → some (Nat.digitChar m) ≠ some '0' := by decide
      rw [Nat.toDigits_of_lt_base hlt]
      exact hdigit n hlt h
    · have hlow : 10 ≤ n := Nat.not_lt.1 hlt
      have hhead := ih (n / 10) (by omega) (by omega)
      rw [Nat.toDigits_of_base_le (by decide) hlow, List.head?_append]
      cases hd : (Nat.toDigits 10 (n / 10)).head? with
      | none => exact absurd (List.head?_eq_none_iff.1 hd) Nat.toDigits_ne_nil
      | some c => simpa [hd] using hhead

theorem toList_toString_ofNat (n : Nat) : (toString (Int.ofNat n)).toList = Nat.toDigits 10 n := by
  rw [Int.toString_eq_repr, Int.repr, Nat.repr_eq_ofList_toDigits, String.toList_ofList]

theorem toList_toString_negSucc (n : Nat) :
    (toString (Int.negSucc n)).toList = '-' :: Nat.toDigits 10 (n + 1) := by
  rw [Int.toString_eq_repr, Int.repr, Nat.repr_eq_ofList_toDigits]
  simp

theorem toDigits_inj {n m : Nat} (h : Nat.toDigits 10 n = Nat.toDigits 10 m) : n = m := calc
  n = ofDigits (Nat.toDigits 10 n) := (ofDigits_toDigits n).symm
  _ = ofDigits (Nat.toDigits 10 m) := by rw [h]
  _ = m := ofDigits_toDigits m

/-- Different numbers are written differently. -/
theorem toString_inj {i j : Int} (h : toString i = toString j) : i = j := by
  have hminus : ∀ n cs, Nat.toDigits 10 n ≠ '-' :: cs := by
    intro n cs heq
    have hdigit : isDigit '-' = true := isDigit_of_mem_toDigits (heq ▸ List.mem_cons_self)
    exact absurd hdigit (by decide)
  have hlist := congrArg String.toList h
  cases i with
  | ofNat n =>
    rw [toList_toString_ofNat] at hlist
    cases j with
    | ofNat m =>
      rw [toList_toString_ofNat] at hlist
      rw [toDigits_inj hlist]
    | negSucc m =>
      rw [toList_toString_negSucc] at hlist
      exact absurd hlist (hminus n _)
  | negSucc n =>
    rw [toList_toString_negSucc] at hlist
    cases j with
    | ofNat m =>
      rw [toList_toString_ofNat] at hlist
      exact absurd hlist.symm (hminus m _)
    | negSucc m =>
      rw [toList_toString_negSucc] at hlist
      have hsucc : n + 1 = m + 1 := toDigits_inj (List.cons.inj hlist).2
      rw [Nat.succ.inj hsucc]

end Number

namespace Json

/-! ### Plain values -/

/-- The ids that fit into 64 bits. -/
def idFits (id : Int) : Bool := -(Number.signedBound : Int) ≤ id && id < Number.signedBound

/-- The counts that fit into 64 bits. -/
def countFits (n : Nat) : Bool := n < Number.wordBound

theorem string?_str (s : String) : string? (.str s) = some s := rfl

theorem bool?_bool (b : Bool) : bool? (.bool b) = some b := rfl

theorem id?_int {id : Int} (h : idFits id = true) : id? (.int id) = some id := by
  rw [id?]
  exact if_pos h

theorem count?_ofNat {n : Nat} (h : countFits n = true) : count? (ofNat n) = some n := by
  have hlt : n < Number.wordBound := by simpa [countFits] using h
  simp [count?, ofNat, hlt]

theorem mapM_map_eq_some {α β : Type} {f : β → Option α} {g : α → β} {as : List α}
    (h : ∀ a ∈ as, f (g a) = some a) : (as.map g).mapM f = some as := by
  induction as with
  | nil => rfl
  | cons a as ih =>
    rw [List.map_cons, List.mapM_cons, h a List.mem_cons_self,
      ih fun b hb => h b (List.mem_cons_of_mem _ hb)]
    rfl

theorem list?_ofList {α : Type} {item? : Json → Option α} {toJson : α → Json} {as : List α}
    (h : ∀ a ∈ as, item? (toJson a) = some a) : list? item? (ofList toJson as) = some as :=
  mapM_map_eq_some h

/-! ### Ids as names -/

/-- Digits as a number is written with them. -/
structure Decimal (ds : List Char) : Prop where
  ne_nil : ds ≠ []
  digits : ∀ c ∈ ds, Number.isDigit c = true
  lead : ds.length ≠ 1 → ds.head? ≠ some '0'

theorem decimal_toDigits (n : Nat) : Decimal (Nat.toDigits 10 n) where
  ne_nil := Nat.toDigits_ne_nil
  digits := fun _ hc => Number.isDigit_of_mem_toDigits hc
  lead := by
    intro hlength
    refine Number.head?_toDigits_ne_zero fun hn => hlength ?_
    rw [hn]
    rfl

theorem Decimal.takeWhile {ds : List Char} (h : Decimal ds) : ds.takeWhile Number.isDigit = ds :=
  List.takeWhile_eq_self_iff.2 h.digits

theorem Decimal.dropWhile {ds : List Char} (h : Decimal ds) : ds.dropWhile Number.isDigit = [] :=
  List.dropWhile_eq_nil_iff.2 h.digits

theorem Decimal.ne_minus {ds : List Char} (h : Decimal ds) (rest : List Char) :
    ds ≠ '-' :: rest := by
  rintro rfl
  exact absurd (h.digits '-' List.mem_cons_self) (by decide)

theorem number?_of_decimal {ds : List Char} (h : Decimal ds)
    (hlt : Number.ofDigits ds < Number.wordBound) :
    number? ds = some (.int (Number.ofDigits ds), []) := by
  simpa [number?, h.ne_minus, h.takeWhile, h.dropWhile, h.ne_nil, fractionPart, exponentPart, hlt]
    using h.lead

theorem number?_minus_of_decimal {ds : List Char} (h : Decimal ds) (hpos : 0 < Number.ofDigits ds)
    (hle : Number.ofDigits ds ≤ Number.signedBound) :
    number? ('-' :: ds) = some (.int (-(Number.ofDigits ds : Int)), []) := by
  simpa [number?, h.takeWhile, h.dropWhile, h.ne_nil, fractionPart, exponentPart, hpos,
    hle] using h.lead

theorem idName?_toString {id : Int} (h : idFits id = true) : idName? (toString id) = some id := by
  have hrange : -(Number.signedBound : Int) ≤ id ∧ id < Number.signedBound := by
    simpa [idFits] using h
  have hword : Number.signedBound < Number.wordBound := by decide
  rw [idName?]
  cases id with
  | ofNat n =>
    have hn : n < Number.signedBound := Int.ofNat_lt.1 hrange.2
    have hlt : Number.ofDigits (Nat.toDigits 10 n) < Number.wordBound := by
      rw [Number.ofDigits_toDigits]
      omega
    rw [Number.toList_toString_ofNat, number?_of_decimal (decimal_toDigits n) hlt,
      Number.ofDigits_toDigits]
    exact id?_int h
  | negSucc n =>
    have hle : Number.ofDigits (Nat.toDigits 10 (n + 1)) ≤ Number.signedBound := by
      rw [Number.ofDigits_toDigits]
      omega
    have hpos : 0 < Number.ofDigits (Nat.toDigits 10 (n + 1)) := by
      rw [Number.ofDigits_toDigits]
      omega
    rw [Number.toList_toString_negSucc, number?_minus_of_decimal (decimal_toDigits (n + 1))
      hpos hle, Number.ofDigits_toDigits]
    exact id?_int h

/-! ### Tables -/

theorem byId?_ofIds {α : Type} {value? : Json → Option α} {toJson : α → Json} {t : ById α}
    (hids : ∀ e ∈ t.entries, idFits e.1 = true)
    (h : ∀ e ∈ t.entries, value? (toJson e.2) = some e.2) :
    byId? value? (ofIds toJson t) = some t := by
  rw [ofIds, byId?, mapM_map_eq_some, Option.map_some, ById.ofList_entries]
  intro e he
  rw [idName?_toString (hids e he), h e he]
  rfl

theorem byName?_ofNames {α : Type} {value? : Json → Option α} {toJson : α → Json} {t : ByName α}
    (h : ∀ e ∈ t.entries, value? (toJson e.2) = some e.2) :
    byName? value? (ofNames toJson t) = some t := by
  rw [ofNames, byName?, mapM_map_eq_some, Option.map_some, ByName.ofList_entries]
  intro e he
  simp [h e he]

/-! ### Records -/

/-- The members of a record that are there. -/
def given (ms : List (String × Option Json)) : List (String × Json) :=
  ms.filterMap fun (k, j) => j.map fun j => (k, j)

theorem record_eq (ms : List (String × Option Json)) : record ms = .obj (given ms) := rfl

theorem given_cons_none (k : String) (ms : List (String × Option Json)) :
    given ((k, none) :: ms) = given ms := rfl

theorem given_cons_some (k : String) (j : Json) (ms : List (String × Option Json)) :
    given ((k, some j) :: ms) = (k, j) :: given ms := rfl

/-- The names of the members that are there come in the order of the names of all members. -/
theorem names_given_sublist (ms : List (String × Option Json)) :
    ((given ms).map Prod.fst).Sublist (ms.map Prod.fst) := by
  induction ms with
  | nil => exact .slnil
  | cons m ms ih =>
    obtain ⟨k, _ | j⟩ := m
    · rw [given_cons_none]
      exact ih.cons k
    · rw [given_cons_some]
      exact ih.cons_cons k

theorem lookup_eq_none_of_not_mem {α : Type} {k : String} {ms : List (String × α)}
    (h : k ∉ ms.map Prod.fst) : ms.lookup k = none := by
  rw [List.lookup_eq_none_iff]
  intro m hm
  exact bne_iff_ne.2 fun hk => h (hk ▸ List.mem_map_of_mem hm)

/-- When no name comes twice, a member is found with its value, if it has one. -/
theorem lookup_given {ms : List (String × Option Json)} (h : (ms.map Prod.fst).Nodup) (k : String) :
    (given ms).lookup k = (ms.lookup k).join := by
  induction ms with
  | nil => rfl
  | cons m ms ih =>
    obtain ⟨l, o⟩ := m
    have hl : l ∉ ms.map Prod.fst := (List.nodup_cons.1 h).1
    have hrest := ih (List.nodup_cons.1 h).2
    by_cases hk : k = l
    · subst hk
      cases o with
      | none =>
        -- A member without a value hides nothing: its name does not come again.
        rw [given_cons_none, List.lookup_cons_self, lookup_eq_none_of_not_mem]
        · rfl
        · exact fun hm => hl ((names_given_sublist ms).subset hm)
      | some j =>
        rw [given_cons_some, List.lookup_cons_self, List.lookup_cons_self, Option.join_some]
    · have hne : (k == l) = false := beq_false_of_ne hk
      cases o with
      | none => rw [given_cons_none, List.lookup_cons, hne, hrest]
      | some j => rw [given_cons_some, List.lookup_cons, List.lookup_cons, hne, hrest]

namespace Record

theorem repeats_eq_false_of_nodup {ms : List (String × Json)} (h : (ms.map Prod.fst).Nodup) :
    repeats ms = false := by
  induction ms with
  | nil => rfl
  | cons m ms ih =>
    have hm : m.1 ∉ ms.map Prod.fst := (List.nodup_cons.1 h).1
    have hany : (ms.any fun l => l.1 == m.1) = false := by
      rw [List.any_eq_false]
      intro l hl hlm
      exact hm (eq_of_beq hlm ▸ List.mem_map_of_mem hl)
    rw [repeats, hany, ih (List.nodup_cons.1 h).2]
    rfl

/-- A record with names, of which each member that is there can be looked up. -/
structure Gives (r : Record) (ms : List (String × Option Json)) : Prop where
  named : r.listed = false
  lookup : ∀ k, r.values.lookup k = (ms.lookup k).join

/-- A record is read back with the values it was written with. -/
theorem of?_record (names : List String) {j : Json} {ms : List (String × Option Json)}
    (hj : j = record ms) (hnames : ms.map Prod.fst = names) (hnodup : names.Nodup) :
    ∃ r, of? names j = some r ∧ r.Gives ms := by
  subst hj hnames
  have hknown : (given ms).filter (fun m => (ms.map Prod.fst).contains m.1) = given ms := by
    rw [List.filter_eq_self]
    intro m hm
    exact List.contains_iff_mem.2 ((names_given_sublist ms).subset (List.mem_map_of_mem hm))
  have hrepeats : repeats (given ms) = false :=
    repeats_eq_false_of_nodup (hnodup.sublist (names_given_sublist ms))
  refine ⟨⟨false, given ms⟩, ?_, rfl, lookup_given hnodup⟩
  simp only [record_eq, of?, hknown, hrepeats]
  rfl

/-- An object is read back like a record in which every member has a value. -/
theorem of?_obj (names : List String) {j : Json} {ms : List (String × Json)} (hj : j = .obj ms)
    (hnames : ms.map Prod.fst = names) (hnodup : names.Nodup) :
    ∃ r, of? names j = some r ∧ r.Gives (ms.map fun m => (m.1, some m.2)) := by
  refine of?_record names ?_ ?_ hnodup
  · rw [hj, record_eq, given, List.filterMap_map]
    exact congrArg Json.obj List.filterMap_some.symm
  · rw [List.map_map]
    exact hnames

/-- A required field is read back when its value is. -/
theorem Gives.required_eq {α : Type} {r : Record} {ms : List (String × Option Json)}
    (hr : r.Gives ms) (k : String) {j : Json} {read? : Json → Option α} {a : α}
    (hj : (ms.lookup k).join = some j) (hread : read? j = some a) :
    r.required k read? = some a := by
  rw [required, hr.lookup, hj]
  exact hread

/-- An optional field is read back when its values are, and none is written as `null`. -/
theorem Gives.optional_eq {α : Type} {r : Record} {ms : List (String × Option Json)}
    (hr : r.Gives ms) (k : String) {o : Option α} {toJson : α → Json} {read? : Json → Option α}
    (ho : (ms.lookup k).join = o.map toJson) (hread : ∀ a ∈ o, read? (toJson a) = some a)
    (hnull : ∀ a, toJson a ≠ .null) : r.optional k read? = some o := by
  rw [optional, hr.lookup, ho, hr.named]
  cases o with
  | none => rfl
  | some a => simp [hnull a, hread a rfl]

end Record

/-- A tag is read back, and the other members are left. -/
theorem tagged?_record {name tag : String} {ms : List (String × Option Json)}
    (h : name ∉ ms.map Prod.fst) :
    tagged? name (record ((name, some (.str tag)) :: ms)) = some (tag, record ms) := by
  have hne : ∀ m ∈ given ms, m.1 ≠ name := fun m hm heq =>
    h (heq ▸ (names_given_sublist ms).subset (List.mem_map_of_mem hm))
  have htag : (given ms).filter (fun m => m.1 == name) = [] :=
    List.filter_eq_nil_iff.2 fun m hm hm' => hne m hm (eq_of_beq hm')
  have hrest : (given ms).filter (fun m => m.1 != name) = given ms :=
    List.filter_eq_self.2 fun m hm => bne_iff_ne.2 (hne m hm)
  rw [record_eq, record_eq, given_cons_some]
  simp [tagged?, htag, hrest]

/-! ### Depth -/

theorem depth_lt_of_mem_items {j : Json} {js : List Json} (h : j ∈ js) :
    j.depth < (arr js).depth := by
  have hle : j.depth ≤ itemsDepth js := by
    induction js with
    | nil => cases h
    | cons i js ih =>
      rw [itemsDepth]
      rcases List.mem_cons.1 h with rfl | h
      · omega
      · have := ih h
        omega
  rw [depth]
  omega

theorem depth_lt_of_mem_record {k : String} {j : Json} {ms : List (String × Option Json)}
    (h : (k, some j) ∈ ms) : j.depth < (record ms).depth := by
  have hle : j.depth ≤ membersDepth (given ms) := by
    induction ms with
    | nil => cases h
    | cons m ms ih =>
      rcases List.mem_cons.1 h with rfl | h
      · rw [given_cons_some, membersDepth]
        omega
      · have hrest := ih h
        obtain ⟨l, _ | i⟩ := m
        · exact hrest
        · rw [given_cons_some, membersDepth]
          omega
  rw [record_eq, depth]
  omega

end Json

end FlowAnalysis
