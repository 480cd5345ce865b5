import FlowAnalysis.Cron.Basic
import FlowAnalysis.Proofs.Json.Record
import FlowAnalysis.Proofs.Text.Words
import Mathlib.Data.List.Sort
import Mathlib.Data.Set.Basic

/-!
# What a cron field stands for

A field is read item by item.  An item that is accepted runs upwards inside the range of its field
(`item_spec`).  The field stands for the values of its items, which are put into one set
(`CronItem.mem_union`); nothing cuts that set, and it is because both ends of every item are checked
that it has at least one value and none outside the range of the field (`parse_spec`).  The values
are listed in ascending order, hence the list is determined by the set that it enumerates, and a
comma joins two sets (`exists_parse_append`).
-/

namespace FlowAnalysis

/-! ### Numbers -/

namespace Number

theorem toList_toString (n : Nat) : (toString n).toList = Nat.toDigits 10 n := by
  show n.repr.toList = _
  rw [Nat.repr_eq_ofList_toDigits, String.toList_ofList]

theorem natural?_toDigits (n : Nat) : natural? (Nat.toDigits 10 n) = some n := by
  have hfull : (Nat.toDigits 10 n).isEmpty = false :=
    List.isEmpty_eq_false_iff.2 Nat.toDigits_ne_nil
  have hdigits : (Nat.toDigits 10 n).all isDigit = true :=
    List.all_eq_true.2 fun c hc => isDigit_of_mem_toDigits hc
  simp [natural?, hfull, hdigits, ofDigits_toDigits]

/-- A number that is accepted is written with digits and at most a plus
sign, and keeps the bound. -/
theorem bounded?_spec {bound n : Nat} {s : String} (h : bounded? bound s = some n) :
    n ≤ bound ∧ ∀ c ∈ s.toList, c = '+' ∨ isDigit c = true := by
  have hnatural : ∀ {cs : List Char} {m : Nat}, natural? cs = some m →
      ∀ c ∈ cs, isDigit c = true := by
    intro cs m hm
    rw [natural?] at hm
    split at hm
    · next hall => simpa using (Bool.and_eq_true_iff.1 hall).2
    · cases hm
  have hsigned : ∀ c ∈ s.toList, c = '+' ∨ c ∈ (signed s.toList).2 ∨
      (signed s.toList).1 = true := by
    intro c hc
    unfold signed
    split <;> simp_all
  rw [bounded?] at h
  dsimp only at h
  split at h
  · cases h
  · next hpositive =>
    cases hm : natural? (signed s.toList).2 with
    | none => simp [hm] at h
    | some m =>
      simp only [hm, Option.ite_none_right_eq_some, Option.some.injEq] at h
      obtain ⟨hle, rfl⟩ := h
      refine ⟨hle, fun c hc => ?_⟩
      rcases hsigned c hc with hplus | hrest | hminus
      · exact .inl hplus
      · exact .inr (hnatural hm c hrest)
      · exact absurd hminus hpositive

theorem bounded?_toString {bound n : Nat} (h : n ≤ bound) :
    bounded? bound (toString n) = some n := by
  have hsigned : signed (Nat.toDigits 10 n) = (false, Nat.toDigits 10 n) := by
    have hdigit : ∀ c ∈ Nat.toDigits 10 n, isDigit c = true :=
      fun c hc => isDigit_of_mem_toDigits hc
    unfold signed
    split
    · next heq => exact absurd (hdigit '-' (heq ▸ List.mem_cons_self)) (by decide)
    · next heq => exact absurd (hdigit '+' (heq ▸ List.mem_cons_self)) (by decide)
    · rfl
  rw [bounded?, toList_toString, hsigned]
  simp [natural?_toDigits, h]

end Number

/-! ### Ascending lists -/

/-- A list has exactly the members of a set, in ascending order. -/
def Enumerates (vs : List Nat) (S : Set Nat) : Prop := vs.Pairwise (· < ·) ∧ ∀ v, v ∈ vs ↔ v ∈ S

/-- From a first value on in steps, up to a last value. -/
def progression (first last step : Nat) : Set Nat := {v | v ≤ last ∧ ∃ k, v = first + k * step}

theorem progression_one_self (v : Nat) : progression v v 1 = {v} := by
  ext w
  simp only [progression, Set.mem_ofPred_eq, Set.mem_singleton_iff]
  constructor
  · rintro ⟨hle, k, rfl⟩
    omega
  · rintro rfl
    exact ⟨Nat.le_refl w, 0, by omega⟩

/-! ### Sets of values -/

theorem mem_insertValue {v w : Nat} {vs : List Nat} : w ∈ insertValue v vs ↔ w = v ∨ w ∈ vs := by
  induction vs with
  | nil => rw [insertValue, List.mem_singleton, or_iff_left List.not_mem_nil]
  | cons u us ih =>
    rw [insertValue]
    split
    · exact List.mem_cons
    · split
      · next heq => rw [heq, List.mem_cons, ← or_assoc, or_self]
      · rw [List.mem_cons, List.mem_cons, ih, or_left_comm]

theorem pairwise_insertValue {vs : List Nat} (h : vs.Pairwise (· < ·)) (v : Nat) :
    (insertValue v vs).Pairwise (· < ·) := by
  induction vs with
  | nil => exact List.pairwise_singleton _ v
  | cons u us ih =>
    obtain ⟨hu, hus⟩ := List.pairwise_cons.1 h
    rw [insertValue]
    split
    · next hlt =>
      refine List.pairwise_cons.2 ⟨List.forall_mem_cons.2 ⟨hlt, fun w hw => ?_⟩, h⟩
      exact hlt.trans (hu w hw)
    · next hge =>
      split
      · exact h
      · next hne =>
        -- The value goes somewhere behind the head, which is less than it.
        refine List.pairwise_cons.2 ⟨fun w hw => ?_, ih hus⟩
        rcases mem_insertValue.1 hw with rfl | hw
        · omega
        · exact hu w hw

/-- What is put into a set is in it, with what was there. -/
theorem mem_foldl_insertValue {vs set : List Nat} {w : Nat} :
    w ∈ vs.foldl (fun set v => insertValue v set) set ↔ w ∈ vs ∨ w ∈ set := by
  induction vs generalizing set with
  | nil => rw [List.foldl_nil, or_iff_right List.not_mem_nil]
  | cons v vs ih => rw [List.foldl_cons, ih, mem_insertValue, List.mem_cons, or_assoc, or_left_comm]

theorem pairwise_foldl_insertValue {vs set : List Nat} (h : set.Pairwise (· < ·)) :
    (vs.foldl (fun set v => insertValue v set) set).Pairwise (· < ·) :=
  List.foldlRecOn (motive := List.Pairwise (· < ·)) vs _ h
    fun _ hset v _ => pairwise_insertValue hset v

namespace CronItem

variable {i : CronItem} {is : List CronItem} {v : Nat}

/-- The values of an item with a step are those of its progression. -/
theorem mem_values (hstep : 0 < i.step) :
    v ∈ i.values ↔ v ∈ progression i.first i.last i.step := by
  have hcount : ∀ k, k < (i.last + i.step - i.first) / i.step ↔ i.first + k * i.step ≤ i.last := by
    intro k
    rw [Nat.lt_iff_add_one_le, Nat.le_div_iff_mul_le hstep, Nat.add_mul]
    omega
  rw [values, List.mem_range']
  constructor
  · rintro ⟨k, hk, rfl⟩
    rw [Nat.mul_comm]
    exact ⟨(hcount k).1 hk, k, rfl⟩
  · rintro ⟨hle, k, rfl⟩
    exact ⟨k, (hcount k).2 hle, by rw [Nat.mul_comm]⟩

theorem mem_union : v ∈ union is ↔ ∃ i ∈ is, v ∈ i.values := by
  -- Item by item, over what the items before have put into the set.
  have hfold : ∀ set : List Nat, v ∈ is.foldl
      (fun set i => i.values.foldl (fun set v => insertValue v set) set) set ↔
        (∃ i ∈ is, v ∈ i.values) ∨ v ∈ set := by
    induction is with
    | nil => simp
    | cons i is ih =>
      intro set
      rw [List.foldl_cons, ih, mem_foldl_insertValue]
      simp only [List.mem_cons, exists_eq_or_imp]
      rw [or_assoc, or_left_comm]
  rw [union, hfold, or_iff_left List.not_mem_nil]

theorem pairwise_union (is : List CronItem) : (union is).Pairwise (· < ·) :=
  List.foldlRecOn (motive := List.Pairwise (· < ·)) is _ .nil
    fun _ hset _ _ => pairwise_foldl_insertValue hset

end CronItem

/-! ### Readers that may fail -/

theorem bind_eq_ok_iff {α β ε : Type} {x : Except ε α} {g : α → Except ε β} {b : β} :
    x >>= g = .ok b ↔ ∃ a, x = .ok a ∧ g a = .ok b := by
  cases x <;> simp [bind, Except.bind]

theorem map_eq_ok_iff {α β ε : Type} {x : Except ε α} {g : α → β} {b : β} :
    g <$> x = .ok b ↔ ∃ a, x = .ok a ∧ g a = b := by
  cases x <;> simp [Functor.map, Except.map]

theorem mapM_cons_eq_ok_iff {α β ε : Type} {g : α → Except ε β} {x : α} {xs : List α}
    {zs : List β} :
    (x :: xs).mapM g = .ok zs ↔ ∃ y ys, g x = .ok y ∧ xs.mapM g = .ok ys ∧ zs = y :: ys := by
  rw [List.mapM_cons, bind_eq_ok_iff]
  refine exists_congr fun y => ?_
  rw [bind_eq_ok_iff, exists_and_left]
  refine and_congr_right fun _ => exists_congr fun ys => and_congr_right fun _ => ?_
  exact ⟨fun h => (Except.ok.inj h).symm, fun h => h ▸ rfl⟩

theorem mapM_append_eq_ok_iff {α β ε : Type} {g : α → Except ε β} {xs ys : List α} {zs : List β} :
    (xs ++ ys).mapM g = .ok zs ↔ ∃ us vs, xs.mapM g = .ok us ∧ ys.mapM g = .ok vs ∧
    zs = us ++ vs := by
  rw [List.mapM_append, bind_eq_ok_iff]
  refine exists_congr fun us => ?_
  rw [bind_eq_ok_iff, exists_and_left]
  refine and_congr_right fun _ => exists_congr fun vs => and_congr_right fun _ => ?_
  exact ⟨fun h => (Except.ok.inj h).symm, fun h => h ▸ rfl⟩

/-- What is read one by one is one thing for each text. -/
theorem mapM_ok_spec {α β ε : Type} {g : α → Except ε β} {xs : List α} {ys : List β}
    (h : xs.mapM g = .ok ys) : ys.length = xs.length ∧ ∀ y ∈ ys, ∃ x ∈ xs, g x = .ok y := by
  induction xs generalizing ys with
  | nil =>
    cases h
    simp
  | cons x xs ih =>
    obtain ⟨y, zs, hx, hxs, rfl⟩ := mapM_cons_eq_ok_iff.1 h
    obtain ⟨hlength, hmem⟩ := ih hxs
    refine ⟨by simp [hlength], List.forall_mem_cons.2 ⟨⟨x, List.mem_cons_self, hx⟩, fun z hz => ?_⟩⟩
    obtain ⟨u, hu, hz⟩ := hmem z hz
    exact ⟨u, List.mem_cons_of_mem x hu, hz⟩

/-- Values that are read back one by one are read back together. -/
theorem mapM_map_eq_ok {α β γ ε : Type} {g : α → Except ε β} {write : γ → α} {value : γ → β}
    {zs : List γ} (h : ∀ z ∈ zs, g (write z) = .ok (value z)) :
    (zs.map write).mapM g = .ok (zs.map value) := by
  induction zs with
  | nil => rfl
  | cons z zs ih =>
    have hrest := ih fun u hu => h u (List.mem_cons_of_mem z hu)
    exact mapM_cons_eq_ok_iff.2 ⟨value z, zs.map value, h z List.mem_cons_self, hrest, rfl⟩

namespace CronField

/-! ### Values and steps -/

/-- The five fields, in order. -/
def all : List CronField := [minute, hour, dayOfMonth, month, dayOfWeek]

/-- The words of a field are in capital letters and stand for values of its range,
which has small numbers only. -/
structure Proper (f : CronField) : Prop where
  fits : f.least + f.words.length ≤ f.greatest + 1
  small : f.greatest ≤ numberBound
  capital : ∀ w ∈ f.words, ∀ c ∈ w.toList, c.isUpper = true

theorem proper_of_mem_all {f : CronField} (h : f ∈ all) : f.Proper := by
  have hall : ∀ f ∈ all, f.least + f.words.length ≤ f.greatest + 1 ∧ f.greatest ≤ numberBound ∧
      ∀ w ∈ f.words, w.toList.all Char.isUpper = true := by
    decide +kernel
  obtain ⟨hfits, hsmall, hcapital⟩ := hall f h
  exact ⟨hfits, hsmall, fun w hw => List.all_eq_true.1 (hcapital w hw)⟩

/-- The characters that put values together to a field. -/
def isMark (c : Char) : Bool := c == ',' || c == '/' || c == '-' || c == '*'

theorem isMark_iff {c : Char} : isMark c = true ↔ c = ',' ∨ c = '/' ∨ c = '-' ∨ c = '*' := by
  simp [isMark, or_assoc]

theorem isMark_of_isUpper_toUpper {c : Char} (h : c.toUpper.isUpper = true) : isMark c = false := by
  rw [Bool.eq_false_iff, Ne, isMark_iff]
  rintro (rfl | rfl | rfl | rfl) <;> exact absurd h (by decide)

theorem isMark_of_number {c : Char} (h : c = '+' ∨ Number.isDigit c = true) : isMark c = false := by
  rw [Bool.eq_false_iff, Ne, isMark_iff]
  rintro (rfl | rfl | rfl | rfl) <;> exact absurd h (by decide)

theorem not_mem_of_isMark {s : String} (h : ∀ c ∈ s.toList, isMark c = false) {c : Char}
    (hc : isMark c = true) : c ∉ s.toList := by
  intro hm
  rw [h c hm] at hc
  cases hc

variable {f : CronField}

/-- A value that is accepted lies in the range of the field, and its text has no mark in it. -/
theorem value_spec (hf : f.Proper) {s : String} {v : Nat} (h : f.value s = .ok v) :
    f.least ≤ v ∧ v ≤ f.greatest ∧ ∀ c ∈ s.toList, isMark c = false := by
  rw [value] at h
  split at h
  · next i hi =>
    -- A word: its index is counted from the least value.
    obtain ⟨hlt, hword, -⟩ := List.findIdx?_eq_some_iff_getElem.1 hi
    have hfits := hf.fits
    cases h
    refine ⟨by omega, by omega, fun c hc => isMark_of_isUpper_toUpper ?_⟩
    have hupper : c.toUpper ∈ (f.words[i]).toList := by
      rw [eq_of_beq hword, upper, String.toList_map]
      exact List.mem_map_of_mem hc
    exact hf.capital _ (List.getElem_mem hlt) _ hupper
  · split at h
    · next n hn =>
      split at h
      · cases h
      · next hrange =>
        cases h
        simp only [Bool.or_eq_true, decide_eq_true_eq, not_or, Nat.not_lt] at hrange
        exact ⟨hrange.1, hrange.2, fun c hc => isMark_of_number ((Number.bounded?_spec hn).2 c hc)⟩
    · cases h

/-- A step is a positive number. -/
theorem step_eq_ok_iff {s : String} {n : Nat} :
    f.step s = .ok n ↔ Number.bounded? numberBound s = some n ∧ 0 < n := by
  rw [step]
  split
  · next hzero =>
    rw [hzero]
    simp only [reduceCtorEq, Option.some.injEq, false_iff, not_and]
    omega
  · next m hpos hm =>
    rw [hm, Except.ok.injEq, Option.some.injEq]
    exact ⟨fun h => ⟨h, h ▸ Nat.pos_of_ne_zero hpos⟩, fun h => h.1⟩
  · next hnone => simp [hnone]

/-! ### Items -/

theorem splitFirst_eq_none {c : Char} {s : String} (h : c ∉ s.toList) : splitFirst c s = none := by
  have hall : ∀ d ∈ s.toList, (d != c) = true := fun d hd => bne_iff_ne.2 fun heq => h (heq ▸ hd)
  rw [splitFirst, List.span_eq_takeWhile_dropWhile, List.dropWhile_eq_nil_iff.2 hall]

theorem splitFirst_eq_some {c : Char} {s a b : String} (hs : s.toList = a.toList ++ c :: b.toList)
    (ha : c ∉ a.toList) : splitFirst c s = some (a, b) := by
  have hall : ∀ d ∈ a.toList, (d != c) = true := fun d hd => bne_iff_ne.2 fun heq => ha (heq ▸ hd)
  have hbefore : s.toList.takeWhile (· != c) = a.toList := by
    rw [hs, List.takeWhile_append_of_pos hall, List.takeWhile_cons_of_neg (by simp),
      List.append_nil]
  have hafter : s.toList.dropWhile (· != c) = c :: b.toList := by
    rw [hs, List.dropWhile_append_of_pos hall, List.dropWhile_cons_of_neg (by simp)]
  rw [splitFirst, List.span_eq_takeWhile_dropWhile, hbefore, hafter]
  simp

/-- An item runs upwards inside the range of the field. -/
structure Holds (f : CronField) (i : CronItem) : Prop where
  least : f.least ≤ i.first
  ordered : i.first ≤ i.last
  greatest : i.last ≤ f.greatest
  step : 0 < i.step

theorem range_spec (hf : f.Proper) {s : String} {step first last : Nat}
    (h : f.range s step = .ok (first, last)) : f.least ≤ first ∧ last ≤ f.greatest := by
  rw [range] at h
  split at h
  · cases h
    exact ⟨Nat.le_refl _, Nat.le_refl _⟩
  · split at h
    · next a b _ =>
      obtain ⟨v, ha, h⟩ := bind_eq_ok_iff.1 h
      obtain ⟨w, hb, h⟩ := bind_eq_ok_iff.1 h
      cases h
      exact ⟨(value_spec hf ha).1, (value_spec hf hb).2.1⟩
    · obtain ⟨v, hv, h⟩ := bind_eq_ok_iff.1 h
      obtain ⟨hleast, hgreatest, -⟩ := value_spec hf hv
      cases h
      refine ⟨hleast, ?_⟩
      split
      · exact Nat.le_refl _
      · exact hgreatest

/-- A text without marks is a single value. -/
theorem range_of_value {s : String} {step v : Nat} (hs : ∀ c ∈ s.toList, isMark c = false)
    (h : f.value s = .ok v) : f.range s step = .ok (v, if 1 < step then f.greatest else v) := by
  have hstar : (s == "*") = false := by
    refine beq_false_of_ne ?_
    rintro rfl
    exact absurd (hs '*' (by decide)) (by decide)
  have hdash : splitFirst '-' s = none := splitFirst_eq_none (not_mem_of_isMark hs (by decide))
  rw [range, hstar, hdash, h]
  rfl

/-- The item that a range with a step is. -/
def stepped (f : CronField) (text : String) (step : Nat) : Except CronError CronItem :=
  f.range text step >>= fun r =>
    if r.2 < r.1 then .error (.reversedRange f.name r.1 r.2) else .ok ⟨r.1, r.2, step⟩

theorem item_of_slash {s text step : String} (h : splitFirst '/' s = some (text, step)) :
    f.item s = f.step step >>= f.stepped text := by
  have hne : s.isEmpty = false := by
    rw [Bool.eq_false_iff, Ne, String.isEmpty_iff]
    rintro rfl
    have hnone : splitFirst '/' "" = none := by decide
    rw [hnone] at h
    cases h
  simp only [item, hne, h, pure_bind]
  rfl

theorem item_of_no_slash {s : String} (hne : s ≠ "") (h : splitFirst '/' s = none) :
    f.item s = f.stepped s 1 := by
  have hne : s.isEmpty = false := by rwa [Bool.eq_false_iff, Ne, String.isEmpty_iff]
  simp only [item, hne, h, stepped, pure_bind]
  rfl

theorem stepped_spec (hf : f.Proper) {text : String} {step : Nat} (hstep : 0 < step) {i : CronItem}
    (h : f.stepped text step = .ok i) : f.Holds i := by
  obtain ⟨⟨first, last⟩, hrange, h⟩ := bind_eq_ok_iff.1 h
  obtain ⟨hleast, hgreatest⟩ := range_spec hf hrange
  dsimp only at h
  split at h
  · cases h
  · next hordered =>
    cases h
    exact ⟨hleast, Nat.not_lt.1 hordered, hgreatest, hstep⟩

theorem item_spec (hf : f.Proper) {s : String} {i : CronItem}
    (h : f.item s = .ok i) : f.Holds i := by
  have hne : s ≠ "" := by
    rintro rfl
    cases h
  cases hslash : splitFirst '/' s with
  | none =>
    rw [item_of_no_slash hne hslash] at h
    exact stepped_spec hf Nat.one_pos h
  | some parts =>
    rw [item_of_slash hslash] at h
    obtain ⟨n, hn, h⟩ := bind_eq_ok_iff.1 h
    exact stepped_spec hf (step_eq_ok_iff.1 hn).2 h

/-! ### Fields -/

/-- The items of a field that is accepted run upwards inside its range. -/
theorem holds_of_items (hf : f.Proper) {s : String} {is : List CronItem} (h : f.items s = .ok is) :
    ∀ i ∈ is, f.Holds i := by
  intro i hi
  obtain ⟨t, -, ht⟩ := (mapM_ok_spec h).2 i hi
  exact item_spec hf ht

theorem items_ne_nil {s : String} {is : List CronItem} (h : f.items s = .ok is) : is ≠ [] := by
  rintro rfl
  have hlength := (mapM_ok_spec h).1
  have hpieces := Text.pieces_ne_nil (· == ',') s.toList
  rw [List.length_nil, List.length_map] at hlength
  exact hpieces (List.length_eq_zero_iff.1 hlength.symm)

/-- The values of items that run inside the range of a field are those of their
progressions. -/
theorem mem_union_iff {is : List CronItem} (h : ∀ i ∈ is, f.Holds i) {v : Nat} :
    v ∈ CronItem.union is ↔ ∃ i ∈ is, v ∈ progression i.first i.last i.step := by
  rw [CronItem.mem_union]
  exact exists_congr fun i => and_congr_right fun hi => CronItem.mem_values (h i hi).step

theorem Holds.bounds {i : CronItem} (h : f.Holds i) {v : Nat}
    (hv : v ∈ progression i.first i.last i.step) : f.least ≤ v ∧ v ≤ f.greatest := by
  obtain ⟨hle, k, rfl⟩ := hv
  exact ⟨Nat.le_add_right_of_le h.least, hle.trans h.greatest⟩

theorem parse_eq_ok_iff {s : String} {vs : List Nat} :
    f.parse s = .ok vs ↔ ∃ is, f.items s = .ok is ∧ CronItem.union is = vs := map_eq_ok_iff

theorem parse_pairwise {s : String} {vs : List Nat} (h : f.parse s = .ok vs) :
    vs.Pairwise (· < ·) := by
  obtain ⟨is, -, rfl⟩ := parse_eq_ok_iff.1 h
  exact CronItem.pairwise_union is

/-- A field that is accepted stands for at least one value, and for none outside its range. -/
theorem parse_spec (hf : f.Proper) {s : String} {vs : List Nat} (h : f.parse s = .ok vs) :
    vs ≠ [] ∧ ∀ v ∈ vs, f.least ≤ v ∧ v ≤ f.greatest := by
  obtain ⟨is, his, rfl⟩ := parse_eq_ok_iff.1 h
  have hholds := holds_of_items hf his
  constructor
  · -- The first value of the first item is there.
    obtain ⟨i, hi⟩ := List.exists_mem_of_ne_nil is (items_ne_nil his)
    have hfirst : i.first ∈ CronItem.union is :=
      (mem_union_iff hholds).2 ⟨i, hi, (hholds i hi).ordered, 0, by omega⟩
    exact List.ne_nil_of_mem hfirst
  · intro v hv
    obtain ⟨i, hi, hv⟩ := (mem_union_iff hholds).1 hv
    exact (hholds i hi).bounds hv

theorem items_append {a b : String} {zs : List CronItem} :
    f.items (a ++ "," ++ b) = .ok zs ↔
      ∃ xs ys, f.items a = .ok xs ∧ f.items b = .ok ys ∧ zs = xs ++ ys := by
  have hlist : (a ++ "," ++ b).toList = a.toList ++ ',' :: b.toList := by simp
  rw [items, hlist, Text.pieces_append_cons (by decide), List.map_append]
  exact mapM_append_eq_ok_iff

theorem enumerates_union_append (is js : List CronItem) :
    Enumerates (CronItem.union (is ++ js))
      ({v | v ∈ CronItem.union is} ∪ {v | v ∈ CronItem.union js}) := by
  refine ⟨CronItem.pairwise_union _, fun v => ?_⟩
  simp only [Set.mem_union, Set.mem_ofPred_eq, CronItem.mem_union, List.mem_append, or_and_right,
    exists_or]

/-- **A comma joins two fields**: when both are accepted, the whole stands
for the values of either. -/
theorem exists_parse_append {a b : String} {xs ys : List Nat} (ha : f.parse a = .ok xs)
    (hb : f.parse b = .ok ys) :
    ∃ zs, f.parse (a ++ "," ++ b) = .ok zs ∧ Enumerates zs ({v | v ∈ xs} ∪ {v | v ∈ ys}) := by
  obtain ⟨is, his, rfl⟩ := parse_eq_ok_iff.1 ha
  obtain ⟨js, hjs, rfl⟩ := parse_eq_ok_iff.1 hb
  refine ⟨CronItem.union (is ++ js), parse_eq_ok_iff.2 ⟨is ++ js, ?_, rfl⟩,
    enumerates_union_append is js⟩
  exact items_append.2 ⟨is, js, his, hjs, rfl⟩

/-- Both sides of a comma must be accepted. -/
theorem exists_of_parse_append {a b : String} {zs : List Nat}
    (h : f.parse (a ++ "," ++ b) = .ok zs) :
    (∃ xs, f.parse a = .ok xs) ∧ ∃ ys, f.parse b = .ok ys := by
  obtain ⟨_, hitems, -⟩ := parse_eq_ok_iff.1 h
  obtain ⟨is, js, his, hjs, -⟩ := items_append.1 hitems
  exact ⟨⟨_, parse_eq_ok_iff.2 ⟨is, his, rfl⟩⟩, ⟨_, parse_eq_ok_iff.2 ⟨js, hjs, rfl⟩⟩⟩

end CronField

end FlowAnalysis
