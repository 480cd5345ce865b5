import FlowAnalysis.Proofs.Cron.Field

/-!
# Cron expressions and their canonical text

What is read from a text is well formed: each field stands for some values of its range, Sunday only
as 0 (`CronExpression.proper_of_parse`).  A well-formed expression can be written with the values of
each field in ascending order between commas, and that text is read back as the expression
(`CronExpression.parse_text`).
-/

namespace FlowAnalysis

namespace CronField

variable {f : CronField}

/-! ### Fields as text -/

/-- The text of a field: its values in order between commas. -/
def text (vs : List Nat) : String := ",".intercalate (vs.map toString)

theorem isUpper_toUpper_of_isDigit {c : Char} (h : Number.isDigit c = true) :
    c.toUpper.isUpper = false := by
  have hrange : '0' ≤ c ∧ c ≤ '9' := by simpa [Number.isDigit] using h
  have hlow : ¬ ('a'.val ≤ c.val ∧ c.val ≤ 'z'.val) :=
    fun hc => absurd (UInt32.le_trans hc.1 hrange.2) (by decide)
  have hup : ¬ ('A'.val ≤ c.val ∧ c.val ≤ 'Z'.val) :=
    fun hc => absurd (UInt32.le_trans hc.1 hrange.2) (by decide)
  have hsame : c.toUpper = c := dif_neg hlow
  rw [hsame]
  exact decide_eq_false hup

/-- A number is not a word, and is read back as itself. -/
theorem value_toString (hf : f.Proper) {v : Nat} (hleast : f.least ≤ v)
    (hgreatest : v ≤ f.greatest) : f.value (toString v) = .ok v := by
  have hword : f.words.findIdx? (· == upper (toString v)) = none := by
    refine List.findIdx?_eq_none_iff.2 fun w hw => beq_false_of_ne ?_
    rintro rfl
    obtain ⟨c, hc⟩ := List.exists_mem_of_ne_nil _ (Nat.toDigits_ne_nil (b := 10) (n := v))
    have hcapital : c.toUpper.isUpper = true := by
      refine hf.capital _ hw _ ?_
      rw [upper, String.toList_map, Number.toList_toString]
      exact List.mem_map_of_mem hc
    rw [isUpper_toUpper_of_isDigit (Number.isDigit_of_mem_toDigits hc)] at hcapital
    cases hcapital
  have hbounded : Number.bounded? numberBound (toString v) = some v :=
    Number.bounded?_toString (Nat.le_trans hgreatest hf.small)
  have hrange : (v < f.least || f.greatest < v) = false := by
    simp only [Bool.or_eq_false_iff, decide_eq_false_iff_not]
    omega
  simp only [value, hword, hbounded, hrange]
  rfl

theorem isMark_of_mem_toString {v : Nat} {c : Char} (h : c ∈ (toString v).toList) :
    isMark c = false := by
  rw [Number.toList_toString] at h
  exact isMark_of_number (.inr (Number.isDigit_of_mem_toDigits h))

/-- A text without marks that is a value is an item of that value alone. -/
theorem item_of_value {s : String} {v : Nat} (hne : s ≠ "") (hs : ∀ c ∈ s.toList, isMark c = false)
    (h : f.value s = .ok v) : f.item s = .ok ⟨v, v, 1⟩ := by
  have hslash : splitFirst '/' s = none := splitFirst_eq_none (not_mem_of_isMark hs (by decide))
  rw [item_of_no_slash hne hslash, stepped, range_of_value hs h]
  exact if_neg (Nat.lt_irrefl v)

/-- The text of a field has only digits and commas, and starts with a digit. -/
theorem mem_text {vs : List Nat} {c : Char} (h : c ∈ (text vs).toList) :
    Number.isDigit c = true ∨ c = ',' := by
  have hdigit : ∀ {v : Nat}, c ∈ (toString v).toList → Number.isDigit c = true := by
    intro v hc
    rw [Number.toList_toString] at hc
    exact Number.isDigit_of_mem_toDigits hc
  induction vs with
  | nil => simp [text] at h
  | cons v vs ih =>
    cases vs with
    | nil =>
      rw [text, List.map_singleton, String.intercalate_singleton] at h
      exact .inl (hdigit h)
    | cons w ws =>
      rw [text, List.map_cons, List.map_cons, String.intercalate_cons_cons, ← List.map_cons,
        String.toList_append, String.toList_append, List.mem_append, List.mem_append] at h
      rcases h with (hv | hcomma) | hrest
      · exact .inl (hdigit hv)
      · exact .inr (by simpa using hcomma)
      · exact ih hrest

theorem text_ne_empty {vs : List Nat} (h : vs ≠ []) : (text vs).toList ≠ [] := by
  cases vs with
  | nil => exact absurd rfl h
  | cons v vs =>
    cases vs with
    | nil =>
      rw [text, List.map_singleton, String.intercalate_singleton, Number.toList_toString]
      exact Nat.toDigits_ne_nil
    | cons w ws =>
      rw [text, List.map_cons, List.map_cons, String.intercalate_cons_cons, String.toList_append,
        String.toList_append]
      simp

theorem isBlank_of_mem_text {vs : List Nat} {c : Char} (h : c ∈ (text vs).toList) :
    Text.isBlank c = false := by
  rcases mem_text h with hdigit | rfl
  · exact Text.isBlank_of_digit (by simpa [Number.isDigit] using hdigit)
  · decide

/-- **The text of a field is read back**, for all values of its range in ascending order. -/
theorem parse_text (hf : f.Proper) {vs : List Nat} (hne : vs ≠ [])
    (hascending : vs.Pairwise (· < ·)) (hrange : ∀ v ∈ vs, f.least ≤ v ∧ v ≤ f.greatest) :
    f.parse (text vs) = .ok vs := by
  have hpieces : (Text.pieces (· == ',') (text vs).toList).map String.ofList = vs.map toString := by
    have hcomma : ∀ w ∈ (vs.map toString).map String.toList, ∀ c ∈ w, (c == ',') = false := by
      intro w hw c hc
      obtain ⟨s, hs, rfl⟩ := List.mem_map.1 hw
      obtain ⟨v, -, rfl⟩ := List.mem_map.1 hs
      have hmark := isMark_of_mem_toString hc
      rw [Bool.eq_false_iff, Ne, isMark_iff] at hmark
      exact beq_false_of_ne fun heq => hmark (.inl heq)
    have hseparator : ",".toList = [','] := by decide
    rw [text, String.toList_intercalate, hseparator,
      Text.pieces_intercalate (by decide) (by simpa using hne) hcomma, List.map_map]
    simp
  have hitems : f.items (text vs) = .ok (vs.map fun v => ⟨v, v, 1⟩) := by
    rw [items, hpieces]
    refine mapM_map_eq_ok fun v hv => ?_
    have hfull : toString v ≠ "" := by
      intro hnil
      have hlist := Number.toList_toString v
      rw [hnil] at hlist
      exact Nat.toDigits_ne_nil hlist.symm
    exact item_of_value hfull (fun c hc => isMark_of_mem_toString hc)
      (value_toString hf (hrange v hv).1 (hrange v hv).2)
  -- Both lists are ascending, so it is enough that they have the same members.
  have hunion : CronItem.union (vs.map fun v => ⟨v, v, 1⟩) = vs := by
    refine (CronItem.pairwise_union _).eq_of_mem_iff hascending fun v => ?_
    rw [CronItem.mem_union]
    have hsingle : ∀ u, v ∈ CronItem.values ⟨u, u, 1⟩ ↔ v = u := by
      intro u
      rw [CronItem.mem_values Nat.one_pos, progression_one_self, Set.mem_singleton_iff]
    constructor
    · rintro ⟨i, hi, hv⟩
      obtain ⟨u, hu, rfl⟩ := List.mem_map.1 hi
      rwa [(hsingle u).1 hv]
    · intro hv
      exact ⟨⟨v, v, 1⟩, List.mem_map_of_mem hv, (hsingle v).2 rfl⟩
  rw [parse_eq_ok_iff]
  exact ⟨_, hitems, hunion⟩

end CronField

/-! ### Expressions -/

/-- At least one value, ascending, all in a range. -/
structure InRange (least greatest : Nat) (vs : List Nat) : Prop where
  nonempty : vs ≠ []
  ascending : vs.Pairwise (· < ·)
  bounds : ∀ v ∈ vs, least ≤ v ∧ v ≤ greatest

namespace CronExpression

/-- Every field has values, all in its range; Sunday is 0. -/
structure Proper (e : CronExpression) : Prop where
  minutes : InRange 0 59 e.minutes
  hours : InRange 0 23 e.hours
  daysOfMonth : InRange 1 31 e.daysOfMonth
  months : InRange 1 12 e.months
  daysOfWeek : InRange 0 6 e.daysOfWeek

/-- The canonical text: the texts of the five fields between single blanks. -/
def text (e : CronExpression) : String :=
  " ".intercalate ([e.minutes, e.hours, e.daysOfMonth, e.months, e.daysOfWeek].map CronField.text)

theorem inRange_parse {f : CronField} (hf : f ∈ CronField.all) {s : String} {vs : List Nat}
    (h : f.parse s = .ok vs) : InRange f.least f.greatest vs := by
  obtain ⟨hne, hbounds⟩ := CronField.parse_spec (CronField.proper_of_mem_all hf) h
  exact ⟨hne, CronField.parse_pairwise h, hbounds⟩

theorem inRange_foldSunday {days : List Nat} (h : InRange 0 7 days) :
    InRange 0 6 (foldSunday days) := by
  obtain ⟨hne, hascending, hbounds⟩ := h
  have hsix : ∀ d ∈ days, d ≠ 7 → 0 ≤ d ∧ d ≤ 6 := by
    intro d hd hother
    have hbound := hbounds d hd
    omega
  rw [foldSunday]
  split
  · -- The 7 stands in the list once, and a 0 comes in its place.
    have herased : (days.erase 7).Pairwise (· < ·) := hascending.sublist List.erase_sublist
    have hnodup : days.Nodup := hascending.imp Nat.ne_of_lt
    refine ⟨List.ne_nil_of_mem (mem_insertValue.2 (.inl rfl)), pairwise_insertValue herased 0, ?_⟩
    intro d hd
    rcases mem_insertValue.1 hd with rfl | hd
    · omega
    · obtain ⟨hother, hd⟩ := hnodup.mem_erase_iff.1 hd
      exact hsix d hd hother
  · next hseven =>
    refine ⟨hne, hascending, fun d hd => hsix d hd ?_⟩
    rintro rfl
    exact hseven (List.contains_iff_mem.2 hd)

theorem foldSunday_of_inRange {days : List Nat} (h : InRange 0 6 days) :
    foldSunday days = days := by
  have hseven : days.contains 7 = false := by
    rw [Bool.eq_false_iff, Ne, List.contains_iff_mem]
    intro hmem
    have hbound := h.bounds 7 hmem
    omega
  rw [foldSunday, hseven]
  rfl

/-- **What is read is well formed.** -/
theorem proper_of_parse {s : String} {e : CronExpression} (h : parse s = .ok e) : e.Proper := by
  delta parse at h
  split at h
  · obtain ⟨minutes, hminutes, h⟩ := bind_eq_ok_iff.1 h
    obtain ⟨hours, hhours, h⟩ := bind_eq_ok_iff.1 h
    obtain ⟨daysOfMonth, hdaysOfMonth, h⟩ := bind_eq_ok_iff.1 h
    obtain ⟨months, hmonths, h⟩ := bind_eq_ok_iff.1 h
    obtain ⟨daysOfWeek, hdaysOfWeek, h⟩ := bind_eq_ok_iff.1 h
    cases h
    exact
      { minutes := inRange_parse (by decide) hminutes
        hours := inRange_parse (by decide) hhours
        daysOfMonth := inRange_parse (by decide) hdaysOfMonth
        months := inRange_parse (by decide) hmonths
        daysOfWeek := inRange_foldSunday (inRange_parse (by decide) hdaysOfWeek) }
  · cases h

theorem expand_eq_self {s : String} (h : s.toList.head? ≠ some '@') : expand s = s := by
  unfold expand
  split
  case h_8 => rfl
  all_goals exact absurd (by decide) h

theorem toList_text (e : CronExpression) : e.text.toList =
    (CronField.text e.minutes).toList ++ ' ' :: ((CronField.text e.hours).toList
      ++ ' ' :: ((CronField.text e.daysOfMonth).toList ++ ' ' :: ((CronField.text e.months).toList
        ++ ' ' :: (CronField.text e.daysOfWeek).toList))) := by
  simp [text]

/-- **The canonical text of a well-formed expression is read back.** -/
theorem parse_text {e : CronExpression} (h : e.Proper) : parse e.text = .ok e := by
  have hhead : e.text.toList.head? = (CronField.text e.minutes).toList.head? := by
    rw [toList_text, List.head?_append_of_ne_nil _ (CronField.text_ne_empty h.minutes.nonempty)]
  have hlast : e.text.toList.getLast? = (CronField.text e.daysOfWeek).toList.getLast? := by
    have hsplit : e.text.toList =
        ((CronField.text e.minutes).toList ++ ' ' :: ((CronField.text e.hours).toList
        ++ ' ' :: ((CronField.text e.daysOfMonth).toList ++
          ' ' :: ((CronField.text e.months).toList ++ [' ']))))
        ++ (CronField.text e.daysOfWeek).toList := by
      simp [toList_text]
    rw [hsplit, List.getLast?_append_of_ne_nil _ (CronField.text_ne_empty h.daysOfWeek.nonempty)]
  have htrim : Text.trim e.text = e.text := by
    refine Text.trim_eq_self (fun c hc => ?_) fun c hc => ?_
    · exact CronField.isBlank_of_mem_text (List.mem_of_mem_head? (hhead ▸ hc))
    · exact CronField.isBlank_of_mem_text (List.mem_of_mem_getLast? (hlast ▸ hc))
  have hexpand : expand e.text = e.text := by
    refine expand_eq_self fun hat => ?_
    rcases CronField.mem_text (List.mem_of_mem_head? (hhead ▸ hat)) with hdigit | hcomma
    · exact absurd hdigit (by decide)
    · exact absurd hcomma (by decide)
  have hwords : Text.words e.text =
      [e.minutes, e.hours, e.daysOfMonth, e.months, e.daysOfWeek].map CronField.text := by
    refine Text.words_intercalate (fun w hw hempty => ?_) fun w hw c hc => ?_
    · obtain ⟨vs, hvs, rfl⟩ := List.mem_map.1 hw
      have hnil : (CronField.text vs).toList = [] := by rw [hempty]; rfl
      refine CronField.text_ne_empty ?_ hnil
      simp only [List.mem_cons, List.not_mem_nil, or_false] at hvs
      rcases hvs with rfl | rfl | rfl | rfl | rfl
      exacts [h.minutes.nonempty, h.hours.nonempty, h.daysOfMonth.nonempty, h.months.nonempty,
        h.daysOfWeek.nonempty]
    · obtain ⟨vs, -, rfl⟩ := List.mem_map.1 hw
      exact CronField.isBlank_of_mem_text hc
  have hfield : ∀ f ∈ CronField.all, ∀ vs, InRange f.least f.greatest vs →
      f.parse (CronField.text vs) = .ok vs :=
    fun f hf vs hvs => CronField.parse_text (CronField.proper_of_mem_all hf) hvs.nonempty
      hvs.ascending hvs.bounds
  have hweek : InRange 0 7 e.daysOfWeek :=
    ⟨h.daysOfWeek.nonempty, h.daysOfWeek.ascending,
      fun d hd => by have hd := h.daysOfWeek.bounds d hd; omega⟩
  delta parse
  rw [htrim, hexpand, hwords]
  simp only [List.map_cons, List.map_nil, hfield .minute (by decide) _ h.minutes,
    hfield .hour (by decide) _ h.hours,
    hfield .dayOfMonth (by decide) _ h.daysOfMonth, hfield .month (by decide) _ h.months,
    hfield .dayOfWeek (by decide) _ hweek, foldSunday_of_inRange h.daysOfWeek, bind, Except.bind,
    pure, Except.pure]

/-- **Reading a cron expression is sound and canonical.**  What is read from any text is well formed
and is read back from its canonical text, and every well-formed expression is read from some text.
In every field a comma joins two texts: the whole is accepted exactly when both are, and then it
stands for the values of either. -/
theorem parse_proper_canonical :
    (∀ s e, parse s = .ok e → e.Proper ∧ parse e.text = .ok e) ∧
      (∀ e : CronExpression, e.Proper → ∃ s, parse s = .ok e) ∧
      ∀ (f : CronField) (a b : String),
        ((∃ zs, f.parse (a ++ "," ++ b) = .ok zs) ↔ (∃ xs, f.parse a = .ok xs) ∧
          ∃ ys, f.parse b = .ok ys) ∧
        ∀ xs ys, f.parse a = .ok xs → f.parse b = .ok ys →
          ∃ zs, f.parse (a ++ "," ++ b) = .ok zs ∧ Enumerates zs ({v | v ∈ xs} ∪ {v | v ∈ ys}) := by
  refine ⟨fun s e h => ?_, fun e h => ⟨e.text, parse_text h⟩, fun f a b => ?_⟩
  · have hproper := proper_of_parse h
    exact ⟨hproper, parse_text hproper⟩
  · refine ⟨⟨?_, ?_⟩, fun xs ys ha hb => CronField.exists_parse_append ha hb⟩
    · rintro ⟨zs, h⟩
      exact CronField.exists_of_parse_append h
    · rintro ⟨⟨xs, ha⟩, ys, hb⟩
      obtain ⟨zs, hzs, -⟩ := CronField.exists_parse_append ha hb
      exact ⟨zs, hzs⟩

/-- A sign, a word in small letters, steps, and a range that ends on Sunday as 7. -/
def mixedSchedule : String := "+5,*/20 9-17/4 1,15 JAN-mar fri-7"

/-- The sets that it stands for, and the text that is read back as the same. -/
theorem parse_canonical_mixedSchedule :
    parse mixedSchedule = .ok ⟨[0, 5, 20, 40], [9, 13, 17], [1, 15], [1, 2, 3], [0, 5, 6]⟩ ∧
      parse "0,5,20,40 9,13,17 1,15 1,2,3 0,5,6" =
      .ok ⟨[0, 5, 20, 40], [9, 13, 17], [1, 15], [1, 2, 3], [0, 5, 6]⟩ ∧
      ∃ xs ys zs, CronField.dayOfWeek.parse "fri-7" = .ok xs ∧
      CronField.dayOfWeek.parse "0-5/5" = .ok ys ∧
        CronField.dayOfWeek.parse "fri-7,0-5/5" = .ok zs ∧
        Enumerates zs ({v | v ∈ xs} ∪ {v | v ∈ ys}) := by
  have hparse : parse mixedSchedule =
      .ok ⟨[0, 5, 20, 40], [9, 13, 17], [1, 15], [1, 2, 3], [0, 5, 6]⟩ := by
    decide +kernel
  have hfirst : CronField.dayOfWeek.parse "fri-7" = .ok [5, 6, 7] := by decide +kernel
  have hsecond : CronField.dayOfWeek.parse "0-5/5" = .ok [0, 5] := by decide +kernel
  obtain ⟨hread, -, hjoin⟩ := parse_proper_canonical
  obtain ⟨zs, hzs, hunion⟩ := (hjoin .dayOfWeek "fri-7" "0-5/5").2 _ _ hfirst hsecond
  exact ⟨hparse, (hread _ _ hparse).2, _, _, zs, hfirst, hsecond, hzs, hunion⟩

end CronExpression

end FlowAnalysis
