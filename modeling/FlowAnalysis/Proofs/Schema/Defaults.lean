import FlowAnalysis.Proofs.Schema.Inference

/-!
# Where defaults arrive

A schema offers a property when it has it itself or through intersections, however deep these
nest (`Offers`).  A default goes to a property of the schema or of a member of its
intersection, and no deeper (`applyDefault_spec`).  So for a converted schema it arrives
exactly when the property is offered nowhere, or is offered that high (`default_arrives_iff`);
when it is offered only deeper, it is dropped.
-/

namespace FlowAnalysis

open Script

namespace Schema

/-- A schema has a property at a place that leads through nothing but intersections. -/
def Offers (s : Schema) (name : String) (place : List Step) : Prop :=
  (∃ is : List Nat, place = is.map .allOf ++ [.property name]) ∧ ∃ t, At s place t

/-- From one schema to the other a default has arrived: if the property is offered, then at one such
place the schema has the value for its default, nothing else has changed, and no other place has
that default; if it is not, nothing has changed. -/
structure DefaultArrives (name : String) (value : Json) (s s' : Schema) : Prop where
  placed : (∃ place, Offers s name place) → ∃ place, Offers s name place ∧
    SetsDefault value place s s' ∧ (∃ t, At s' place t ∧ t.default = some value) ∧
      ∀ other t, At s' other t → t.default = some value → other = place
  unchanged : (¬ ∃ place, Offers s name place) → s' = s

section

variable {s : Schema} {name : String} {place : List Step}

theorem at_allOf {i : Nat} {m t : Schema} (hm : s.conjuncts[i]? = some m) (ht : At m place t) :
    At s (.allOf i :: place) t := by
  obtain ⟨sh, d, e⟩ := s
  cases sh with
  | allOf ms => exact .down (.allOf hm) ht
  | _ => cases hm

theorem exists_of_at_allOf {i : Nat} {t : Schema} (h : At s (.allOf i :: place) t) :
    ∃ m, s.conjuncts[i]? = some m ∧ At m place t := by
  obtain ⟨m, hm, ht⟩ := at_cons_iff.1 h
  cases hm with
  | allOf hm => exact ⟨m, hm, ht⟩

theorem isSome_of_at_property {t : Schema} (h : At s [.property name] t) :
    (s.property? name).isSome := by
  obtain ⟨u, hu, -⟩ := at_cons_iff.1 h
  cases hu with
  | @property _ _ ps rs d e hu =>
    rw [Option.isSome_iff_ne_none]
    intro hnone
    exact absurd (List.lookup_eq_none_iff.1 hnone _ hu) (by simp)

/-- A property that neither the schema nor a member of its intersection has is
offered deeper, if at all. -/
theorem two_lt_length_of_offers (hs : s.property? name = none)
    (hm : ∀ m ∈ s.conjuncts, m.property? name = none) (h : Offers s name place) :
    2 < place.length := by
  obtain ⟨⟨is, rfl⟩, t, ht⟩ := h
  cases is with
  | nil =>
    have := isSome_of_at_property ht
    rw [hs] at this
    cases this
  | cons i is =>
    cases is with
    | nil =>
      obtain ⟨m, hi, ht⟩ := exists_of_at_allOf ht
      have := isSome_of_at_property ht
      rw [hm m (List.mem_of_getElem? hi)] at this
      cases this
    | cons j is => simp

/-- The places to which defaults go are offered. -/
theorem offers_of_setsDefault {value : Json} {s' : Schema} (h : SetsDefault value place s s')
    (hplace : place = [.property name] ∨ ∃ i, place = [.allOf i, .property name]) :
    Offers s name place := by
  refine ⟨?_, h.exists_at_place⟩
  rcases hplace with rfl | ⟨i, rfl⟩
  · exact ⟨[], rfl⟩
  · exact ⟨[i], rfl⟩

/-- **A default for a property that is offered only deeper is dropped.** -/
theorem applyDefault_eq_self (h : ∀ place, Offers s name place → 2 < place.length) (value : Json) :
    s.applyDefault name value = s := by
  rcases applyDefault_spec name value s with ⟨-, -, heq⟩ | ⟨place, hset, hplace⟩
  · exact heq
  · have hlt := h place (offers_of_setsDefault hset hplace)
    rcases hplace with rfl | ⟨i, rfl⟩ <;> exact absurd hlt (by simp)

/-- A schema without defaults is not what any default leads to. -/
theorem not_setsDefault_of_clean {value : Json} {s' : Schema} (hs' : Everywhere Clean s') :
    ¬ SetsDefault value place s s' := by
  intro h
  obtain ⟨t, ht, hd⟩ := h.exists_default
  cases hd.symm.trans (hs' place t ht).bare

/-- A default that is set where there were none is the only one. -/
theorem eq_of_default (hs : Everywhere Clean s) {value : Json} {s' : Schema}
    (h : SetsDefault value place s s') {other : List Step} {t : Schema} (ht : At s' other t)
    (hd : t.default = some value) : other = place := by
  by_contra hne
  obtain ⟨u, hu, -, -, hdefault⟩ := h.exists_at ht
  rw [hdefault hne, (hs other u hu).bare] at hd
  cases hd

end

/-- **A default arrives in a converted schema exactly when its property is offered nowhere or at the
top**: by the schema itself or by a member of its intersection.  When it is offered only by members
of members, the default is dropped. -/
theorem default_arrives_iff (s : Setting) (path : List String) (n : Node) (name : String)
    (value : Json) :
    (DefaultArrives name value (convert s path n) ((convert s path n).applyDefault name value) ↔
      ((∃ place, Offers (convert s path n) name place) →
        ∃ place, Offers (convert s path n) name place ∧ place.length ≤ 2)) ∧
    ((∀ place, Offers (convert s path n) name place → 2 < place.length) →
      (convert s path n).applyDefault name value = convert s path n) := by
  refine ⟨?_, fun h => applyDefault_eq_self h value⟩
  have hclean : Everywhere Clean (convert s path n) := clean_answer s (.type path n)
  rcases applyDefault_spec name value (convert s path n) with ⟨hs, hm, heq⟩ | ⟨place, hset, hplace⟩
  · -- nothing at the top has the property, and nothing changes
    rw [heq]
    constructor
    · intro h hoffers
      obtain ⟨place, -, hset, -⟩ := h.placed hoffers
      exact absurd hset (not_setsDefault_of_clean hclean)
    · intro h
      refine ⟨fun hoffers => ?_, fun _ => rfl⟩
      obtain ⟨place, hplace, hle⟩ := h hoffers
      exact absurd (two_lt_length_of_offers hs hm hplace) (Nat.not_lt.2 hle)
  · -- the default is set at the top
    have hoffers := offers_of_setsDefault hset hplace
    have hle : place.length ≤ 2 := by rcases hplace with rfl | ⟨i, rfl⟩ <;> simp
    constructor
    · exact fun _ _ => ⟨place, hoffers, hle⟩
    · intro _
      exact ⟨fun _ => ⟨place, hoffers, hset, hset.exists_default, fun other t =>
        eq_of_default hclean hset⟩, fun hnone => absurd ⟨place, hoffers⟩ hnone⟩

/-- An intersection in parentheses that is a member of another, and a
default for a property in it. -/
def nestedScript : String :=
  "class F extends BubbleFlow\x7bhandle(\x7ba=1\x7d:"
    ++ "(\x7ba:number\x7d&\x7bb:number\x7d)&\x7bc:number\x7d)\x7b\x7d\x7d"

/-- **A default is dropped two intersections deep**: the type offers the property `a`, and the
schema of the input is the converted type without the default. -/
theorem default_dropped_nestedScript :
    ∃ p type value, ParsedScript.parse? nestedScript = some p ∧
      input? p {} = some (type, [("a", value)]) ∧
      Offers (convert (settingOf p {}) [] type) "a" [.allOf 0, .allOf 0, .property "a"] ∧
      infer? p {} = some (convert (settingOf p {}) [] type) ∧
      ¬ DefaultArrives "a" value (convert (settingOf p {}) [] type)
        ((convert (settingOf p {}) [] type).applyDefault "a" value) := by
  have heval : ((ParsedScript.parse? nestedScript).bind fun p => (input? p {}).bind fun i =>
      (convertWithin 9 (settingOf p {}) i.1).map fun c =>
        (i.2.map Prod.fst, (c.property? "a").isSome, c.conjuncts.map fun m =>
          (m.property? "a").isSome,
          ((c.conjuncts[0]?.bind (·.conjuncts[0]?)).bind (·.property? "a")).isSome)) =
      some (["a"], false, [false, false], true) := by
    decide +kernel
  obtain ⟨p, hp, he⟩ := Option.bind_eq_some_iff.1 heval
  obtain ⟨⟨type, defaults⟩, hi, he⟩ := Option.bind_eq_some_iff.1 he
  obtain ⟨c, hc, he⟩ := Option.map_eq_some_iff.1 he
  simp only [Prod.mk.injEq] at he
  obtain ⟨hnames, hown, hmembers, hdeep⟩ := he
  obtain ⟨⟨k, value⟩, rest, rfl, rfl, hrest⟩ := List.map_eq_cons_iff.1 hnames
  obtain rfl := List.map_eq_nil_iff.1 hrest
  have hconvert := convert_eq_of_convertWithin hc
  have hclean : Everywhere Clean c := hconvert ▸ clean_answer (settingOf p {}) (.type [] type)
  -- the property is two intersections deep
  obtain ⟨t, ht⟩ := Option.isSome_iff_exists.1 hdeep
  obtain ⟨inner, hinner, ht⟩ := Option.bind_eq_some_iff.1 ht
  obtain ⟨outer, houter, hinner⟩ := Option.bind_eq_some_iff.1 hinner
  have hoffers : Offers c "a" [.allOf 0, .allOf 0, .property "a"] :=
    ⟨⟨[0, 0], rfl⟩, t, at_allOf houter (at_allOf hinner (at_property ht))⟩
  -- and nowhere higher
  have hnone : ∀ m ∈ c.conjuncts, m.property? "a" = none := by
    intro m hm
    have hmem : (m.property? "a").isSome ∈ [false, false] := hmembers ▸ List.mem_map_of_mem hm
    rw [← Option.not_isSome_iff_eq_none]
    intro hsome
    rw [hsome] at hmem
    exact absurd hmem (by decide)
  have htop : c.property? "a" = none := by simpa using hown
  have heq : c.applyDefault "a" value = c :=
    applyDefault_eq_self (fun place => two_lt_length_of_offers htop hnone) value
  refine ⟨p, type, value, hp, hi, hconvert ▸ hoffers, ?_, ?_⟩
  · rw [infer?_eq, hi, Option.map_some, hconvert]
    exact congrArg some heq
  · rw [hconvert, heq]
    intro h
    obtain ⟨place, -, hset, -⟩ := h.placed ⟨_, hoffers⟩
    exact not_setsDefault_of_clean hclean hset

end Schema

end FlowAnalysis
