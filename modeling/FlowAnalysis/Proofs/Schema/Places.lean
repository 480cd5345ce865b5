import FlowAnalysis.Schema.Infer
import Mathlib.Data.List.Basic

/-!
# Places in a schema

A place is a list of steps down into properties, items and members (`At`).  A property of
all schemas in a schema is told level by level (`everywhere_iff`).  Setting a default at a
place (`SetsDefault`) changes no other default, no name and no list of required names
(`SetsDefault.exists_at`); taking all defaults off again (`bare`) gives back what was
there (`SetsDefault.bare_eq`).
-/

namespace FlowAnalysis

namespace Schema

/-! ### Steps and places -/

/-- A step down into a schema. -/
inductive Step
  | property (name : String)
  | items
  | anyOf (i : Nat)
  | allOf (i : Nat)
deriving DecidableEq, Repr

/-- A schema stands right below another. -/
inductive Below : Schema → Step → Schema → Prop
  | property {k : String} {t : Schema} {ps : List (String × Schema)} {rs : List String}
      {d : Option String} {e : Option Json} (h : (k, t) ∈ ps) :
      Below (.mk (.object ps rs) d e) (.property k) t
  | items (t : Schema) (d : Option String) (e : Option Json) : Below (.mk (.array t) d e) .items t
  | anyOf {i : Nat} {t : Schema} {ms : List Schema} {d : Option String} {e : Option Json}
      (h : ms[i]? = some t) : Below (.mk (.anyOf ms) d e) (.anyOf i) t
  | allOf {i : Nat} {t : Schema} {ms : List Schema} {d : Option String} {e : Option Json}
      (h : ms[i]? = some t) : Below (.mk (.allOf ms) d e) (.allOf i) t

/-- A schema stands at a place in another. -/
inductive At : Schema → List Step → Schema → Prop
  | here (s : Schema) : At s [] s
  | down {s t u : Schema} {step : Step} {place : List Step} (h : Below s step t)
      (ht : At t place u) :
      At s (step :: place) u

theorem at_cons_iff {s u : Schema} {step : Step} {place : List Step} :
    At s (step :: place) u ↔ ∃ t, Below s step t ∧ At t place u := by
  constructor
  · rintro (_ | ⟨h, ht⟩)
    exact ⟨_, h, ht⟩
  · rintro ⟨t, h, ht⟩
    exact .down h ht

/-- A property stands below its schema. -/
theorem at_property {s t : Schema} {name : String} (h : s.property? name = some t) :
    At s [.property name] t := by
  obtain ⟨sh, d, e⟩ := s
  cases sh with
  | object ps rs =>
    obtain ⟨l, r, rfl, -⟩ := List.lookup_eq_some_iff.1 h
    exact .down (.property (List.mem_append_right _ List.mem_cons_self)) (.here t)
  | _ => cases h

/-- What stands below a schema depends on its shape alone. -/
theorem Below.of_shape_eq {s s' t : Schema} {step : Step} (h : Below s step t)
    (hs : s.shape = s'.shape) : Below s' step t := by
  obtain ⟨sh, d, e⟩ := s'
  cases h <;> cases hs
  case property h => exact .property h
  case items => exact .items t d e
  case anyOf h => exact .anyOf h
  case allOf h => exact .allOf h

/-- A property of schemas holds of a schema and of all schemas in it. -/
def Everywhere (P : Schema → Prop) (s : Schema) : Prop := ∀ place t, At s place t → P t

theorem everywhere_iff {P : Schema → Prop} {s : Schema} :
    Everywhere P s ↔ P s ∧ ∀ step t, Below s step t → Everywhere P t := by
  constructor
  · exact fun h => ⟨h [] s (.here s), fun step t ht place u hu => h (step :: place) u (.down ht hu)⟩
  · rintro ⟨hs, h⟩ place t ht
    cases ht with
    | here => exact hs
    | down hb ht => exact h _ _ hb _ t ht

/-! ### Setting a default -/

/-- The second schema is the first with a value for the default of the schema at a place of
properties and members of intersections, and with nothing else changed. -/
inductive SetsDefault (value : Json) : List Step → Schema → Schema → Prop
  | here (s : Schema) : SetsDefault value [] s (s.withDefault value)
  | property {place : List Step} {t u : Schema} (k : String) (l r : List (String × Schema))
      (rs : List String) (d : Option String) (e : Option Json) (h : SetsDefault value place t u) :
      SetsDefault value (.property k :: place) (.mk (.object (l ++ (k, t) :: r) rs) d e)
        (.mk (.object (l ++ (k, u) :: r) rs) d e)
  | allOf {place : List Step} {t u : Schema} (l r : List Schema) (d : Option String)
      (e : Option Json) (h : SetsDefault value place t u) :
      SetsDefault value (.allOf l.length :: place) (.mk (.allOf (l ++ t :: r)) d e)
        (.mk (.allOf (l ++ u :: r)) d e)

/-- The names of the properties. -/
def keys (s : Schema) : List String := s.properties.map Prod.fst

namespace SetsDefault

variable {value : Json} {place : List Step} {s s' : Schema}

/-- The place is one of the first schema. -/
theorem exists_at_place (h : SetsDefault value place s s') : ∃ t, At s place t := by
  induction h with
  | here s => exact ⟨s, .here s⟩
  | property k l r rs d e _ ih =>
    obtain ⟨t, ht⟩ := ih
    exact ⟨t, .down (.property (List.mem_append_right _ List.mem_cons_self)) ht⟩
  | allOf l r d e _ ih =>
    obtain ⟨t, ht⟩ := ih
    exact ⟨t, .down (.allOf (by simp)) ht⟩

/-- The default is set at the place. -/
theorem exists_default (h : SetsDefault value place s s') :
    ∃ t, At s' place t ∧ t.default = some value := by
  induction h with
  | here s => exact ⟨_, .here _, by cases s; rfl⟩
  | property k l r rs d e _ ih =>
    obtain ⟨t, ht, hd⟩ := ih
    exact ⟨t, .down (.property (List.mem_append_right _ List.mem_cons_self)) ht, hd⟩
  | allOf l r d e _ ih =>
    obtain ⟨t, ht, hd⟩ := ih
    exact ⟨t, .down (.allOf (by simp)) ht, hd⟩

/-- **Nothing but the default at the place changes**: what stands at a place
afterwards has the names and the required names of what stood there before, and at
every other place its default too. -/
theorem exists_at (h : SetsDefault value place s s') {other : List Step} {t : Schema}
    (ht : At s' other t) :
    ∃ u, At s other u ∧ t.keys = u.keys ∧ t.required = u.required ∧
      (other ≠ place → t.default = u.default) := by
  induction h generalizing other t with
  | here s =>
    cases ht with
    | here =>
      refine ⟨s, .here s, ?_⟩
      cases s
      exact ⟨rfl, rfl, fun h => absurd rfl h⟩
    | down hb ht => exact ⟨t, .down (hb.of_shape_eq (by cases s; rfl)) ht, rfl, rfl, fun _ => rfl⟩
  | @property place t₀ u₀ k l r rs d e _ ih =>
    cases ht with
    | here => exact ⟨_, .here _, by simp [keys, properties, shape], rfl, fun _ => rfl⟩
    | down hb ht =>
      cases hb with
      | @property k' x _ _ _ _ hx =>
        rcases List.mem_append.1 hx with hx | hx
        · exact ⟨t, .down (.property (List.mem_append_left _ hx)) ht, rfl, rfl, fun _ => rfl⟩
        · rcases List.mem_cons.1 hx with heq | hx
          · cases heq
            obtain ⟨v, hv, hkeys, hrequired, hdefault⟩ := ih ht
            exact ⟨v, .down (.property (List.mem_append_right _ List.mem_cons_self)) hv, hkeys,
              hrequired, fun hne => hdefault fun heq => hne (heq ▸ rfl)⟩
          · exact ⟨t, .down (.property (List.mem_append_right _ (List.mem_cons_of_mem _ hx))) ht,
              rfl, rfl, fun _ => rfl⟩
  | @allOf place t₀ u₀ l r d e _ ih =>
    cases ht with
    | here => exact ⟨_, .here _, rfl, rfl, fun _ => rfl⟩
    | down hb ht =>
      cases hb with
      | @allOf i x _ _ _ hx =>
        by_cases hi : i = l.length
        · subst hi
          rw [List.getElem?_append_right (Nat.le_refl _), Nat.sub_self] at hx
          cases hx
          obtain ⟨v, hv, hkeys, hrequired, hdefault⟩ := ih ht
          exact ⟨v, .down (.allOf (by simp)) hv, hkeys, hrequired,
            fun hne => hdefault fun heq => hne (heq ▸ rfl)⟩
        · -- the member beside the changed one is the same before and after
          have hbeside : (l ++ t₀ :: r)[i]? = (l ++ u₀ :: r)[i]? := by
            rcases Nat.lt_or_gt_of_ne hi with hlt | hgt
            · rw [List.getElem?_append_left hlt, List.getElem?_append_left hlt]
            · obtain ⟨j, rfl⟩ := Nat.exists_eq_add_of_lt hgt
              simp [List.getElem?_append_right, Nat.add_assoc]
          exact ⟨t, .down (.allOf (hbeside.trans hx)) ht, rfl, rfl, fun _ => rfl⟩

end SetsDefault

section

variable (name : String) (value : Json)

/-- A default in a list of properties goes to the first property of the name, if there is one. -/
theorem setDefault_spec (ps : List (String × Schema)) :
    ps.lookup name = none ∧ setDefault name value ps = ps ∨
      ∃ l t r, ps = l ++ (name, t) :: r ∧ ps.lookup name = some t ∧
        setDefault name value ps = l ++ (name, t.withDefault value) :: r := by
  induction ps with
  | nil => exact .inl ⟨rfl, rfl⟩
  | cons p ps ih =>
    obtain ⟨k, s⟩ := p
    rw [setDefault, List.lookup_cons]
    by_cases hk : k = name
    · subst hk
      exact .inr ⟨[], s, ps, rfl, by simp, by simp⟩
    · have hne : (name == k) = false := beq_false_of_ne (Ne.symm hk)
      rw [if_neg (by simpa using hk), hne]
      rcases ih with ⟨hnone, heq⟩ | ⟨l, t, r, hps, hsome, heq⟩
      · exact .inl ⟨hnone, by rw [heq]⟩
      · exact .inr ⟨(k, s) :: l, t, r, by rw [hps]; rfl, hsome, by rw [heq]; rfl⟩

/-- A schema that has the property itself gets the default there. -/
theorem setsDefault_of_property? {s t : Schema} (h : s.property? name = some t) :
    SetsDefault value [.property name] s (s.applyDefault name value) := by
  obtain ⟨sh, d, e⟩ := s
  cases sh with
  | object ps rs =>
    have hsome : ps.lookup name = some t := h
    rcases setDefault_spec name value ps with ⟨hnone, -⟩ | ⟨l, u, r, hps, -, heq⟩
    · cases hnone.symm.trans hsome
    · rw [applyDefault, heq, hps]
      exact .property name l r rs d e (.here u)
  | _ => cases h

/-- A default in a list of schemas goes to the first of them that has the
property, if there is one. -/
theorem applyToFirst_spec (ms : List Schema) :
    (∀ m ∈ ms, m.property? name = none) ∧ applyToFirst name value ms = ms ∨
      ∃ l m u r, ms = l ++ m :: r ∧ SetsDefault value [.property name] m u ∧
        applyToFirst name value ms = l ++ u :: r := by
  induction ms with
  | nil => exact .inl ⟨fun _ h => absurd h List.not_mem_nil, rfl⟩
  | cons m ms ih =>
    rw [applyToFirst]
    cases hm : m.property? name with
    | some t =>
      rw [if_pos Option.isSome_some]
      exact .inr ⟨[], m, _, ms, rfl, setsDefault_of_property? name value hm, rfl⟩
    | none =>
      rw [if_neg (by decide)]
      rcases ih with ⟨hnone, heq⟩ | ⟨l, m', u, r, hms, hu, heq⟩
      · exact .inl ⟨List.forall_mem_cons.2 ⟨hm, hnone⟩, by rw [heq]⟩
      · exact .inr ⟨m :: l, m', u, r, by rw [hms]; rfl, hu, by rw [heq]; rfl⟩

/-- The members of an intersection. -/
def conjuncts (s : Schema) : List Schema :=
  match s.shape with
  | .allOf ms => ms
  | _ => []

/-- **Where a default goes**: nowhere when neither the schema nor a member of its intersection has
the property, and else to a property of the schema or of a member. -/
theorem applyDefault_spec (s : Schema) :
    (s.property? name = none ∧ (∀ m ∈ s.conjuncts, m.property? name = none) ∧
      s.applyDefault name value = s) ∨
      ∃ place, SetsDefault value place s (s.applyDefault name value) ∧
        (place = [.property name] ∨ ∃ i, place = [.allOf i, .property name]) := by
  cases hp : s.property? name with
  | some t => exact .inr ⟨_, setsDefault_of_property? name value hp, .inl rfl⟩
  | none =>
    obtain ⟨sh, d, e⟩ := s
    cases sh with
    | object ps rs =>
      rcases setDefault_spec name value ps with ⟨-, heq⟩ | ⟨l, t, r, -, hsome, -⟩
      · refine .inl ⟨rfl, fun _ h => absurd h List.not_mem_nil, ?_⟩
        rw [applyDefault, heq]
      · cases hp.symm.trans hsome
    | allOf ms =>
      rcases applyToFirst_spec name value ms with ⟨hnone, heq⟩ | ⟨l, m, u, r, hms, hu, heq⟩
      · refine .inl ⟨rfl, hnone, ?_⟩
        rw [applyDefault, heq]
      · refine .inr ⟨[.allOf l.length, .property name], ?_, .inr ⟨l.length, rfl⟩⟩
        rw [applyDefault, heq, hms]
        exact .allOf l r d e hu
    | _ => exact .inl ⟨rfl, fun _ h => absurd h List.not_mem_nil, rfl⟩

end

/-! ### Defaults taken off -/

mutual

/-- The schema without its defaults, at every place. -/
def bare : Schema → Schema
  | .mk s d _ => .mk (bareShape s) d none

def bareShape : Shape → Shape
  | .any => .any
  | .typed t => .typed t
  | .constant t v => .constant t v
  | .array items => .array (bare items)
  | .object ps rs => .object (bareProperties ps) rs
  | .anyOf ms => .anyOf (bareAll ms)
  | .allOf ms => .allOf (bareAll ms)

def bareAll : List Schema → List Schema
  | [] => []
  | s :: ss => bare s :: bareAll ss

def bareProperties : List (String × Schema) → List (String × Schema)
  | [] => []
  | (k, s) :: ps => (k, bare s) :: bareProperties ps

end

theorem bareAll_eq_map (ss : List Schema) : bareAll ss = ss.map bare := by
  induction ss with
  | nil => rfl
  | cons s ss ih => rw [bareAll, List.map_cons, ih]

theorem bareProperties_eq_map (ps : List (String × Schema)) :
    bareProperties ps = ps.map fun p => (p.1, p.2.bare) := by
  induction ps with
  | nil => rfl
  | cons p ps ih => rw [bareProperties, List.map_cons, ih]

/-- **A default leaves everything else as it was.** -/
theorem SetsDefault.bare_eq {value : Json} {place : List Step} {s s' : Schema}
    (h : SetsDefault value place s s') : s'.bare = s.bare := by
  induction h with
  | here s => cases s; rfl
  | property k l r rs d e _ ih =>
    simp only [bare, bareShape, bareProperties_eq_map, List.map_append, List.map_cons, ih]
  | allOf l r d e _ ih =>
    simp only [bare, bareShape, bareAll_eq_map, List.map_append, List.map_cons, ih]

mutual

/-- Without defaults there is nothing to take off. -/
theorem bare_eq_self : ∀ {s : Schema}, Everywhere (·.default = none) s → s.bare = s
  | .mk sh d e, h => by
    obtain ⟨hnone, hbelow⟩ := everywhere_iff.1 h
    obtain rfl : e = none := hnone
    rw [bare, bareShape_eq_self fun step t ht => hbelow step t ht]

theorem bareShape_eq_self {d : Option String} : ∀ {sh : Shape},
    (∀ step t, Below (.mk sh d none) step t → Everywhere (·.default = none) t) → bareShape sh = sh
  | .any, _ | .typed _, _ | .constant _ _, _ => rfl
  | .array items, h => by rw [bareShape, bare_eq_self (h _ _ (.items items _ _))]
  | .object ps rs, h => by rw [bareShape, bareProperties_eq_self fun p hp => h _ p.2 (.property hp)]
  | .anyOf ms, h => by
    rw [bareShape, bareAll_eq_self fun m hm => ?_]
    obtain ⟨i, hi⟩ := List.mem_iff_getElem?.1 hm
    exact h _ _ (.anyOf hi)
  | .allOf ms, h => by
    rw [bareShape, bareAll_eq_self fun m hm => ?_]
    obtain ⟨i, hi⟩ := List.mem_iff_getElem?.1 hm
    exact h _ _ (.allOf hi)

theorem bareAll_eq_self : ∀ {ss : List Schema},
    (∀ s ∈ ss, Everywhere (·.default = none) s) → bareAll ss = ss
  | [], _ => rfl
  | s :: ss, h => by
    rw [bareAll, bare_eq_self (h s List.mem_cons_self),
      bareAll_eq_self fun t ht => h t (List.mem_cons_of_mem _ ht)]

theorem bareProperties_eq_self : ∀ {ps : List (String × Schema)},
    (∀ p ∈ ps, Everywhere (·.default = none) p.2) → bareProperties ps = ps
  | [], _ => rfl
  | (k, s) :: ps, h => by
    rw [bareProperties, bare_eq_self (h (k, s) List.mem_cons_self),
      bareProperties_eq_self fun p hp => h p (List.mem_cons_of_mem _ hp)]

end

end Schema

end FlowAnalysis
