import FlowAnalysis.Proofs.Schema.Converted

/-!
# The schema of a flow's input is well formed

The schema of the input is a converted type with some defaults (`infer?_eq`).  What holds of it
while the defaults are put in (`Inferred`) holds of the converted type, is kept by each default,
and so holds at the end: required names are names of properties at every depth, defaults stand
on properties at the top or in a member of an intersection at the top, and without them the
schema is the converted type.
-/

namespace FlowAnalysis

open Script

namespace Schema

/-! ### The input -/

/-- The type of the input of a script's flow, with the defaults for it. -/
def input? (p : ParsedScript) (options : Options) : Option (Node × List (String × Json)) := do
  let flow ← (FlowClass.all options.flowBaseClass p.root).head?
  let handle ← flow.handle?
  let parameter ← handle.parameters.head?
  let type ← memberType? parameter
  return (type, inputDefaults handle parameter)

/-- What the types of a script are converted with. -/
def settingOf (p : ParsedScript) (options : Options) : Setting :=
  ⟨.ofRoot p.root, options.triggerRegistryType⟩

/-- The schema with defaults put in one after another. -/
def applyDefaults (s : Schema) (ds : List (String × Json)) : Schema :=
  ds.foldl (fun s d => s.applyDefault d.1 d.2) s

theorem infer?_eq (p : ParsedScript) (options : Options) :
    infer? p options = (input? p options).map fun i =>
      (convert (settingOf p options) [] i.1).applyDefaults i.2 := by
  rw [infer?, input?]
  cases (FlowClass.all options.flowBaseClass p.root).head? with
  | none => rfl
  | some flow =>
    cases hh : flow.handle? with
    | none => simp [hh]
    | some handle =>
      cases hp : handle.parameters.head? with
      | none => simp [hh, hp]
      | some parameter =>
        cases ht : memberType? parameter <;> simp [hh, hp, ht, applyDefaults, settingOf]

/-! ### What the defaults keep -/

/-- A property at the top, or in a member of an intersection at the top. -/
def IsShallow (place : List Step) : Prop :=
  (∃ k, place = [.property k]) ∨ ∃ i k, place = [.allOf i, .property k]

/-- A schema is a converted one but for defaults on shallow properties. -/
structure Inferred (converted s : Schema) : Prop where
  required : ∀ place t, At s place t → ∀ name ∈ t.required, name ∈ t.keys
  shallow : ∀ place t, At s place t → t.default ≠ none → IsShallow place
  bare : s.bare = converted

namespace Inferred

variable {converted s : Schema}

theorem of_clean (h : Everywhere Clean s) : Inferred s s where
  required place t ht := (h place t ht).required
  shallow place t ht hd := absurd (h place t ht).bare hd
  bare := bare_eq_self fun place t ht => (h place t ht).bare

/-- A default keeps it so. -/
theorem applyDefault (h : Inferred converted s) (name : String) (value : Json) :
    Inferred converted (s.applyDefault name value) := by
  rcases applyDefault_spec name value s with ⟨-, -, heq⟩ | ⟨place, hset, hplace⟩
  · rw [heq]
    exact h
  · refine ⟨fun other t ht => ?_, fun other t ht hd => ?_, hset.bare_eq.trans h.bare⟩
    · obtain ⟨u, hu, hkeys, hrequired, -⟩ := hset.exists_at ht
      rw [hkeys, hrequired]
      exact h.required other u hu
    · by_cases heq : other = place
      · exact heq ▸ hplace.imp (fun h => ⟨name, h⟩) fun ⟨i, h⟩ => ⟨i, name, h⟩
      · obtain ⟨u, hu, -, -, hdefault⟩ := hset.exists_at ht
        exact h.shallow other u hu (hdefault heq ▸ hd)

/-- **All defaults together keep it so.** -/
theorem applyDefaults (h : Inferred converted s) (ds : List (String × Json)) :
    Inferred converted (s.applyDefaults ds) := by
  induction ds generalizing s with
  | nil => exact h
  | cons d ds ih => exact ih (h.applyDefault d.1 d.2)

end Inferred

/-- A schema as JSON has properties exactly when it says which of them are required.  This holds
of every schema: the two are the arguments of one constructor, so the pair of optional fields of
the JSON form is written from both or from neither. -/
theorem properties_iff_required (t : Schema) (paired : Bool) :
    "properties" ∈ (t.members paired).map Prod.fst ↔
    "required" ∈ (t.members paired).map Prod.fst := by
  obtain ⟨sh, d, e⟩ := t
  rw [members]
  cases sh <;> simp [shapeMembers]

/-- **The schema of an input is well formed at every depth.**  At every place its JSON form has
properties exactly when it has required names, as by construction that of every schema has, and
these are names of properties; defaults stand only on properties at the top or in a member of an
intersection at the top.  But for the defaults it is the converted type of the input, and in every
conversion an interface has the names of what it extends and its own, under its own names its own
members, and no required name twice. -/
theorem inferred_schema_well_formed {p : ParsedScript} {options : Options} {s : Schema}
    (h : infer? p options = some s) :
    (∀ place t, At s place t →
      (∀ paired, "properties" ∈ (t.members paired).map Prod.fst ↔
        "required" ∈ (t.members paired).map Prod.fst) ∧
      (∀ name ∈ t.required, name ∈ t.keys) ∧
      (t.default ≠ none → (∃ k, place = [.property k]) ∨ ∃ i k, place = [.allOf i, .property k])) ∧
    (∃ type defaults, input? p options = some (type, defaults) ∧
      s.bare = convert (settingOf p options) [] type) ∧
    ∀ path n,
      (∀ k, k ∈ (Schema.interface (settingOf p options) path n).keys ↔
        (∃ b ∈ bases n, k ∈ (convert (settingOf p options) path b).keys) ∨
          k ∈ (ownProperties (settingOf p options) path n).map (·.name)) ∧
      (∀ k ∈ (ownProperties (settingOf p options) path n).map (·.name),
        (Schema.interface (settingOf p options) path n).property? k =
          ((ownProperties (settingOf p options) path n).reverse.find? fun m => m.name == k).map
            (·.schema)) ∧
      (Schema.interface (settingOf p options) path n).required.Nodup := by
  rw [infer?_eq] at h
  obtain ⟨⟨type, defaults⟩, hinput, rfl⟩ := Option.map_eq_some_iff.1 h
  have hinferred : Inferred (convert (settingOf p options) [] type) _ :=
    (Inferred.of_clean (clean_answer (settingOf p options) (.type [] type))).applyDefaults defaults
  refine ⟨fun place t ht => ⟨properties_iff_required t, hinferred.required place t ht,
    hinferred.shallow place t ht⟩, ⟨type, defaults, hinput, hinferred.bare⟩, fun path n => ?_⟩
  exact ⟨fun k => mem_keys_interface_iff _ path n, fun k hk => property?_interface _ path n hk,
    nodup_required_interface _ path n⟩

/-- An interface that extends another and an optional type, refers to itself and declares a name
again, with a default for that name. -/
def extendingScript : String :=
  "interface B\x7bid:string;note?:string\x7d"
    ++ "interface O extends B,Partial<E>\x7bnote:number;of:O[]\x7d"
    ++ "type E=\x7ba:string\x7d\nclass F extends BubbleFlow\x7bhandle(\x7bnote=1\x7d:O)\x7b\x7d\x7d"

/-- The names come from all three, those of the optional type are not required, and the default
stands on the property at the top. -/
theorem inferred_schema_extendingScript :
    ∃ p s t, ParsedScript.parse? extendingScript = some p ∧ infer? p {} = some s ∧
      s.keys = ["id", "note", "a", "of"] ∧ s.required = ["id", "note", "of"] ∧
      At s [.property "note"] t ∧ t.default ≠ none ∧ ∀ name ∈ s.required, name ∈ s.keys := by
  have heval : ((ParsedScript.parse? extendingScript).bind fun p => (input? p {}).bind fun i =>
      (convertWithin 9 (settingOf p {}) i.1).map fun c =>
        let s := c.applyDefaults i.2
        (s.keys, s.required, (s.property? "note").map fun t => t.default.isSome)) =
      some (["id", "note", "a", "of"], ["id", "note", "of"], some true) := by
    decide +kernel
  obtain ⟨p, hp, he⟩ := Option.bind_eq_some_iff.1 heval
  obtain ⟨i, hi, he⟩ := Option.bind_eq_some_iff.1 he
  obtain ⟨c, hc, he⟩ := Option.map_eq_some_iff.1 he
  simp only [Prod.mk.injEq] at he
  obtain ⟨hkeys, hrequired, hnote⟩ := he
  obtain ⟨t, ht, hdefault⟩ := Option.map_eq_some_iff.1 hnote
  have hinfer : infer? p {} = some (c.applyDefaults i.2) := by
    rw [infer?_eq, hi, Option.map_some, convert_eq_of_convertWithin hc]
  refine ⟨p, _, t, hp, hinfer, hkeys, hrequired, at_property ht, ?_,
    ((inferred_schema_well_formed hinfer).1 [] _ (.here _)).2.1⟩
  exact Option.isSome_iff_ne_none.1 hdefault

end Schema

end FlowAnalysis
