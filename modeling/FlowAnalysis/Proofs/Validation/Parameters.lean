import FlowAnalysis.Bubble.Locate
import FlowAnalysis.Proofs.Registry.Classes
import FlowAnalysis.Validation

/-!
# Required parameters

A bubble that is constructed from an object literal must set every required parameter of its
class.  The locator follows an import to the class it stands for (`Registry.resolve?`); the rule
about parameters takes the name as the script writes it.  `missing_parameters_agree_iff` says
when the two come to the same: the script uses the class under its own name, or leaves out
nothing that either class requires.
-/

namespace FlowAnalysis

open Script

/-! ### Which class a name stands for -/

namespace Registry

variable {registry : Registry} {imports : ByName String} {name className : String} {d : Descriptor}

/-- The class that a name stands for is registered, be it imported or written. -/
theorem forClass?_of_resolve? (h : registry.resolve? imports name = some (className, d)) :
    registry.forClass? className = some d := by
  rcases Option.or_eq_some_iff.1 h with hfollowed | ⟨-, hown⟩
  · obtain ⟨exported, -, hrest⟩ := Option.bind_eq_some_iff.1 hfollowed
    obtain ⟨e, hclass, he⟩ := Option.bind_eq_some_iff.1 hrest
    cases he
    exact hclass
  · obtain ⟨e, hclass, he⟩ := Option.map_eq_some_iff.1 hown
    cases he
    exact hclass

end Registry

namespace Validation

/-! ### Object literals -/

/-- A construction of what the script calls `name` from an object literal that
takes over no other object. -/
structure Literal (n : Node) (name : String) (object : Node) : Prop where
  called : ∃ c, n.child? .constructor = some c ∧ c.kind = .identifier ∧ c.text = name
  argument : (n.child? .arguments).bind (·.part?) = some object
  kind : object.kind = .object
  plain : ∀ m ∈ object.parts, m.kind ≠ .spreadElement

/-- Whether a member of an object sets the property of a name, as a key that may be quoted, as a
method, or as the variable of that name. -/
def SetBy (m : Node) (name : String) : Prop :=
  (m.kind = .pair ∨ m.kind = .methodDefinition) ∧
      (∃ key, (m.child? .key).or (m.child? .name) = some key ∧ Text.unquote key.text = name) ∨
    m.kind = .shorthandProperty ∧ m.text = name

/-- Whether an object sets the property of a name. -/
def Sets (object : Node) (name : String) : Prop := ∃ m ∈ object.parts, SetBy m name

theorem propertyName?_eq_some_iff {m : Node} {name : String} :
    propertyName? m = some name ↔ SetBy m name := by
  unfold propertyName? SetBy
  cases hkey : m.child? .key <;> split <;> simp_all

theorem mem_propertyNames_iff {object : Node} {name : String} :
    name ∈ object.parts.filterMap propertyName? ↔ Sets object name := by
  simp only [List.mem_filterMap, propertyName?_eq_some_iff, Sets]

instance (object : Node) (name : String) : Decidable (Sets object name) :=
  decidable_of_iff _ mem_propertyNames_iff

/-- Whether an object sets every required parameter of a bubble. -/
def Complete (d : Descriptor) (object : Node) : Prop :=
  ∀ name ∈ d.requiredParameters, Sets object name

/-- One problem, at the line of the construction, for each required parameter
that the object does not set. -/
def owed (d : Descriptor) (object n : Node) : List Problem :=
  (d.requiredParameters.filter fun name => ¬ Sets object name).map fun name =>
    ⟨.missingParameter d.className name, some n.line⟩

theorem owed_eq_nil_iff {d : Descriptor} {object n : Node} :
    owed d object n = [] ↔ Complete d object := by
  simp [owed, Complete]

/-- A problem names the class of its bubble, so bubbles of two classes have the same
problems only if neither has any. -/
theorem owed_eq_owed_iff {d e : Descriptor} {object n : Node} (hne : e.className ≠ d.className) :
    owed e object n = owed d object n ↔ Complete d object ∧ Complete e object := by
  constructor
  · intro heq
    have hnil : owed d object n = [] := by
      refine List.eq_nil_iff_forall_not_mem.2 fun q hq => ?_
      obtain ⟨x, -, hx⟩ := List.mem_map.1 hq
      obtain ⟨y, -, hy⟩ := List.mem_map.1 (heq ▸ hq)
      rw [← hx, Problem.mk.injEq, Cause.missingParameter.injEq] at hy
      exact hne hy.1.1
    exact ⟨owed_eq_nil_iff.1 hnil, owed_eq_nil_iff.1 (heq.trans hnil)⟩
  · rintro ⟨hd, he⟩
    rw [owed_eq_nil_iff.2 hd, owed_eq_nil_iff.2 he]

/-- What is reported of a literal is what is owed to the class registered under the written name. -/
theorem missingParameters_of_literal {n object : Node} {name : String} (h : Literal n name object)
    (registry : Registry) :
    missingParameters registry n = ((registry.forClass? name).map fun d =>
      owed d object n).getD [] := by
  obtain ⟨c, hc, -, rfl⟩ := h.called
  have hspread : (object.parts.any fun m => m.kind == .spreadElement) = false := by
    rw [List.any_eq_false]
    exact fun m hm hkind => h.plain m hm (eq_of_beq hkind)
  have hnames : propertyNames? object = some (object.parts.filterMap propertyName?) := by
    rw [propertyNames?, hspread]
    rfl
  have hset : (fun x => !(object.parts.filterMap propertyName?).contains x) = fun x =>
      ¬ Sets object x := by
    funext x
    rw [List.contains_eq_mem, ← decide_not]
    exact decide_eq_decide.2 (not_congr mem_propertyNames_iff)
  cases hd : registry.forClass? c.text with
  | none => simp [missingParameters, hc, hd]
  | some d =>
    simp only [missingParameters, hc, hd, h.argument, h.kind, hnames, owed, Option.bind_eq_bind,
      Option.bind_some, Option.pure_def, beq_self_eq_true, if_true, hset, Option.map_some,
      Option.getD_some]

/-! ### Which rule reports what -/

theorem code_of_mem_missingParameters {registry : Registry} {n : Node} {q : Problem}
    (h : q ∈ missingParameters registry n) : q.cause.code = "V008" := by
  simp only [missingParameters] at h
  split at h
  · cases h
  · obtain ⟨x, -, rfl⟩ := List.mem_map.1 h
    rfl

theorem code_mem_of_handle (c : FlowClass) :
    ∀ q ∈ handle c, q.cause.code ∈ ["V004", "V005", "V006"] := by
  unfold handle
  split
  · simp [Cause.code]
  · simp only [List.forall_mem_append]
    refine ⟨⟨?_, ?_⟩, ?_⟩ <;> (repeat' split) <;> simp [Cause.code]

/-- What is reported of the structure: the problems of the flow class, then
those of the bubble classes. -/
theorem exists_structural_eq (p : ParsedScript) (registry : Registry) (options : Options) :
    ∃ qs, structural p registry options = qs ++ bubbleClasses p registry options ∧
      ∀ q ∈ qs, q.cause.code ∈ ["V001", "V002", "V003", "V004", "V005", "V006"] := by
  refine ⟨_, rfl, ?_⟩
  rw [List.forall_mem_append]
  constructor
  · unfold classCount
    split <;> simp [Cause.code]
  · split
    · rw [List.forall_mem_append]
      constructor
      · unfold exported
        split <;> simp [Cause.code]
      · intro q hq
        have hcode := code_mem_of_handle _ q hq
        simp only [List.mem_cons] at hcode ⊢
        tauto
    · simp

theorem code_of_mem_bubbleClasses {p : ParsedScript} {registry : Registry} {options : Options}
    {q : Problem} (h : q ∈ bubbleClasses p registry options) : q.cause.code = "V007" := by
  obtain ⟨u, -, rfl⟩ := List.mem_map.1 h
  rfl

theorem code_ne_of_structural (p : ParsedScript) (registry : Registry) (options : Options) :
    ∀ q ∈ structural p registry options, q.cause.code ≠ "V008" := by
  obtain ⟨qs, hqs, hcodes⟩ := exists_structural_eq p registry options
  rw [hqs, List.forall_mem_append]
  refine ⟨fun q hq hcode => ?_, fun q hq => by simp [code_of_mem_bubbleClasses hq]⟩
  exact absurd (hcode ▸ hcodes q hq) (by decide)

theorem code_ne_of_trigger (p : ParsedScript) (options : Options) :
    ∀ q ∈ trigger p options, q.cause.code ≠ "V008" := by
  have hcause : ∀ t c, triggerCause? options.flowBaseClass t = some c → c.code ≠ "V008" := by
    intro t c h
    unfold triggerCause? at h
    (repeat' split at h) <;> cases h <;> simp [Cause.code]
  intro q hq
  obtain ⟨c, hc, rfl⟩ := Option.map_eq_some_iff.1 (Option.mem_toList.1 hq)
  exact hcause _ c hc

/-- Every missing parameter is reported, construction by construction, and
nothing else has that code. -/
theorem filter_problems (p : ParsedScript) (registry : Registry) (options : Options) :
    (problems p registry options).filter (fun q => q.cause.code = "V008")
      = (constructions p.root).flatMap (missingParameters registry) := by
  have hparameters : (parameters p registry).filter (fun q => q.cause.code = "V008") =
      parameters p registry := by
    refine List.filter_eq_self.2 fun q hq => decide_eq_true ?_
    obtain ⟨n, -, hn⟩ := List.mem_flatMap.1 hq
    exact code_of_mem_missingParameters hn
  have hstructural : (structural p registry options).filter (fun q => q.cause.code = "V008") = [] :=
    List.filter_eq_nil_iff.2 fun q hq => by
      simpa using code_ne_of_structural p registry options q hq
  have htrigger : (trigger p options).filter (fun q => q.cause.code = "V008") = [] :=
    List.filter_eq_nil_iff.2 fun q hq => by simpa using code_ne_of_trigger p options q hq
  change _ = parameters p registry
  unfold problems
  split
  · -- The trigger is looked at only when nothing else is wrong.
    next hnil => rw [htrigger, (List.append_eq_nil_iff.1 hnil).2]
  · rw [List.filter_append, hstructural, hparameters, List.nil_append]

/-! ### Agreement with the locator -/

/-- **The rule about required parameters agrees with the locator on a literal exactly when the
script uses the class under its own name, or neither the class that the locator finds nor one that
has the written name itself requires what the literal does not set.** -/
theorem missing_parameters_agree_iff (p : ParsedScript) (ds : List Descriptor) (options : Options) :
    (problems p (.ofDescriptors ds) options).filter (fun q => q.cause.code = "V008")
        = (constructions p.root).flatMap (missingParameters (.ofDescriptors ds)) ∧
      ∀ n ∈ constructions p.root, ∀ name object, Literal n name object → ∀ className d,
        (Registry.ofDescriptors ds).resolve? (p.root.imports options.bubblePackage) name
            = some (className, d) →
          (missingParameters (.ofDescriptors ds) n = owed d object n ↔
            className = name ∨
              Complete d object ∧
                ∀ e, (Registry.ofDescriptors ds).forClass? name = some e → Complete e object) := by
  refine ⟨filter_problems p _ options, fun n _ name object hliteral className d hresolve => ?_⟩
  have hclassed := Registry.classed_ofDescriptors ds
  have hd := Registry.forClass?_of_resolve? hresolve
  have hdname : d.className = className := (hclassed.mem_of_forClass? hd).2
  rw [missingParameters_of_literal hliteral]
  by_cases hname : className = name
  · subst hname
    simp [hd]
  -- Under another name the rule takes whatever class is registered as that name, if there is one.
  cases he : (Registry.ofDescriptors ds).forClass? name with
  | none =>
    have hnil : [] = owed d object n ↔ Complete d object := eq_comm.trans owed_eq_nil_iff
    rw [Option.map_none, Option.getD_none, hnil]
    simp [hname]
  | some e =>
    have hename : e.className = name := (hclassed.mem_of_forClass? he).2
    have hne : e.className ≠ d.className := by
      rw [hename, hdname]
      exact fun h => hname h.symm
    simp [hname, owed_eq_owed_iff hne]

/-- The bubble `a` of the class `A`, which requires the given parameters. -/
def demanding (names : List String) : List Descriptor :=
  [{ name := "a", className := "A", parameters := names.map fun name => ⟨name, none, true⟩ }]

/-- The first construction of a script when it is from a literal of a class that the locator finds:
the name, the object and the class. -/
def firstLiteral? (p : ParsedScript) (registry : Registry) :
    Option (Node × (String × Node) × String × Descriptor) := do
  let n ← (constructions p.root).head?
  let c ← n.child? .constructor
  let object ← (n.child? .arguments).bind (·.part?)
  let found ← registry.resolve? (p.root.imports ({} : Options).bubblePackage) c.text
  if c.kind = .identifier ∧ object.kind = .object ∧ ∀ m ∈ object.parts, m.kind ≠ .spreadElement then
    return (n, (c.text, object), found)
  else none

theorem firstLiteral?_spec {p : ParsedScript} {registry : Registry} {n object : Node}
    {name className : String} {d : Descriptor}
    (h : firstLiteral? p registry = some (n, (name, object), className, d)) :
    n ∈ constructions p.root ∧ Literal n name object ∧
      registry.resolve? (p.root.imports ({} : Options).bubblePackage) name =
      some (className, d) := by
  obtain ⟨m, hm, h⟩ := Option.bind_eq_some_iff.1 h
  obtain ⟨c, hc, h⟩ := Option.bind_eq_some_iff.1 h
  obtain ⟨o, ho, h⟩ := Option.bind_eq_some_iff.1 h
  obtain ⟨found, hfound, h⟩ := Option.bind_eq_some_iff.1 h
  split at h
  · next hall =>
    cases h
    exact ⟨List.mem_of_head? hm, ⟨⟨c, hc, hall.1, rfl⟩, ho, hall.2.1, hall.2.2⟩, hfound⟩
  · cases h

/-- A class under its own name, with a quoted property, a variable and a method. -/
def ownNameScript : String :=
  "import \x7b A \x7d from '@bubblelab/bubble-core';\nnew A(\x7b 'q': 1, r, s() \x7b\x7d \x7d);"

/-- Of the four required parameters only the last is reported. -/
theorem missing_parameters_ownNameScript :
    ∃ p n object d, ParsedScript.parse? ownNameScript = some p ∧ n ∈ constructions p.root ∧
      Literal n "A" object ∧
      (Registry.ofDescriptors (demanding ["q", "r", "s", "t"])).resolve?
        (p.root.imports ({} : Options).bubblePackage) "A" = some ("A", d) ∧
      missingParameters (.ofDescriptors (demanding ["q", "r", "s", "t"])) n
        = [⟨.missingParameter "A" "t", some 2⟩] := by
  have heval : ((ParsedScript.parse? ownNameScript).bind fun p =>
      (firstLiteral? p (.ofDescriptors (demanding ["q", "r", "s", "t"]))).map fun x =>
        (x.2.1.1, x.2.2.1, owed x.2.2.2 x.2.1.2 x.1)) =
          some ("A", "A", [⟨.missingParameter "A" "t", some 2⟩]) := by
    decide +kernel
  obtain ⟨p, hp, he⟩ := Option.bind_eq_some_iff.1 heval
  obtain ⟨⟨n, ⟨name, object⟩, className, d⟩, hfirst, he⟩ := Option.map_eq_some_iff.1 he
  simp only [Prod.mk.injEq] at he
  obtain ⟨rfl, rfl, howed⟩ := he
  obtain ⟨hn, hliteral, hd⟩ := firstLiteral?_spec hfirst
  have hagree := (missing_parameters_agree_iff p _ {}).2 n hn "A" object hliteral "A" d hd
  exact ⟨p, n, object, d, hp, hn, hliteral, hd, (hagree.2 (.inl rfl)).trans howed⟩

/-- A class under another name. -/
def renamedScript : String :=
  "import \x7b A as B \x7d from '@bubblelab/bubble-core';\n"
    ++ "export class F extends BubbleFlow<'webhook/http'> "
    ++ "\x7b async handle() \x7b new B(\x7b\x7d) \x7d \x7d"

/-- **A bubble whose class is imported under another name is valid whatever it leaves out**: the
locator finds the class, which requires a parameter, and no problem is reported. -/
theorem problems_renamedScript :
    ∃ p n object d, ParsedScript.parse? renamedScript = some p ∧ n ∈ constructions p.root ∧
      Literal n "B" object ∧
      (Registry.ofDescriptors (demanding ["q"])).resolve?
      (p.root.imports ({} : Options).bubblePackage) "B"
        = some ("A", d) ∧
      owed d object n = [⟨.missingParameter "A" "q", some 2⟩] ∧
      problems p (.ofDescriptors (demanding ["q"])) {} = [] := by
  have heval : ((ParsedScript.parse? renamedScript).bind fun p =>
      (firstLiteral? p (.ofDescriptors (demanding ["q"]))).map fun x =>
        (x.2.1.1, x.2.2.1, owed x.2.2.2 x.2.1.2 x.1,
          problems p (.ofDescriptors (demanding ["q"])) {}))
      = some ("B", "A", [⟨.missingParameter "A" "q", some 2⟩], []) := by
    decide +kernel
  obtain ⟨p, hp, he⟩ := Option.bind_eq_some_iff.1 heval
  obtain ⟨⟨n, ⟨name, object⟩, className, d⟩, hfirst, he⟩ := Option.map_eq_some_iff.1 he
  simp only [Prod.mk.injEq] at he
  obtain ⟨rfl, rfl, howed, hproblems⟩ := he
  obtain ⟨hn, hliteral, hd⟩ := firstLiteral?_spec hfirst
  exact ⟨p, n, object, d, hp, hn, hliteral, hd, howed, hproblems⟩

end Validation

end FlowAnalysis
