import FlowAnalysis.Analysis.Analyze

/-!
# The result of an analysis before it is checked

An analysis puts its result together and then checks the invariants.  Here the result stands by
itself (`drafted`), and an analysis of a script whose bubbles can be located gives this result or
all of its violations (`ofScript_eq`).
-/

namespace FlowAnalysis.Analysis

open Script

/-- The flow class of a script. -/
def flow? (p : ParsedScript) (options : Options) : Option FlowClass :=
  (FlowClass.all options.flowBaseClass p.root).head?

/-- The entry point of a script. -/
def handle? (p : ParsedScript) (options : Options) : Option Method :=
  (flow? p options).bind (·.handle?)

/-- The callables of a script. -/
def callsOf (p : ParsedScript) (options : Options) : CallTable :=
  CallTable.build p.root (flow? p options)

/-- The workflow of a script, which is empty without an entry point. -/
def workflowOf (p : ParsedScript) (options : Options) (bubbles : ById Bubble) : Workflow :=
  match handle? p options with
  | some handle => Workflow.build p.root handle bubbles (callsOf p options) options
  | none => .empty

/-- The bubbles that the entry point reaches, if there is one. -/
def expectedOf (p : ParsedScript) (options : Options) (bubbles : ById Bubble) : List Int :=
  match handle? p options with
  | some _ => ascending (reached bubbles (callsOf p options) options)
  | none => []

/-- The result of an analysis for the bubbles located. -/
def drafted (p : ParsedScript) (registry : Registry) (options : Options) (located : ById Bubble) :
    Analysis :=
  let bubbles := located.map fun b => b.withDependencies registry
  ⟨bubbles, workflowOf p options bubbles, (callsOf p options).methodSites⟩

variable {p : ParsedScript} {registry : Registry} {options : Options} {located : ById Bubble}

theorem workflow_drafted (p : ParsedScript) (registry : Registry) (options : Options)
    (located : ById Bubble) :
    (drafted p registry options located).workflow
      = workflowOf p options (drafted p registry options located).bubbles := rfl

/-- An analysis gives its result when no invariant is broken, and otherwise all violations. -/
theorem ofScript_eq (h : Bubble.locate p registry options = .ok located) :
    ofScript p registry options =
      match (drafted p registry options located).violations
        ++ (drafted p registry options located).missingLeaves
          (expectedOf p options (drafted p registry options located).bubbles) with
      | [] => .ok (drafted p registry options located)
      | vs => .error (vs.map .ofViolation) := by
  have hlocate : locate p registry options = .ok located := by rw [locate, h]
  simp only [ofScript, hlocate, drafted, workflowOf, expectedOf, handle?, flow?, callsOf]
  cases (FlowClass.all options.flowBaseClass p.root).head?.bind (·.handle?) with
  | none => rfl
  | some handle => rfl

/-- An analysis fails with a violation exactly when its result has that violation. -/
theorem exists_error_iff (h : Bubble.locate p registry options = .ok located) (v : Violation) :
    (∃ problems, ofScript p registry options = .error problems ∧ .ofViolation v ∈ problems) ↔
      v ∈ (drafted p registry options located).violations ∨
        v ∈ (drafted p registry options located).missingLeaves
          (expectedOf p options (drafted p registry options located).bubbles) := by
  have hinj : ∀ {v w : Violation}, Problem.ofViolation v = .ofViolation w → v = w := by
    intro v w hvw
    injection hvw with hcause
    injection hcause
  rw [ofScript_eq h, ← List.mem_append]
  split
  · next hnil => simp [hnil]
  · next vs _ =>
    constructor
    · rintro ⟨problems, he, hm⟩
      obtain rfl := Except.error.inj he
      obtain ⟨w, hw, hwv⟩ := List.mem_map.1 hm
      exact hinj hwv ▸ hw
    · intro hv
      exact ⟨_, rfl, List.mem_map_of_mem hv⟩

/-- Every problem with which an analysis fails is one of its violations, or that of a bubble
whose variable has no binding. -/
theorem exists_violation_of_mem {problems : List Problem} {q : Problem}
    (he : ofScript p registry options = .error problems) (hq : q ∈ problems) :
    (∃ located v, Bubble.locate p registry options = .ok located ∧ q = .ofViolation v ∧
      (v ∈ (drafted p registry options located).violations ∨
        v ∈ (drafted p registry options located).missingLeaves
          (expectedOf p options (drafted p registry options located).bubbles))) ∨
      ∃ u, Bubble.locate p registry options = .error u ∧
      q = ⟨.unboundBubble u.name, some u.line⟩ := by
  cases h : Bubble.locate p registry options with
  | ok located =>
    rw [ofScript_eq h] at he
    split at he
    · cases he
    · obtain rfl := Except.error.inj he
      obtain ⟨v, hv, rfl⟩ := List.mem_map.1 hq
      exact .inl ⟨located, v, rfl, rfl, List.mem_append.1 hv⟩
  | error u =>
    have hlocate : locate p registry options = .error [⟨.unboundBubble u.name, some u.line⟩] := by
      rw [locate, h]
    have hproblems : problems = [⟨.unboundBubble u.name, some u.line⟩] := by
      simp only [ofScript, hlocate] at he
      exact (Except.error.inj he).symm
    rw [hproblems] at hq
    exact .inr ⟨u, rfl, List.mem_singleton.1 hq⟩

theorem eq_of_mem_repeatedDependencies {a : Analysis} {v : Violation}
    (h : v ∈ a.repeatedDependencies) : ∃ id uniqueId, v = .repeatedDependency id uniqueId := by
  obtain ⟨⟨id, b⟩, _, h⟩ := List.mem_flatMap.1 h
  dsimp only at h
  split at h
  · obtain ⟨uniqueId, _, rfl⟩ := List.mem_map.1 h
    exact ⟨id, uniqueId, rfl⟩
  · cases h

/-- A misnumbered bubble is reported by the check of the numbers alone. -/
theorem anonymousOrder_mem_violations_iff {a : Analysis} {expected : List Int} {id k : Int}
    {line : Nat} :
    .anonymousOrder id k line ∈ a.violations ∨
      .anonymousOrder id k line ∈ a.missingLeaves expected ↔
      .anonymousOrder id k line ∈ misnumbered (-1) a.anonymousInOrder := by
  have hdep : Violation.anonymousOrder id k line ∉ a.repeatedDependencies := by
    intro hm
    obtain ⟨_, _, he⟩ := eq_of_mem_repeatedDependencies hm
    cases he
  simp [violations, unknownLeaves, unreferencedBubbles, repeatedLeaves, missingLeaves, hdep]

theorem eq_of_mem_misnumbered {k : Int} {bs : List Bubble} {v : Violation}
    (h : v ∈ misnumbered k bs) : ∃ id expected line, v = .anonymousOrder id expected line := by
  induction bs generalizing k with
  | nil => cases h
  | cons b bs ih =>
    rw [misnumbered] at h
    split at h
    · exact ih h
    · rcases List.mem_cons.1 h with rfl | h
      · exact ⟨_, _, _, rfl⟩
      · exact ih h

/-- A missing leaf is reported by the check of the expected bubbles alone. -/
theorem missingLeaf_mem_violations_iff {a : Analysis} {expected : List Int} {id : Int} :
    .missingLeaf id ∈ a.violations ∨ .missingLeaf id ∈ a.missingLeaves expected ↔
      id ∈ expected ∧ id ∉ a.workflow.bubbleIds := by
  have hdep : Violation.missingLeaf id ∉ a.repeatedDependencies := by
    intro hm
    obtain ⟨_, _, he⟩ := eq_of_mem_repeatedDependencies hm
    cases he
  have hnumber : Violation.missingLeaf id ∉ misnumbered (-1) a.anonymousInOrder := by
    intro hm
    obtain ⟨_, _, _, he⟩ := eq_of_mem_misnumbered hm
    cases he
  simp [violations, unknownLeaves, unreferencedBubbles, repeatedLeaves, missingLeaves,
    hdep, hnumber]

/-- An id that comes again is reported by the check of the dependencies alone. -/
theorem repeatedDependency_mem_violations_iff {a : Analysis} {expected : List Int} {id : Int}
    {uniqueId : String} :
    .repeatedDependency id uniqueId ∈ a.violations ∨
        .repeatedDependency id uniqueId ∈ a.missingLeaves expected ↔
      .repeatedDependency id uniqueId ∈ a.repeatedDependencies := by
  have hnumber : Violation.repeatedDependency id uniqueId ∉ misnumbered (-1)
      a.anonymousInOrder := by
    intro hm
    obtain ⟨_, _, _, he⟩ := eq_of_mem_misnumbered hm
    cases he
  simp [violations, unknownLeaves, unreferencedBubbles, repeatedLeaves, missingLeaves, hnumber]

theorem ofText_of_parse? {source : String} (h : ParsedScript.parse? source = some p) :
    ofText source registry options = ofScript p registry options := by
  rw [ofText, ParsedScript.read, h]
  rfl

theorem eq_ok_of_toOption {ε α : Type} {r : Except ε α} {a : α} (h : r.toOption = some a) :
    r = .ok a := by
  cases r with
  | ok => exact congrArg _ (Option.some.inj h)
  | error => cases h

/-- A registry with one class. -/
def oneClass : Registry :=
  Registry.empty.register { name := "a", className := "A", nodeType := .service }

end FlowAnalysis.Analysis
