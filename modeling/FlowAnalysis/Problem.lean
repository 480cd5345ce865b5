import FlowAnalysis.Analysis.Invariant
import FlowAnalysis.Cron.Basic
import FlowAnalysis.Edit

/-!
# Problems

Everything that can be wrong with a script, with an edit of it or with what came along with it.  A
problem has a code, the phase in which it is found, a message and, where one can be named, a line.
-/

namespace FlowAnalysis

/-- The phases of the work on a script. -/
inductive Phase
  | reading
  | validation
  | trigger
  | extraction
  | editing
  | invariant
  deriving DecidableEq, Repr, Inhabited

namespace Phase

/-- The word for a phase. -/
def name : Phase → String
  | reading => "Syntax"
  | validation => "Validate"
  | trigger => "Trigger"
  | extraction => "Extract"
  | editing => "Mutate"
  | invariant => "Invariant"

end Phase

/-- What is wrong. -/
inductive Cause
  | broken
  | unreadableRegistry
  | unreadableOptions
  | noFlowClass (base : String)
  | furtherFlowClass (name : String)
  | notExported (name : String)
  | noHandle (name : String)
  | handleNotAsync
  | handleResult (type : String)
  | handleParameters (count : Nat)
  | unregisteredClass (name : String)
  | missingParameter (className parameter : String)
  | noTrigger (base : String)
  | unknownTrigger (type : String) (known : List String)
  | noSchedule
  | badSchedule (schedule : String) (error : CronError)
  | unboundBubble (name : String)
  | edit (error : EditError)
  | violation (v : Violation)
  deriving DecidableEq, Repr, Inhabited

namespace Cause

/-- The code of a cause. -/
def code : Cause → String
  | broken => "P001"
  | unreadableRegistry => "R001"
  | unreadableOptions => "R002"
  | noFlowClass _ => "V001"
  | furtherFlowClass _ => "V002"
  | notExported _ => "V003"
  | noHandle _ => "V004"
  | handleNotAsync | handleResult _ => "V005"
  | handleParameters _ => "V006"
  | unregisteredClass _ => "V007"
  | missingParameter .. => "V008"
  | noTrigger _ => "T001"
  | unknownTrigger .. => "T002"
  | noSchedule => "T003"
  | badSchedule .. => "T004"
  | unboundBubble _ => "X001"
  | edit e => e.code
  | violation v => v.code

/-- The phase in which a cause is found. -/
def phase : Cause → Phase
  | broken => .reading
  | unreadableRegistry | unreadableOptions | noFlowClass _ | furtherFlowClass _ | notExported _
  | noHandle _ | handleNotAsync | handleResult _ | handleParameters _ | unregisteredClass _
  | missingParameter .. => .validation
  | noTrigger _ | unknownTrigger .. | noSchedule | badSchedule .. => .trigger
  | unboundBubble _ => .extraction
  | edit _ => .editing
  | violation _ => .invariant

/-- The message of a cause. -/
def message : Cause → String
  | broken => "The script breaks the grammar"
  | unreadableRegistry => "Failed to parse registry JSON"
  | unreadableOptions => "Failed to parse options JSON"
  | noFlowClass base => s!"No class extending {base} found"
  | furtherFlowClass name =>
    s!"Only one flow class is allowed per script, found another: '{name}'"
  | notExported name => s!"Flow class '{name}' must be exported"
  | noHandle name => s!"Flow class '{name}' must implement a handle method"
  | handleNotAsync => "handle must be declared async"
  | handleResult type => s!"handle must return a Promise, declared '{type}'"
  | handleParameters count => s!"handle takes at most one payload parameter, found {count}"
  | unregisteredClass name => s!"'{name}' is not a registered bubble class"
  | missingParameter className parameter =>
    s!"{className} is missing required parameter '{parameter}'"
  | noTrigger base => s!"Flow class must declare its trigger type, e.g. {base}<'webhook/http'>"
  | unknownTrigger type known =>
    s!"Unknown trigger type '{type}'; expected one of: " ++ ", ".intercalate known
  | noSchedule => "Cron flows must define a cronSchedule field"
  | badSchedule schedule error => s!"Invalid cron expression '{schedule}': " ++ error.message
  | unboundBubble name => s!"Bubble variable '{name}' has no binding in the scope tree"
  | edit e => e.message
  | violation v => v.message

end Cause

/-- Something wrong, and the line on which it is. -/
structure Problem where
  cause : Cause
  line : Option Nat
  deriving DecidableEq, Repr, Inhabited

namespace Problem

/-- The problem of an edit that cannot be made. -/
def ofEdit (e : EditError) : Problem := ⟨.edit e, e.line?⟩

/-- The problem of a broken invariant. -/
def ofViolation (v : Violation) : Problem := ⟨.violation v, none⟩

/-- A problem as a line of text. -/
def display (p : Problem) : String :=
  let head := s!"[{p.cause.phase.name}:{p.cause.code}] {p.cause.message}"
  match p.line with
  | some line => s!"{head} (line {line})"
  | none => head

/-- The members of a problem as JSON.  Where and how a script breaks the grammar is not told, so
that problem has a code and a phase only. -/
def members (p : Problem) : List (String × Json) :=
  let head := [("code", .str p.cause.code), ("phase", .str p.cause.phase.name)]
  if p.cause = .broken then head
  else head ++ [("message", .str p.cause.message), ("line", .orNull .ofNat p.line)]

/-- A problem as JSON. -/
def toJson (p : Problem) : Json := .obj p.members

/-- A problem as JSON, together with its line of text. -/
def toDisplayJson (p : Problem) : Json :=
  .obj (p.members ++ if p.cause = .broken then [] else [("display", .str p.display)])

end Problem

end FlowAnalysis
