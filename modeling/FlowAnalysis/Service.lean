import FlowAnalysis.Session

/-!
# The service

The entry points for a host that speaks JSON: the registry and the options come as text, and the
answer is a result or a list of problems.
-/

namespace FlowAnalysis

namespace Service

/-- The result of a call, or what is wrong. -/
abbrev Answer (α : Type) := Except (List Problem) α

namespace Answer

/-- An answer as JSON, tagged with its status. -/
def toJson {α : Type} (encode : α → Json) : Answer α → Json
  | .ok a => .obj [("status", .str "success"), ("result", encode a)]
  | .error ps => .obj [("status", .str "errors"), ("errors", .ofList Problem.toJson ps)]

end Answer

/-- Reads a registry. -/
def loadRegistry (text : String) : Answer Registry :=
  match Registry.ofText? text with
  | some r => .ok r
  | none => .error [⟨.unreadableRegistry, none⟩]

/-- Reads options. -/
def loadOptions (text : String) : Answer Options :=
  match Options.ofText? text with
  | some o => .ok o
  | none => .error [⟨.unreadableOptions, none⟩]

/-- The analysis of a script. -/
def analyse (source registry options : String) : Answer Analysis := do
  let registry ← loadRegistry registry
  let options ← loadOptions options
  Analysis.ofText source registry options

/-- Whether a script is valid. -/
def validate (source registry options : String) : Answer Unit := do
  let registry ← loadRegistry registry
  let options ← loadOptions options
  match Validation.problems (← ParsedScript.read source) registry options with
  | [] => return ()
  | ps => throw ps

/-- What starts the flow of a script. -/
def trigger (source options : String) : Answer (Option Trigger) := do
  let options ← loadOptions options
  return Trigger.extract? (← ParsedScript.read source) options

/-- The schema of the input of a script's flow. -/
def inputSchema (source options : String) : Answer (Option Schema) := do
  let options ← loadOptions options
  return Schema.infer? (← ParsedScript.read source) options

/-- The answer of an edit. -/
def edited : Except EditError Session → Answer String
  | .ok s => .ok s.source
  | .error e => .error [.ofEdit e]

/-- The script with another value for a variable. -/
def reassign (source registry options : String) (id : Int) (value : String) : Answer String := do
  let registry ← loadRegistry registry
  let options ← loadOptions options
  let (session, analysed) := (Session.start registry options source).analyse
  let _ ← analysed
  edited (session.reassign id value)

/-- The script with lines put in. -/
def inject (source : String) (lines : List String) (line : Nat) : Answer String :=
  edited ((Session.start .empty {} source).inject lines line)

end Service

end FlowAnalysis
