import FlowAnalysis.Analysis.Analyze
import FlowAnalysis.Credential
import FlowAnalysis.Schema.Infer
import FlowAnalysis.Validation

/-!
# Editing sessions

A session holds the text of a script and, as long as the text has not changed since, its
latest analysis.  A change makes the session stale: what depends on the analysis is refused
until the text is analysed again.
-/

namespace FlowAnalysis

/-- A text being edited. -/
structure Session where
  registry : Registry
  options : Options
  source : String
  /-- The script and the analysis of the text, unless the session is stale. -/
  analysed : Option (ParsedScript × Analysis)

namespace Session

/-- A session on a text that has not been analysed. -/
def start (registry : Registry) (options : Options) (source : String) : Session :=
  ⟨registry, options, source, none⟩

/-- Whether the text has to be analysed before it can be asked about. -/
def isStale (s : Session) : Bool := s.analysed.isNone

/-- The script and its analysis. -/
def fresh (s : Session) : Except EditError (ParsedScript × Analysis) :=
  match s.analysed with
  | some a => .ok a
  | none => .error .stale

/-- The session with another text. -/
def replace (s : Session) (source : String) : Session :=
  { s with source := source, analysed := none }

/-- Analyses the text. -/
def analyse (s : Session) : Session × Except (List Problem) Analysis :=
  let found := do
    let p ← ParsedScript.read s.source
    let a ← Analysis.ofScript p s.registry s.options
    return (p, a)
  match found with
  | .ok (p, a) => ({ s with analysed := some (p, a) }, .ok a)
  | .error e => ({ s with analysed := none }, .error e)

/-! ### Questions -/

/-- The variables that can be seen at a line. -/
def visibleAt (s : Session) (line : Nat) : Except EditError (List Variable) := do
  return (← s.fresh).1.scopes.visibleAt line

/-- The innermost scope at a line. -/
def scopeAt (s : Session) (line : Nat) : Except EditError (Option ScopeInfo) := do
  return (← s.fresh).1.scopes.infoAt? line

/-- The variable that a name stands for at a line. -/
def resolve (s : Session) (name : String) (line : Nat) : Except EditError (Option Int) := do
  return (← s.fresh).1.scopes.resolve? name line

/-- What starts the flow. -/
def trigger (s : Session) : Except EditError (Option Trigger) := do
  return Trigger.extract? (← s.fresh).1 s.options

/-- The schema of the flow's input. -/
def inputSchema (s : Session) : Except EditError (Option Schema) := do
  return Schema.infer? (← s.fresh).1 s.options

/-- The credentials that the bubbles need. -/
def credentials (s : Session) : Except EditError (ById (List String)) := do
  return requiredCredentials s.registry (← s.fresh).2.bubbles

/-- The problems of the script. -/
def problems (s : Session) : Except EditError (List Problem) := do
  return Validation.problems (← s.fresh).1 s.registry s.options

/-! ### Changes -/

/-- Gives a variable another value. -/
def reassign (s : Session) (id : Int) (value : String) : Except EditError Session := do
  let (p, _) ← s.fresh
  return s.replace (← Edit.reassign p id value)

/-- Puts lines in. -/
def inject (s : Session) (lines : List String) (line : Nat) : Except EditError Session := do
  return s.replace (← Edit.inject s.source lines line)

/-! ### Runs -/

/-- What can be asked of a session. -/
inductive Command
  | analyse
  | result
  | source
  | options
  | visible (line : Nat)
  | scope (line : Nat)
  | resolve (name : String) (line : Nat)
  | trigger
  | schema
  | credentials
  | validate
  | reassign (id : Int) (value : String)
  /-- Gives another value to the variable that a name stands for at a line. -/
  | reassignNamed (name : String) (line : Nat) (value : String)
  | inject (lines : List String) (line : Nat)
  | replace (source : String)
  deriving DecidableEq, Repr, Inhabited

/-- What a session answers. -/
inductive Reply
  | analysed (a : Analysis)
  | result (a : Option Analysis)
  | source (text : String)
  | options (o : Options)
  | visible (vs : List Variable)
  | scope (info : Option ScopeInfo)
  | resolved (id : Option Int)
  | trigger (t : Option Trigger)
  | schema (s : Option Schema)
  | credentials (c : ById (List String))
  | problems (ps : List Problem)
  /-- No variable has the name. -/
  | unresolved (name : String)
  | failed (ps : List Problem)

namespace Reply

/-- The reply to a question that may be refused. -/
def ofAnswer {α : Type} (reply : α → Reply) : Except EditError α → Reply
  | .ok a => reply a
  | .error e => .failed [.ofEdit e]

end Reply

/-- The session after a change and the new text, or the same session and the reason. -/
def changed (s : Session) : Except EditError Session → Session × Reply
  | .ok t => (t, .source t.source)
  | .error e => (s, .failed [.ofEdit e])

/-- Carries out a command. -/
def run (s : Session) : Command → Session × Reply
  | .analyse =>
    match s.analyse with
    | (t, .ok a) => (t, .analysed a)
    | (t, .error ps) => (t, .failed ps)
  | .result => (s, .result (s.analysed.map Prod.snd))
  | .source => (s, .source s.source)
  | .options => (s, .options s.options)
  | .visible line => (s, .ofAnswer .visible (s.visibleAt line))
  | .scope line => (s, .ofAnswer .scope (s.scopeAt line))
  | .resolve name line => (s, .ofAnswer .resolved (s.resolve name line))
  | .trigger => (s, .ofAnswer .trigger s.trigger)
  | .schema => (s, .ofAnswer .schema s.inputSchema)
  | .credentials => (s, .ofAnswer .credentials s.credentials)
  | .validate => (s, .ofAnswer .problems s.problems)
  | .reassign id value => s.changed (s.reassign id value)
  | .reassignNamed name line value =>
    match s.resolve name line with
    | .error e => (s, .failed [.ofEdit e])
    | .ok none => (s, .unresolved name)
    | .ok (some id) => s.changed (s.reassign id value)
  | .inject lines line => s.changed (s.inject lines line)
  | .replace source => s.changed (.ok (s.replace source))

/-- Carries out commands one after the other; every reply comes with the session after it. -/
def runAll (s : Session) : List Command → List (Session × Reply)
  | [] => []
  | c :: cs =>
    let step := s.run c
    step :: runAll step.1 cs

end Session

end FlowAnalysis
