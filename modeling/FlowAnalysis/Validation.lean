import FlowAnalysis.Problem
import FlowAnalysis.Registry
import FlowAnalysis.Trigger

/-!
# Validation

The rules that a flow script must keep: one exported flow class with a proper entry point, bubble
classes that are registered, every required parameter of a bubble, and a known trigger with a valid
schedule.  Rules are checked independently, so every problem is reported at once; only the trigger
is checked last, when nothing else is wrong.
-/

namespace FlowAnalysis

open Script

namespace Validation

/-! ### The flow class -/

/-- Problems with the number of flow classes. -/
def classCount (base : String) : List FlowClass → List Problem
  | [] => [⟨.noFlowClass base, none⟩]
  | _ :: extra => extra.map fun c => ⟨.furtherFlowClass c.name, some c.line⟩

/-- The problem of a flow class that is not exported. -/
def exported (c : FlowClass) : List Problem :=
  if c.exported then [] else [⟨.notExported c.name, some c.line⟩]

/-- Problems with the entry point. -/
def handle (c : FlowClass) : List Problem :=
  match c.handle? with
  | none => [⟨.noHandle c.name, some c.line⟩]
  | some h =>
    let line := some h.member.line
    let notAsync := if h.isAsync then [] else [⟨.handleNotAsync, line⟩]
    let result :=
      match h.returnType? with
      | some type =>
        if "Promise".toList.isPrefixOf type.toList then [] else [⟨.handleResult type, line⟩]
      | none => []
    let count := h.parameters.length
    let parameters := if 1 < count then [⟨.handleParameters count, line⟩] else []
    notAsync ++ result ++ parameters

/-! ### Bubble classes -/

/-- The names of all classes that a script declares. -/
def declaredClasses (root : Node) : List String :=
  (root.descendants.filter fun n =>
    n.kind == .classDeclaration || n.kind == .abstractClassDeclaration
      || n.kind == .classExpression).filterMap fun n => (n.child? .name).map (·.text)

/-- The class that a name constructs when it must be a bubble class: an imported class, or one that
has the name of a bubble and is not declared by the script. -/
def bubbleClass? (imports : ByName String) (declared : List String) (name : String) :
    Option String :=
  match imports.get? name with
  | some exported => some exported
  | none =>
    if "Bubble".toList.isSuffixOf name.toList && !declared.contains name then some name else none

/-- The constructions of a script. -/
def constructions (root : Node) : List Node :=
  root.descendants.filter fun n => n.kind == .newExpression

/-- The constructions of bubble classes that are not registered: the name used, the class and the
line. -/
def unregistered (p : ParsedScript) (registry : Registry) (options : Options) :
    List (String × String × Nat) :=
  let imports := p.root.imports options.bubblePackage
  let declared := declaredClasses p.root
  (constructions p.root).filterMap fun n => do
    let constructor ← n.child? .constructor
    if constructor.kind == .identifier then
      let name := constructor.text
      let className ← bubbleClass? imports declared name
      if (registry.forClass? className).isSome || (registry.forClass? name).isSome then none
      else return (name, className, n.line)
    else none

/-- Each of a list of uses once per name and line. -/
def onceEach (seen : List (String × Nat)) :
    List (String × String × Nat) → List (String × String × Nat)
  | [] => []
  | u :: us =>
    if seen.contains (u.1, u.2.2) then onceEach seen us
    else u :: onceEach ((u.1, u.2.2) :: seen) us

/-- Problems with bubble classes that are not registered, one per name and line. -/
def bubbleClasses (p : ParsedScript) (registry : Registry) (options : Options) : List Problem :=
  (onceEach [] (unregistered p registry options)).map fun (_, className, line) =>
    ⟨.unregisteredClass className, some line⟩

/-- Everything about the structure of a script. -/
def structural (p : ParsedScript) (registry : Registry) (options : Options) : List Problem :=
  let classes := FlowClass.all options.flowBaseClass p.root
  classCount options.flowBaseClass classes
    ++ (match classes.head? with
      | some c => exported c ++ handle c
      | none => [])
    ++ bubbleClasses p registry options

/-! ### Bubble parameters -/

/-- The name of a property that an object sets. -/
def propertyName? (member : Node) : Option String :=
  match member.kind with
  | .pair | .methodDefinition =>
    match member.child? .key with
    | some key => some (Text.unquote key.text)
    | none => (member.child? .name).map fun name => Text.unquote name.text
  | .shorthandProperty => some member.text
  | _ => none

/-- The names of the properties that an object sets; an object that takes
over another can set any. -/
def propertyNames? (object : Node) : Option (List String) :=
  if object.parts.any fun m => m.kind == .spreadElement then none
  else some (object.parts.filterMap propertyName?)

/-- The problems of one construction. -/
def missingParameters (registry : Registry) (n : Node) : List Problem :=
  let found : Option (Descriptor × List String) := do
    let constructor ← n.child? .constructor
    let descriptor ← registry.forClass? constructor.text
    let object ← (n.child? .arguments).bind (·.part?)
    if object.kind == .object then return (descriptor, ← propertyNames? object) else none
  match found with
  | none => []
  | some (descriptor, present) =>
    (descriptor.requiredParameters.filter fun name => !present.contains name).map fun name =>
      ⟨.missingParameter descriptor.className name, some n.line⟩

/-- Problems with the parameters of bubbles. -/
def parameters (p : ParsedScript) (registry : Registry) : List Problem :=
  (constructions p.root).flatMap (missingParameters registry)

/-! ### The trigger -/

/-- The problem of a trigger. -/
def triggerCause? (base : String) : Option Trigger → Option Cause
  | none => some (.noTrigger base)
  | some t =>
    match Event.ofName? t.type with
    | none => some (.unknownTrigger t.type (Event.all.map Event.name))
    | some .schedule =>
      match t.schedule with
      | none => some .noSchedule
      | some schedule =>
        match CronExpression.parse schedule with
        | .ok _ => none
        | .error e => some (.badSchedule schedule e)
    | some _ => none

/-- Problems with the trigger of a script. -/
def trigger (p : ParsedScript) (options : Options) : List Problem :=
  let line := ((FlowClass.all options.flowBaseClass p.root).head?).map (·.line)
  ((triggerCause? options.flowBaseClass (Trigger.extract? p options)).map fun c =>
    ⟨c, line⟩).toList

/-- Every problem of a script that has been read. -/
def problems (p : ParsedScript) (registry : Registry) (options : Options) : List Problem :=
  match structural p registry options ++ parameters p registry with
  | [] => trigger p options
  | found => found

end Validation

end FlowAnalysis
