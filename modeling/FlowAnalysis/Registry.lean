import FlowAnalysis.Bubble.NodeType

/-!
# The registry of bubbles

A registry knows bubbles by name and by the class that constructs them.  It is filled by registering
descriptors one after the other: a name that comes again replaces the descriptor of that name, and a
class belongs to the descriptor that took it last.
-/

namespace FlowAnalysis

/-- A parameter that the constructor of a bubble takes. -/
structure ParameterShape where
  name : String
  type : Option String
  required : Bool
  deriving DecidableEq, Repr, Inhabited

/-- One use of a dependency.  The tools are those configured when the dependency is an agent. -/
structure DependencyInstance where
  variableName : Option String := none
  tools : List String := []
  deriving DecidableEq, Repr, Inhabited

/-- A dependency with its uses. -/
structure DependencySpec where
  name : String
  instances : List DependencyInstance
  deriving DecidableEq, Repr, Inhabited

/-- What is known about one bubble. -/
structure Descriptor where
  name : String
  className : String
  nodeType : NodeType := .unknown
  parameters : List ParameterShape := []
  /-- The names of its dependencies. -/
  dependencies : List String := []
  /-- Its dependencies in detail; when there are any, they stand in place of the names. -/
  dependencyDetails : List DependencySpec := []
  /-- Whether it is an agent, to which tools can be given. -/
  isAgent : Bool := false
  credentials : List String := []
  deriving DecidableEq, Repr, Inhabited

namespace ParameterShape

/-- A parameter as JSON. -/
def toJson (p : ParameterShape) : Json :=
  .obj [("name", .str p.name), ("type", .orNull .str p.type), ("required", .bool p.required)]

/-- Reads a parameter. -/
def ofJson? (j : Json) : Option ParameterShape := do
  let r ← Json.Record.of? ["name", "type", "required"] j
  let name ← r.required "name" Json.string?
  let type ← r.omissible "type" Json.string?
  let required ← r.defaulted "required" false Json.bool?
  return ⟨name, type, required⟩

end ParameterShape

namespace DependencyInstance

/-- A use of a dependency as JSON. -/
def toJson (i : DependencyInstance) : Json :=
  .obj [("variableName", .orNull .str i.variableName), ("tools", .ofList .str i.tools)]

/-- Reads a use of a dependency. -/
def ofJson? (j : Json) : Option DependencyInstance := do
  let r ← Json.Record.of? ["variableName", "tools"] j
  let variableName ← r.omissible "variableName" Json.string?
  let tools ← r.defaulted "tools" [] (Json.list? Json.string?)
  return ⟨variableName, tools⟩

end DependencyInstance

namespace DependencySpec

/-- The uses to expand: one without a name when none is given. -/
def expandedInstances (s : DependencySpec) : List DependencyInstance :=
  if s.instances.isEmpty then [{}] else s.instances

/-- A dependency as JSON. -/
def toJson (s : DependencySpec) : Json :=
  .obj [("name", .str s.name), ("instances", .ofList DependencyInstance.toJson s.instances)]

/-- Reads a dependency. -/
def ofJson? (j : Json) : Option DependencySpec := do
  let r ← Json.Record.of? ["name", "instances"] j
  let name ← r.required "name" Json.string?
  let instances ← r.defaulted "instances" [] (Json.list? DependencyInstance.ofJson?)
  return ⟨name, instances⟩

end DependencySpec

namespace Descriptor

/-- Makes the bubble an agent. -/
def agent (d : Descriptor) : Descriptor := { d with isAgent := true }

/-- Adds dependencies by name. -/
def withDependencies (d : Descriptor) (names : List String) : Descriptor :=
  { d with dependencies := d.dependencies ++ names }

/-- Adds a dependency in detail, and its name when it is new. -/
def withDependency (d : Descriptor) (s : DependencySpec) : Descriptor :=
  { d with
    dependencies :=
      if d.dependencies.contains s.name then d.dependencies else d.dependencies ++ [s.name]
    dependencyDetails := d.dependencyDetails ++ [s] }

/-- Adds credentials. -/
def withCredentials (d : Descriptor) (names : List String) : Descriptor :=
  { d with credentials := d.credentials ++ names }

/-- Adds a parameter. -/
def withParameter (d : Descriptor) (name type : String) (required : Bool) : Descriptor :=
  { d with parameters := d.parameters ++ [⟨name, some type, required⟩] }

/-- The dependencies to expand: those in detail, or the names alone. -/
def dependencySpecs (d : Descriptor) : List DependencySpec :=
  if d.dependencyDetails.isEmpty then d.dependencies.map fun n => ⟨n, []⟩
  else d.dependencyDetails

/-- The names that a dependency brings in: its own, then the tools of its uses. -/
def specNames (s : DependencySpec) : List String := s.name :: s.instances.flatMap (·.tools)

/-- Every name that the bubble reaches in one step, each once, in order of first occurrence. -/
def directNames (d : Descriptor) : List String :=
  (d.dependencySpecs.flatMap specNames).foldl
    (fun names n => if names.contains n then names else names ++ [n]) []

/-- The names of the parameters that must be given. -/
def requiredParameters (d : Descriptor) : List String :=
  (d.parameters.filter (·.required)).map (·.name)

/-- The fields of a descriptor. -/
def fields : List String :=
  ["name", "className", "type", "parameters", "dependencies", "dependencyDetails", "isAgent",
    "credentials"]

/-- A descriptor as JSON. -/
def toJson (d : Descriptor) : Json :=
  .obj [("name", .str d.name), ("className", .str d.className), ("type", d.nodeType.toJson),
    ("parameters", .ofList ParameterShape.toJson d.parameters),
    ("dependencies", .ofList .str d.dependencies),
    ("dependencyDetails", .ofList DependencySpec.toJson d.dependencyDetails),
    ("isAgent", .bool d.isAgent), ("credentials", .ofList .str d.credentials)]

/-- Reads a descriptor. -/
def ofJson? (j : Json) : Option Descriptor := do
  let r ← Json.Record.of? fields j
  let name ← r.required "name" Json.string?
  let className ← r.required "className" Json.string?
  let nodeType ← r.defaulted "type" .unknown NodeType.ofJson?
  let parameters ← r.defaulted "parameters" [] (Json.list? ParameterShape.ofJson?)
  let dependencies ← r.defaulted "dependencies" [] (Json.list? Json.string?)
  let dependencyDetails ← r.defaulted "dependencyDetails" [] (Json.list? DependencySpec.ofJson?)
  let isAgent ← r.defaulted "isAgent" false Json.bool?
  let credentials ← r.defaulted "credentials" [] (Json.list? Json.string?)
  return ⟨name, className, nodeType, parameters, dependencies, dependencyDetails, isAgent,
    credentials⟩

end Descriptor

/-- Descriptors with an index by name and an index by class. -/
structure Registry where
  descriptors : List Descriptor
  byName : ByName Nat
  byClass : ByName Nat
  deriving Inhabited, Repr

namespace Registry

/-- The registry without bubbles. -/
def empty : Registry := ⟨[], .empty, .empty⟩

/-- Registers a descriptor.  One of the same name is replaced, and its class is given up. -/
def register (r : Registry) (d : Descriptor) : Registry :=
  match r.byName.get? d.name with
  | some i =>
    let old := (r.descriptors[i]?.map (·.className)).getD ""
    ⟨r.descriptors.set i d, r.byName, (r.byClass.erase old).insert d.className i⟩
  | none =>
    let i := r.descriptors.length
    ⟨r.descriptors ++ [d], r.byName.insert d.name i, r.byClass.insert d.className i⟩

/-- The registry of a list of descriptors, registered in order. -/
def ofDescriptors (ds : List Descriptor) : Registry := ds.foldl register empty

/-- The bubble of a name. -/
def get? (r : Registry) (name : String) : Option Descriptor :=
  (r.byName.get? name).bind fun i => r.descriptors[i]?

/-- The bubble that a class constructs. -/
def forClass? (r : Registry) (className : String) : Option Descriptor :=
  (r.byClass.get? className).bind fun i => r.descriptors[i]?

/-- The number of bubbles. -/
def size (r : Registry) : Nat := r.descriptors.length

/-- Reads a registry from an object that lists its bubbles. -/
def ofJson? (j : Json) : Option Registry := do
  let r ← Json.Record.of? ["bubbles"] j
  let bubbles ← r.required "bubbles" (Json.list? Descriptor.ofJson?)
  return ofDescriptors bubbles

/-- Reads a registry from text. -/
def ofText? (s : String) : Option Registry := (Json.parse? s).bind ofJson?

end Registry

end FlowAnalysis
