import FlowAnalysis.Json.Record
import FlowAnalysis.Table.ByName
import FlowAnalysis.Trigger

/-!
# Schemas

A schema describes a JSON value: any value, a value of a type, one certain value, an array, an
object with named properties, a value of one of several schemas or of all of them.  Next to that it
may carry a description and a default.
-/

namespace FlowAnalysis

mutual

/-- What values a schema describes. -/
inductive Shape
  | any
  | typed (type : String)
  /-- One certain value of a type. -/
  | constant (type : String) (value : Json)
  | array (items : Schema)
  /-- Properties in order, and the names of those that must be there.  The two come together: no
  schema has the one without the other, and what makes every property optional (`allOptional`) only
  empties a list that is there. -/
  | object (properties : List (String × Schema)) (required : List String)
  | anyOf (members : List Schema)
  | allOf (members : List Schema)

/-- A shape with an optional description and default. -/
inductive Schema
  | mk (shape : Shape) (description : Option String) (default : Option Json)

end

instance : Inhabited Shape := ⟨.any⟩

namespace Schema

instance : Inhabited Schema := ⟨.mk .any none none⟩

/-- A shape without a description or a default. -/
def of (s : Shape) : Schema := .mk s none none

/-- The shape of a schema. -/
def shape : Schema → Shape
  | .mk s _ _ => s

def description : Schema → Option String
  | .mk _ d _ => d

def default : Schema → Option Json
  | .mk _ _ d => d

/-- The schema with another description. -/
def withDescription (d : Option String) : Schema → Schema
  | .mk s _ e => .mk s d e

/-- The schema with a default. -/
def withDefault (value : Json) : Schema → Schema
  | .mk s d _ => .mk s d (some value)

/-- The schema of any value. -/
def any : Schema := of .any

/-- The schema of the values of a type. -/
def typed (type : String) : Schema := of (.typed type)

/-- The properties of an object schema. -/
def properties (s : Schema) : List (String × Schema) :=
  match s.shape with
  | .object ps _ => ps
  | _ => []

/-- The names of the properties that must be there. -/
def required (s : Schema) : List String :=
  match s.shape with
  | .object _ rs => rs
  | _ => []

/-- The property of a name. -/
def property? (s : Schema) (name : String) : Option Schema := s.properties.lookup name

/-- The schema in which no property must be there. -/
def allOptional (s : Schema) : Schema :=
  match s with
  | .mk (.object ps _) d e => .mk (.object ps []) d e
  | s => s

/-! ### JSON -/

mutual

/-- The members of a schema as JSON, with its properties as an object, or as a list of pairs when
`paired`. -/
def members (paired : Bool) : Schema → List (String × Json)
  | .mk s d e => shapeMembers paired s
    ++ (d.map fun t => ("description", Json.str t)).toList
    ++ (e.map fun v => ("default", v)).toList

/-- The members that a shape gives. -/
def shapeMembers (paired : Bool) : Shape → List (String × Json)
  | .any => []
  | .typed t => [("type", .str t)]
  | .constant t v => [("type", .str t), ("const", v)]
  | .array items => [("type", .str "array"), ("items", .obj (members paired items))]
  | .object ps rs =>
    [("type", .str "object"),
      ("properties",
        if paired then .arr ((propertyMembers paired ps).map fun (k, j) => .arr [.str k, j])
        else .obj (propertyMembers paired ps)),
      ("required", .arr (rs.map .str))]
  | .anyOf ms => [("anyOf", .arr (allMembers paired ms))]
  | .allOf ms => [("allOf", .arr (allMembers paired ms))]

/-- Several schemas as JSON. -/
def allMembers (paired : Bool) : List Schema → List Json
  | [] => []
  | s :: ss => .obj (members paired s) :: allMembers paired ss

/-- Properties as JSON. -/
def propertyMembers (paired : Bool) : List (String × Schema) → List (String × Json)
  | [] => []
  | (k, s) :: ps => (k, .obj (members paired s)) :: propertyMembers paired ps

end

/-- A schema as JSON. -/
def toJson (s : Schema) : Json := .obj (s.members false)

/-- A schema as JSON that keeps the order of the properties. -/
def toOrderedJson (s : Schema) : Json := .obj (s.members true)

end Schema

namespace Event

/-- The schema of an object of typed properties, of which all but the given ones must be there. -/
def payload (properties : List (String × String)) (optional : List String) : Schema :=
  .of (.object (properties.map fun (name, type) => (name, .typed type))
    ((properties.map Prod.fst).filter fun name => !optional.contains name))

/-- The schema of the payload of an event. -/
def schema : Event → Schema
  | webhook => payload [("path", "string"), ("body", "object")] ["body"]
  | schedule => payload [("cron", "string")] []
  | mention =>
    payload [("slack_event", "object"), ("channel", "string"), ("user", "string"),
      ("text", "string"), ("thread_ts", "string")] ["thread_ts"]
  | message =>
    payload [("slack_event", "object"), ("channel", "string"), ("user", "string"),
      ("text", "string"), ("channel_type", "string")] ["channel_type"]
  | email => payload [("email", "string")] []

end Event

end FlowAnalysis
