import FlowAnalysis.Json.Reader
import FlowAnalysis.Table.ById
import FlowAnalysis.Table.ByName

/-!
# Reading records from JSON

A record is written as an object, or as an array that lists its fields in order.  Unknown names are
ignored, a repeated known name is refused.  Whole numbers must lie in the range of their type.
-/

namespace FlowAnalysis.Json

/-! ### Plain values -/

/-- A string. -/
def string? : Json → Option String
  | .str s => some s
  | _ => none

/-- A truth value. -/
def bool? : Json → Option Bool
  | .bool b => some b
  | _ => none

/-- An id: a signed 64-bit number. -/
def id? : Json → Option Int
  | .int n => if -(Number.signedBound : Int) ≤ n && n < Number.signedBound then some n else none
  | _ => none

/-- A line, a column or another count: an unsigned 64-bit number. -/
def count? : Json → Option Nat
  | .int n => if 0 ≤ n && n < Number.wordBound then some n.toNat else none
  | _ => none

/-- A list of values. -/
def list? {α : Type} (item? : Json → Option α) : Json → Option (List α)
  | .arr js => js.mapM item?
  | _ => none

/-- A word out of a fixed choice, alone or as the only member of an object with no value. -/
def choice? {α : Type} (ofName? : String → Option α) : Json → Option α
  | .str s => ofName? s
  | .obj [(s, .null)] => ofName? s
  | _ => none

/-- An id written as the name of a member. -/
def idName? (s : String) : Option Int :=
  match number? s.toList with
  | some (j, []) => id? j
  | _ => none

/-- A table by id. -/
def byId? {α : Type} (value? : Json → Option α) : Json → Option (ById α)
  | .obj ms =>
    (ms.mapM fun m : String × Json => do
      let id ← idName? m.1
      let a ← value? m.2
      return (id, a)).map ById.ofList
  | _ => none

/-- A table by name. -/
def byName? {α : Type} (value? : Json → Option α) : Json → Option (ByName α)
  | .obj ms =>
    (ms.mapM fun m : String × Json => do
      let a ← value? m.2
      return (m.1, a)).map ByName.ofList
  | _ => none

/-! ### Records -/

/-- The given fields of a record. -/
structure Record where
  /-- Whether the fields were listed in order, without names. -/
  listed : Bool
  values : List (String × Json)

namespace Record

/-- Whether a name occurs twice. -/
def repeats : List (String × Json) → Bool
  | [] => false
  | (k, _) :: rest => rest.any (fun m => m.1 == k) || repeats rest

/-- The record in a value, for the field names of its type in order. -/
def of? (names : List String) : Json → Option Record
  | .obj ms =>
    let known := ms.filter fun m => names.contains m.1
    if repeats known then none else some ⟨false, known⟩
  | .arr js => if js.length ≤ names.length then some ⟨true, names.zip js⟩ else none
  | _ => none

/-- A field that must be given. -/
def required {α : Type} (r : Record) (name : String) (read? : Json → Option α) : Option α :=
  match r.values.lookup name with
  | some j => read? j
  | none => none

/-- A field that may be missing or `null`, but not missing from a listed record. -/
def optional {α : Type} (r : Record) (name : String) (read? : Json → Option α) :
    Option (Option α) :=
  match r.values.lookup name with
  | some .null => some none
  | some j => (read? j).map some
  | none => if r.listed then none else some none

/-- A field with a default. -/
def defaulted {α : Type} (r : Record) (name : String) (default : α) (read? : Json → Option α) :
    Option α :=
  match r.values.lookup name with
  | some j => read? j
  | none => some default

/-- An optional field with a default: `null` and a missing field are the same. -/
def omissible {α : Type} (r : Record) (name : String) (read? : Json → Option α) :
    Option (Option α) :=
  match r.values.lookup name with
  | some .null | none => some none
  | some j => (read? j).map some

end Record

/-- A value with a tag: the member `name`, or the first item of a list, and the rest. -/
def tagged? (name : String) : Json → Option (String × Json)
  | .obj ms =>
    match ms.filter fun m => m.1 == name with
    | [(_, .str tag)] => some (tag, .obj (ms.filter fun m => m.1 != name))
    | _ => none
  | .arr (.str tag :: rest) => some (tag, .arr rest)
  | _ => none

/-! ### Writing records -/

/-- An object without the members that have no value. -/
def record (members : List (String × Option Json)) : Json :=
  .obj (members.filterMap fun (k, j) => j.map fun j => (k, j))

/-- A value, or `null`. -/
def orNull {α : Type} (toJson : α → Json) : Option α → Json
  | some a => toJson a
  | none => .null

/-- A list of values. -/
def ofList {α : Type} (toJson : α → Json) (as : List α) : Json := .arr (as.map toJson)

/-- A count. -/
def ofNat (n : Nat) : Json := .int n

/-- A table by id, with the ids as names. -/
def ofIds {α : Type} (toJson : α → Json) (t : ById α) : Json :=
  .obj (t.entries.map fun (k, a) => (toString k, toJson a))

/-- A table by name. -/
def ofNames {α : Type} (toJson : α → Json) (t : ByName α) : Json :=
  .obj (t.entries.map fun (k, a) => (k, toJson a))

end FlowAnalysis.Json
