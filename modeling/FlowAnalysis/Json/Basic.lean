import FlowAnalysis.Number.Binary64

/-!
# JSON values

Whole numbers and floating-point numbers are different values.  The members of an object are kept in
the order in which they were written, repeated names included, because a record refuses a repeated
name while a plain value lets the last one win (`Json.merged`).
-/

namespace FlowAnalysis

/-- A JSON value. -/
inductive Json
  | null
  | bool (b : Bool)
  | int (n : Int)
  | float (x : Binary64)
  | str (s : String)
  | arr (items : List Json)
  | obj (members : List (String × Json))
  deriving Inhabited, Repr

namespace Json

mutual

/-- Whether two values are the same. -/
def same : Json → Json → Bool
  | .null, .null => true
  | .bool a, .bool b => a == b
  | .int a, .int b => a == b
  | .float a, .float b => a == b
  | .str a, .str b => a == b
  | .arr as, .arr bs => sameItems as bs
  | .obj as, .obj bs => sameMembers as bs
  | _, _ => false

/-- Whether two lists of values are the same. -/
def sameItems : List Json → List Json → Bool
  | [], [] => true
  | a :: as, b :: bs => same a b && sameItems as bs
  | _, _ => false

/-- Whether two lists of members are the same, in the same order. -/
def sameMembers : List (String × Json) → List (String × Json) → Bool
  | [], [] => true
  | (k, a) :: as, (l, b) :: bs => k == l && same a b && sameMembers as bs
  | _, _ => false

end

instance : BEq Json := ⟨same⟩

mutual

/-- How deep values are nested in a value, at least one. -/
def depth : Json → Nat
  | .arr items => itemsDepth items + 1
  | .obj members => membersDepth members + 1
  | _ => 1

/-- The greatest depth in a list of values. -/
def itemsDepth : List Json → Nat
  | [] => 0
  | j :: js => max (depth j) (itemsDepth js)

/-- The greatest depth in a list of members. -/
def membersDepth : List (String × Json) → Nat
  | [] => 0
  | (_, j) :: js => max (depth j) (membersDepth js)

end

/-- The text of a string value. -/
def text? : Json → Option String
  | .str s => some s
  | _ => none

/-- Whether a value is a number of either kind. -/
def isNumber : Json → Bool
  | .int _ | .float _ => true
  | _ => false

/-- Sets a member: the value of the name if it is there, a new last member otherwise. -/
def setMember (name : String) (value : Json) : List (String × Json) → List (String × Json)
  | [] => [(name, value)]
  | (k, v) :: rest => if k == name then (k, value) :: rest else (k, v) :: setMember name value rest

mutual

/-- The value with at most one member of each name in every object: the last one wins. -/
def merged : Json → Json
  | .arr items => .arr (mergedItems items)
  | .obj members => .obj ((mergedMembers members).foldl (fun ms (k, v) => setMember k v ms) [])
  | j => j

/-- Every value of a list merged. -/
def mergedItems : List Json → List Json
  | [] => []
  | j :: js => merged j :: mergedItems js

/-- The value of every member merged. -/
def mergedMembers : List (String × Json) → List (String × Json)
  | [] => []
  | (k, j) :: js => (k, merged j) :: mergedMembers js

end

/-- The member of an object with a given name. -/
def member? (j : Json) (name : String) : Option Json :=
  match j with
  | .obj members => members.lookup name
  | _ => none

mutual

/-- The value with every floating-point number spelled as an object that holds its bit pattern. -/
def spelled : Json → Json
  | .float x => .obj [("f64", .str x.hex)]
  | .arr items => .arr (spelledItems items)
  | .obj members => .obj (spelledMembers members)
  | j => j

/-- Every value of a list spelled. -/
def spelledItems : List Json → List Json
  | [] => []
  | j :: js => spelled j :: spelledItems js

/-- The value of every member spelled. -/
def spelledMembers : List (String × Json) → List (String × Json)
  | [] => []
  | (k, j) :: js => (k, spelled j) :: spelledMembers js

end

end Json

end FlowAnalysis
