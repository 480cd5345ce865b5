import FlowAnalysis.Remaining
import FlowAnalysis.Schema.Basic
import FlowAnalysis.Bubble.Parameters

/-!
# Schemas of types

The schema of a type as a script writes it.  A name stands for the interface or alias that the
script declares under it.  While a name is being expanded, meeting it again gives the schema of any
object, so expansion always ends: it takes every declared name at most once on the way to any type.
-/

namespace FlowAnalysis

open Script

namespace Schema

/-- The declarations of types in a script, the last one of each name. -/
structure Declarations where
  interfaces : ByName Node
  aliases : ByName Node

namespace Declarations

/-- The declarations of one kind in a list of statements. -/
def ofKind (k : Kind) (root : Node) : ByName Node :=
  .ofList (root.parts.filterMap fun statement => do
    let (declaration, _) ← statement.declared?
    let name ← declaration.child? .name
    if declaration.kind == k then return (name.text, declaration) else none)

/-- The declarations of types at the top of a script. -/
def ofRoot (root : Node) : Declarations :=
  ⟨ofKind .interfaceDeclaration root, ofKind .typeAliasDeclaration root⟩

/-- The names of all declarations. -/
def names (d : Declarations) : List String := d.interfaces.names ++ d.aliases.names

/-- How many declared names are not being expanded. -/
def left (d : Declarations) (path : List String) : Nat := remaining d.names path

theorem mem_of_lookup_eq_some {α : Type} {name : String} {a : α} {es : List (String × α)}
    (h : es.lookup name = some a) : name ∈ es.map Prod.fst := by
  induction es with
  | nil => cases h
  | cons e es ih =>
    rw [List.lookup_cons] at h
    split at h
    · next hb => exact List.mem_cons.2 (.inl (by simpa using hb))
    · exact List.mem_cons_of_mem _ (ih h)

/-- Expanding an interface leaves fewer names. -/
theorem left_interface_lt {d : Declarations} {path : List String} {name : String} {n : Node}
    (h : d.interfaces.get? name = some n) (hp : ¬ name ∈ path) :
    d.left (name :: path) < d.left path :=
  remaining_cons_lt (List.mem_append_left _ (mem_of_lookup_eq_some h)) hp

/-- Expanding an alias leaves fewer names. -/
theorem left_alias_lt {d : Declarations} {path : List String} {name : String} {n : Node}
    (h : d.aliases.get? name = some n) (hp : ¬ name ∈ path) :
    d.left (name :: path) < d.left path :=
  remaining_cons_lt (List.mem_append_right _ (mem_of_lookup_eq_some h)) hp

end Declarations

/-! ### Types without a name -/

/-- The schema of a type that is a word of the language. -/
def ofKeyword (word : String) : Schema :=
  match word with
  | "string" | "number" | "boolean" | "object" | "null" => typed word
  | "bigint" => typed "integer"
  | _ => any

/-- The schema of a literal as a type. -/
def ofLiteral (n : Node) : Schema :=
  match n.part? with
  | none => any
  | some inner =>
    match inner.kind with
    | .string => of (.constant "string" (.str (Text.unquote inner.text)))
    | .number | .unaryExpression => of (.constant "number" (Parameter.numberValue inner.text))
    | .trueValue => of (.constant "boolean" (.bool true))
    | .falseValue => of (.constant "boolean" (.bool false))
    | .nullValue => typed "null"
    | _ => any

/-- The schema of a member of the type that lists the payloads of the events. -/
def ofLookup (registryType : String) (n : Node) : Schema :=
  match n.parts with
  | object :: index :: _ =>
    if object.text == registryType then
      match Event.ofName? (Text.unquote (Text.trim index.text)) with
      | some e => e.schema
      | none => any
    else any
  | _ => any

/-- The schema of a name that the script does not declare. -/
def ofForeign (name : String) : Schema :=
  match Event.ofTypeName? name with
  | some e => e.schema
  | none => if name == "Date" then typed "string" else any

mutual

/-- The operands of a nest of one operator, in order. -/
def operands (k : Kind) (n : Node) : List Node :=
  if n.kind == k then operandsAll k n.parts else [n]
termination_by 2 * n.size
decreasing_by
  have := Node.sizeAll_parts_lt n
  omega

/-- The operands in a list of nodes. -/
def operandsAll (k : Kind) : List Node → List Node
  | [] => []
  | n :: ns => operands k n ++ operandsAll k ns
termination_by ns => 2 * Node.sizeAll ns + 1
decreasing_by
  all_goals
    have := Node.size_pos n
    rw [Node.sizeAll]
    omega

end

theorem sizeAll_append (as bs : List Node) :
    Node.sizeAll (as ++ bs) = Node.sizeAll as + Node.sizeAll bs := by
  induction as with
  | nil => simp [Node.sizeAll]
  | cons a as ih =>
    rw [List.cons_append, Node.sizeAll, Node.sizeAll, ih]
    omega

mutual

theorem sizeAll_operands_le (k : Kind) (n : Node) : Node.sizeAll (operands k n) ≤ n.size := by
  rw [operands]
  split
  · have := sizeAll_operandsAll_le k n.parts
    have := Node.sizeAll_parts_lt n
    omega
  · simp [Node.sizeAll]
termination_by 2 * n.size
decreasing_by
  have := Node.sizeAll_parts_lt n
  omega

theorem sizeAll_operandsAll_le (k : Kind) (ns : List Node) :
    Node.sizeAll (operandsAll k ns) ≤ Node.sizeAll ns := by
  cases ns with
  | nil => simp [operandsAll, Node.sizeAll]
  | cons n ns =>
    have := sizeAll_operands_le k n
    have := sizeAll_operandsAll_le k ns
    rw [operandsAll, sizeAll_append, Node.sizeAll]
    omega
termination_by 2 * Node.sizeAll ns + 1
decreasing_by
  all_goals
    subst_vars
    have := Node.size_pos n
    rw [Node.sizeAll]
    omega

end

/-! ### Objects -/

/-- A property as a type declares it. -/
structure Property where
  name : String
  schema : Schema
  optional : Bool

/-- The schema of an object with properties; of two with one name the later gives the schema. -/
def ofProperties (ps : List Property) : Schema :=
  of (.object (ps.foldl (fun es p => ByName.insertEntry p.name p.schema es) [])
    ((ps.filter fun p => !p.optional).map (·.name)))

/-- The names of one list followed by those of another that are not there yet. -/
def joinNames (names more : List String) : List String :=
  more.foldl (fun ns n => if ns.contains n then ns else ns ++ [n]) names

/-- An object schema that takes over the properties of another. -/
def extendWith (s base : Schema) : Schema :=
  of (.object (base.properties.foldl (fun es p => ByName.insertEntry p.1 p.2 es) s.properties)
    (joinNames s.required base.required))

/-- The name of a property and whether it may be missing. -/
def propertyName? (member : Node) : Option (String × Bool) :=
  if member.kind == .propertySignature then
    (member.child? .name).map fun name => (Text.unquote name.text, member.hasMark "?")
  else none

/-- The type written after the colon of a member. -/
def memberType? (member : Node) : Option Node := (member.child? .type).bind (·.part?)

theorem size_memberType?_lt {n t : Node} (h : memberType? n = some t) : t.size < n.size := by
  obtain ⟨c, hc, h⟩ := Option.bind_eq_some_iff.1 h
  exact Nat.lt_trans (Node.size_lt_of_part? h) (Node.size_lt_of_child? hc)

/-- The type arguments of a generic type. -/
def typeArguments (n : Node) : List Node :=
  match n.child? .typeArguments with
  | some list => list.parts
  | none => []

theorem size_head_typeArguments_lt {n a : Node} (h : (typeArguments n).head? = some a) :
    a.size < n.size := by
  rw [typeArguments] at h
  split at h
  · next list hl =>
    exact Nat.lt_trans
      (Node.size_lt_of_mem (Node.mem_children_of_mem_parts (List.mem_of_head? h)))
      (Node.size_lt_of_child? hl)
  · cases h

/-- The types that an interface extends. -/
def bases (n : Node) : List Node :=
  (n.parts.filter fun c => c.kind == .extendsTypeClause).flatMap (·.parts)

theorem sizeAll_bases_lt (n : Node) : Node.sizeAll (bases n) < n.size := by
  have key : ∀ cs : List Node, Node.sizeAll (cs.flatMap (·.parts)) ≤ Node.sizeAll cs := by
    intro cs
    induction cs with
    | nil => simp [Node.sizeAll]
    | cons c cs ih =>
      have := Node.sizeAll_parts_lt c
      rw [List.flatMap_cons, sizeAll_append, Node.sizeAll]
      omega
  have h₁ := key (n.parts.filter fun c => c.kind == .extendsTypeClause)
  have h₂ := Node.sizeAll_filter_le (fun c => c.kind == .extendsTypeClause) n.parts
  have h₃ := Node.sizeAll_parts_lt n
  exact Nat.lt_of_le_of_lt (Nat.le_trans h₁ h₂) h₃

theorem sizeAll_map_partsWithBefore_lt (n : Node) :
    Node.sizeAll (n.partsWithBefore.map Prod.fst) < n.size :=
  (Node.map_partsWithBefore n).symm ▸ Node.sizeAll_parts_lt n

/-! ### The conversion -/

/-- What a conversion needs to know: the declarations and the type that lists the payloads. -/
structure Setting where
  declarations : Declarations
  registryType : String

/-- How a generic type uses its first argument. -/
inductive Wrapper
  | array
  | same
  | allOptional

/-- The generic types that are known. -/
def wrapper? (name : String) : Option Wrapper :=
  if name == "Array" || name == "ReadonlyArray" then some .array
  else if name == "Promise" || name == "Readonly" then some .same
  else if name == "Partial" then some .allOptional
  else none

namespace Wrapper

/-- The schema that a wrapper makes of the schema of its argument. -/
def wrap : Wrapper → Schema → Schema
  | array, s => of (.array s)
  | same, s => s
  | allOptional, s => s.allOptional

/-- The schema of a wrapper without an argument. -/
def bare : Wrapper → Schema
  | array => typed "array"
  | same | allOptional => any

end Wrapper

mutual

/-- The schema of a type, while the names on the path are being expanded. -/
def convert (s : Setting) (path : List String) (n : Node) : Schema :=
  match n.kind with
  | .predefinedType => ofKeyword n.text
  | .typeIdentifier => named s path n.text
  | .genericType =>
    match n.child? .name with
    | none => any
    | some name =>
      match wrapper? name.text with
      | some w =>
        match _h : (typeArguments n).head? with
        | some argument => w.wrap (convert s path argument)
        | none => w.bare
      | none => if name.text == "Record" then typed "object" else named s path name.text
  | .arrayType =>
    match _h : n.part? with
    | some item => of (.array (convert s path item))
    | none => typed "array"
  | .tupleType => typed "array"
  | .readonlyType | .parenthesizedType | .typeAscription =>
    match _h : n.part? with
    | some inner => convert s path inner
    | none => any
  | .unionType => of (.anyOf (convertAll s path (operandsAll .unionType n.parts)))
  | .intersectionType => of (.allOf (convertAll s path (operandsAll .intersectionType n.parts)))
  | .literalType => ofLiteral n
  | .objectType | .interfaceBody => ofProperties (convertMembers s path n.partsWithBefore)
  | .lookupType => ofLookup s.registryType n
  | _ => any
termination_by (s.declarations.left path, n.size, 1)
decreasing_by
  · exact Prod.Lex.right _ (Prod.Lex.left _ _ (Node.size_pos n))
  · exact Prod.Lex.right _ (Prod.Lex.left _ _ (size_head_typeArguments_lt _h))
  · exact Prod.Lex.right _ (Prod.Lex.left _ _ (Node.size_pos n))
  · exact Prod.Lex.right _ (Prod.Lex.left _ _ (Node.size_lt_of_part? _h))
  · exact Prod.Lex.right _ (Prod.Lex.left _ _ (Node.size_lt_of_part? _h))
  · exact Prod.Lex.right _ (Prod.Lex.left _ _
      (Nat.lt_of_le_of_lt (sizeAll_operandsAll_le _ _) (Node.sizeAll_parts_lt n)))
  · exact Prod.Lex.right _ (Prod.Lex.left _ _
      (Nat.lt_of_le_of_lt (sizeAll_operandsAll_le _ _) (Node.sizeAll_parts_lt n)))
  · exact Prod.Lex.right _ (Prod.Lex.left _ _ (sizeAll_map_partsWithBefore_lt n))

/-- The schema of a name. -/
def named (s : Setting) (path : List String) (name : String) : Schema :=
  if _hp : name ∈ path then typed "object"
  else
    match _hi : s.declarations.interfaces.get? name with
    | some declaration => interface s (name :: path) declaration
    | none =>
      match _ha : s.declarations.aliases.get? name with
      | some declaration =>
        match declaration.child? .value with
        | some value => convert s (name :: path) value
        | none => ofForeign name
      | none => ofForeign name
termination_by (s.declarations.left path, 0, 0)
decreasing_by
  · exact Prod.Lex.left _ _ (Declarations.left_interface_lt _hi _hp)
  · exact Prod.Lex.left _ _ (Declarations.left_alias_lt _ha _hp)

/-- The schema of an interface: the properties of what it extends, and its own. -/
def interface (s : Setting) (path : List String) (n : Node) : Schema :=
  let inherited := (convertAll s path (bases n)).foldl extendWith (ofProperties [])
  match _h : n.child? .body with
  | some body => inherited.extendWith (ofProperties (convertMembers s path body.partsWithBefore))
  | none => inherited
termination_by (s.declarations.left path, n.size, 1)
decreasing_by
  · exact Prod.Lex.right _ (Prod.Lex.left _ _ (sizeAll_bases_lt n))
  · exact Prod.Lex.right _ (Prod.Lex.left _ _
      (Nat.lt_trans (sizeAll_map_partsWithBefore_lt body) (Node.size_lt_of_child? _h)))

/-- The schemas of several types. -/
def convertAll (s : Setting) (path : List String) : List Node → List Schema
  | [] => []
  | n :: ns => convert s path n :: convertAll s path ns
termination_by ns => (s.declarations.left path, Node.sizeAll ns, 2)
decreasing_by
  · refine Prod.Lex.right _ ?_
    rw [Node.sizeAll]
    rcases Nat.lt_or_eq_of_le (Nat.le_add_right n.size (Node.sizeAll ns)) with h | h
    · exact Prod.Lex.left _ _ h
    · rw [← h]
      exact Prod.Lex.right _ (by decide)
  · refine Prod.Lex.right _ (Prod.Lex.left _ _ ?_)
    have := Node.size_pos n
    rw [Node.sizeAll]
    omega

/-- The properties that the members of a type declare, each described by the comment above it. -/
def convertMembers (s : Setting) (path : List String) :
    List (Node × List Node) → List Property
  | [] => []
  | (member, before) :: rest =>
    match propertyName? member with
    | none => convertMembers s path rest
    | some (name, optional) =>
      let schema :=
        match _h : memberType? member with
        | some type => convert s path type
        | none => any
      ⟨name, schema.withDescription (Comment.above member before), optional⟩
        :: convertMembers s path rest
termination_by ms => (s.declarations.left path, Node.sizeAll (ms.map Prod.fst), 2)
decreasing_by
  all_goals
    refine Prod.Lex.right _ (Prod.Lex.left _ _ ?_)
    have := Node.size_pos member
    simp only [List.map_cons, Node.sizeAll]
  · omega
  · have := size_memberType?_lt _h
    omega
  · omega

end

end Schema

end FlowAnalysis
