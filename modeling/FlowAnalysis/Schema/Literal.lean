import FlowAnalysis.Bubble.Parameters

/-!
# Literal values

The JSON value of an expression that needs no evaluation.
-/

namespace FlowAnalysis.Script

namespace Node

/-- The value as a number, if it is one. -/
def numberLiteral? (text : String) : Option Json :=
  some (Parameter.numberValue text) |>.filter Json.isNumber

mutual

/-- The value of an expression that needs no evaluation. -/
def literal? (n : Node) : Option Json :=
  let m := n.stripParens
  let text := m.text
  match m.kind with
  | .string => some (.str (Text.unquote text))
  | .templateString => if m.hasSubstitution then none else some (.str (Text.unquote text))
  | .number => numberLiteral? text
  | .unaryExpression =>
    match m.child? .argument, m.child? .operator with
    | some argument, some operator =>
      if argument.kind == .number && operator.text == "-" then
        numberLiteral? (String.ofList (text.toList.filter (· != ' ')))
      else none
    | _, _ => none
  | .trueValue => some (.bool true)
  | .falseValue => some (.bool false)
  | .nullValue => some .null
  | .array => (literals? m.parts).map .arr
  | .object => (literalMembers? m.parts).map fun ms =>
    .obj (ms.foldl (fun ms (k, v) => Json.setMember k v ms) [])
  | _ => none
termination_by 2 * n.size
decreasing_by
  all_goals
    have := Nat.lt_of_lt_of_le (sizeAll_parts_lt _) (size_stripParens_le n)
    omega

/-- The values of several expressions. -/
def literals? : List Node → Option (List Json)
  | [] => some []
  | n :: ns => do
    let j ← literal? n
    let js ← literals? ns
    return j :: js
termination_by ns => 2 * sizeAll ns + 1
decreasing_by
  all_goals
    have := size_pos n
    rw [sizeAll]
    omega

/-- The names and values of the members of an object that holds nothing but pairs. -/
def literalMembers? : List Node → Option (List (String × Json))
  | [] => some []
  | n :: ns =>
    if n.kind == .pair then
      match n.child? .key, _h : n.child? .value with
      | some key, some value =>
        match literal? value, literalMembers? ns with
        | some j, some js => some ((Text.unquote key.text, j) :: js)
        | _, _ => none
      | _, _ => none
    else none
termination_by ns => 2 * sizeAll ns + 1
decreasing_by
  · have := size_lt_of_child? _h
    rw [sizeAll]
    omega
  · have := size_pos n
    rw [sizeAll]
    omega

end

end Node

end FlowAnalysis.Script
