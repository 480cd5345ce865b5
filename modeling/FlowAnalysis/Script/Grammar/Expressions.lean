import FlowAnalysis.Script.Grammar.Types

/-!
# Expressions

Operators bind as usual, with these rules of this grammar: `as` and `satisfies` bind looser than
every binary operator but are taken into the operand of `await`; `await` is an operator everywhere;
an arrow function is an operand that reaches as far to the right as it can.
-/

namespace FlowAnalysis.Script.Grammar

open Reader

/-! ### Lists of expressions -/

/-- Three dots and an expression. -/
def spread (r : Rules) : Reader Node :=
  node .spreadElement (seq [sym "...", sub (r.expression .inner)])

/-- An expression or a spread one. -/
def listItem (r : Rules) : Pieces := sub (oneOf [spread r, r.expression .inner])

/-- Arguments in parentheses. -/
def arguments (r : Rules) : Reader Node := node .arguments (slots "(" ")" (listItem r))

/-- An array. -/
def array (r : Rules) : Reader Node := node .array (slots "[" "]" (listItem r))

/-- An expression, or several between commas. -/
def expressions (r : Rules) (s : Setting) : Reader Node := do
  let first ← r.expression s
  let more ← star (further s.ending (seq [sym ",", sub (r.expression s)]))
  return if more.isEmpty then first else .branch .sequenceExpression none (first :: more)

/-- An expression in parentheses. -/
def parenthesized (r : Rules) : Reader Node :=
  node .parenthesizedExpression
    (seq [sym "(",
      oneOf [seq [sub (expressions r .inner), sym ")"],
        seq [sub (r.expression .inner), field .type (ascription r .never), sym ")"]]])

/-! ### Objects -/

/-- A method with a body. -/
def methodDefinition (r : Rules) : Reader Node :=
  node .methodDefinition
    (seq [methodModifiers, field .name (propertyName r), opt (sym "?"), signature r .never,
      field .body (r.block .plain)])

/-- One member of an object. -/
def objectMember (r : Rules) : Reader Node :=
  oneOf [
    spread r,
    node .pair (seq [field .key (propertyName r), sym ":", field .value (r.expression .inner)]),
    methodDefinition r,
    freeName .shorthandProperty]

/-- An object. -/
def object (r : Rules) : Reader Node :=
  node .object (slots "\x7b" "\x7d" (sub (objectMember r)))

/-! ### Templates -/

/-- A template with its substitutions. -/
def template (r : Rules) : Reader Node :=
  node .templateString
    (seq [glyph "\x60",
      star (oneOf [
        (fun n => [n]) <$> tight .stringFragment Lexeme.templateChars,
        (fun n => [n]) <$> tight .escapeSequence Lexeme.escapeSequence,
        (fun n => [n]) <$> node .templateSubstitution
          (seq [(fun n => [n]) <$> tight .anonymous (Lexeme.exactly ['$', '\x7b']),
            sub (expressions r .inner), sym "\x7d"])]),
      (fun n => [n]) <$> tight .anonymous (Lexeme.exactly ['\x60'])])

/-! ### Functions -/

/-- The parameters of an arrow function; the type of the result only where it is allowed. -/
def arrowSignature (r : Rules) (s : Setting) : Pieces :=
  if s.typedArrows then signature r .never
  else seq [opt (field .typeParameters (typeParameters r)),
    field .parameters (formalParameters r)]

/-- An arrow function. -/
def arrowFunction (r : Rules) (s : Setting) : Reader Node :=
  oneOf [arrow (field .parameter identifier), arrow (arrowSignature r s)]
where
  /-- An arrow function with the given parameters. -/
  arrow (parameters : Pieces) : Reader Node :=
    oneOf [node .arrowFunction (seq [kw "async", parameters, sym "=>", body]),
      node .arrowFunction (seq [parameters, sym "=>", body])]
  /-- A block, or an expression. -/
  body : Pieces :=
    field .body (oneOf [objectFirst (r.expression s), r.block .expression, r.expression s])

/-- A function as an expression. -/
def functionExpression (r : Rules) : Reader Node := do
  let head ← seq [opt (kw "async"), kw "function"]
  let star ← opt (sym "*")
  let rest ← seq [opt (field .name (name .identifier)), signature r .never,
    field .body (r.block .expression)]
  let k := if star.isEmpty then Kind.functionExpression else .generatorFunction
  return .branch k none (head ++ star ++ rest)

/-! ### Classes -/

/-- One class that another extends, with its type arguments. -/
def extendsSingle (r : Rules) : Pieces :=
  seq [field .value (r.operand .heritage), opt (field .typeArguments (typeArguments r))]

/-- What a class extends and implements. -/
def classHeritage (r : Rules) : Reader Node :=
  node .classHeritage (oneOf [
    seq [sub (node .extendsClause (seq [kw "extends", sepBy1 (extendsSingle r) (sym ",")])),
      opt (sub implements)],
    sub implements])
where
  /-- The interfaces that a class implements. -/
  implements : Reader Node :=
    node .implementsClause (seq [kw "implements", sepBy1 (sub (r.type .never)) (sym ",")])

/-- A field of a class. -/
def fieldDefinition (r : Rules) : Reader Node :=
  node .publicFieldDefinition
    (seq [decorators r,
      opt (oneOf [seq [modifier .anonymous "declare", opt accessibility],
        seq [accessibility, flag "declare"]]),
      flag "static", opt (modifier .overrideModifier "override"),
      flag "abstract", flag "readonly", flag "abstract", flag "accessor",
      field .name (propertyName r),
      opt (further .plain (oneOf [sym "?", sym "!"])),
      opt (further .plain (field .type (ascription r .plain))),
      opt (further .plain (initializer r .tail))])

/-- A method without a body in an abstract class. -/
def abstractMethod (r : Rules) : Reader Node :=
  node .abstractMethodSignature
    (seq [opt accessibility, modifier .anonymous "abstract",
      opt (modifier .overrideModifier "override"),
      opt (oneOf [modifier .anonymous "get", modifier .anonymous "set", sym "*"]),
      field .name (propertyName r), opt (sym "?"), signature r .plain])

/-- One member of a class with what separates it from the next. -/
def classMember (r : Rules) : Pieces :=
  oneOf [
    sub (node .classStaticBlock (seq [kw "static", field .body (r.block .plain)])),
    seq [decorators r, sub (methodDefinition r), opt (semicolon .plain)],
    seq [sub (abstractMethod r), separator .plain],
    seq [sub (indexSignature r .plain), separator .plain],
    seq [sub (methodSignature r .plain), separator .plain],
    seq [sub (fieldDefinition r), separator .expression],
    sym ";"]
where
  /-- The end of a member without a body. -/
  separator (e : Ending) : Pieces := oneOf [semicolon e, sym ","]

/-- The body of a class. -/
def classBody (r : Rules) : Reader Node :=
  node .classBody (seq [sym "\x7b", star (classMember r), sym "\x7d"])

/-- Type parameters, heritage and body of a class. -/
def classRest (r : Rules) : Pieces :=
  seq [opt (field .typeParameters (typeParameters r)), opt (sub (classHeritage r)),
    field .body (classBody r)]

/-- The name of a class. -/
def className : Pieces := do
  absent (kw "implements")
  field .name typeName

/-- A class as an expression. -/
def classExpression (r : Rules) : Reader Node :=
  node .classExpression (seq [decorators r, kw "class", opt className, classRest r])

/-! ### Operands -/

/-- A word that stands for a fixed value. -/
def constant : Reader Node :=
  oneOf [
    token .thisValue (Lexeme.keyword "this"), token .superValue (Lexeme.keyword "super"),
    token .trueValue (Lexeme.keyword "true"), token .falseValue (Lexeme.keyword "false"),
    token .nullValue (Lexeme.keyword "null"),
    node .metaProperty (seq [kw "new", sym ".", kw "target"]),
    node .metaProperty (seq [kw "import", sym ".", kw "meta"]),
    (do
      let n ← token .importFunction (Lexeme.keyword "import")
      ahead (oneOf [sym "(", sym "<", sym ".", sym "?."])
      return n)]

/-- An expression without operators. -/
def primary (r : Rules) (s : Setting) : Reader Node :=
  oneOf [arrowFunction r s, functionExpression r, classExpression r, constant, identifier,
    numberLiteral, stringLiteral, template r, array r, object r, parenthesized r,
    token .regex Lexeme.regex,
    (do
      let n ← token .privatePropertyIdentifier Lexeme.privateName
      ahead (kw "in")
      return n)]

/-- The name of a property after a dot. -/
def memberName : Pieces :=
  field .property (oneOf [token .privatePropertyIdentifier Lexeme.privateName,
    name .propertyIdentifier])

/-- The mark of an access that gives up on a missing object. -/
def optionalChain : Pieces :=
  field .optionalChain (token .optionalChain (Lexeme.symbol "?."))

/-- A property or an element of an object, or the assertion that it is not missing. -/
def memberAccess (r : Rules) (object : Node) : Reader Node :=
  oneOf [
    around .memberExpression (object.withRole .object) (seq [sym ".", memberName]),
    around .memberExpression (object.withRole .object) (seq [optionalChain, memberName]),
    around .subscriptExpression (object.withRole .object)
      (seq [opt optionalChain, sym "[", field .index (expressions r .inner), sym "]"]),
    around .nonNullExpression object (sym "!")]

/-- A call, plain, optional, with type arguments, or of a template. -/
def callAccess (r : Rules) (function : Node) : Reader Node :=
  around .callExpression (function.withRole .function)
    (oneOf [
      seq [opt (sym "?."), opt (field .typeArguments (typeArguments r)),
        field .arguments (arguments r)],
      field .arguments (template r)])

/-- Type arguments without a call, where no operand follows. -/
def instantiation (r : Rules) (function : Node) : Reader Node := do
  let n ← around .instantiationExpression function
    (field .typeArguments (typeArguments r))
  absent (do
    let _ ← comments
    token .anonymous startsOperand)
  return n
where
  /-- The beginning of an operand, which would make the brackets comparisons. -/
  startsOperand : Scanner := fun cs =>
    match cs with
    | c :: _ =>
      if Lexeme.isWordPart c || "(\x60\"'[\x7b\\/<-+!~@#".toList.contains c then some ([], cs)
      else none
    | [] => none

/-- Goes on with accesses and calls. -/
def accesses (r : Rules) (s : Setting) (left : Node) : Reader Node :=
  (do
    goesOn s.ending
    let n ← oneOf [memberAccess r left, callAccess r left,
      if s.instances then instantiation r left else failure]
    r.accesses s n)
  <|> pure left

/-- Goes on with accesses of the class after `new`, leaving its arguments to `new`. -/
def constructed (r : Rules) (s : Setting) (left : Node) : Reader Node :=
  (do
    goesOn s.ending
    let n ← oneOf [memberAccess r left,
      around .callExpression (left.withRole .function) (field .arguments (template r)),
      if left.kind == .newExpression then callAccess r left else failure]
    r.constructed s n)
  <|> pure left

/-- `new` with a class, its type arguments and its arguments. -/
def newExpression (r : Rules) (s : Setting) : Reader Node := do
  let mark ← kw "new"
  let gap ← comments
  let first ← oneOf [nested, primary r s]
  let c ← r.constructed s first
  let rest ← seq [opt (further s.ending (field .typeArguments (typeArguments r))),
    opt (further s.ending (field .arguments (arguments r)))]
  if c.kind == .newExpression then failure
  else return .branch .newExpression none (mark ++ gap ++ c.withRole .constructor :: rest)
where
  /-- Another `new` right after the first. -/
  nested : Reader Node := do
    ahead (kw "new")
    absent (seq [kw "new", sym "."])
    r.operand s

/-- The marks and words in front of an operand. -/
def unaryOperator : Scanner := fun cs =>
  match Lexeme.mark cs with
  | some (m, rest) =>
    if ["!", "~", "-", "+"].contains (String.ofList m) then some (m, rest) else none
  | none =>
    match Lexeme.word cs with
    | some (w, rest) =>
      if ["typeof", "void", "delete"].contains (String.ofList w) then some (w, rest) else none
    | none => none

/-- The marks that change a variable in place. -/
def updateOperator : Scanner := fun cs =>
  (Lexeme.symbol "++" cs).or (Lexeme.symbol "--" cs)

/-- `as T` or `satisfies T` after an expression. -/
def typedAs (r : Rules) (e : Ending) (left : Node) : Reader Node :=
  oneOf [
    around .asExpression left
      (seq [kw "as", oneOf [kw "const", sub (r.type e)]]),
    around .satisfiesExpression left (seq [kw "satisfies", sub (r.type e)])]

/-! ### Type arguments behind operators

A call with type arguments can call more than the operand before it.  `await f<T>(x)`
awaits the call of `f`, or it calls `await f`; both follow the grammar.  Of such readings
the one counts whose outermost construct comes first in the order of `reading`, and the
same goes for what is inside it. -/

/-- The order of constructs by which one of several readings is chosen. -/
def reading : Kind → Nat
  | .callExpression => 0
  | .awaitExpression => 1
  | .memberExpression => 2
  | .subscriptExpression => 3
  | .binaryExpression => 4
  | .unaryExpression => 5
  | .updateExpression => 6
  | _ => 7

/-- Whether a node is a call with type arguments. -/
def isGenericCall (n : Node) : Bool :=
  n.kind == .callExpression && (n.child? .typeArguments).isSome && !n.hasMark "?."

/-- The chosen reading among those in which the operator `wrap` builds, of the given kind, ends
before a call with type arguments. -/
def callOver? (k : Kind) (wrap : Node → Node) : Node → Option Node
  | .token .. | .branch _ _ [] => none
  | .branch c role (first :: rest) =>
    if c == .callExpression || c == .memberExpression || c == .subscriptExpression
        || c == .nonNullExpression then
      let here := Node.branch c role ((wrap first).inRole first.role :: rest)
      let deeper := (callOver? k wrap first).map fun m => Node.branch c role (m :: rest)
      if isGenericCall (.branch c role (first :: rest)) then
        match deeper with
        | some m => if reading k < reading first.kind then some here else some m
        | none => some here
      else deeper
    else none

/-- An operator on an operand, in the chosen reading. -/
def operation (k : Kind) (before : List Node) (role : Option Role) (argument : Node) : Node :=
  let wrap := fun n : Node => Node.branch k none (before ++ [n.inRole role])
  match callOver? k wrap argument with
  | some n => if reading argument.kind < reading k then n else wrap argument
  | none => wrap argument

/-- An operator in front of an operand. -/
def prefixed (k : Kind) (operator : Pieces) (role : Option Role) (argument : Reader Node) :
    Reader Node := do
  let mark ← operator
  let gap ← comments
  return operation k (mark ++ gap) role (← argument)

/-- An assignment that also declares its target. -/
def usingAssignment (r : Rules) (s : Setting) : Reader Node := do
  let mark ← kw "using"
  let gap ← comments
  let left ← oneOf [destructuring r, r.operand s]
  if !isTarget left.kind then failure
  let rest ← seq [sym "=", field .right (r.expression s)]
  return .branch .assignmentExpression none (mark ++ gap ++ left.withRole .left :: rest)

/-- An operand with the `as` and `satisfies` after it. -/
def castOperand (r : Rules) (s : Setting) : Reader Node := do
  let n ← r.operand s
  let casts ← many (further s.ending (oneOf [
    seq [kw "as", oneOf [kw "const", sub (r.type s.ending)]],
    seq [kw "satisfies", sub (r.type s.ending)]]))
  return casts.foldl
    (fun left ns =>
      let k := if ns.any fun m => m.kind == .anonymous && m.text == "as" then Kind.asExpression
        else .satisfiesExpression
      .branch k none (left :: ns))
    n

/-- What `await` waits for. -/
def awaited (r : Rules) (s : Setting) : Reader Node :=
  oneOf [usingAssignment r s, castOperand r s]

/-- An expression with the operators in front of it and right after it. -/
def operand (r : Rules) (s : Setting) : Reader Node :=
  oneOf [
    prefixed .unaryExpression (field .operator (token .anonymous unaryOperator)) (some .argument)
      (r.operand s),
    prefixed .updateExpression (field .operator (token .anonymous updateOperator)) (some .argument)
      (r.operand s),
    prefixed .awaitExpression (kw "await") none (awaited r s),
    (do
      let first ← oneOf [newExpression r s, primary r s]
      let n ← r.accesses s first
      (do
        goesOn s.ending
        around .updateExpression (n.withRole .argument)
          (field .operator (token .anonymous updateOperator)))
        <|> pure n),
    node .typeAssertion (seq [sub (typeArguments r), sub (r.operand s)])]

/-! ### Operators -/

/-- How tightly a binary operator binds. -/
def level? : String → Option Nat
  | "??" => some 1
  | "||" => some 2
  | "&&" => some 3
  | "|" => some 4
  | "^" => some 5
  | "&" => some 6
  | "==" | "===" | "!=" | "!==" => some 7
  | "<" | "<=" | ">" | ">=" | "in" | "instanceof" => some 8
  | "<<" | ">>" | ">>>" => some 9
  | "+" | "-" => some 10
  | "*" | "/" | "%" => some 11
  | "**" => some 12
  | _ => none

/-- A binary operator, a mark or a word. -/
def binaryOperator : Scanner := fun cs =>
  match (Lexeme.mark cs).or (Lexeme.word cs) with
  | some (m, rest) => if (level? (String.ofList m)).isSome then some (m, rest) else none
  | none => none

/-- Goes on with binary operators of at least the level `least`; all but `**` nest to the left. -/
def operators (r : Rules) (s : Setting) (least : Nat) (left : Node) : Reader Node :=
  oneOf [
    (do
      goesOn s.ending
      let mark ← field .operator (token .anonymous binaryOperator)
      let level := (mark.getLast?.bind fun m => level? m.text).getD 0
      if level < least then failure
      let gap ← comments
      let first ← r.operand s
      let right ← r.operators s (if level = 12 then level else level + 1) first
      let before := left.withRole .left :: mark ++ gap
      r.operators s least
        (if 8 < level then operation .binaryExpression before (some .right) right
          else .branch .binaryExpression none (before ++ [right.withRole .right]))),
    (do
      if least ≠ 0 then failure
      goesOn s.ending
      let n ← typedAs r s.ending left
      r.operators s least n),
    pure left]

/-- `condition ? consequence : alternative`.  Where a colon is expected, an arrow function with a
typed result is given up when it would take that colon. -/
def ternary (r : Rules) (s : Setting) (condition : Node) : Reader Node :=
  oneOf [withArrows true, withArrows false, pure condition]
where
  /-- The rest of the expression. -/
  withArrows (typed : Bool) : Reader Node := do
    goesOn s.ending
    around .ternaryExpression (condition.withRole .condition)
      (seq [sym "?", field .consequence (r.expression (.branch typed)), sym ":",
        field .alternative (r.expression s)])

/-- The marks of assignments that combine with the old value. -/
def augmentedOperators : List String :=
  ["+=", "-=", "*=", "/=", "%=", "^=", "&=", "|=", ">>=", ">>>=", "<<=", "**=", "&&=", "||=",
    "??="]

/-- An assignment that combines with the old value. -/
def augmentedOperator : Scanner := fun cs =>
  match Lexeme.mark cs with
  | some (m, rest) =>
    if augmentedOperators.contains (String.ofList m) then some (m, rest) else none
  | none => none

/-- `yield`, with or without a value. -/
def yieldExpression (r : Rules) (s : Setting) : Reader Node :=
  node .yieldExpression
    (seq [kw "yield",
      opt (further s.ending (oneOf [seq [sym "*", sub (r.expression s)],
        sub (r.expression s)]))])

/-- An assignment whose target is an object or an array pattern. -/
def destructuringAssignment (r : Rules) (s : Setting) : Reader Node := do
  let left ← destructuring r
  around .assignmentExpression (left.withRole .left)
    (seq [sym "=", field .right (r.expression s)])

/-- The rest of an assignment to what has been read. -/
def assignment (r : Rules) (s : Setting) (left : Node) : Reader Node := do
  if !(isTarget left.kind || left.kind == .parenthesizedExpression) then failure
  goesOn s.ending
  oneOf [
    around .assignmentExpression (left.withRole .left)
      (seq [sym "=", field .right (r.expression s)]),
    around .augmentedAssignmentExpression (left.withRole .left)
      (seq [field .operator (token .anonymous augmentedOperator), field .right (r.expression s)])]

/-- An expression. -/
def expression (r : Rules) (s : Setting) : Reader Node :=
  oneOf [
    yieldExpression r s,
    destructuringAssignment r s,
    usingAssignment r s,
    (do
      let left ← r.operand s
      oneOf [assignment r s left, (do
        let n ← r.operators s 0 left
        ternary r s n)])]

end FlowAnalysis.Script.Grammar
