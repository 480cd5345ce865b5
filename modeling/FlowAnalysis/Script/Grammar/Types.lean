import FlowAnalysis.Script.Grammar.Patterns

/-!
# Types and signatures

Unions bind loosest, then intersections, then the prefix operators, then array and lookup brackets.
Unions and intersections nest to the left, and one with a leading mark has a single operand.
-/

namespace FlowAnalysis.Script.Grammar

open Reader

/-! ### Names, arguments and parameters -/

/-- The name of a type. -/
def typeName : Reader Node := freeName .typeIdentifier

/-- Type arguments in angle brackets. -/
def typeArguments (r : Rules) : Reader Node :=
  node .typeArguments
    (seq [glyph "<", sepBy1 (sub (r.type .never)) (sym ","), opt (sym ","), glyph ">"])

/-- One type parameter with its bound and its default. -/
def typeParameter (r : Rules) : Reader Node :=
  node .typeParameter
    (seq [opt (modifier .anonymous "const"), field .name (name .typeIdentifier),
      opt (field .constraint
        (node .constraint (seq [oneOf [kw "extends", sym ":"], sub (r.type .never)]))),
      opt (field .value (node .defaultType (seq [sym "=", sub (r.type .never)])))])

/-- Type parameters in angle brackets. -/
def typeParameters (r : Rules) : Reader Node :=
  node .typeParameters
    (seq [glyph "<", sepBy1 (sub (typeParameter r)) (sym ","), opt (sym ","), glyph ">"])

/-- A colon and a type. -/
def ascription (r : Rules) (e : Ending) : Reader Node :=
  node .typeAscription (seq [sym ":", sub (r.type e)])

/-- `this` as a name. -/
def thisName : Reader Node := token .thisValue (Lexeme.keyword "this")

/-- `x is T`. -/
def typePredicate (r : Rules) (e : Ending) : Reader Node :=
  node .typePredicate
    (seq [field .name (thisName <|> name .identifier), kw "is", field .type (r.type e)])

/-- `asserts x` or `asserts x is T`. -/
def assertsClause (r : Rules) (e : Ending) : Reader Node :=
  node .assertsClause
    (seq [kw "asserts", sub (oneOf [typePredicate r e, thisName, name .identifier])])

/-- The type of a result: a colon and an assertion, a predicate or a type. -/
def resultType (r : Rules) (e : Ending) : Reader Node :=
  oneOf [node .assertsAscription (seq [sym ":", sub (assertsClause r e)]),
    node .typePredicateAscription (seq [sym ":", sub (typePredicate r e)]),
    ascription r e]

/-- A default or an initial value. -/
def initializer (r : Rules) (s : Setting) : Pieces :=
  seq [sym "=", field .value (r.expression s)]

/-- `@name`, `@name.member`, `@call(...)` or `@(...)`. -/
def decorator (r : Rules) : Reader Node :=
  node .decorator
    (seq [sym "@", sub (do
      let first ← oneOf [node .parenthesizedExpression
        (seq [sym "(", sub (r.expression .inner), sym ")"]), name .identifier]
      let target ← (do
        let links ← many (seq [sym ".", field .property (name .propertyIdentifier)])
        return links.foldl
          (fun object link => .branch .memberExpression none (object.withRole .object :: link))
          first)
      (do
        let call ← seq [opt (field .typeArguments (typeArguments r)),
          field .arguments (node .arguments (seq [sym "(",
            opt (seq [sub (r.expression .inner),
              star (seq [sym ",", sub (r.expression .inner)])]),
            opt (sym ","), sym ")"]))]
        return .branch .callExpression none (target.withRole .function :: call))
        <|> pure target)])

/-- Decorators in front of a declaration or a parameter. -/
def decorators (r : Rules) : Pieces := star (field .decorator (decorator r))

/-- One parameter of a function. -/
def formalParameter (r : Rules) : Reader Node := do
  let head ← seq [decorators r, opt parameterAccess, opt (modifier .overrideModifier "override"),
    opt (parameterFlag "readonly"), field .pattern (parameterTarget r)]
  let mark ← opt (sym "?")
  let rest ← seq [opt (field .type (ascription r .never)), opt (initializer r .inner)]
  let k := if mark.isEmpty then Kind.requiredParameter else .optionalParameter
  return .branch k none (head ++ mark ++ rest)
where
  /-- A word before a parameter's name or pattern. -/
  parameterFlag (w : String) : Pieces := do
    let ns ← kw w
    ahead (sub (oneOf [name .identifier, token .anonymous (Lexeme.symbol "\x7b"),
      token .anonymous (Lexeme.symbol "["), token .anonymous (Lexeme.symbol "...")]))
    return ns
  /-- An accessibility that turns the parameter into a member. -/
  parameterAccess : Pieces := do
    let ns ← oneOf (["public", "private", "protected"].map parameterFlag)
    return ns.map fun n => if n.isComment then n else Node.branch .accessibilityModifier none [n]

/-- The parameters of a function in parentheses. -/
def formalParameters (r : Rules) : Reader Node :=
  node .formalParameters
    (seq [sym "(",
      opt (seq [sepBy1 (sub (formalParameter r)) (sym ","), opt (sym ",")]), sym ")"])

/-- Type parameters, parameters and the type of the result. -/
def signature (r : Rules) (e : Ending) : Pieces :=
  seq [opt (field .typeParameters (typeParameters r)), field .parameters (formalParameters r),
    opt (further e (field .returnType (resultType r e)))]

/-! ### Object types -/

/-- `[name: T]`, or `[K in T]` with an optional renaming. -/
def indexHead (r : Rules) : Pieces :=
  oneOf [
    seq [field .name (name .identifier), sym ":", field .indexType (r.type .never)],
    sub (node .mappedTypeClause
      (seq [field .name (name .typeIdentifier), kw "in", field .type (r.type .never),
        opt (seq [kw "as", field .newName (r.type .never)])]))]

/-- An index signature or a mapped member. -/
def indexSignature (r : Rules) (e : Ending) : Reader Node :=
  node .indexSignature
    (seq [opt (seq [opt (field .sign (token .anonymous
          (fun cs => (Lexeme.exactly ['-'] cs).or (Lexeme.exactly ['+'] cs)))), kw "readonly"]),
      sym "[", indexHead r, sym "]",
      field .type (oneOf [ascription r e,
        node .omittingAscription (seq [glyph "-?:", sub (r.type e)]),
        node .addingAscription (seq [glyph "+?:", sub (r.type e)]),
        node .optingAscription (seq [glyph "?:", sub (r.type e)])])])

/-- A property and its type. -/
def propertySignature (r : Rules) (e : Ending) : Reader Node :=
  node .propertySignature
    (seq [opt accessibility, flag "static", opt (modifier .overrideModifier "override"),
      flag "readonly", field .name (propertyName r), opt (further e (sym "?")),
      opt (further e (field .type (ascription r e)))])

/-- A method without a body. -/
def methodSignature (r : Rules) (e : Ending) : Reader Node :=
  node .methodSignature
    (seq [methodModifiers, field .name (propertyName r), opt (sym "?"), signature r e])

/-- A signature that `new` can be applied to. -/
def constructSignature (r : Rules) (e : Ending) : Reader Node :=
  node .constructSignature
    (seq [opt (kw "abstract"), kw "new", opt (field .typeParameters (typeParameters r)),
      field .parameters (formalParameters r), opt (further e (field .type (ascription r e)))])

/-- A member of an object type or an interface. -/
def objectTypeMember (r : Rules) : Reader Node :=
  oneOf [indexSignature r .plain, constructSignature r .plain,
    node .callSignature (signature r .plain), methodSignature r .plain,
    propertySignature r .plain]

/-- Members in braces, between commas, semicolons or line breaks. -/
def objectType (r : Rules) (k : Kind) : Reader Node :=
  node k (oneOf [braced "\x7b" "\x7d", braced "\x7b|" "|\x7d"])
where
  /-- Members between two marks. -/
  braced (opening closing : String) : Pieces :=
    seq [glyph opening, opt (oneOf [sym ",", sym ";"]),
      opt (seq [sepBy1 (sub (objectTypeMember r)) separator, opt separator]), glyph closing]
  /-- What may stand between two members. -/
  separator : Pieces := oneOf [sym ",", semicolon .plain]

/-! ### Operands -/

/-- The words for built-in types. -/
def predefinedTypes : List String :=
  ["any", "number", "boolean", "string", "symbol", "void", "unknown", "never", "object"]

/-- A built-in type. -/
def predefinedType : Reader Node :=
  oneOf [
    node .predefinedType (seq [kw "unique", kw "symbol"]),
    (do
      let w ← name .anonymous
      if predefinedTypes.contains w.text then return .branch .predefinedType none [w]
      else failure)]

/-- A literal as a type. -/
def literalType : Reader Node :=
  node .literalType (sub (oneOf [
    node .unaryExpression
      (seq [field .operator (token .anonymous
        (fun cs => (Lexeme.exactly ['-'] cs).or (Lexeme.exactly ['+'] cs))),
        field .argument numberLiteral]),
    numberLiteral, stringLiteral,
    token .trueValue (Lexeme.keyword "true"), token .falseValue (Lexeme.keyword "false"),
    token .nullValue (Lexeme.keyword "null"),
    token .undefinedValue (Lexeme.keyword "undefined")]))

/-- One member of a tuple type. -/
def tupleMember (r : Rules) : Reader Node :=
  oneOf [
    node .requiredParameter
      (seq [field .name (oneOf [restName, name .identifier]),
        field .type (ascription r .never)]),
    node .optionalParameter
      (seq [field .name (name .identifier), sym "?", field .type (ascription r .never)]),
    node .restType (seq [sym "...", sub (r.type .never)]),
    (do
      let t ← r.type .never
      around .optionalType t (sym "?") <|> pure t)]
where
  /-- A name after three dots. -/
  restName : Reader Node := node .restPattern (seq [sym "...", sub (name .identifier)])

/-- A tuple type. -/
def tupleType (r : Rules) : Reader Node :=
  node .tupleType
    (seq [sym "[", opt (sepBy1 (sub (tupleMember r)) (sym ",")), opt (sym ","), sym "]"])

/-- A template literal whose substitutions are types. -/
def templateLiteralType (r : Rules) : Reader Node :=
  node .templateLiteralType
    (seq [glyph "\x60",
      star (oneOf [
        (fun n => [n]) <$> tight .stringFragment Lexeme.templateChars,
        (fun n => [n]) <$> tight .escapeSequence Lexeme.escapeSequence,
        (fun n => [n]) <$> node .templateType
          (seq [(fun n => [n]) <$> tight .anonymous (Lexeme.exactly ['$', '\x7b']),
            sub (r.type .never), sym "\x7d"])]),
      (fun n => [n]) <$> tight .anonymous (Lexeme.exactly ['\x60'])])

/-- The value whose type `typeof` takes. -/
def typeQuery (r : Rules) (e : Ending) : Reader Node :=
  node .typeQuery
    (seq [kw "typeof", sub (do
      let first ← oneOf [importCall, thisName, name .identifier]
      let links ← many (further e link)
      let chain := links.foldl extend first
      (do
        let args ← further e (field .typeArguments (typeArguments r))
        return .branch .instantiationExpression none (chain.withRole .function :: args))
        <|> pure chain)])
where
  /-- A module taken by name. -/
  importCall : Reader Node :=
    node .callExpression (seq [field .function (token .importFunction (Lexeme.keyword "import")),
      field .arguments (node .arguments (seq [sym "(", sub stringLiteral, sym ")"]))])
  /-- An access to a property or an element. -/
  link : Pieces :=
    oneOf [
      seq [oneOf [sym ".", sym "?."], field .property (oneOf [
        token .privatePropertyIdentifier Lexeme.privateName, name .propertyIdentifier])],
      seq [opt (sym "?."), sym "[",
        field .index (oneOf [predefinedType, stringLiteral, numberLiteral]), sym "]"]]
  /-- The chain with one more access. -/
  extend (object : Node) (link : List Node) : Node :=
    let k := if link.any fun n => n.role == some .index then Kind.subscriptExpression
      else .memberExpression
    .branch k none (object.withRole .object :: link)

/-- A type taken from a module by name. -/
def importedType (e : Ending) : Reader Node := do
  let call ← node .callExpression
    (seq [field .function (token .importFunction (Lexeme.keyword "import")),
      field .arguments (node .arguments (seq [sym "(", sub stringLiteral, sym ")"]))])
  let links ← many (further e (seq [sym ".", field .property (name .propertyIdentifier)]))
  return links.foldl
    (fun object link => .branch .memberExpression none (object.withRole .object :: link)) call

/-- A named type: a name, or names joined by dots, with its arguments. -/
def namedType (r : Rules) (e : Ending) : Reader Node := do
  let first ← typeName
  let links ← many (further e (seq [sym ".", sub (name .typeIdentifier)]))
  let path := qualify first links
  (do
    let args ← further e (field .typeArguments (typeArguments r))
    return .branch .genericType none (path.withRole .name :: args))
    <|> pure path
where
  /-- The names before the last dot stand for modules. -/
  qualify (first : Node) (links : List (List Node)) : Node :=
    match links.reverse with
    | [] => first
    | last :: before =>
      let scope := before.reverse.foldl
        (fun object link =>
          .branch .nestedIdentifier none
            (object.withRole .object
              :: link.map fun n =>
                if n.kind == .typeIdentifier then
                  (n.withKind .propertyIdentifier).withRole .property
                else n))
        (first.withKind .identifier)
      .branch .nestedTypeIdentifier none
        (scope.withRole .module
          :: last.map fun n => if n.kind == .typeIdentifier then n.withRole .name else n)

/-- Brackets after a type: an array, or a lookup of a member. -/
def typeBrackets (r : Rules) (e : Ending) (first : Node) : Reader Node := do
  let brackets ← many (further e (oneOf [
    seq [sym "[", sym "]"],
    seq [sym "[", sub (r.type .never), sym "]"]]))
  return brackets.foldl
    (fun t ns =>
      let k := if ns.any fun n => n.isNamed && !n.isComment then Kind.lookupType else .arrayType
      .branch k none (t :: ns))
    first

/-- A type without operators in front of it. -/
def primaryType (r : Rules) (e : Ending) : Reader Node := do
  let first ← oneOf [
    literalType, predefinedType, typeQuery r e,
    token .thisType (Lexeme.keyword "this"),
    importedType e,
    namedType r e,
    objectType r .objectType, tupleType r, templateLiteralType r,
    node .parenthesizedType (seq [sym "(", sub (r.type .never), sym ")"]),
    token .existentialType (Lexeme.symbol "*"),
    node .flowMaybeType (seq [sym "?", sub (r.typeOperand e)]),
    token .anonymous (Lexeme.keyword "const")]
  typeBrackets r e first

/-- The type of a function. -/
def functionType (r : Rules) (e : Ending) : Reader Node :=
  node .functionType
    (seq [opt (field .typeParameters (typeParameters r)), field .parameters (formalParameters r),
      sym "=>",
      field .returnType (oneOf [assertsClause r e, typePredicate r e, r.type e])])

/-- The type of a constructor. -/
def constructorType (r : Rules) (e : Ending) : Reader Node :=
  node .constructorType
    (seq [opt (kw "abstract"), kw "new", opt (field .typeParameters (typeParameters r)),
      field .parameters (formalParameters r), sym "=>", field .type (r.type e)])

/-- A type up to its operators in front. -/
def typeOperand (r : Rules) (e : Ending) : Reader Node :=
  oneOf [
    functionType r e, constructorType r e,
    node .readonlyType (seq [kw "readonly", sub (r.type e)]),
    node .inferType (seq [kw "infer", sub (name .typeIdentifier),
      opt (seq [kw "extends", sub (r.type e)])]),
    node .indexTypeQuery (seq [kw "keyof", sub (r.typeOperand e)]),
    primaryType r e]

/-! ### Operators -/

/-- Operands joined by one mark, nested to the left; a leading mark makes a node of its own. -/
def joined (k : Kind) (m : String) (e : Ending) (operand : Reader Node) : Reader Node := do
  let first ← oneOf [node k (seq [glyph m, sub operand]), operand]
  let more ← many (further e (seq [glyph m, sub operand]))
  return more.foldl (fun left ns => .branch k none (left :: ns)) first

/-- A union of intersections. -/
def unionType (r : Rules) (e : Ending) : Reader Node :=
  joined .unionType "|" e (joined .intersectionType "&" e (r.typeOperand e))

/-- A type. -/
def type (r : Rules) (e : Ending) : Reader Node := do
  let left ← unionType r e
  (do
    let ns ← further e (seq [kw "extends", field .right (unionType r .never), sym "?",
      field .consequence (r.type .never), sym ":", field .alternative (r.type e)])
    return .branch .conditionalType none (left.withRole .left :: ns))
    <|> pure left

end FlowAnalysis.Script.Grammar
