import FlowAnalysis.Script.Grammar.Expressions

/-!
# Statements and declarations

Words such as `type`, `let` or `namespace` open a declaration where one can be read, and are names
elsewhere, so declarations are tried before expressions.
-/

namespace FlowAnalysis.Script.Grammar

open Reader

/-! ### Blocks -/

/-- Statements one after the other. -/
def statements (r : Rules) : Pieces := star (sub (oneOf [markupComment, r.statement]))

/-- Statements in braces.  A block also takes the comments up to an automatic semicolon. -/
def block (r : Rules) (e : Ending) : Reader Node :=
  node .statementBlock
    (seq [sym "\x7b", statements r, sym "\x7d", supplied e])

/-! ### Variables -/

/-- One variable with its type and its initial value. -/
def declarator (r : Rules) (barred : List String) : Reader Node :=
  node .variableDeclarator (oneOf [
    seq [field .name (boundName barred), further .plain (sym "!"),
      field .type (ascription r .plain)],
    seq [field .name (binding r barred), opt (further .plain (field .type (ascription r .plain))),
      opt (further .plain (initializer r .tail))]])

/-- Variables between commas and the end of their declaration.  The first name is not one of the
words that could follow the keyword otherwise. -/
def declarators (r : Rules) (barred : List String) : Pieces := do
  let ns ← seq [sub (declarator r barred),
    star (seq [further .expression (sym ","), sub (declarator r [])])]
  let valued := (ns.getLast?.bind (·.child? .value)).isSome
  let last ← semicolon (if valued then .expression else .plain)
  return ns ++ last

/-- A declaration with `let` or `const`. -/
def lexicalDeclaration (r : Rules) : Reader Node :=
  node .lexicalDeclaration (oneOf [
    seq [fields .kind (kw "let"), declarators r operatorWords],
    seq [fields .kind (kw "const"), declarators r ["enum"]]])

/-- A declaration with `var`. -/
def variableDeclaration (r : Rules) : Reader Node :=
  node .variableDeclaration (seq [kw "var", declarators r []])

/-! ### Functions and classes -/

/-- A function with its body. -/
def functionDeclaration (r : Rules) : Reader Node := do
  let head ← seq [opt (kw "async"), kw "function"]
  let star ← opt (sym "*")
  let rest ← seq [field .name (name .identifier), signature r .never,
    field .body (r.block .plain), supplied .plain]
  let k := if star.isEmpty then Kind.functionDeclaration else .generatorFunctionDeclaration
  return .branch k none (head ++ star ++ rest)

/-- A function without a body. -/
def functionSignature (r : Rules) : Reader Node :=
  node .functionSignature
    (seq [opt (kw "async"), kw "function", field .name (name .identifier), signature r .plain,
      semicolon .plain])

/-- A named class. -/
def classDeclaration (r : Rules) : Reader Node :=
  node .classDeclaration
    (seq [decorators r, kw "class", className, classRest r, supplied .plain])

/-- An abstract class. -/
def abstractClassDeclaration (r : Rules) : Reader Node :=
  node .abstractClassDeclaration
    (seq [decorators r, kw "abstract", kw "class", className, classRest r])

/-! ### Types, enumerations and namespaces -/

/-- A name for a type. -/
def typeAlias (r : Rules) : Reader Node :=
  node .typeAliasDeclaration
    (seq [kw "type", field .name typeName, opt (field .typeParameters (typeParameters r)),
      sym "=", field .value (r.type .plain), semicolon .plain])

/-- An interface. -/
def interface (r : Rules) : Reader Node :=
  node .interfaceDeclaration
    (seq [kw "interface", field .name typeName, opt (field .typeParameters (typeParameters r)),
      opt (sub (node .extendsTypeClause
        (seq [kw "extends", sepBy1 (field .type (namedType r .never)) (sym ",")]))),
      field .body (objectType r .interfaceBody)])

/-- An enumeration. -/
def enumeration (r : Rules) : Reader Node :=
  node .enumDeclaration
    (seq [opt (kw "const"), kw "enum", field .name (name .identifier),
      field .body (node .enumBody
        (seq [sym "\x7b", opt (seq [sepBy1 member (sym ","), opt (sym ",")]), sym "\x7d"]))])
where
  /-- A member with or without a value. -/
  member : Pieces :=
    oneOf [
      sub (node .enumAssignment (seq [field .name (propertyName r), initializer r .inner])),
      field .name (propertyName r)]

/-- A name, or names joined by dots. -/
def nestedName : Reader Node := do
  let first ← freeName .identifier
  let links ← many (seq [sym ".", field .property (name .propertyIdentifier)])
  return nest first links
where
  /-- The names before the last dot form a property access. -/
  nest (first : Node) (links : List (List Node)) : Node :=
    match links.reverse with
    | [] => first
    | last :: before =>
      let object := before.reverse.foldl
        (fun object link => .branch .memberExpression none (object.withRole .object :: link))
        first
      .branch .nestedIdentifier none (object.withRole .object :: last)

/-- The name and the body of a namespace. -/
def moduleRest (r : Rules) : Pieces :=
  seq [field .name (oneOf [stringLiteral, nestedName]),
    opt (further .plain (field .body (r.block .plain)))]

/-- A namespace. -/
def internalModule (r : Rules) : Reader Node :=
  node .internalModule (seq [kw "namespace", moduleRest r])

/-- A module. -/
def moduleDeclaration (r : Rules) : Reader Node :=
  node .moduleDeclaration (seq [kw "module", moduleRest r])

/-- A name for a member of a namespace. -/
def importAlias : Reader Node :=
  node .importAlias
    (seq [kw "import", sub (name .identifier), sym "=", sub nestedName, semicolon .plain])

/-! ### Declarations -/

/-- Every declaration but those of ambient things. -/
def plainDeclaration (r : Rules) : Reader Node :=
  oneOf [functionDeclaration r, functionSignature r, classDeclaration r,
    abstractClassDeclaration r, enumeration r, lexicalDeclaration r, variableDeclaration r,
    typeAlias r, interface r, moduleDeclaration r, importAlias]

/-- A declaration of something that exists elsewhere. -/
def ambientDeclaration (r : Rules) : Reader Node :=
  node .ambientDeclaration
    (seq [kw "declare", oneOf [
      sub (plainDeclaration r), sub (internalModule r),
      seq [kw "global", sub (r.block .plain)],
      seq [kw "module", sym ".", sub (name .propertyIdentifier), sym ":", sub (r.type .plain),
        semicolon .plain]]])

/-- A declaration. -/
def declaration (r : Rules) : Reader Node :=
  oneOf [plainDeclaration r, ambientDeclaration r]

/-! ### Imports and exports -/

/-- `from` and the name of a module. -/
def fromClause : Pieces := seq [kw "from", field .source stringLiteral]

/-- A name that a module exports. -/
def exportedName : Reader Node := oneOf [name .identifier, stringLiteral]

/-- Names in braces. -/
def specifiers (p : Reader Node) : Pieces :=
  seq [sym "\x7b", opt (sepBy1 (sub p) (sym ",")), opt (sym ","), sym "\x7d"]

/-- A name with an optional new name. -/
def specifier (k : Kind) (newName : Reader Node) : Reader Node :=
  oneOf [
    node k (seq [oneOf [kw "type", kw "typeof"], field .name exportedName, renamed]),
    node k (seq [field .name exportedName, renamed])]
where
  /-- `as` and the new name; a name that stands alone ends at a comma or a brace. -/
  renamed : Pieces := do
    let ns ← opt (seq [kw "as", field .newName newName])
    ahead (oneOf [sym ",", sym "\x7d"])
    return ns

/-- The names that an import binds. -/
def importClause : Reader Node :=
  node .importClause (oneOf [
    sub group,
    seq [sub (name .identifier), opt (seq [sym ",", sub group])]])
where
  /-- All names of a module, or some of them. -/
  group : Reader Node :=
    oneOf [
      node .namespaceImport (seq [sym "*", kw "as", sub (name .identifier)]),
      node .namedImports (specifiers (specifier .importSpecifier (name .identifier)))]

/-- An import. -/
def importStatement (r : Rules) : Reader Node :=
  oneOf [
    statementWith (seq [oneOf [kw "type", kw "typeof"], subject]),
    statementWith subject]
where
  /-- What is imported. -/
  subject : Pieces :=
    oneOf [
      field .source stringLiteral,
      sub (node .importRequireClause
        (seq [sub (name .identifier), sym "=", kw "require", sym "(",
          field .source stringLiteral, sym ")"])),
      seq [sub importClause, fromClause]]
  /-- The statement with its attributes. -/
  statementWith (p : Pieces) : Reader Node :=
    node .importStatement
      (seq [kw "import", p,
        opt (further .plain (sub (node .importAttribute
          (seq [oneOf [kw "with", kw "assert"], sub (object r)])))),
        semicolon .plain])

/-- An export. -/
def exportStatement (r : Rules) : Reader Node :=
  oneOf [
    node .exportStatement
      (seq [kw "export", oneOf [
        seq [sym "*", fromClause],
        seq [sub (node .namespaceExport (seq [sym "*", kw "as", sub exportedName])), fromClause],
        clause,
        seq [kw "type", clause]], semicolon .plain]),
    node .exportStatement (seq [kw "export", sym "=", sub (r.expression .tail),
      semicolon .expression]),
    node .exportStatement (seq [kw "export", kw "as", kw "namespace", sub (name .identifier),
      semicolon .plain]),
    node .exportStatement
      (seq [decorators r, kw "export", oneOf [
        field .declaration (oneOf [declaration r, internalModule r]),
        seq [kw "default", oneOf [
          field .declaration (oneOf [declaration r, internalModule r]),
          seq [field .value (r.expression .tail), semicolon .expression]]]]])]
where
  /-- Names in braces, with or without the module they come from. -/
  clause : Pieces :=
    seq [sub (node .exportClause (specifiers (specifier .exportSpecifier exportedName))),
      opt fromClause]

/-! ### Control flow -/

/-- Names of the variables of a `for` over a collection. -/
def forHeader (r : Rules) : Pieces :=
  seq [sym "(",
    oneOf [
      seq [fields .kind (kw "var"), field .left (binding r []), opt (initializer r .inner)],
      seq [fields .kind (kw "let"), field .left (binding r operatorWords)],
      seq [fields .kind (kw "const"), field .left (binding r [])],
      field .left (oneOf [parenthesized r, r.pattern])],
    fields .operator (oneOf [kw "in", kw "of"]),
    field .right (expressions r .inner), sym ")"]

/-- A `for` over a collection. -/
def forInStatement (r : Rules) : Reader Node :=
  node .forInStatement
    (seq [kw "for", opt (kw "await"), forHeader r, field .body r.statement])

/-- An empty statement. -/
def emptyStatement : Reader Node := token .emptyStatement (Lexeme.symbol ";")

/-- A `for` with a start, a condition and a step. -/
def forStatement (r : Rules) : Reader Node :=
  node .forStatement
    (seq [kw "for", sym "(",
      oneOf [
        field .initializer emptyStatement,
        field .initializer (oneOf [lexicalDeclaration r, variableDeclaration r]),
        seq [field .initializer (expressions r .inner), sym ";"]],
      oneOf [
        field .condition emptyStatement,
        fields .condition (seq [sub (expressions r .inner), sym ";"])],
      opt (field .increment (expressions r .inner)), sym ")",
      field .body r.statement])

/-- One choice of a `switch`. -/
def switchChoice (r : Rules) : Reader Node :=
  oneOf [
    node .switchCase (seq [kw "case", field .value (expressions r (.branch true)), sym ":", body]),
    node .switchCase (seq [kw "case", field .value (expressions r (.branch false)), sym ":", body]),
    node .switchDefault (seq [kw "default", sym ":", body])]
where
  /-- The statements of the choice. -/
  body : Pieces := star (oneOf [sub markupComment, field .body r.statement])

/-- The statements that open with a reserved word. -/
def keywordStatement (r : Rules) : Reader Node :=
  oneOf [
    node .ifStatement
      (seq [kw "if", field .condition (parenthesized r), field .consequence r.statement,
        opt (field .alternative (node .elseClause (seq [kw "else", sub r.statement])))]),
    node .returnStatement
      (seq [kw "return", oneOf [semicolon .plain,
        seq [sub (expressions r .tail), semicolon .expression]]]),
    node .throwStatement
      (seq [kw "throw", sub (expressions r .tail), semicolon .expression]),
    forInStatement r,
    forStatement r,
    node .whileStatement
      (seq [kw "while", field .condition (parenthesized r), field .body r.statement]),
    node .doStatement
      (seq [kw "do", field .body r.statement, kw "while", field .condition (parenthesized r),
        opt (semicolon .plain)]),
    node .tryStatement
      (seq [kw "try", field .body (r.block .plain),
        opt (field .handler (node .catchClause
          (seq [kw "catch",
            opt (seq [sym "(", field .parameter (binding r []),
              opt (field .type (ascription r .never)), sym ")"]),
            field .body (r.block .plain)]))),
        opt (field .finalizer (node .finallyClause
          (seq [kw "finally", field .body (r.block .plain)])))]),
    node .switchStatement
      (seq [kw "switch", field .value (parenthesized r),
        field .body (node .switchBody
          (seq [sym "\x7b", star (sub (switchChoice r)), sym "\x7d"]))]),
    jump .breakStatement "break",
    jump .continueStatement "continue",
    node .debuggerStatement (seq [kw "debugger", semicolon .plain]),
    node .withStatement
      (seq [kw "with", field .object (parenthesized r), field .body r.statement])]
where
  /-- A jump, to a label or without one. -/
  jump (k : Kind) (w : String) : Reader Node :=
    node k (seq [kw w, oneOf [semicolon .plain,
      seq [field .label (freeName .statementIdentifier), semicolon .plain]]])

/-- An expression as a statement. -/
def expressionStatement (r : Rules) : Reader Node :=
  oneOf [
    node .expressionStatement (seq [sub (internalModule r), semicolon .expression]),
    node .expressionStatement (seq [sub (expressions r .tail), semicolon .expression])]

/-- A statement with a label. -/
def labeledStatement (r : Rules) : Reader Node :=
  node .labeledStatement
    (seq [field .label (freeName .statementIdentifier), sym ":", field .body r.statement])

/-- A statement that can start with a name.  Words that open a declaration are no names there, and
empty braces are no object. -/
def openStatement (r : Rules) : Reader Node := do
  absent (oneOf [kw "interface", kw "abstract", seq [sym "\x7b", sym "\x7d"]])
  oneOf [labeledStatement r, expressionStatement r]

/-- A statement. -/
def statement (r : Rules) : Reader Node :=
  oneOf [emptyStatement, objectFirst (expressionStatement r), r.block .plain, keywordStatement r,
    exportStatement r, importStatement r, declaration r, openStatement r]

end FlowAnalysis.Script.Grammar
