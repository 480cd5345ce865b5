/-!
# Kinds and roles of syntax nodes

A script is read into a concrete syntax tree.  Every node has a `Kind`: the construct it stands for,
or `anonymous` for a keyword or a punctuation mark, which is told apart by its spelling alone.  A
child may also have a `Role`, the part it plays in its parent (the condition of an `if`, the body of
a loop, the name of a declaration).
-/

namespace FlowAnalysis.Script

/-- The construct that a syntax node stands for. -/
inductive Kind where
  -- lexical
  | anonymous | comment | markupComment | hashBang
  | identifier | propertyIdentifier | privatePropertyIdentifier | statementIdentifier
  | typeIdentifier | shorthandProperty | shorthandPattern
  | number | string | regex | templateString | stringFragment | escapeSequence
  | templateSubstitution
  | thisValue | superValue | trueValue | falseValue | nullValue | undefinedValue
  | importFunction | metaProperty
  -- modules
  | program | exportStatement | namespaceExport | exportClause | exportSpecifier
  | importStatement | importClause | namespaceImport | namedImports | importSpecifier
  | importAttribute | importRequireClause | importAlias
  -- statements
  | expressionStatement | variableDeclaration | lexicalDeclaration | variableDeclarator
  | statementBlock | elseClause | ifStatement | switchStatement | switchBody | switchCase
  | switchDefault | forStatement | forInStatement | whileStatement | doStatement | tryStatement
  | catchClause | finallyClause | withStatement | breakStatement | continueStatement
  | debuggerStatement | returnStatement | throwStatement | emptyStatement | labeledStatement
  -- expressions
  | parenthesizedExpression | yieldExpression | object | array | pair | spreadElement
  | functionExpression | generatorFunction | arrowFunction | callExpression | newExpression
  | awaitExpression | memberExpression | subscriptExpression | optionalChain
  | assignmentExpression | augmentedAssignmentExpression | ternaryExpression | binaryExpression
  | unaryExpression | updateExpression | sequenceExpression | nonNullExpression | typeAssertion
  | asExpression | satisfiesExpression | instantiationExpression | arguments
  -- patterns
  | objectPattern | arrayPattern | assignmentPattern | objectAssignmentPattern | pairPattern
  | restPattern
  -- functions, classes, declarations
  | functionDeclaration | generatorFunctionDeclaration | functionSignature
  | formalParameters | requiredParameter | optionalParameter
  | classExpression | classDeclaration | abstractClassDeclaration | classHeritage | extendsClause
  | implementsClause | classBody | classStaticBlock | methodDefinition | publicFieldDefinition
  | methodSignature | abstractMethodSignature | computedPropertyName | decorator
  | accessibilityModifier | overrideModifier
  | ambientDeclaration | moduleDeclaration | internalModule | nestedIdentifier
  | interfaceDeclaration | interfaceBody | extendsTypeClause | enumDeclaration | enumBody
  | enumAssignment | typeAliasDeclaration
  -- types
  | typeAscription | omittingAscription | addingAscription | optingAscription
  | assertsClause | assertsAscription | typePredicate | typePredicateAscription
  | nestedTypeIdentifier | genericType | predefinedType | literalType | objectType | arrayType
  | tupleType | optionalType | restType | unionType | intersectionType | functionType
  | constructorType | conditionalType | readonlyType | inferType | typeQuery | indexTypeQuery
  | lookupType | parenthesizedType | thisType | existentialType | flowMaybeType
  | templateLiteralType | templateType | typeArguments | typeParameters | typeParameter
  | constraint | defaultType | propertySignature | callSignature | constructSignature
  | indexSignature | mappedTypeClause
deriving DecidableEq, Repr, Inhabited

/-- The part that a child plays in its parent. -/
inductive Role where
  | name | value | body | condition | consequence | alternative | initializer | increment
  | left | right | operator | kind | handler | finalizer | parameter | parameters | returnType
  | typeParameters | typeArguments | function | arguments | constructor | object | property
  | index | optionalChain | argument | decorator | declaration | source | newName | key | pattern
  | type | label | module | constraint | indexType | sign
deriving DecidableEq, Repr, Inhabited

end FlowAnalysis.Script
