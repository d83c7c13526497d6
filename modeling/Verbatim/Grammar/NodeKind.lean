/-!
# Kinds of nodes

A parse reports every node that it finishes, children before parents, by its kind and extent.

## Main definitions

* `Verbatim.NodeKind`, `Verbatim.NodeKind.name` — the kinds and their names.
-/

namespace Verbatim

/-- The kinds of nodes. -/
inductive NodeKind where
  /-- A whole source. -/
  | program
  /-- A name. -/
  | identifier
  /-- A private name. -/
  | privateName
  /-- A literal. -/
  | literal
  /-- A static piece of a template. -/
  | templateElement
  /-- A template. -/
  | template
  /-- A template with its function. -/
  | taggedTemplate
  /-- The receiver of a call. -/
  | receiver
  /-- The superclass as callee or object. -/
  | superclass
  /-- An array literal. -/
  | array
  /-- An object literal. -/
  | object
  /-- A property of an object literal or pattern. -/
  | property
  /-- A spread element, argument or member. -/
  | spread
  /-- A function expression or the function of a method. -/
  | functionExpr
  /-- A function declaration. -/
  | functionDecl
  /-- An arrow function. -/
  | arrow
  /-- A class expression. -/
  | classExpr
  /-- A class declaration. -/
  | classDecl
  /-- A method of a class. -/
  | method
  /-- A field of a class. -/
  | field
  /-- A static block of a class. -/
  | staticBlock
  /-- An operator and its operand. -/
  | unary
  /-- A step of the operand. -/
  | update
  /-- An operator between operands. -/
  | binary
  /-- A logical operator between operands. -/
  | logical
  /-- An assignment. -/
  | assignment
  /-- A choice between two values. -/
  | conditional
  /-- Expressions separated by commas. -/
  | sequence
  /-- A call. -/
  | call
  /-- The creation of an object. -/
  | construct
  /-- A property access. -/
  | memberAccess
  /-- A pair of words that denotes a value of the context. -/
  | metaProperty
  /-- An import by a call. -/
  | importCall
  /-- An expression in parentheses. -/
  | parenthesized
  /-- A value handed to the consumer of a generator. -/
  | yield
  /-- A value waited for. -/
  | await
  /-- Targets for the elements of an array. -/
  | arrayPattern
  /-- Targets for the properties of an object. -/
  | objectPattern
  /-- A target with a default. -/
  | defaultPattern
  /-- A target for all that remains. -/
  | rest
  /-- An expression as statement. -/
  | exprStmt
  /-- A directive. -/
  | directive
  /-- A variable declaration. -/
  | variableDeclaration
  /-- A single variable of a declaration. -/
  | declarator
  /-- A block or the body of a function. -/
  | block
  /-- A lone semicolon. -/
  | emptyStmt
  /-- A branch. -/
  | ifStmt
  /-- A loop with a start, a test and a step. -/
  | forStmt
  /-- A loop over keys. -/
  | forInStmt
  /-- A loop over values. -/
  | forOfStmt
  /-- A loop with the test in front. -/
  | whileStmt
  /-- A loop with the test behind. -/
  | doWhileStmt
  /-- The end of a function. -/
  | returnStmt
  /-- The end of a loop, switch or labelled statement. -/
  | breakStmt
  /-- The end of one round of a loop. -/
  | continueStmt
  /-- The raising of an exception. -/
  | throwStmt
  /-- A block with a handler, a finalizer or both. -/
  | tryStmt
  /-- A handler. -/
  | catchClause
  /-- A choice between clauses. -/
  | switchStmt
  /-- A clause of a switch. -/
  | switchCase
  /-- A statement with a label. -/
  | labeledStmt
  /-- A stop for the debugger. -/
  | debuggerStmt
  /-- A statement that sees properties as variables. -/
  | withStmt
  /-- An import declaration. -/
  | importDecl
  /-- An entry of an import list. -/
  | importSpecifier
  /-- The import of a module as one object. -/
  | namespaceImport
  /-- The export of a declaration or of a list of names. -/
  | exportNamed
  /-- An entry of an export list. -/
  | exportSpecifier
  /-- The default export. -/
  | exportDefault
  /-- The export of everything another module exports. -/
  | exportAll
  /-- A name in markup. -/
  | tagIdent
  /-- A name within a namespace. -/
  | namespacedName
  /-- A member of another name in markup. -/
  | tagMember
  /-- An attribute. -/
  | attribute
  /-- A spread attribute. -/
  | spreadAttribute
  /-- An opening tag. -/
  | openingTag
  /-- A closing tag. -/
  | closingTag
  /-- An element. -/
  | element
  /-- A fragment. -/
  | fragment
  /-- Text between tags. -/
  | markupText
  /-- An expression in braces within markup. -/
  | container
  /-- The inside of empty braces within markup. -/
  | emptyExpr
  /-- A spread child. -/
  | spreadChild
deriving DecidableEq, Repr, Inhabited

/-- The name of a kind. -/
def NodeKind.name : NodeKind → String
  | .program => "Program"
  | .identifier => "Identifier"
  | .privateName => "PrivateIdentifier"
  | .literal => "Literal"
  | .templateElement => "TemplateElement"
  | .template => "TemplateLiteral"
  | .taggedTemplate => "TaggedTemplateExpression"
  | .receiver => "ThisExpression"
  | .superclass => "Super"
  | .array => "ArrayExpression"
  | .object => "ObjectExpression"
  | .property => "Property"
  | .spread => "SpreadElement"
  | .functionExpr => "FunctionExpression"
  | .functionDecl => "FunctionDeclaration"
  | .arrow => "ArrowFunctionExpression"
  | .classExpr => "ClassExpression"
  | .classDecl => "ClassDeclaration"
  | .method => "MethodDefinition"
  | .field => "PropertyDefinition"
  | .staticBlock => "StaticBlock"
  | .unary => "UnaryExpression"
  | .update => "UpdateExpression"
  | .binary => "BinaryExpression"
  | .logical => "LogicalExpression"
  | .assignment => "AssignmentExpression"
  | .conditional => "ConditionalExpression"
  | .sequence => "SequenceExpression"
  | .call => "CallExpression"
  | .construct => "NewExpression"
  | .memberAccess => "MemberExpression"
  | .metaProperty => "MetaProperty"
  | .importCall => "ImportExpression"
  | .parenthesized => "ParenthesizedExpression"
  | .yield => "YieldExpression"
  | .await => "AwaitExpression"
  | .arrayPattern => "ArrayPattern"
  | .objectPattern => "ObjectPattern"
  | .defaultPattern => "AssignmentPattern"
  | .rest => "RestElement"
  | .exprStmt => "ExpressionStatement"
  | .directive => "Directive"
  | .variableDeclaration => "VariableDeclaration"
  | .declarator => "VariableDeclarator"
  | .block => "BlockStatement"
  | .emptyStmt => "EmptyStatement"
  | .ifStmt => "IfStatement"
  | .forStmt => "ForStatement"
  | .forInStmt => "ForInStatement"
  | .forOfStmt => "ForOfStatement"
  | .whileStmt => "WhileStatement"
  | .doWhileStmt => "DoWhileStatement"
  | .returnStmt => "ReturnStatement"
  | .breakStmt => "BreakStatement"
  | .continueStmt => "ContinueStatement"
  | .throwStmt => "ThrowStatement"
  | .tryStmt => "TryStatement"
  | .catchClause => "CatchClause"
  | .switchStmt => "SwitchStatement"
  | .switchCase => "SwitchCase"
  | .labeledStmt => "LabeledStatement"
  | .debuggerStmt => "DebuggerStatement"
  | .withStmt => "WithStatement"
  | .importDecl => "ImportDeclaration"
  | .importSpecifier => "ImportSpecifier"
  | .namespaceImport => "ImportNamespaceSpecifier"
  | .exportNamed => "ExportNamedDeclaration"
  | .exportSpecifier => "ExportSpecifier"
  | .exportDefault => "ExportDefaultDeclaration"
  | .exportAll => "ExportAllDeclaration"
  | .tagIdent => "JSXIdentifier"
  | .namespacedName => "JSXNamespacedName"
  | .tagMember => "JSXMemberExpression"
  | .attribute => "JSXAttribute"
  | .spreadAttribute => "JSXSpreadAttribute"
  | .openingTag => "JSXOpeningElement"
  | .closingTag => "JSXClosingElement"
  | .element => "JSXElement"
  | .fragment => "JSXFragment"
  | .markupText => "JSXText"
  | .container => "JSXExpressionContainer"
  | .emptyExpr => "JSXEmptyExpression"
  | .spreadChild => "JSXSpreadChild"

end Verbatim
