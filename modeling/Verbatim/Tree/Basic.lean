import Verbatim.Options.Basic
import Verbatim.Tree.Leaf
import Verbatim.Tree.Operator

/-!
# The syntax tree

All constructs of the language form one family `Tree`, indexed by what kind of construct a tree is:
`Tree .expr` holds the expressions, `Tree .stmt` the statements, `Tree (.many c)` the lists of
constructs of kind `c`, and so on. One family, in place of thirty mutually recursive types, makes
every traversal one recursive function and every statement about all trees one induction.

A tree records the trivia in front of each token that it owns, in a field named for the token; the
trivia in front of the first token of a part belongs to the part. Items separated by commas come
with the list of the commas as they were written. So a tree holds all that is needed to print the
source it was read from.

## Main definitions

* `Verbatim.Category` — the kinds of constructs.
* `Verbatim.Tree` — the trees.
* `Verbatim.Tree.toList`, `Verbatim.Tree.ofList` — lists of trees as lists.
* `Verbatim.Program` — a whole source.
-/

namespace Verbatim

/-- The kinds of constructs. -/
inductive Category where
  /-- Expressions. -/
  | expr
  /-- Template literals. -/
  | template
  /-- Argument lists. -/
  | arguments
  /-- Members of object literals. -/
  | member
  /-- Keys of properties and methods. -/
  | key
  /-- What follows the object in a property access. -/
  | access
  /-- Parameter lists. -/
  | params
  /-- Bodies of functions. -/
  | body
  /-- Functions. -/
  | function
  /-- Parameters of arrow functions. -/
  | arrowParams
  /-- Bodies of arrow functions. -/
  | arrowBody
  /-- Superclasses. -/
  | heritage
  /-- Classes. -/
  | classDef
  /-- Members of classes. -/
  | classMember
  /-- Values given to variables and fields. -/
  | initializer
  /-- Binding and assignment targets. -/
  | pattern
  /-- Members of object patterns. -/
  | patternMember
  /-- Statements. -/
  | stmt
  /-- Blocks. -/
  | block
  /-- Alternatives of branches. -/
  | elseClause
  /-- Variable declarations. -/
  | declaration
  /-- Single variables of a declaration. -/
  | declarator
  /-- What a loop starts with. -/
  | forInit
  /-- What a loop over values assigns to. -/
  | forTarget
  /-- Handlers. -/
  | catchClause
  /-- Parameters of handlers. -/
  | catchParam
  /-- Finalizers. -/
  | finallyClause
  /-- Clauses of a switch. -/
  | switchCase
  /-- What a module exports by default. -/
  | exportValue
  /-- Markup elements. -/
  | element
  /-- Markup fragments. -/
  | fragment
  /-- Attributes of elements. -/
  | attribute
  /-- Values of attributes. -/
  | attributeValue
  /-- Expressions in braces within markup. -/
  | container
  /-- Contents of elements and fragments. -/
  | child
  /-- Lists. -/
  | many (c : Category)
  /-- Parts that may be absent. -/
  | maybe (c : Category)
deriving DecidableEq, Repr

/-- The trees of each kind. -/
inductive Tree : Category → Type where
  /-- The empty list. -/
  | nil {c : Category} : Tree (.many c)
  /-- A list with a first item. -/
  | cons {c : Category} (head : Tree c) (tail : Tree (.many c)) : Tree (.many c)
  /-- An absent part. -/
  | absent {c : Category} : Tree (.maybe c)
  /-- A present part. -/
  | present {c : Category} (part : Tree c) : Tree (.maybe c)
  /-- A reference to a name. -/
  | identifier (id : Ident) : Tree .expr
  /-- A literal. -/
  | literal (lit : Literal) : Tree .expr
  /-- A template. -/
  | template (t : Tree .template) : Tree .expr
  /-- A template with a function to interpret it. -/
  | tagged (tag : Tree .expr) (quasi : Tree .template) (span : Span) : Tree .expr
  /-- The receiver of a call. -/
  | receiver (lead : String) (span : Span) : Tree .expr
  /-- The superclass as callee or object. -/
  | superclass (lead : String) (span : Span) : Tree .expr
  /-- An array literal; an absent element is a hole. -/
  | array (lead : String) (elements : Tree (.many (.maybe .expr))) (separators : List String)
      (closeLead : String) (span : Span) : Tree .expr
  /-- An object literal. -/
  | object (lead : String) (members : Tree (.many .member)) (separators : List String)
      (closeLead : String) (span : Span) : Tree .expr
  /-- A function expression. -/
  | functionExpr (f : Tree .function) : Tree .expr
  /-- An arrow function. -/
  | arrow (isAsync : Bool) (asyncLead : String) (params : Tree .arrowParams) (arrowLead : String)
      (body : Tree .arrowBody) (span : Span) : Tree .expr
  /-- A class expression. -/
  | classExpr (c : Tree .classDef) : Tree .expr
  /-- An operator and its operand. -/
  | unary (lead : String) (op : UnaryOp) (operand : Tree .expr) (span : Span) : Tree .expr
  /-- A step of the operand, before or after its value is taken. -/
  | update (op : UpdateOp) (isBefore : Bool) (opLead : String) (operand : Tree .expr)
      (span : Span) : Tree .expr
  /-- An operator between operands. -/
  | binary (left : Tree .expr) (opLead : String) (op : BinaryOp) (right : Tree .expr)
      (span : Span) : Tree .expr
  /-- An assignment. -/
  | assignment (target : Tree .pattern) (opLead : String) (op : AssignOp) (value : Tree .expr)
      (span : Span) : Tree .expr
  /-- A choice between two values. -/
  | conditional (test : Tree .expr) (questionLead : String) (consequent : Tree .expr)
      (colonLead : String) (alternate : Tree .expr) (span : Span) : Tree .expr
  /-- Expressions separated by commas. -/
  | sequence (items : Tree (.many .expr)) (separators : List String) (span : Span) : Tree .expr
  /-- A call. -/
  | call (callee : Tree .expr) (isOptional : Bool) (optionalLead : String)
      (args : Tree .arguments) (span : Span) : Tree .expr
  /-- The creation of an object. -/
  | construct (lead : String) (callee : Tree .expr) (args : Tree (.maybe .arguments))
      (span : Span) : Tree .expr
  /-- A property access. -/
  | memberAccess (object : Tree .expr) (isOptional : Bool) (dotLead : String)
      (property : Tree .access) (span : Span) : Tree .expr
  /-- A pair of words that denotes a value of the context. -/
  | metaProperty (subject : Ident) (dotLead : String) (property : Ident) (span : Span) : Tree .expr
  /-- An import by a call. -/
  | importCall (lead openLead : String) (source : Tree .expr) (closeLead : String)
      (span : Span) : Tree .expr
  /-- An expression in parentheses. -/
  | parenthesized (lead : String) (inner : Tree .expr) (closeLead : String) (span : Span) :
      Tree .expr
  /-- All values of the operand, in a list of elements or arguments. -/
  | spread (lead : String) (operand : Tree .expr) (span : Span) : Tree .expr
  /-- A value handed to the consumer of a generator. -/
  | yield (lead : String) (starLead : Option String) (operand : Tree (.maybe .expr))
      (span : Span) : Tree .expr
  /-- A value waited for. -/
  | await (lead : String) (operand : Tree .expr) (span : Span) : Tree .expr
  /-- A markup element. -/
  | elementExpr (e : Tree .element) : Tree .expr
  /-- A markup fragment. -/
  | fragmentExpr (f : Tree .fragment) : Tree .expr
  /-- A parenthesised group that may yet turn out to be a parameter list. -/
  | cover (asyncLead : Option String) (openLead : String) (items : Tree (.many .expr))
      (separators : List String) (closeLead : String) (span : Span) : Tree .expr
  /-- The pieces of a template and the expressions between them. -/
  | templateLit (quasis : List Quasi) (exprs : Tree (.many .expr)) (span : Span) : Tree .template
  /-- Arguments in parentheses. -/
  | argumentList (openLead : String) (items : Tree (.many .expr)) (separators : List String)
      (closeLead : String) : Tree .arguments
  /-- A property, method or accessor. The value of a shorthand property carries the only spelling
  of its name. -/
  | property (modifiers : Modifiers) (key : Tree .key) (value : Tree .expr) (kind : PropertyKind)
      (isMethod isShorthand : Bool) (colonLead : String) (span : Span) : Tree .member
  /-- All properties of the operand. -/
  | spreadMember (lead : String) (operand : Tree .expr) (span : Span) : Tree .member
  /-- A name as key. -/
  | nameKey (id : Ident) : Tree .key
  /-- A string or number as key. -/
  | literalKey (lit : Literal) : Tree .key
  /-- A private name as key. -/
  | privateKey (name : PrivateName) : Tree .key
  /-- An expression in brackets as key. -/
  | computedKey (openLead : String) (inner : Tree .expr) (closeLead : String) : Tree .key
  /-- Access by name. -/
  | nameAccess (id : Ident) : Tree .access
  /-- Access by private name. -/
  | privateAccess (name : PrivateName) : Tree .access
  /-- Access by the value of an expression in brackets. -/
  | computedAccess (openLead : String) (inner : Tree .expr) (closeLead : String) : Tree .access
  /-- Parameters in parentheses. -/
  | paramList (openLead : String) (items : Tree (.many .pattern)) (separators : List String)
      (closeLead : String) : Tree .params
  /-- The statements of a function in braces. -/
  | bodyBlock (openLead : String) (stmts : Tree (.many .stmt)) (closeLead : String) (span : Span) :
      Tree .body
  /-- A function, as declaration, expression or method. -/
  | function (head : FunctionHead) (params : Tree .params) (body : Tree .body) (span : Span) :
      Tree .function
  /-- One parameter without parentheses. -/
  | bareParam (id : Ident) : Tree .arrowParams
  /-- Parameters in parentheses. -/
  | listedParams (params : Tree .params) : Tree .arrowParams
  /-- Statements in braces. -/
  | blockBody (body : Tree .body) : Tree .arrowBody
  /-- The value of an expression. -/
  | exprBody (value : Tree .expr) : Tree .arrowBody
  /-- The class that another extends. -/
  | heritage (lead : String) (base : Tree .expr) : Tree .heritage
  /-- A class. -/
  | classDef (lead : String) (name : Option Ident) (base : Tree (.maybe .heritage))
      (openLead : String) (members : Tree (.many .classMember)) (closeLead : String) (span : Span) :
      Tree .classDef
  /-- A method, accessor or constructor. -/
  | method (modifiers : Modifiers) (kind : MethodKind) (key : Tree .key) (value : Tree .function)
      (span : Span) : Tree .classMember
  /-- A field. -/
  | field (modifiers : Modifiers) (key : Tree .key) (value : Tree (.maybe .initializer))
      (terminator : Terminator) (span : Span) : Tree .classMember
  /-- Statements that run when the class is made. -/
  | staticBlock (lead openLead : String) (stmts : Tree (.many .stmt)) (closeLead : String)
      (span : Span) : Tree .classMember
  /-- A semicolon between members. -/
  | strayTerminator (lead : String) (span : Span) : Tree .classMember
  /-- A value behind an equals sign. -/
  | initializer (lead : String) (value : Tree .expr) : Tree .initializer
  /-- A name to bind or assign. -/
  | namePattern (id : Ident) : Tree .pattern
  /-- An expression to assign to. -/
  | exprPattern (target : Tree .expr) : Tree .pattern
  /-- Targets for the elements of an array; an absent one is a hole. -/
  | arrayPattern (lead : String) (elements : Tree (.many (.maybe .pattern)))
      (separators : List String) (closeLead : String) (span : Span) : Tree .pattern
  /-- Targets for the properties of an object. -/
  | objectPattern (lead : String) (members : Tree (.many .patternMember))
      (separators : List String) (closeLead : String) (span : Span) : Tree .pattern
  /-- A target with a default. -/
  | defaultPattern (target : Tree .pattern) (eqLead : String) (value : Tree .expr) (span : Span) :
      Tree .pattern
  /-- A target for all that remains. -/
  | restPattern (lead : String) (target : Tree .pattern) (span : Span) : Tree .pattern
  /-- A target for one property. -/
  | patternProperty (key : Tree .key) (value : Tree .pattern) (isShorthand : Bool)
      (colonLead : String) (span : Span) : Tree .patternMember
  /-- A target for all remaining properties. -/
  | restMember (lead : String) (target : Tree .pattern) (span : Span) : Tree .patternMember
  /-- An expression, or a directive with its raw text. -/
  | exprStmt (value : Tree .expr) (directive : Option String) (terminator : Terminator)
      (span : Span) : Tree .stmt
  /-- A variable declaration. -/
  | declarationStmt (d : Tree .declaration) : Tree .stmt
  /-- A function declaration. -/
  | functionStmt (f : Tree .function) : Tree .stmt
  /-- A class declaration. -/
  | classStmt (c : Tree .classDef) : Tree .stmt
  /-- A block. -/
  | blockStmt (b : Tree .block) : Tree .stmt
  /-- A lone semicolon. -/
  | emptyStmt (lead : String) (span : Span) : Tree .stmt
  /-- A branch. -/
  | ifStmt (lead openLead : String) (test : Tree .expr) (closeLead : String)
      (consequent : Tree .stmt) (alternate : Tree (.maybe .elseClause)) (span : Span) : Tree .stmt
  /-- A loop with a start, a test and a step. -/
  | forStmt (lead openLead : String) (init : Tree (.maybe .forInit)) (firstLead : String)
      (test : Tree (.maybe .expr)) (secondLead : String) (update : Tree (.maybe .expr))
      (closeLead : String) (body : Tree .stmt) (span : Span) : Tree .stmt
  /-- A loop over keys. -/
  | forInStmt (lead openLead : String) (left : Tree .forTarget) (inLead : String)
      (right : Tree .expr) (closeLead : String) (body : Tree .stmt) (span : Span) : Tree .stmt
  /-- A loop over values. -/
  | forOfStmt (lead : String) (awaitLead : Option String) (openLead : String)
      (left : Tree .forTarget) (ofLead : String) (right : Tree .expr) (closeLead : String)
      (body : Tree .stmt) (span : Span) : Tree .stmt
  /-- A loop with the test in front. -/
  | whileStmt (lead openLead : String) (test : Tree .expr) (closeLead : String)
      (body : Tree .stmt) (span : Span) : Tree .stmt
  /-- A loop with the test behind. -/
  | doWhileStmt (lead : String) (body : Tree .stmt) (whileLead openLead : String)
      (test : Tree .expr) (closeLead : String) (terminator : Terminator) (span : Span) : Tree .stmt
  /-- The end of a function. -/
  | returnStmt (lead : String) (value : Tree (.maybe .expr)) (terminator : Terminator)
      (span : Span) : Tree .stmt
  /-- The end of a loop, switch or labelled statement. -/
  | breakStmt (lead : String) (label : Option Ident) (terminator : Terminator) (span : Span) :
      Tree .stmt
  /-- The end of one round of a loop. -/
  | continueStmt (lead : String) (label : Option Ident) (terminator : Terminator) (span : Span) :
      Tree .stmt
  /-- The raising of an exception. -/
  | throwStmt (lead : String) (value : Tree .expr) (terminator : Terminator) (span : Span) :
      Tree .stmt
  /-- A block with a handler, a finalizer or both. -/
  | tryStmt (lead : String) (block : Tree .block) (handler : Tree (.maybe .catchClause))
      (finalizer : Tree (.maybe .finallyClause)) (span : Span) : Tree .stmt
  /-- A choice between clauses. -/
  | switchStmt (lead openLead : String) (subject : Tree .expr) (closeLead openBraceLead : String)
      (cases : Tree (.many .switchCase)) (closeBraceLead : String) (span : Span) : Tree .stmt
  /-- A statement with a label. -/
  | labeledStmt (label : Ident) (colonLead : String) (body : Tree .stmt) (span : Span) : Tree .stmt
  /-- A stop for the debugger. -/
  | debuggerStmt (lead : String) (terminator : Terminator) (span : Span) : Tree .stmt
  /-- A statement that sees the properties of an object as variables. -/
  | withStmt (lead openLead : String) (subject : Tree .expr) (closeLead : String)
      (body : Tree .stmt) (span : Span) : Tree .stmt
  /-- An import declaration. -/
  | importStmt (d : ImportDeclaration) : Tree .stmt
  /-- The export of a declaration or of a list of names. -/
  | exportNamed (lead : String) (declaration : Tree (.maybe .stmt))
      (specifiers : Option NamedExports) (origin : Option FromClause)
      (terminator : Option Terminator) (span : Span) : Tree .stmt
  /-- The default export. -/
  | exportDefault (lead defaultLead : String) (value : Tree .exportValue) (span : Span) : Tree .stmt
  /-- The export of everything another module exports. -/
  | exportAll (d : ExportAll) : Tree .stmt
  /-- Statements in braces. -/
  | block (lead : String) (stmts : Tree (.many .stmt)) (closeLead : String) (span : Span) :
      Tree .block
  /-- The alternative of a branch. -/
  | elseClause (lead : String) (body : Tree .stmt) : Tree .elseClause
  /-- A declaration; it has no terminator in the head of a loop. -/
  | declaration (lead : String) (kind : VariableKind) (items : Tree (.many .declarator))
      (separators : List String) (terminator : Option Terminator) (span : Span) : Tree .declaration
  /-- A variable and its value. -/
  | declarator (target : Tree .pattern) (init : Tree (.maybe .initializer)) (span : Span) :
      Tree .declarator
  /-- A loop that starts with a declaration. -/
  | forDeclaration (d : Tree .declaration) : Tree .forInit
  /-- A loop that starts with an expression. -/
  | forExpr (e : Tree .expr) : Tree .forInit
  /-- A loop variable that is declared. -/
  | targetDeclaration (d : Tree .declaration) : Tree .forTarget
  /-- A loop variable that is assigned. -/
  | targetPattern (p : Tree .pattern) : Tree .forTarget
  /-- A handler. -/
  | catchClause (lead : String) (param : Tree (.maybe .catchParam)) (body : Tree .block)
      (span : Span) : Tree .catchClause
  /-- A target for the exception, in parentheses. -/
  | catchParam (openLead : String) (target : Tree .pattern) (closeLead : String) : Tree .catchParam
  /-- A finalizer. -/
  | finallyClause (lead : String) (body : Tree .block) : Tree .finallyClause
  /-- A clause of a switch; the default clause has no test. -/
  | switchCase (lead : String) (test : Tree (.maybe .expr)) (colonLead : String)
      (body : Tree (.many .stmt)) (span : Span) : Tree .switchCase
  /-- A function by default. -/
  | exportFunction (f : Tree .function) : Tree .exportValue
  /-- A class by default. -/
  | exportClass (c : Tree .classDef) : Tree .exportValue
  /-- The value of an expression by default. -/
  | exportExpr (value : Tree .expr) (terminator : Terminator) : Tree .exportValue
  /-- An element; one whose tag closes itself has neither children nor closing tag. -/
  | element (lead : String) (name : TagName) (attributes : Tree (.many .attribute))
      (selfClosing : Option String) (closeLead : String) (openingSpan : Span)
      (children : Tree (.many .child)) (closing : Option ClosingTag) (span : Span) : Tree .element
  /-- A fragment: children between tags without names. -/
  | fragment (lead openingLead : String) (children : Tree (.many .child))
      (closingLead slashLead closeLead : String) (span : Span) : Tree .fragment
  /-- A named attribute. -/
  | attribute (name : AttributeName) (eqLead : String) (value : Tree (.maybe .attributeValue))
      (span : Span) : Tree .attribute
  /-- All properties of an object as attributes. -/
  | spreadAttribute (lead dotsLead : String) (operand : Tree .expr) (closeLead : String)
      (span : Span) : Tree .attribute
  /-- A string as attribute value. -/
  | stringValue (lit : Literal) : Tree .attributeValue
  /-- An expression in braces as attribute value. -/
  | exprValue (c : Tree .container) : Tree .attributeValue
  /-- An element as attribute value. -/
  | elementValue (e : Tree .element) : Tree .attributeValue
  /-- A fragment as attribute value. -/
  | fragmentValue (f : Tree .fragment) : Tree .attributeValue
  /-- Braces with nothing but trivia inside. -/
  | emptyContainer (lead : String) (inside : String) (insideSpan : Span) (closeLead : String)
      (span : Span) : Tree .container
  /-- An expression in braces. -/
  | exprContainer (lead : String) (value : Tree .expr) (closeLead : String) (span : Span) :
      Tree .container
  /-- Text as child. -/
  | textChild (text : MarkupText) : Tree .child
  /-- An expression in braces as child. -/
  | exprChild (c : Tree .container) : Tree .child
  /-- All values of an expression as children. -/
  | spreadChild (lead dotsLead : String) (operand : Tree .expr) (closeLead : String)
      (span : Span) : Tree .child
  /-- An element as child. -/
  | elementChild (e : Tree .element) : Tree .child
  /-- A fragment as child. -/
  | fragmentChild (f : Tree .fragment) : Tree .child
deriving DecidableEq

/-- The expressions. -/
abbrev Expr := Tree .expr

/-- The binding and assignment targets. -/
abbrev Pattern := Tree .pattern

/-- The statements. -/
abbrev Stmt := Tree .stmt

namespace Tree

/-! ## Lists and options of trees -/

/-- The items of a tree that is a list, by recursion on trees of every kind. -/
def itemsOf {c : Category} : {d : Category} → Tree d → d = .many c → List (Tree c)
  | _, .cons head tail, rfl => head :: tail.itemsOf rfl
  | _, _, _ => []

/-- The items of a list of trees. -/
def toList {c : Category} (t : Tree (.many c)) : List (Tree c) := t.itemsOf rfl

/-- The list of trees with given items. -/
def ofList {c : Category} : List (Tree c) → Tree (.many c)
  | [] => .nil
  | head :: tail => .cons head (ofList tail)

/-- A part, if it is present. -/
def toOption {c : Category} : Tree (.maybe c) → Option (Tree c)
  | .absent => none
  | .present part => some part

/-- The optional part that may be given. -/
def ofOption {c : Category} : Option (Tree c) → Tree (.maybe c)
  | none => .absent
  | some part => .present part

@[simp]
theorem toList_nil {c : Category} : (nil : Tree (.many c)).toList = [] := rfl

@[simp]
theorem toList_cons {c : Category} (head : Tree c) (tail : Tree (.many c)) :
    (cons head tail).toList = head :: tail.toList := rfl

@[simp]
theorem toList_ofList {c : Category} (items : List (Tree c)) : (ofList items).toList = items := by
  induction items with
  | nil => rfl
  | cons head tail ih => simp [ofList, ih]

/-- Every list of trees is made from its items. -/
theorem ofList_toList {c : Category} : (t : Tree (.many c)) → ofList t.toList = t
  | .nil => rfl
  | .cons head tail => by rw [toList_cons, ofList, ofList_toList tail]

@[simp]
theorem toOption_ofOption {c : Category} (part : Option (Tree c)) :
    (ofOption part).toOption = part := by
  cases part <;> rfl

end Tree

/-- A whole source. -/
structure Program where
  /-- What it was parsed as. -/
  goal : Goal
  /-- The statements, directives included. -/
  body : List Stmt
  /-- The trivia after the last token. -/
  tail : String
  /-- The extent. -/
  span : Span := {}
deriving DecidableEq

end Verbatim
