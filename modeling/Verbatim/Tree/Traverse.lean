import Verbatim.Tree.Basic

/-!
# Traversals

One traversal visits every leaf of a tree in a fixed order and puts the visited leaves back in
place. What is done at a leaf may depend on the leaves before it. Selecting spans, listing leaves
and editing them are all instances.

The order is that of the source, except that the separators of a list come before its items. The
key of a shorthand property is not printed, and so it is no leaf; neither are private names and
names in markup. Only their extents are visited.

## Main definitions

* `Verbatim.Visitor` — what is done at leaves and extents.
* `Verbatim.Visitor.hidden` — the same at extents only.
* `Verbatim.Tree.traverse`, `Verbatim.Program.traverse` — the traversal.
* `Verbatim.Program.mapSpans` — a change of all extents.
-/

namespace Verbatim

/-- What is done at leaves and extents. -/
structure Visitor (m : Type → Type) where
  /-- At a name. -/
  ident : Ident → m Ident
  /-- At a literal. -/
  literal : Literal → m Literal
  /-- At markup text. -/
  text : MarkupText → m MarkupText
  /-- At the separators of a list. -/
  separators : List String → m (List String)
  /-- At the extent of anything that is no leaf. -/
  span : Span → m Span

namespace Visitor

variable {m : Type → Type} [Monad m]

/-- Visits extents only, those of leaves included. -/
def ofSpan (span : Span → m Span) : Visitor m where
  ident id := return { id with span := ← span id.span }
  literal lit := return { lit with span := ← span lit.span }
  text t := return { t with span := ← span t.span }
  separators := pure
  span := span

/-- Does the same at extents, and nothing at leaves. -/
def hidden (v : Visitor m) : Visitor m := ofSpan v.span

/-- Does nothing anywhere. -/
def skip : Visitor m where
  ident := pure
  literal := pure
  text := pure
  separators := pure
  span := pure

/-! ## Leaves and lists of leaves -/

/-- Visits an optional part. -/
def option {α : Type} (visit : α → m α) : Option α → m (Option α)
  | none => return none
  | some part => return some (← visit part)

/-- Visits the items of a list in order. -/
def list {α : Type} (visit : α → m α) : List α → m (List α)
  | [] => return []
  | head :: tail => do
    let head ← visit head
    let tail ← list visit tail
    return head :: tail

variable (v : Visitor m)

/-- Visits a private name. -/
def privateName (name : PrivateName) : m PrivateName :=
  return { name with span := ← v.span name.span }

/-- Visits a static piece of a template. -/
def quasi (piece : Quasi) : m Quasi := return { piece with span := ← v.span piece.span }

/-- Visits a name in markup. -/
def tagIdent (id : TagIdent) : m TagIdent := return { id with span := ← v.span id.span }

/-- Visits a name within a namespace. -/
def namespacedName (n : NamespacedName) : m NamespacedName := do
  let space ← v.tagIdent n.space
  let name ← v.tagIdent n.name
  return { n with space, name, span := ← v.span n.span }

/-- Visits the name of an element. -/
def tagName : TagName → m TagName
  | .plain id => return .plain (← v.tagIdent id)
  | .namespaced n => return .namespaced (← v.namespacedName n)
  | .member base dotLead prop span => do
    let base ← tagName base
    let prop ← v.tagIdent prop
    return .member base dotLead prop (← v.span span)

/-- Visits the name of an attribute. -/
def attributeName : AttributeName → m AttributeName
  | .plain id => return .plain (← v.tagIdent id)
  | .namespaced n => return .namespaced (← v.namespacedName n)

/-- Visits a closing tag. -/
def closingTag (tag : ClosingTag) : m ClosingTag := do
  let name ← v.tagName tag.name
  return { tag with name, span := ← v.span tag.span }

/-- Visits the head of a function. -/
def functionHead (head : FunctionHead) : m FunctionHead :=
  return { head with name := ← option v.ident head.name }

/-! ## Module lists -/

/-- Visits a name in an import or export list. -/
def exportName : ExportName → m ExportName
  | .ident id => return .ident (← v.ident id)
  | .string lit => return .string (← v.literal lit)

/-- Visits an import alias. -/
def importAlias (a : ImportAlias) : m ImportAlias :=
  return { a with binding := ← v.ident a.binding }

/-- Visits an export alias. -/
def exportAlias (a : ExportAlias) : m ExportAlias :=
  return { a with exported := ← v.exportName a.exported }

/-- Visits an entry of an import list. -/
def importSpecifier (s : ImportSpecifier) : m ImportSpecifier := do
  let imported ← v.exportName s.imported
  let alias? ← option v.importAlias s.alias?
  return { imported, alias?, span := ← v.span s.span }

/-- Visits the import of a module as one object. -/
def namespaceImport (n : NamespaceImport) : m NamespaceImport := do
  let binding ← v.ident n.binding
  return { n with binding, span := ← v.span n.span }

/-- Visits an import list. -/
def namedImports (n : NamedImports) : m NamedImports := do
  let separators ← v.separators n.separators
  let specifiers ← list v.importSpecifier n.specifiers
  return { n with separators, specifiers }

/-- Visits an import clause. -/
def importClause (c : ImportClause) : m ImportClause := do
  let main ← option v.ident c.main
  let space ← option v.namespaceImport c.space
  let named ← option v.namedImports c.named
  return { c with main, space, named }

/-- Visits an import declaration. -/
def importDeclaration (d : ImportDeclaration) : m ImportDeclaration := do
  let clause ← option v.importClause d.clause
  let source ← v.literal d.source
  return { d with clause, source, span := ← v.span d.span }

/-- Visits an entry of an export list. -/
def exportSpecifier (s : ExportSpecifier) : m ExportSpecifier := do
  let binding ← v.exportName s.binding
  let alias? ← option v.exportAlias s.alias?
  return { binding, alias?, span := ← v.span s.span }

/-- Visits an export list. -/
def namedExports (n : NamedExports) : m NamedExports := do
  let separators ← v.separators n.separators
  let specifiers ← list v.exportSpecifier n.specifiers
  return { n with separators, specifiers }

/-- Visits a source clause. -/
def fromClause (c : FromClause) : m FromClause := return { c with source := ← v.literal c.source }

/-- Visits the export of everything another module exports. -/
def exportAll (d : ExportAll) : m ExportAll := do
  let alias? ← option v.exportAlias d.alias?
  let origin ← v.fromClause d.origin
  return { d with alias?, origin, span := ← v.span d.span }

end Visitor

namespace Tree

variable {m : Type → Type} [Monad m]

/-- Visits all leaves and extents of a tree. -/
def traverse : {c : Category} → Visitor m → Tree c → m (Tree c)
  | _, _, .nil => return .nil
  | _, v, .cons head tail => do
    let head ← head.traverse v
    let tail ← tail.traverse v
    return .cons head tail
  | _, _, .absent => return .absent
  | _, v, .present part => return .present (← part.traverse v)
  | _, v, .identifier id => return .identifier (← v.ident id)
  | _, v, .literal lit => return .literal (← v.literal lit)
  | _, v, .template t => return .template (← t.traverse v)
  | _, v, .tagged tag quasi span => do
    let tag ← tag.traverse v
    let quasi ← quasi.traverse v
    return .tagged tag quasi (← v.span span)
  | _, v, .receiver lead span => return .receiver lead (← v.span span)
  | _, v, .superclass lead span => return .superclass lead (← v.span span)
  | _, v, .array lead elements separators closeLead span => do
    let separators ← v.separators separators
    let elements ← elements.traverse v
    return .array lead elements separators closeLead (← v.span span)
  | _, v, .object lead members separators closeLead span => do
    let separators ← v.separators separators
    let members ← members.traverse v
    return .object lead members separators closeLead (← v.span span)
  | _, v, .functionExpr f => return .functionExpr (← f.traverse v)
  | _, v, .arrow isAsync asyncLead params arrowLead body span => do
    let params ← params.traverse v
    let body ← body.traverse v
    return .arrow isAsync asyncLead params arrowLead body (← v.span span)
  | _, v, .classExpr c => return .classExpr (← c.traverse v)
  | _, v, .unary lead op operand span => do
    let operand ← operand.traverse v
    return .unary lead op operand (← v.span span)
  | _, v, .update op isBefore opLead operand span => do
    let operand ← operand.traverse v
    return .update op isBefore opLead operand (← v.span span)
  | _, v, .binary left opLead op right span => do
    let left ← left.traverse v
    let right ← right.traverse v
    return .binary left opLead op right (← v.span span)
  | _, v, .assignment target opLead op value span => do
    let target ← target.traverse v
    let value ← value.traverse v
    return .assignment target opLead op value (← v.span span)
  | _, v, .conditional test questionLead consequent colonLead alternate span => do
    let test ← test.traverse v
    let consequent ← consequent.traverse v
    let alternate ← alternate.traverse v
    return .conditional test questionLead consequent colonLead alternate (← v.span span)
  | _, v, .sequence items separators span => do
    let separators ← v.separators separators
    let items ← items.traverse v
    return .sequence items separators (← v.span span)
  | _, v, .call callee isOptional optionalLead args span => do
    let callee ← callee.traverse v
    let args ← args.traverse v
    return .call callee isOptional optionalLead args (← v.span span)
  | _, v, .construct lead callee args span => do
    let callee ← callee.traverse v
    let args ← args.traverse v
    return .construct lead callee args (← v.span span)
  | _, v, .memberAccess base isOptional dotLead prop span => do
    let base ← base.traverse v
    let prop ← prop.traverse v
    return .memberAccess base isOptional dotLead prop (← v.span span)
  | _, v, .metaProperty subject dotLead prop span => do
    let subject ← v.ident subject
    let prop ← v.ident prop
    return .metaProperty subject dotLead prop (← v.span span)
  | _, v, .importCall lead openLead source closeLead span => do
    let source ← source.traverse v
    return .importCall lead openLead source closeLead (← v.span span)
  | _, v, .parenthesized lead inner closeLead span => do
    let inner ← inner.traverse v
    return .parenthesized lead inner closeLead (← v.span span)
  | _, v, .spread lead operand span => do
    let operand ← operand.traverse v
    return .spread lead operand (← v.span span)
  | _, v, .yield lead starLead operand span => do
    let operand ← operand.traverse v
    return .yield lead starLead operand (← v.span span)
  | _, v, .await lead operand span => do
    let operand ← operand.traverse v
    return .await lead operand (← v.span span)
  | _, v, .elementExpr e => return .elementExpr (← e.traverse v)
  | _, v, .fragmentExpr f => return .fragmentExpr (← f.traverse v)
  | _, v, .cover asyncLead openLead items separators closeLead span => do
    let separators ← v.separators separators
    let items ← items.traverse v
    return .cover asyncLead openLead items separators closeLead (← v.span span)
  | _, v, .templateLit quasis exprs span => do
    let quasis ← Visitor.list v.quasi quasis
    let exprs ← exprs.traverse v
    return .templateLit quasis exprs (← v.span span)
  | _, v, .argumentList openLead items separators closeLead => do
    let separators ← v.separators separators
    let items ← items.traverse v
    return .argumentList openLead items separators closeLead
  | _, v, .property mods name value kind isMethod isShorthand colonLead span => do
    let name ← name.traverse (if isShorthand then v.hidden else v)
    let value ← value.traverse v
    return .property mods name value kind isMethod isShorthand colonLead (← v.span span)
  | _, v, .spreadMember lead operand span => do
    let operand ← operand.traverse v
    return .spreadMember lead operand (← v.span span)
  | _, v, .nameKey id => return .nameKey (← v.ident id)
  | _, v, .literalKey lit => return .literalKey (← v.literal lit)
  | _, v, .privateKey name => return .privateKey (← v.privateName name)
  | _, v, .computedKey openLead inner closeLead => do
    let inner ← inner.traverse v
    return .computedKey openLead inner closeLead
  | _, v, .nameAccess id => return .nameAccess (← v.ident id)
  | _, v, .privateAccess name => return .privateAccess (← v.privateName name)
  | _, v, .computedAccess openLead inner closeLead => do
    let inner ← inner.traverse v
    return .computedAccess openLead inner closeLead
  | _, v, .paramList openLead items separators closeLead => do
    let separators ← v.separators separators
    let items ← items.traverse v
    return .paramList openLead items separators closeLead
  | _, v, .bodyBlock openLead stmts closeLead span => do
    let stmts ← stmts.traverse v
    return .bodyBlock openLead stmts closeLead (← v.span span)
  | _, v, .function head params body span => do
    let head ← v.functionHead head
    let params ← params.traverse v
    let body ← body.traverse v
    return .function head params body (← v.span span)
  | _, v, .bareParam id => return .bareParam (← v.ident id)
  | _, v, .listedParams params => return .listedParams (← params.traverse v)
  | _, v, .blockBody body => return .blockBody (← body.traverse v)
  | _, v, .exprBody value => return .exprBody (← value.traverse v)
  | _, v, .heritage lead base => return .heritage lead (← base.traverse v)
  | _, v, .classDef lead name base openLead members closeLead span => do
    let name ← Visitor.option v.ident name
    let base ← base.traverse v
    let members ← members.traverse v
    return .classDef lead name base openLead members closeLead (← v.span span)
  | _, v, .method mods kind name value span => do
    let name ← name.traverse v
    let value ← value.traverse v
    return .method mods kind name value (← v.span span)
  | _, v, .field mods name value terminator span => do
    let name ← name.traverse v
    let value ← value.traverse v
    return .field mods name value terminator (← v.span span)
  | _, v, .staticBlock lead openLead stmts closeLead span => do
    let stmts ← stmts.traverse v
    return .staticBlock lead openLead stmts closeLead (← v.span span)
  | _, v, .strayTerminator lead span => return .strayTerminator lead (← v.span span)
  | _, v, .initializer lead value => return .initializer lead (← value.traverse v)
  | _, v, .namePattern id => return .namePattern (← v.ident id)
  | _, v, .exprPattern target => return .exprPattern (← target.traverse v)
  | _, v, .arrayPattern lead elements separators closeLead span => do
    let separators ← v.separators separators
    let elements ← elements.traverse v
    return .arrayPattern lead elements separators closeLead (← v.span span)
  | _, v, .objectPattern lead members separators closeLead span => do
    let separators ← v.separators separators
    let members ← members.traverse v
    return .objectPattern lead members separators closeLead (← v.span span)
  | _, v, .defaultPattern target eqLead value span => do
    let target ← target.traverse v
    let value ← value.traverse v
    return .defaultPattern target eqLead value (← v.span span)
  | _, v, .restPattern lead target span => do
    let target ← target.traverse v
    return .restPattern lead target (← v.span span)
  | _, v, .patternProperty name value isShorthand colonLead span => do
    let name ← name.traverse (if isShorthand then v.hidden else v)
    let value ← value.traverse v
    return .patternProperty name value isShorthand colonLead (← v.span span)
  | _, v, .restMember lead target span => do
    let target ← target.traverse v
    return .restMember lead target (← v.span span)
  | _, v, .exprStmt value directive terminator span => do
    let value ← value.traverse v
    return .exprStmt value directive terminator (← v.span span)
  | _, v, .declarationStmt d => return .declarationStmt (← d.traverse v)
  | _, v, .functionStmt f => return .functionStmt (← f.traverse v)
  | _, v, .classStmt c => return .classStmt (← c.traverse v)
  | _, v, .blockStmt b => return .blockStmt (← b.traverse v)
  | _, v, .emptyStmt lead span => return .emptyStmt lead (← v.span span)
  | _, v, .ifStmt lead openLead test closeLead consequent alternate span => do
    let test ← test.traverse v
    let consequent ← consequent.traverse v
    let alternate ← alternate.traverse v
    return .ifStmt lead openLead test closeLead consequent alternate (← v.span span)
  | _, v, .forStmt lead openLead init firstLead test secondLead step closeLead body span => do
    let init ← init.traverse v
    let test ← test.traverse v
    let step ← step.traverse v
    let body ← body.traverse v
    return .forStmt lead openLead init firstLead test secondLead step closeLead body
      (← v.span span)
  | _, v, .forInStmt lead openLead left inLead right closeLead body span => do
    let left ← left.traverse v
    let right ← right.traverse v
    let body ← body.traverse v
    return .forInStmt lead openLead left inLead right closeLead body (← v.span span)
  | _, v, .forOfStmt lead awaitLead openLead left ofLead right closeLead body span => do
    let left ← left.traverse v
    let right ← right.traverse v
    let body ← body.traverse v
    return .forOfStmt lead awaitLead openLead left ofLead right closeLead body (← v.span span)
  | _, v, .whileStmt lead openLead test closeLead body span => do
    let test ← test.traverse v
    let body ← body.traverse v
    return .whileStmt lead openLead test closeLead body (← v.span span)
  | _, v, .doWhileStmt lead body whileLead openLead test closeLead terminator span => do
    let body ← body.traverse v
    let test ← test.traverse v
    return .doWhileStmt lead body whileLead openLead test closeLead terminator (← v.span span)
  | _, v, .returnStmt lead value terminator span => do
    let value ← value.traverse v
    return .returnStmt lead value terminator (← v.span span)
  | _, v, .breakStmt lead label terminator span => do
    let label ← Visitor.option v.ident label
    return .breakStmt lead label terminator (← v.span span)
  | _, v, .continueStmt lead label terminator span => do
    let label ← Visitor.option v.ident label
    return .continueStmt lead label terminator (← v.span span)
  | _, v, .throwStmt lead value terminator span => do
    let value ← value.traverse v
    return .throwStmt lead value terminator (← v.span span)
  | _, v, .tryStmt lead guarded handler finalizer span => do
    let guarded ← guarded.traverse v
    let handler ← handler.traverse v
    let finalizer ← finalizer.traverse v
    return .tryStmt lead guarded handler finalizer (← v.span span)
  | _, v, .switchStmt lead openLead subject closeLead openBraceLead cases closeBraceLead span => do
    let subject ← subject.traverse v
    let cases ← cases.traverse v
    return .switchStmt lead openLead subject closeLead openBraceLead cases closeBraceLead
      (← v.span span)
  | _, v, .labeledStmt label colonLead body span => do
    let label ← v.ident label
    let body ← body.traverse v
    return .labeledStmt label colonLead body (← v.span span)
  | _, v, .debuggerStmt lead terminator span =>
    return .debuggerStmt lead terminator (← v.span span)
  | _, v, .withStmt lead openLead subject closeLead body span => do
    let subject ← subject.traverse v
    let body ← body.traverse v
    return .withStmt lead openLead subject closeLead body (← v.span span)
  | _, v, .importStmt d => return .importStmt (← v.importDeclaration d)
  | _, v, .exportNamed lead decl specifiers origin terminator span => do
    let decl ← decl.traverse v
    let specifiers ← Visitor.option v.namedExports specifiers
    let origin ← Visitor.option v.fromClause origin
    return .exportNamed lead decl specifiers origin terminator (← v.span span)
  | _, v, .exportDefault lead defaultLead value span => do
    let value ← value.traverse v
    return .exportDefault lead defaultLead value (← v.span span)
  | _, v, .exportAll d => return .exportAll (← v.exportAll d)
  | _, v, .block lead stmts closeLead span => do
    let stmts ← stmts.traverse v
    return .block lead stmts closeLead (← v.span span)
  | _, v, .elseClause lead body => return .elseClause lead (← body.traverse v)
  | _, v, .declaration lead kind items separators terminator span => do
    let separators ← v.separators separators
    let items ← items.traverse v
    return .declaration lead kind items separators terminator (← v.span span)
  | _, v, .declarator target init span => do
    let target ← target.traverse v
    let init ← init.traverse v
    return .declarator target init (← v.span span)
  | _, v, .forDeclaration d => return .forDeclaration (← d.traverse v)
  | _, v, .forExpr e => return .forExpr (← e.traverse v)
  | _, v, .targetDeclaration d => return .targetDeclaration (← d.traverse v)
  | _, v, .targetPattern p => return .targetPattern (← p.traverse v)
  | _, v, .catchClause lead param body span => do
    let param ← param.traverse v
    let body ← body.traverse v
    return .catchClause lead param body (← v.span span)
  | _, v, .catchParam openLead target closeLead => do
    let target ← target.traverse v
    return .catchParam openLead target closeLead
  | _, v, .finallyClause lead body => return .finallyClause lead (← body.traverse v)
  | _, v, .switchCase lead test colonLead body span => do
    let test ← test.traverse v
    let body ← body.traverse v
    return .switchCase lead test colonLead body (← v.span span)
  | _, v, .exportFunction f => return .exportFunction (← f.traverse v)
  | _, v, .exportClass c => return .exportClass (← c.traverse v)
  | _, v, .exportExpr value terminator => return .exportExpr (← value.traverse v) terminator
  | _, v, .element lead name attributes selfClosing closeLead tagSpan children closing span => do
    let name ← v.tagName name
    let attributes ← attributes.traverse v
    let tagSpan ← v.span tagSpan
    let children ← children.traverse v
    let closing ← Visitor.option v.closingTag closing
    return .element lead name attributes selfClosing closeLead tagSpan children closing
      (← v.span span)
  | _, v, .fragment lead openingLead children closingLead slashLead closeLead span => do
    let children ← children.traverse v
    return .fragment lead openingLead children closingLead slashLead closeLead (← v.span span)
  | _, v, .attribute name eqLead value span => do
    let name ← v.attributeName name
    let value ← value.traverse v
    return .attribute name eqLead value (← v.span span)
  | _, v, .spreadAttribute lead dotsLead operand closeLead span => do
    let operand ← operand.traverse v
    return .spreadAttribute lead dotsLead operand closeLead (← v.span span)
  | _, v, .stringValue lit => return .stringValue (← v.literal lit)
  | _, v, .exprValue c => return .exprValue (← c.traverse v)
  | _, v, .elementValue e => return .elementValue (← e.traverse v)
  | _, v, .fragmentValue f => return .fragmentValue (← f.traverse v)
  | _, v, .emptyContainer lead inside insideSpan closeLead span => do
    let insideSpan ← v.span insideSpan
    return .emptyContainer lead inside insideSpan closeLead (← v.span span)
  | _, v, .exprContainer lead value closeLead span => do
    let value ← value.traverse v
    return .exprContainer lead value closeLead (← v.span span)
  | _, v, .textChild text => return .textChild (← v.text text)
  | _, v, .exprChild c => return .exprChild (← c.traverse v)
  | _, v, .spreadChild lead dotsLead operand closeLead span => do
    let operand ← operand.traverse v
    return .spreadChild lead dotsLead operand closeLead (← v.span span)
  | _, v, .elementChild e => return .elementChild (← e.traverse v)
  | _, v, .fragmentChild f => return .fragmentChild (← f.traverse v)

/-- Changes all extents of a tree. -/
def mapSpans {c : Category} (f : Span → Span) (t : Tree c) : Tree c :=
  t.traverse (m := Id) (.ofSpan f)

end Tree

namespace Program

variable {m : Type → Type} [Monad m]

/-- Visits all leaves and extents of a program. -/
def traverse (v : Visitor m) (p : Program) : m Program := do
  let body ← Visitor.list (·.traverse v) p.body
  return { p with body, span := ← v.span p.span }

/-- Changes all extents of a program. -/
def mapSpans (f : Span → Span) (p : Program) : Program := p.traverse (m := Id) (.ofSpan f)

end Program

end Verbatim
