import Verbatim.Proofs.Tree.Spans

/-!
# Retouching trees

What differs between trees of one shape can be the trivia that they keep, their extents, what their
literals are and what the text in their markup is. A retouch changes these four, each by a function,
and leaves everything else as it is. Changing extents is one, and so is any visit of a tree that
does nothing but change leaves and extents.

## Main definitions

* `Verbatim.Retouch` — what is changed.
* `Verbatim.Tree.retouch`, `Verbatim.Program.retouch` — the change.

## Main results

* `Verbatim.Tree.traverse_visitor` — a visit that changes literals, texts and extents is a retouch.
* `Verbatim.Tree.traverse_related` — related visits of a tree and of the retouched one stay related.
-/

namespace Verbatim

/-- What is changed of a tree. -/
structure Retouch where
  /-- Trivia, and separators with theirs. -/
  lead : String → String := id
  /-- Extents. -/
  span : Span → Span
  /-- Literals. -/
  literal : Literal → Literal := fun lit =>
    { lit with lead := lead lit.lead, span := span lit.span }
  /-- Text in markup. -/
  text : MarkupText → MarkupText := fun t => { t with span := span t.span }

namespace Retouch

/-- The same, but literals and texts keep what they say. -/
def hidden (ρ : Retouch) : Retouch where
  lead := ρ.lead
  span := ρ.span

/-- One retouch behind another. -/
def comp (σ ρ : Retouch) : Retouch where
  lead := σ.lead ∘ ρ.lead
  span := σ.span ∘ ρ.span
  literal := σ.literal ∘ ρ.literal
  text := σ.text ∘ ρ.text

end Retouch

/-! ## Leaves and lists of leaves -/

section

variable (ρ : Retouch)

/-- Retouches a name. -/
def Ident.retouch (id : Ident) : Ident := { id with lead := ρ.lead id.lead, span := ρ.span id.span }

/-- Retouches a private name. -/
def PrivateName.retouch (name : PrivateName) : PrivateName :=
  { name with lead := ρ.lead name.lead, span := ρ.span name.span }

/-- Retouches a piece of a template. -/
def Quasi.retouch (piece : Quasi) : Quasi :=
  { piece with lead := ρ.lead piece.lead, span := ρ.span piece.span }

/-- Retouches the end of a statement. -/
def Terminator.retouch (t : Terminator) : Terminator := { t with lead := ρ.lead t.lead }

/-- Retouches the words in front of a key. -/
def Modifiers.retouch (mods : Modifiers) : Modifiers where
  staticLead := mods.staticLead.map ρ.lead
  asyncLead := mods.asyncLead.map ρ.lead
  accessorLead := mods.accessorLead.map ρ.lead
  starLead := mods.starLead.map ρ.lead

/-- Retouches the head of a function. -/
def FunctionHead.retouch (head : FunctionHead) : FunctionHead :=
  { head with
    asyncLead := ρ.lead head.asyncLead
    keywordLead := ρ.lead head.keywordLead
    starLead := ρ.lead head.starLead
    name := head.name.map (·.retouch ρ) }

/-- Retouches a name in markup. -/
def TagIdent.retouch (id : TagIdent) : TagIdent :=
  { id with lead := ρ.lead id.lead, span := ρ.span id.span }

/-- Retouches a name within a namespace. -/
def NamespacedName.retouch (n : NamespacedName) : NamespacedName where
  space := n.space.retouch ρ
  colonLead := ρ.lead n.colonLead
  name := n.name.retouch ρ
  span := ρ.span n.span

/-- Retouches the name of an element. -/
def TagName.retouch : TagName → TagName
  | .plain id => .plain (id.retouch ρ)
  | .namespaced n => .namespaced (n.retouch ρ)
  | .member base dotLead prop span =>
    .member base.retouch (ρ.lead dotLead) (prop.retouch ρ) (ρ.span span)

/-- Retouches the name of an attribute. -/
def AttributeName.retouch : AttributeName → AttributeName
  | .plain id => .plain (id.retouch ρ)
  | .namespaced n => .namespaced (n.retouch ρ)

/-- Retouches a closing tag. -/
def ClosingTag.retouch (tag : ClosingTag) : ClosingTag where
  lead := ρ.lead tag.lead
  slashLead := ρ.lead tag.slashLead
  name := tag.name.retouch ρ
  closeLead := ρ.lead tag.closeLead
  span := ρ.span tag.span

/-! ### Module lists -/

/-- Retouches a name in an import or export list. -/
def ExportName.retouch : ExportName → ExportName
  | .ident id => .ident (id.retouch ρ)
  | .string lit => .string (ρ.literal lit)

/-- Retouches an import alias. -/
def ImportAlias.retouch (a : ImportAlias) : ImportAlias where
  asLead := ρ.lead a.asLead
  binding := a.binding.retouch ρ

/-- Retouches an export alias. -/
def ExportAlias.retouch (a : ExportAlias) : ExportAlias where
  asLead := ρ.lead a.asLead
  exported := a.exported.retouch ρ

/-- Retouches an entry of an import list. -/
def ImportSpecifier.retouch (s : ImportSpecifier) : ImportSpecifier where
  imported := s.imported.retouch ρ
  alias? := s.alias?.map (·.retouch ρ)
  span := ρ.span s.span

/-- Retouches the import of a module as one object. -/
def NamespaceImport.retouch (n : NamespaceImport) : NamespaceImport where
  starLead := ρ.lead n.starLead
  asLead := ρ.lead n.asLead
  binding := n.binding.retouch ρ
  span := ρ.span n.span

/-- Retouches an import list. -/
def NamedImports.retouch (n : NamedImports) : NamedImports where
  openLead := ρ.lead n.openLead
  specifiers := n.specifiers.map (·.retouch ρ)
  separators := n.separators.map ρ.lead
  closeLead := ρ.lead n.closeLead

/-- Retouches an import clause. -/
def ImportClause.retouch (c : ImportClause) : ImportClause where
  main := c.main.map (·.retouch ρ)
  commaLead := ρ.lead c.commaLead
  space := c.space.map (·.retouch ρ)
  named := c.named.map (·.retouch ρ)

/-- Retouches an import declaration. -/
def ImportDeclaration.retouch (d : ImportDeclaration) : ImportDeclaration where
  lead := ρ.lead d.lead
  clause := d.clause.map (·.retouch ρ)
  fromLead := ρ.lead d.fromLead
  source := ρ.literal d.source
  terminator := d.terminator.retouch ρ
  span := ρ.span d.span

/-- Retouches an entry of an export list. -/
def ExportSpecifier.retouch (s : ExportSpecifier) : ExportSpecifier where
  binding := s.binding.retouch ρ
  alias? := s.alias?.map (·.retouch ρ)
  span := ρ.span s.span

/-- Retouches an export list. -/
def NamedExports.retouch (n : NamedExports) : NamedExports where
  openLead := ρ.lead n.openLead
  specifiers := n.specifiers.map (·.retouch ρ)
  separators := n.separators.map ρ.lead
  closeLead := ρ.lead n.closeLead

/-- Retouches a source clause. -/
def FromClause.retouch (c : FromClause) : FromClause where
  fromLead := ρ.lead c.fromLead
  source := ρ.literal c.source

/-- Retouches the export of everything another module exports. -/
def ExportAll.retouch (d : ExportAll) : ExportAll :=
  { d with
    lead := ρ.lead d.lead
    alias? := d.alias?.map (·.retouch ρ)
    origin := d.origin.retouch ρ
    terminator := d.terminator.retouch ρ
    span := ρ.span d.span }

end

/-! ## Trees -/

namespace Tree

/-- Retouches a tree. -/
def retouch : {c : Category} → Retouch → Tree c → Tree c
  | _, _, .nil => .nil
  | _, ρ, .cons head tail => .cons (head.retouch ρ) (tail.retouch ρ)
  | _, _, .absent => .absent
  | _, ρ, .present part => .present (part.retouch ρ)
  | _, ρ, .identifier id => .identifier (id.retouch ρ)
  | _, ρ, .literal lit => .literal (ρ.literal lit)
  | _, ρ, .template t => .template (t.retouch ρ)
  | _, ρ, .tagged tag quasi span => .tagged (tag.retouch ρ) (quasi.retouch ρ) (ρ.span span)
  | _, ρ, .receiver lead span => .receiver (ρ.lead lead) (ρ.span span)
  | _, ρ, .superclass lead span => .superclass (ρ.lead lead) (ρ.span span)
  | _, ρ, .array lead elements separators closeLead span =>
    .array (ρ.lead lead) (elements.retouch ρ) (separators.map ρ.lead) (ρ.lead closeLead)
      (ρ.span span)
  | _, ρ, .object lead members separators closeLead span =>
    .object (ρ.lead lead) (members.retouch ρ) (separators.map ρ.lead) (ρ.lead closeLead)
      (ρ.span span)
  | _, ρ, .functionExpr f => .functionExpr (f.retouch ρ)
  | _, ρ, .arrow isAsync asyncLead params arrowLead body span =>
    .arrow isAsync (ρ.lead asyncLead) (params.retouch ρ) (ρ.lead arrowLead) (body.retouch ρ)
      (ρ.span span)
  | _, ρ, .classExpr c => .classExpr (c.retouch ρ)
  | _, ρ, .unary lead op operand span => .unary (ρ.lead lead) op (operand.retouch ρ) (ρ.span span)
  | _, ρ, .update op isBefore opLead operand span =>
    .update op isBefore (ρ.lead opLead) (operand.retouch ρ) (ρ.span span)
  | _, ρ, .binary left opLead op right span =>
    .binary (left.retouch ρ) (ρ.lead opLead) op (right.retouch ρ) (ρ.span span)
  | _, ρ, .assignment target opLead op value span =>
    .assignment (target.retouch ρ) (ρ.lead opLead) op (value.retouch ρ) (ρ.span span)
  | _, ρ, .conditional test questionLead consequent colonLead alternate span =>
    .conditional (test.retouch ρ) (ρ.lead questionLead) (consequent.retouch ρ) (ρ.lead colonLead)
      (alternate.retouch ρ) (ρ.span span)
  | _, ρ, .sequence items separators span =>
    .sequence (items.retouch ρ) (separators.map ρ.lead) (ρ.span span)
  | _, ρ, .call callee isOptional optionalLead args span =>
    .call (callee.retouch ρ) isOptional (ρ.lead optionalLead) (args.retouch ρ) (ρ.span span)
  | _, ρ, .construct lead callee args span =>
    .construct (ρ.lead lead) (callee.retouch ρ) (args.retouch ρ) (ρ.span span)
  | _, ρ, .memberAccess base isOptional dotLead prop span =>
    .memberAccess (base.retouch ρ) isOptional (ρ.lead dotLead) (prop.retouch ρ) (ρ.span span)
  | _, ρ, .metaProperty subject dotLead prop span =>
    .metaProperty (subject.retouch ρ) (ρ.lead dotLead) (prop.retouch ρ) (ρ.span span)
  | _, ρ, .importCall lead openLead source closeLead span =>
    .importCall (ρ.lead lead) (ρ.lead openLead) (source.retouch ρ) (ρ.lead closeLead) (ρ.span span)
  | _, ρ, .parenthesized lead inner closeLead span =>
    .parenthesized (ρ.lead lead) (inner.retouch ρ) (ρ.lead closeLead) (ρ.span span)
  | _, ρ, .spread lead operand span => .spread (ρ.lead lead) (operand.retouch ρ) (ρ.span span)
  | _, ρ, .yield lead starLead operand span =>
    .yield (ρ.lead lead) (starLead.map ρ.lead) (operand.retouch ρ) (ρ.span span)
  | _, ρ, .await lead operand span => .await (ρ.lead lead) (operand.retouch ρ) (ρ.span span)
  | _, ρ, .elementExpr e => .elementExpr (e.retouch ρ)
  | _, ρ, .fragmentExpr f => .fragmentExpr (f.retouch ρ)
  | _, ρ, .cover asyncLead openLead items separators closeLead span =>
    .cover (asyncLead.map ρ.lead) (ρ.lead openLead) (items.retouch ρ) (separators.map ρ.lead)
      (ρ.lead closeLead) (ρ.span span)
  | _, ρ, .templateLit quasis exprs span =>
    .templateLit (quasis.map (·.retouch ρ)) (exprs.retouch ρ) (ρ.span span)
  | _, ρ, .argumentList openLead items separators closeLead =>
    .argumentList (ρ.lead openLead) (items.retouch ρ) (separators.map ρ.lead) (ρ.lead closeLead)
  | _, ρ, .property mods name value kind isMethod isShorthand colonLead span =>
    .property (mods.retouch ρ) (name.retouch (if isShorthand then ρ.hidden else ρ))
      (value.retouch ρ) kind isMethod isShorthand (ρ.lead colonLead) (ρ.span span)
  | _, ρ, .spreadMember lead operand span =>
    .spreadMember (ρ.lead lead) (operand.retouch ρ) (ρ.span span)
  | _, ρ, .nameKey id => .nameKey (id.retouch ρ)
  | _, ρ, .literalKey lit => .literalKey (ρ.literal lit)
  | _, ρ, .privateKey name => .privateKey (name.retouch ρ)
  | _, ρ, .computedKey openLead inner closeLead =>
    .computedKey (ρ.lead openLead) (inner.retouch ρ) (ρ.lead closeLead)
  | _, ρ, .nameAccess id => .nameAccess (id.retouch ρ)
  | _, ρ, .privateAccess name => .privateAccess (name.retouch ρ)
  | _, ρ, .computedAccess openLead inner closeLead =>
    .computedAccess (ρ.lead openLead) (inner.retouch ρ) (ρ.lead closeLead)
  | _, ρ, .paramList openLead items separators closeLead =>
    .paramList (ρ.lead openLead) (items.retouch ρ) (separators.map ρ.lead) (ρ.lead closeLead)
  | _, ρ, .bodyBlock openLead stmts closeLead span =>
    .bodyBlock (ρ.lead openLead) (stmts.retouch ρ) (ρ.lead closeLead) (ρ.span span)
  | _, ρ, .function head params body span =>
    .function (head.retouch ρ) (params.retouch ρ) (body.retouch ρ) (ρ.span span)
  | _, ρ, .bareParam id => .bareParam (id.retouch ρ)
  | _, ρ, .listedParams params => .listedParams (params.retouch ρ)
  | _, ρ, .blockBody body => .blockBody (body.retouch ρ)
  | _, ρ, .exprBody value => .exprBody (value.retouch ρ)
  | _, ρ, .heritage lead base => .heritage (ρ.lead lead) (base.retouch ρ)
  | _, ρ, .classDef lead name base openLead members closeLead span =>
    .classDef (ρ.lead lead) (name.map (·.retouch ρ)) (base.retouch ρ) (ρ.lead openLead)
      (members.retouch ρ) (ρ.lead closeLead) (ρ.span span)
  | _, ρ, .method mods kind name value span =>
    .method (mods.retouch ρ) kind (name.retouch ρ) (value.retouch ρ) (ρ.span span)
  | _, ρ, .field mods name value terminator span =>
    .field (mods.retouch ρ) (name.retouch ρ) (value.retouch ρ) (terminator.retouch ρ) (ρ.span span)
  | _, ρ, .staticBlock lead openLead stmts closeLead span =>
    .staticBlock (ρ.lead lead) (ρ.lead openLead) (stmts.retouch ρ) (ρ.lead closeLead) (ρ.span span)
  | _, ρ, .strayTerminator lead span => .strayTerminator (ρ.lead lead) (ρ.span span)
  | _, ρ, .initializer lead value => .initializer (ρ.lead lead) (value.retouch ρ)
  | _, ρ, .namePattern id => .namePattern (id.retouch ρ)
  | _, ρ, .exprPattern target => .exprPattern (target.retouch ρ)
  | _, ρ, .arrayPattern lead elements separators closeLead span =>
    .arrayPattern (ρ.lead lead) (elements.retouch ρ) (separators.map ρ.lead) (ρ.lead closeLead)
      (ρ.span span)
  | _, ρ, .objectPattern lead members separators closeLead span =>
    .objectPattern (ρ.lead lead) (members.retouch ρ) (separators.map ρ.lead) (ρ.lead closeLead)
      (ρ.span span)
  | _, ρ, .defaultPattern target eqLead value span =>
    .defaultPattern (target.retouch ρ) (ρ.lead eqLead) (value.retouch ρ) (ρ.span span)
  | _, ρ, .restPattern lead target span =>
    .restPattern (ρ.lead lead) (target.retouch ρ) (ρ.span span)
  | _, ρ, .patternProperty name value isShorthand colonLead span =>
    .patternProperty (name.retouch (if isShorthand then ρ.hidden else ρ)) (value.retouch ρ)
      isShorthand (ρ.lead colonLead) (ρ.span span)
  | _, ρ, .restMember lead target span => .restMember (ρ.lead lead) (target.retouch ρ) (ρ.span span)
  | _, ρ, .exprStmt value directive terminator span =>
    .exprStmt (value.retouch ρ) directive (terminator.retouch ρ) (ρ.span span)
  | _, ρ, .declarationStmt d => .declarationStmt (d.retouch ρ)
  | _, ρ, .functionStmt f => .functionStmt (f.retouch ρ)
  | _, ρ, .classStmt c => .classStmt (c.retouch ρ)
  | _, ρ, .blockStmt b => .blockStmt (b.retouch ρ)
  | _, ρ, .emptyStmt lead span => .emptyStmt (ρ.lead lead) (ρ.span span)
  | _, ρ, .ifStmt lead openLead test closeLead consequent alternate span =>
    .ifStmt (ρ.lead lead) (ρ.lead openLead) (test.retouch ρ) (ρ.lead closeLead)
      (consequent.retouch ρ) (alternate.retouch ρ) (ρ.span span)
  | _, ρ, .forStmt lead openLead init firstLead test secondLead step closeLead body span =>
    .forStmt (ρ.lead lead) (ρ.lead openLead) (init.retouch ρ) (ρ.lead firstLead) (test.retouch ρ)
      (ρ.lead secondLead) (step.retouch ρ) (ρ.lead closeLead) (body.retouch ρ) (ρ.span span)
  | _, ρ, .forInStmt lead openLead left inLead right closeLead body span =>
    .forInStmt (ρ.lead lead) (ρ.lead openLead) (left.retouch ρ) (ρ.lead inLead) (right.retouch ρ)
      (ρ.lead closeLead) (body.retouch ρ) (ρ.span span)
  | _, ρ, .forOfStmt lead awaitLead openLead left ofLead right closeLead body span =>
    .forOfStmt (ρ.lead lead) (awaitLead.map ρ.lead) (ρ.lead openLead) (left.retouch ρ)
      (ρ.lead ofLead) (right.retouch ρ) (ρ.lead closeLead) (body.retouch ρ) (ρ.span span)
  | _, ρ, .whileStmt lead openLead test closeLead body span =>
    .whileStmt (ρ.lead lead) (ρ.lead openLead) (test.retouch ρ) (ρ.lead closeLead) (body.retouch ρ)
      (ρ.span span)
  | _, ρ, .doWhileStmt lead body whileLead openLead test closeLead terminator span =>
    .doWhileStmt (ρ.lead lead) (body.retouch ρ) (ρ.lead whileLead) (ρ.lead openLead)
      (test.retouch ρ) (ρ.lead closeLead) (terminator.retouch ρ) (ρ.span span)
  | _, ρ, .returnStmt lead value terminator span =>
    .returnStmt (ρ.lead lead) (value.retouch ρ) (terminator.retouch ρ) (ρ.span span)
  | _, ρ, .breakStmt lead label terminator span =>
    .breakStmt (ρ.lead lead) (label.map (·.retouch ρ)) (terminator.retouch ρ) (ρ.span span)
  | _, ρ, .continueStmt lead label terminator span =>
    .continueStmt (ρ.lead lead) (label.map (·.retouch ρ)) (terminator.retouch ρ) (ρ.span span)
  | _, ρ, .throwStmt lead value terminator span =>
    .throwStmt (ρ.lead lead) (value.retouch ρ) (terminator.retouch ρ) (ρ.span span)
  | _, ρ, .tryStmt lead guarded handler finalizer span =>
    .tryStmt (ρ.lead lead) (guarded.retouch ρ) (handler.retouch ρ) (finalizer.retouch ρ)
      (ρ.span span)
  | _, ρ, .switchStmt lead openLead subject closeLead openBraceLead cases closeBraceLead span =>
    .switchStmt (ρ.lead lead) (ρ.lead openLead) (subject.retouch ρ) (ρ.lead closeLead)
      (ρ.lead openBraceLead) (cases.retouch ρ) (ρ.lead closeBraceLead) (ρ.span span)
  | _, ρ, .labeledStmt label colonLead body span =>
    .labeledStmt (label.retouch ρ) (ρ.lead colonLead) (body.retouch ρ) (ρ.span span)
  | _, ρ, .debuggerStmt lead terminator span =>
    .debuggerStmt (ρ.lead lead) (terminator.retouch ρ) (ρ.span span)
  | _, ρ, .withStmt lead openLead subject closeLead body span =>
    .withStmt (ρ.lead lead) (ρ.lead openLead) (subject.retouch ρ) (ρ.lead closeLead)
      (body.retouch ρ) (ρ.span span)
  | _, ρ, .importStmt d => .importStmt (d.retouch ρ)
  | _, ρ, .exportNamed lead decl specifiers origin terminator span =>
    .exportNamed (ρ.lead lead) (decl.retouch ρ) (specifiers.map (·.retouch ρ))
      (origin.map (·.retouch ρ)) (terminator.map (·.retouch ρ)) (ρ.span span)
  | _, ρ, .exportDefault lead defaultLead value span =>
    .exportDefault (ρ.lead lead) (ρ.lead defaultLead) (value.retouch ρ) (ρ.span span)
  | _, ρ, .exportAll d => .exportAll (d.retouch ρ)
  | _, ρ, .block lead stmts closeLead span =>
    .block (ρ.lead lead) (stmts.retouch ρ) (ρ.lead closeLead) (ρ.span span)
  | _, ρ, .elseClause lead body => .elseClause (ρ.lead lead) (body.retouch ρ)
  | _, ρ, .declaration lead kind items separators terminator span =>
    .declaration (ρ.lead lead) kind (items.retouch ρ) (separators.map ρ.lead)
      (terminator.map (·.retouch ρ)) (ρ.span span)
  | _, ρ, .declarator target init span =>
    .declarator (target.retouch ρ) (init.retouch ρ) (ρ.span span)
  | _, ρ, .forDeclaration d => .forDeclaration (d.retouch ρ)
  | _, ρ, .forExpr e => .forExpr (e.retouch ρ)
  | _, ρ, .targetDeclaration d => .targetDeclaration (d.retouch ρ)
  | _, ρ, .targetPattern p => .targetPattern (p.retouch ρ)
  | _, ρ, .catchClause lead param body span =>
    .catchClause (ρ.lead lead) (param.retouch ρ) (body.retouch ρ) (ρ.span span)
  | _, ρ, .catchParam openLead target closeLead =>
    .catchParam (ρ.lead openLead) (target.retouch ρ) (ρ.lead closeLead)
  | _, ρ, .finallyClause lead body => .finallyClause (ρ.lead lead) (body.retouch ρ)
  | _, ρ, .switchCase lead test colonLead body span =>
    .switchCase (ρ.lead lead) (test.retouch ρ) (ρ.lead colonLead) (body.retouch ρ) (ρ.span span)
  | _, ρ, .exportFunction f => .exportFunction (f.retouch ρ)
  | _, ρ, .exportClass c => .exportClass (c.retouch ρ)
  | _, ρ, .exportExpr value terminator => .exportExpr (value.retouch ρ) (terminator.retouch ρ)
  | _, ρ, .element lead name attributes selfClosing closeLead openingSpan children closing span =>
    .element (ρ.lead lead) (name.retouch ρ) (attributes.retouch ρ) (selfClosing.map ρ.lead)
      (ρ.lead closeLead) (ρ.span openingSpan) (children.retouch ρ) (closing.map (·.retouch ρ))
      (ρ.span span)
  | _, ρ, .fragment lead openingLead children closingLead slashLead closeLead span =>
    .fragment (ρ.lead lead) (ρ.lead openingLead) (children.retouch ρ) (ρ.lead closingLead)
      (ρ.lead slashLead) (ρ.lead closeLead) (ρ.span span)
  | _, ρ, .attribute name eqLead value span =>
    .attribute (name.retouch ρ) (ρ.lead eqLead) (value.retouch ρ) (ρ.span span)
  | _, ρ, .spreadAttribute lead dotsLead operand closeLead span =>
    .spreadAttribute (ρ.lead lead) (ρ.lead dotsLead) (operand.retouch ρ) (ρ.lead closeLead)
      (ρ.span span)
  | _, ρ, .stringValue lit => .stringValue (ρ.literal lit)
  | _, ρ, .exprValue c => .exprValue (c.retouch ρ)
  | _, ρ, .elementValue e => .elementValue (e.retouch ρ)
  | _, ρ, .fragmentValue f => .fragmentValue (f.retouch ρ)
  | _, ρ, .emptyContainer lead inside insideSpan closeLead span =>
    .emptyContainer (ρ.lead lead) (ρ.lead inside) (ρ.span insideSpan) (ρ.lead closeLead)
      (ρ.span span)
  | _, ρ, .exprContainer lead value closeLead span =>
    .exprContainer (ρ.lead lead) (value.retouch ρ) (ρ.lead closeLead) (ρ.span span)
  | _, ρ, .textChild text => .textChild (ρ.text text)
  | _, ρ, .exprChild c => .exprChild (c.retouch ρ)
  | _, ρ, .spreadChild lead dotsLead operand closeLead span =>
    .spreadChild (ρ.lead lead) (ρ.lead dotsLead) (operand.retouch ρ) (ρ.lead closeLead)
      (ρ.span span)
  | _, ρ, .elementChild e => .elementChild (e.retouch ρ)
  | _, ρ, .fragmentChild f => .fragmentChild (f.retouch ρ)

/-! ### The equations of `retouch`, one for each construct -/

section

variable {c : Category} (ρ : Retouch)

@[simp]
theorem retouch_nil : (nil : Tree (.many c)).retouch ρ = .nil := rfl

@[simp]
theorem retouch_cons (head : Tree c) (tail) :
    (cons head tail).retouch ρ = .cons (head.retouch ρ) (tail.retouch ρ) := rfl

@[simp]
theorem retouch_absent : (absent : Tree (.maybe c)).retouch ρ = .absent := rfl

@[simp]
theorem retouch_present (part : Tree c) :
    (present part).retouch ρ = .present (part.retouch ρ) := rfl

@[simp]
theorem retouch_identifier (id) : (identifier id).retouch ρ = .identifier (id.retouch ρ) := rfl

@[simp]
theorem retouch_literal (lit) : (literal lit).retouch ρ = .literal (ρ.literal lit) := rfl

@[simp]
theorem retouch_template (t) : (template t).retouch ρ = .template (t.retouch ρ) := rfl

@[simp]
theorem retouch_tagged (tag quasi span) :
    (tagged tag quasi span).retouch ρ =
      .tagged (tag.retouch ρ) (quasi.retouch ρ) (ρ.span span) := rfl

@[simp]
theorem retouch_receiver (lead span) :
    (receiver lead span).retouch ρ = .receiver (ρ.lead lead) (ρ.span span) := rfl

@[simp]
theorem retouch_superclass (lead span) :
    (superclass lead span).retouch ρ = .superclass (ρ.lead lead) (ρ.span span) := rfl

@[simp]
theorem retouch_array (lead elements separators closeLead span) :
    (array lead elements separators closeLead span).retouch ρ =
      .array (ρ.lead lead) (elements.retouch ρ) (separators.map ρ.lead) (ρ.lead closeLead)
        (ρ.span span) := rfl

@[simp]
theorem retouch_object (lead members separators closeLead span) :
    (object lead members separators closeLead span).retouch ρ =
      .object (ρ.lead lead) (members.retouch ρ) (separators.map ρ.lead) (ρ.lead closeLead)
        (ρ.span span) := rfl

@[simp]
theorem retouch_functionExpr (f) : (functionExpr f).retouch ρ = .functionExpr (f.retouch ρ) := rfl

@[simp]
theorem retouch_arrow (isAsync asyncLead params arrowLead body span) :
    (arrow isAsync asyncLead params arrowLead body span).retouch ρ =
      .arrow isAsync (ρ.lead asyncLead) (params.retouch ρ) (ρ.lead arrowLead) (body.retouch ρ)
        (ρ.span span) := rfl

@[simp]
theorem retouch_classExpr (c) : (classExpr c).retouch ρ = .classExpr (c.retouch ρ) := rfl

@[simp]
theorem retouch_unary (lead op operand span) :
    (unary lead op operand span).retouch ρ =
      .unary (ρ.lead lead) op (operand.retouch ρ) (ρ.span span) := rfl

@[simp]
theorem retouch_update (op isBefore opLead operand span) :
    (update op isBefore opLead operand span).retouch ρ =
      .update op isBefore (ρ.lead opLead) (operand.retouch ρ) (ρ.span span) := rfl

@[simp]
theorem retouch_binary (left opLead op right span) :
    (binary left opLead op right span).retouch ρ =
      .binary (left.retouch ρ) (ρ.lead opLead) op (right.retouch ρ) (ρ.span span) := rfl

@[simp]
theorem retouch_assignment (target opLead op value span) :
    (assignment target opLead op value span).retouch ρ =
      .assignment (target.retouch ρ) (ρ.lead opLead) op (value.retouch ρ) (ρ.span span) := rfl

@[simp]
theorem retouch_conditional (test questionLead consequent colonLead alternate span) :
    (conditional test questionLead consequent colonLead alternate span).retouch ρ =
      .conditional (test.retouch ρ) (ρ.lead questionLead) (consequent.retouch ρ) (ρ.lead colonLead)
        (alternate.retouch ρ) (ρ.span span) := rfl

@[simp]
theorem retouch_sequence (items separators span) :
    (sequence items separators span).retouch ρ =
      .sequence (items.retouch ρ) (separators.map ρ.lead) (ρ.span span) := rfl

@[simp]
theorem retouch_call (callee isOptional optionalLead args span) :
    (call callee isOptional optionalLead args span).retouch ρ =
      .call (callee.retouch ρ) isOptional (ρ.lead optionalLead) (args.retouch ρ)
        (ρ.span span) := rfl

@[simp]
theorem retouch_construct (lead callee args span) :
    (construct lead callee args span).retouch ρ =
      .construct (ρ.lead lead) (callee.retouch ρ) (args.retouch ρ) (ρ.span span) := rfl

@[simp]
theorem retouch_memberAccess (base isOptional dotLead prop span) :
    (memberAccess base isOptional dotLead prop span).retouch ρ =
      .memberAccess (base.retouch ρ) isOptional (ρ.lead dotLead) (prop.retouch ρ)
        (ρ.span span) := rfl

@[simp]
theorem retouch_metaProperty (subject dotLead prop span) :
    (metaProperty subject dotLead prop span).retouch ρ =
      .metaProperty (subject.retouch ρ) (ρ.lead dotLead) (prop.retouch ρ) (ρ.span span) := rfl

@[simp]
theorem retouch_importCall (lead openLead source closeLead span) :
    (importCall lead openLead source closeLead span).retouch ρ =
      .importCall (ρ.lead lead) (ρ.lead openLead) (source.retouch ρ) (ρ.lead closeLead)
        (ρ.span span) := rfl

@[simp]
theorem retouch_parenthesized (lead inner closeLead span) :
    (parenthesized lead inner closeLead span).retouch ρ =
      .parenthesized (ρ.lead lead) (inner.retouch ρ) (ρ.lead closeLead) (ρ.span span) := rfl

@[simp]
theorem retouch_spread (lead operand span) :
    (spread lead operand span).retouch ρ =
      .spread (ρ.lead lead) (operand.retouch ρ) (ρ.span span) := rfl

@[simp]
theorem retouch_yield (lead starLead operand span) :
    (yield lead starLead operand span).retouch ρ =
      .yield (ρ.lead lead) (starLead.map ρ.lead) (operand.retouch ρ) (ρ.span span) := rfl

@[simp]
theorem retouch_await (lead operand span) :
    (await lead operand span).retouch ρ =
      .await (ρ.lead lead) (operand.retouch ρ) (ρ.span span) := rfl

@[simp]
theorem retouch_elementExpr (e) : (elementExpr e).retouch ρ = .elementExpr (e.retouch ρ) := rfl

@[simp]
theorem retouch_fragmentExpr (f) : (fragmentExpr f).retouch ρ = .fragmentExpr (f.retouch ρ) := rfl

@[simp]
theorem retouch_cover (asyncLead openLead items separators closeLead span) :
    (cover asyncLead openLead items separators closeLead span).retouch ρ =
      .cover (asyncLead.map ρ.lead) (ρ.lead openLead) (items.retouch ρ) (separators.map ρ.lead)
        (ρ.lead closeLead) (ρ.span span) := rfl

@[simp]
theorem retouch_templateLit (quasis exprs span) :
    (templateLit quasis exprs span).retouch ρ =
      .templateLit (quasis.map (·.retouch ρ)) (exprs.retouch ρ) (ρ.span span) := rfl

@[simp]
theorem retouch_argumentList (openLead items separators closeLead) :
    (argumentList openLead items separators closeLead).retouch ρ =
      .argumentList (ρ.lead openLead) (items.retouch ρ) (separators.map ρ.lead)
        (ρ.lead closeLead) := rfl

@[simp]
theorem retouch_property (mods name value kind isMethod isShorthand colonLead span) :
    (property mods name value kind isMethod isShorthand colonLead span).retouch ρ =
      .property (mods.retouch ρ) (name.retouch (if isShorthand then ρ.hidden else ρ))
        (value.retouch ρ) kind isMethod isShorthand (ρ.lead colonLead) (ρ.span span) := rfl

@[simp]
theorem retouch_spreadMember (lead operand span) :
    (spreadMember lead operand span).retouch ρ =
      .spreadMember (ρ.lead lead) (operand.retouch ρ) (ρ.span span) := rfl

@[simp]
theorem retouch_nameKey (id) : (nameKey id).retouch ρ = .nameKey (id.retouch ρ) := rfl

@[simp]
theorem retouch_literalKey (lit) : (literalKey lit).retouch ρ = .literalKey (ρ.literal lit) := rfl

@[simp]
theorem retouch_privateKey (name) :
    (privateKey name).retouch ρ = .privateKey (name.retouch ρ) := rfl

@[simp]
theorem retouch_computedKey (openLead inner closeLead) :
    (computedKey openLead inner closeLead).retouch ρ =
      .computedKey (ρ.lead openLead) (inner.retouch ρ) (ρ.lead closeLead) := rfl

@[simp]
theorem retouch_nameAccess (id) : (nameAccess id).retouch ρ = .nameAccess (id.retouch ρ) := rfl

@[simp]
theorem retouch_privateAccess (name) :
    (privateAccess name).retouch ρ = .privateAccess (name.retouch ρ) := rfl

@[simp]
theorem retouch_computedAccess (openLead inner closeLead) :
    (computedAccess openLead inner closeLead).retouch ρ =
      .computedAccess (ρ.lead openLead) (inner.retouch ρ) (ρ.lead closeLead) := rfl

@[simp]
theorem retouch_paramList (openLead items separators closeLead) :
    (paramList openLead items separators closeLead).retouch ρ =
      .paramList (ρ.lead openLead) (items.retouch ρ) (separators.map ρ.lead)
        (ρ.lead closeLead) := rfl

@[simp]
theorem retouch_bodyBlock (openLead stmts closeLead span) :
    (bodyBlock openLead stmts closeLead span).retouch ρ =
      .bodyBlock (ρ.lead openLead) (stmts.retouch ρ) (ρ.lead closeLead) (ρ.span span) := rfl

@[simp]
theorem retouch_function (head params body span) :
    (function head params body span).retouch ρ =
      .function (head.retouch ρ) (params.retouch ρ) (body.retouch ρ) (ρ.span span) := rfl

@[simp]
theorem retouch_bareParam (id) : (bareParam id).retouch ρ = .bareParam (id.retouch ρ) := rfl

@[simp]
theorem retouch_listedParams (params) :
    (listedParams params).retouch ρ = .listedParams (params.retouch ρ) := rfl

@[simp]
theorem retouch_blockBody (body) : (blockBody body).retouch ρ = .blockBody (body.retouch ρ) := rfl

@[simp]
theorem retouch_exprBody (value) : (exprBody value).retouch ρ = .exprBody (value.retouch ρ) := rfl

@[simp]
theorem retouch_heritage (lead base) :
    (heritage lead base).retouch ρ = .heritage (ρ.lead lead) (base.retouch ρ) := rfl

@[simp]
theorem retouch_classDef (lead name base openLead members closeLead span) :
    (classDef lead name base openLead members closeLead span).retouch ρ =
      .classDef (ρ.lead lead) (name.map (·.retouch ρ)) (base.retouch ρ) (ρ.lead openLead)
        (members.retouch ρ) (ρ.lead closeLead) (ρ.span span) := rfl

@[simp]
theorem retouch_method (mods kind name value span) :
    (method mods kind name value span).retouch ρ =
      .method (mods.retouch ρ) kind (name.retouch ρ) (value.retouch ρ) (ρ.span span) := rfl

@[simp]
theorem retouch_field (mods name value terminator span) :
    (field mods name value terminator span).retouch ρ =
      .field (mods.retouch ρ) (name.retouch ρ) (value.retouch ρ) (terminator.retouch ρ)
        (ρ.span span) := rfl

@[simp]
theorem retouch_staticBlock (lead openLead stmts closeLead span) :
    (staticBlock lead openLead stmts closeLead span).retouch ρ =
      .staticBlock (ρ.lead lead) (ρ.lead openLead) (stmts.retouch ρ) (ρ.lead closeLead)
        (ρ.span span) := rfl

@[simp]
theorem retouch_strayTerminator (lead span) :
    (strayTerminator lead span).retouch ρ = .strayTerminator (ρ.lead lead) (ρ.span span) := rfl

@[simp]
theorem retouch_initializer (lead value) :
    (initializer lead value).retouch ρ = .initializer (ρ.lead lead) (value.retouch ρ) := rfl

@[simp]
theorem retouch_namePattern (id) : (namePattern id).retouch ρ = .namePattern (id.retouch ρ) := rfl

@[simp]
theorem retouch_exprPattern (target) :
    (exprPattern target).retouch ρ = .exprPattern (target.retouch ρ) := rfl

@[simp]
theorem retouch_arrayPattern (lead elements separators closeLead span) :
    (arrayPattern lead elements separators closeLead span).retouch ρ =
      .arrayPattern (ρ.lead lead) (elements.retouch ρ) (separators.map ρ.lead) (ρ.lead closeLead)
        (ρ.span span) := rfl

@[simp]
theorem retouch_objectPattern (lead members separators closeLead span) :
    (objectPattern lead members separators closeLead span).retouch ρ =
      .objectPattern (ρ.lead lead) (members.retouch ρ) (separators.map ρ.lead) (ρ.lead closeLead)
        (ρ.span span) := rfl

@[simp]
theorem retouch_defaultPattern (target eqLead value span) :
    (defaultPattern target eqLead value span).retouch ρ =
      .defaultPattern (target.retouch ρ) (ρ.lead eqLead) (value.retouch ρ) (ρ.span span) := rfl

@[simp]
theorem retouch_restPattern (lead target span) :
    (restPattern lead target span).retouch ρ =
      .restPattern (ρ.lead lead) (target.retouch ρ) (ρ.span span) := rfl

@[simp]
theorem retouch_patternProperty (name value isShorthand colonLead span) :
    (patternProperty name value isShorthand colonLead span).retouch ρ =
      .patternProperty (name.retouch (if isShorthand then ρ.hidden else ρ)) (value.retouch ρ)
        isShorthand (ρ.lead colonLead) (ρ.span span) := rfl

@[simp]
theorem retouch_restMember (lead target span) :
    (restMember lead target span).retouch ρ =
      .restMember (ρ.lead lead) (target.retouch ρ) (ρ.span span) := rfl

@[simp]
theorem retouch_exprStmt (value directive terminator span) :
    (exprStmt value directive terminator span).retouch ρ =
      .exprStmt (value.retouch ρ) directive (terminator.retouch ρ) (ρ.span span) := rfl

@[simp]
theorem retouch_declarationStmt (d) :
    (declarationStmt d).retouch ρ = .declarationStmt (d.retouch ρ) := rfl

@[simp]
theorem retouch_functionStmt (f) : (functionStmt f).retouch ρ = .functionStmt (f.retouch ρ) := rfl

@[simp]
theorem retouch_classStmt (c) : (classStmt c).retouch ρ = .classStmt (c.retouch ρ) := rfl

@[simp]
theorem retouch_blockStmt (b) : (blockStmt b).retouch ρ = .blockStmt (b.retouch ρ) := rfl

@[simp]
theorem retouch_emptyStmt (lead span) :
    (emptyStmt lead span).retouch ρ = .emptyStmt (ρ.lead lead) (ρ.span span) := rfl

@[simp]
theorem retouch_ifStmt (lead openLead test closeLead consequent alternate span) :
    (ifStmt lead openLead test closeLead consequent alternate span).retouch ρ =
      .ifStmt (ρ.lead lead) (ρ.lead openLead) (test.retouch ρ) (ρ.lead closeLead)
        (consequent.retouch ρ) (alternate.retouch ρ) (ρ.span span) := rfl

@[simp]
theorem retouch_forStmt (lead openLead init firstLead test secondLead step closeLead body span) :
    (forStmt lead openLead init firstLead test secondLead step closeLead body span).retouch ρ =
      .forStmt (ρ.lead lead) (ρ.lead openLead) (init.retouch ρ) (ρ.lead firstLead) (test.retouch ρ)
        (ρ.lead secondLead) (step.retouch ρ) (ρ.lead closeLead) (body.retouch ρ)
        (ρ.span span) := rfl

@[simp]
theorem retouch_forInStmt (lead openLead left inLead right closeLead body span) :
    (forInStmt lead openLead left inLead right closeLead body span).retouch ρ =
      .forInStmt (ρ.lead lead) (ρ.lead openLead) (left.retouch ρ) (ρ.lead inLead) (right.retouch ρ)
        (ρ.lead closeLead) (body.retouch ρ) (ρ.span span) := rfl

@[simp]
theorem retouch_forOfStmt (lead awaitLead openLead left ofLead right closeLead body span) :
    (forOfStmt lead awaitLead openLead left ofLead right closeLead body span).retouch ρ =
      .forOfStmt (ρ.lead lead) (awaitLead.map ρ.lead) (ρ.lead openLead) (left.retouch ρ)
        (ρ.lead ofLead) (right.retouch ρ) (ρ.lead closeLead) (body.retouch ρ) (ρ.span span) := rfl

@[simp]
theorem retouch_whileStmt (lead openLead test closeLead body span) :
    (whileStmt lead openLead test closeLead body span).retouch ρ =
      .whileStmt (ρ.lead lead) (ρ.lead openLead) (test.retouch ρ) (ρ.lead closeLead)
        (body.retouch ρ) (ρ.span span) := rfl

@[simp]
theorem retouch_doWhileStmt (lead body whileLead openLead test closeLead terminator span) :
    (doWhileStmt lead body whileLead openLead test closeLead terminator span).retouch ρ =
      .doWhileStmt (ρ.lead lead) (body.retouch ρ) (ρ.lead whileLead) (ρ.lead openLead)
        (test.retouch ρ) (ρ.lead closeLead) (terminator.retouch ρ) (ρ.span span) := rfl

@[simp]
theorem retouch_returnStmt (lead value terminator span) :
    (returnStmt lead value terminator span).retouch ρ =
      .returnStmt (ρ.lead lead) (value.retouch ρ) (terminator.retouch ρ) (ρ.span span) := rfl

@[simp]
theorem retouch_breakStmt (lead label terminator span) :
    (breakStmt lead label terminator span).retouch ρ =
      .breakStmt (ρ.lead lead) (label.map (·.retouch ρ)) (terminator.retouch ρ) (ρ.span span) := rfl

@[simp]
theorem retouch_continueStmt (lead label terminator span) :
    (continueStmt lead label terminator span).retouch ρ =
      .continueStmt (ρ.lead lead) (label.map (·.retouch ρ)) (terminator.retouch ρ)
        (ρ.span span) := rfl

@[simp]
theorem retouch_throwStmt (lead value terminator span) :
    (throwStmt lead value terminator span).retouch ρ =
      .throwStmt (ρ.lead lead) (value.retouch ρ) (terminator.retouch ρ) (ρ.span span) := rfl

@[simp]
theorem retouch_tryStmt (lead guarded handler finalizer span) :
    (tryStmt lead guarded handler finalizer span).retouch ρ =
      .tryStmt (ρ.lead lead) (guarded.retouch ρ) (handler.retouch ρ) (finalizer.retouch ρ)
        (ρ.span span) := rfl

@[simp]
theorem retouch_switchStmt (lead openLead subject closeLead openBraceLead cases closeBraceLead span)
    :
    (switchStmt lead openLead subject closeLead openBraceLead cases closeBraceLead span).retouch ρ =
      .switchStmt (ρ.lead lead) (ρ.lead openLead) (subject.retouch ρ) (ρ.lead closeLead)
        (ρ.lead openBraceLead) (cases.retouch ρ) (ρ.lead closeBraceLead) (ρ.span span) := rfl

@[simp]
theorem retouch_labeledStmt (label colonLead body span) :
    (labeledStmt label colonLead body span).retouch ρ =
      .labeledStmt (label.retouch ρ) (ρ.lead colonLead) (body.retouch ρ) (ρ.span span) := rfl

@[simp]
theorem retouch_debuggerStmt (lead terminator span) :
    (debuggerStmt lead terminator span).retouch ρ =
      .debuggerStmt (ρ.lead lead) (terminator.retouch ρ) (ρ.span span) := rfl

@[simp]
theorem retouch_withStmt (lead openLead subject closeLead body span) :
    (withStmt lead openLead subject closeLead body span).retouch ρ =
      .withStmt (ρ.lead lead) (ρ.lead openLead) (subject.retouch ρ) (ρ.lead closeLead)
        (body.retouch ρ) (ρ.span span) := rfl

@[simp]
theorem retouch_importStmt (d) : (importStmt d).retouch ρ = .importStmt (d.retouch ρ) := rfl

@[simp]
theorem retouch_exportNamed (lead decl specifiers origin terminator span) :
    (exportNamed lead decl specifiers origin terminator span).retouch ρ =
      .exportNamed (ρ.lead lead) (decl.retouch ρ) (specifiers.map (·.retouch ρ))
        (origin.map (·.retouch ρ)) (terminator.map (·.retouch ρ)) (ρ.span span) := rfl

@[simp]
theorem retouch_exportDefault (lead defaultLead value span) :
    (exportDefault lead defaultLead value span).retouch ρ =
      .exportDefault (ρ.lead lead) (ρ.lead defaultLead) (value.retouch ρ) (ρ.span span) := rfl

@[simp]
theorem retouch_exportAll (d) : (exportAll d).retouch ρ = .exportAll (d.retouch ρ) := rfl

@[simp]
theorem retouch_block (lead stmts closeLead span) :
    (block lead stmts closeLead span).retouch ρ =
      .block (ρ.lead lead) (stmts.retouch ρ) (ρ.lead closeLead) (ρ.span span) := rfl

@[simp]
theorem retouch_elseClause (lead body) :
    (elseClause lead body).retouch ρ = .elseClause (ρ.lead lead) (body.retouch ρ) := rfl

@[simp]
theorem retouch_declaration (lead kind items separators terminator span) :
    (declaration lead kind items separators terminator span).retouch ρ =
      .declaration (ρ.lead lead) kind (items.retouch ρ) (separators.map ρ.lead)
        (terminator.map (·.retouch ρ)) (ρ.span span) := rfl

@[simp]
theorem retouch_declarator (target init span) :
    (declarator target init span).retouch ρ =
      .declarator (target.retouch ρ) (init.retouch ρ) (ρ.span span) := rfl

@[simp]
theorem retouch_forDeclaration (d) :
    (forDeclaration d).retouch ρ = .forDeclaration (d.retouch ρ) := rfl

@[simp]
theorem retouch_forExpr (e) : (forExpr e).retouch ρ = .forExpr (e.retouch ρ) := rfl

@[simp]
theorem retouch_targetDeclaration (d) :
    (targetDeclaration d).retouch ρ = .targetDeclaration (d.retouch ρ) := rfl

@[simp]
theorem retouch_targetPattern (p) :
    (targetPattern p).retouch ρ = .targetPattern (p.retouch ρ) := rfl

@[simp]
theorem retouch_catchClause (lead param body span) :
    (catchClause lead param body span).retouch ρ =
      .catchClause (ρ.lead lead) (param.retouch ρ) (body.retouch ρ) (ρ.span span) := rfl

@[simp]
theorem retouch_catchParam (openLead target closeLead) :
    (catchParam openLead target closeLead).retouch ρ =
      .catchParam (ρ.lead openLead) (target.retouch ρ) (ρ.lead closeLead) := rfl

@[simp]
theorem retouch_finallyClause (lead body) :
    (finallyClause lead body).retouch ρ = .finallyClause (ρ.lead lead) (body.retouch ρ) := rfl

@[simp]
theorem retouch_switchCase (lead test colonLead body span) :
    (switchCase lead test colonLead body span).retouch ρ =
      .switchCase (ρ.lead lead) (test.retouch ρ) (ρ.lead colonLead) (body.retouch ρ)
        (ρ.span span) := rfl

@[simp]
theorem retouch_exportFunction (f) :
    (exportFunction f).retouch ρ = .exportFunction (f.retouch ρ) := rfl

@[simp]
theorem retouch_exportClass (c) : (exportClass c).retouch ρ = .exportClass (c.retouch ρ) := rfl

@[simp]
theorem retouch_exportExpr (value terminator) :
    (exportExpr value terminator).retouch ρ =
      .exportExpr (value.retouch ρ) (terminator.retouch ρ) := rfl

@[simp]
theorem retouch_element (lead name attributes selfClosing closeLead openingSpan children closing
    span) :
    (element lead name attributes selfClosing closeLead openingSpan children closing span).retouch ρ
      =
      .element (ρ.lead lead) (name.retouch ρ) (attributes.retouch ρ) (selfClosing.map ρ.lead)
        (ρ.lead closeLead) (ρ.span openingSpan) (children.retouch ρ) (closing.map (·.retouch ρ))
        (ρ.span span) := rfl

@[simp]
theorem retouch_fragment (lead openingLead children closingLead slashLead closeLead span) :
    (fragment lead openingLead children closingLead slashLead closeLead span).retouch ρ =
      .fragment (ρ.lead lead) (ρ.lead openingLead) (children.retouch ρ) (ρ.lead closingLead)
        (ρ.lead slashLead) (ρ.lead closeLead) (ρ.span span) := rfl

@[simp]
theorem retouch_attribute (name eqLead value span) :
    («attribute» name eqLead value span).retouch ρ =
      .attribute (name.retouch ρ) (ρ.lead eqLead) (value.retouch ρ) (ρ.span span) := rfl

@[simp]
theorem retouch_spreadAttribute (lead dotsLead operand closeLead span) :
    (spreadAttribute lead dotsLead operand closeLead span).retouch ρ =
      .spreadAttribute (ρ.lead lead) (ρ.lead dotsLead) (operand.retouch ρ) (ρ.lead closeLead)
        (ρ.span span) := rfl

@[simp]
theorem retouch_stringValue (lit) :
    (stringValue lit).retouch ρ = .stringValue (ρ.literal lit) := rfl

@[simp]
theorem retouch_exprValue (c) : (exprValue c).retouch ρ = .exprValue (c.retouch ρ) := rfl

@[simp]
theorem retouch_elementValue (e) : (elementValue e).retouch ρ = .elementValue (e.retouch ρ) := rfl

@[simp]
theorem retouch_fragmentValue (f) :
    (fragmentValue f).retouch ρ = .fragmentValue (f.retouch ρ) := rfl

@[simp]
theorem retouch_emptyContainer (lead inside insideSpan closeLead span) :
    (emptyContainer lead inside insideSpan closeLead span).retouch ρ =
      .emptyContainer (ρ.lead lead) (ρ.lead inside) (ρ.span insideSpan) (ρ.lead closeLead)
        (ρ.span span) := rfl

@[simp]
theorem retouch_exprContainer (lead value closeLead span) :
    (exprContainer lead value closeLead span).retouch ρ =
      .exprContainer (ρ.lead lead) (value.retouch ρ) (ρ.lead closeLead) (ρ.span span) := rfl

@[simp]
theorem retouch_textChild (text) : (textChild text).retouch ρ = .textChild (ρ.text text) := rfl

@[simp]
theorem retouch_exprChild (c) : (exprChild c).retouch ρ = .exprChild (c.retouch ρ) := rfl

@[simp]
theorem retouch_spreadChild (lead dotsLead operand closeLead span) :
    (spreadChild lead dotsLead operand closeLead span).retouch ρ =
      .spreadChild (ρ.lead lead) (ρ.lead dotsLead) (operand.retouch ρ) (ρ.lead closeLead)
        (ρ.span span) := rfl

@[simp]
theorem retouch_elementChild (e) : (elementChild e).retouch ρ = .elementChild (e.retouch ρ) := rfl

@[simp]
theorem retouch_fragmentChild (f) :
    (fragmentChild f).retouch ρ = .fragmentChild (f.retouch ρ) := rfl

end

/-! ### Lists of trees -/

@[simp]
theorem retouch_ofList {c : Category} (ρ : Retouch) (items : List (Tree c)) :
    (ofList items).retouch ρ = ofList (items.map (·.retouch ρ)) := by
  induction items with
  | nil => rfl
  | cons head tail ih => simp [ofList, ih]

end Tree

/-- Retouches a program. -/
def Program.retouch (ρ : Retouch) (p : Program) : Program where
  goal := p.goal
  body := p.body.map (·.retouch ρ)
  tail := ρ.lead p.tail
  span := ρ.span p.span

/-! ## Visits of retouched trees -/

section

variable {m n : Type → Type} [Monad m] [Monad n]

/-- A relation between visits that pure values and sequences respect. -/
structure VisitRel (R : (α : Type) → m α → n α → Prop) : Prop where
  /-- A value is related to itself. -/
  pure {α : Type} (a : α) : R α (Pure.pure a) (Pure.pure a)
  /-- Sequences of related visits are related. -/
  bind {α β : Type} {x : m α} {y : n α} {f : α → m β} {g : α → n β} (h : R α x y)
    (h' : ∀ a, R β (f a) (g a)) : R β (x >>= f) (y >>= g)

/-- Two visitors do related things at leaves and extents, the second at retouched ones. -/
structure Visitor.Related (R : (α : Type) → m α → n α → Prop) (ρ : Retouch) (v : Visitor m)
    (w : Visitor n) : Prop where
  /-- The retouch leaves trivia alone. -/
  lead : ρ.lead = id
  /-- At names. -/
  ident (id : Ident) : R _ (v.ident id) (w.ident (id.retouch ρ))
  /-- At literals. -/
  literal (lit : Literal) : R _ (v.literal lit) (w.literal (ρ.literal lit))
  /-- At texts. -/
  text (t : MarkupText) : R _ (v.text t) (w.text (ρ.text t))
  /-- At separators. -/
  separators (seps : List String) : R _ (v.separators seps) (w.separators seps)
  /-- At extents. -/
  span (s : Span) : R _ (v.span s) (w.span (ρ.span s))

namespace Visitor.Related

variable {R : (α : Type) → m α → n α → Prop} {ρ : Retouch} {v : Visitor m} {w : Visitor n}
  (hR : VisitRel R) (h : v.Related R ρ w)
include hR h

theorem hidden : v.hidden.Related R ρ.hidden w.hidden where
  lead := h.lead
  ident id := hR.bind (h.span _) fun _ => by
    simp only [Ident.retouch, Retouch.hidden, h.lead]
    exact hR.pure _
  literal lit := hR.bind (h.span _) fun _ => by
    simp only [Retouch.hidden, h.lead]
    exact hR.pure _
  text t := hR.bind (h.span _) fun _ => hR.pure _
  separators seps := hR.pure _
  span := h.span

omit h in
theorem option {α : Type} {visit : α → m α} {visit' : α → n α} {change : α → α}
    (ha : ∀ a, R _ (visit a) (visit' (change a))) (part : Option α) :
    R _ (Visitor.option visit part) (Visitor.option visit' (part.map change)) := by
  cases part with
  | none => exact hR.pure _
  | some part => exact hR.bind (ha part) fun _ => hR.pure _

omit h in
theorem list {α : Type} {visit : α → m α} {visit' : α → n α} {change : α → α}
    (ha : ∀ a, R _ (visit a) (visit' (change a))) (items : List α) :
    R _ (Visitor.list visit items) (Visitor.list visit' (items.map change)) := by
  induction items with
  | nil => exact hR.pure _
  | cons head tail ih => exact hR.bind (ha head) fun _ => hR.bind ih fun _ => hR.pure _

/-! ### Leaves and lists of leaves -/

theorem privateName (name : PrivateName) :
    R _ (v.privateName name) (w.privateName (name.retouch ρ)) :=
  hR.bind (h.span _) fun _ => by
    simp only [PrivateName.retouch, h.lead]
    exact hR.pure _

theorem quasi (piece : Quasi) : R _ (v.quasi piece) (w.quasi (piece.retouch ρ)) :=
  hR.bind (h.span _) fun _ => by
    simp only [Quasi.retouch, h.lead]
    exact hR.pure _

theorem functionHead (head : FunctionHead) :
    R _ (v.functionHead head) (w.functionHead (head.retouch ρ)) :=
  hR.bind (option hR h.ident _) fun _ => by
    simp only [FunctionHead.retouch, h.lead]
    exact hR.pure _

theorem tagIdent (id : TagIdent) : R _ (v.tagIdent id) (w.tagIdent (id.retouch ρ)) :=
  hR.bind (h.span _) fun _ => by
    simp only [TagIdent.retouch, h.lead]
    exact hR.pure _

theorem namespacedName (n : NamespacedName) :
    R _ (v.namespacedName n) (w.namespacedName (n.retouch ρ)) :=
  hR.bind (h.tagIdent hR _) fun _ => hR.bind (h.tagIdent hR _) fun _ =>
    hR.bind (h.span _) fun _ => by
    simp only [NamespacedName.retouch, h.lead]
    exact hR.pure _

theorem tagName (name : TagName) : R _ (v.tagName name) (w.tagName (name.retouch ρ)) := by
  induction name with
  | plain id => exact hR.bind (h.tagIdent hR _) fun _ => hR.pure _
  | namespaced n => exact hR.bind (h.namespacedName hR _) fun _ => hR.pure _
  | member base dotLead prop span ih =>
    refine hR.bind ih fun _ => hR.bind (h.tagIdent hR _) fun _ => hR.bind (h.span _) fun _ => ?_
    simp only [h.lead]
    exact hR.pure _

theorem attributeName (name : AttributeName) :
    R _ (v.attributeName name) (w.attributeName (name.retouch ρ)) := by
  cases name with
  | plain id => exact hR.bind (h.tagIdent hR _) fun _ => hR.pure _
  | namespaced n => exact hR.bind (h.namespacedName hR _) fun _ => hR.pure _

theorem closingTag (tag : ClosingTag) : R _ (v.closingTag tag) (w.closingTag (tag.retouch ρ)) :=
  hR.bind (h.tagName hR _) fun _ => hR.bind (h.span _) fun _ => by
    simp only [ClosingTag.retouch, h.lead]
    exact hR.pure _

theorem exportName (name : ExportName) : R _ (v.exportName name)
    (w.exportName (name.retouch ρ)) := by
  cases name with
  | ident id => exact hR.bind (h.ident _) fun _ => hR.pure _
  | string lit => exact hR.bind (h.literal _) fun _ => hR.pure _

theorem importAlias (a : ImportAlias) : R _ (v.importAlias a) (w.importAlias (a.retouch ρ)) :=
  hR.bind (h.ident _) fun _ => by
    simp only [ImportAlias.retouch, h.lead]
    exact hR.pure _

theorem exportAlias (a : ExportAlias) : R _ (v.exportAlias a) (w.exportAlias (a.retouch ρ)) :=
  hR.bind (h.exportName hR _) fun _ => by
    simp only [ExportAlias.retouch, h.lead]
    exact hR.pure _

theorem importSpecifier (s : ImportSpecifier) :
    R _ (v.importSpecifier s) (w.importSpecifier (s.retouch ρ)) :=
  hR.bind (h.exportName hR _) fun _ => hR.bind (option hR (h.importAlias hR) _) fun _ =>
    hR.bind (h.span _) fun _ => hR.pure _

theorem namespaceImport (n : NamespaceImport) :
    R _ (v.namespaceImport n) (w.namespaceImport (n.retouch ρ)) :=
  hR.bind (h.ident _) fun _ => hR.bind (h.span _) fun _ => by
    simp only [NamespaceImport.retouch, h.lead]
    exact hR.pure _

theorem namedImports (n : NamedImports) :
    R _ (v.namedImports n) (w.namedImports (n.retouch ρ)) := by
  simp only [NamedImports.retouch, h.lead, List.map_id]
  exact hR.bind (h.separators _) fun _ => hR.bind (list hR (h.importSpecifier hR) _)
    fun _ => hR.pure _

theorem importClause (c : ImportClause) :
    R _ (v.importClause c) (w.importClause (c.retouch ρ)) :=
  hR.bind (option hR h.ident _) fun _ => hR.bind (option hR (h.namespaceImport hR) _) fun _ =>
    hR.bind (option hR (h.namedImports hR) _) fun _ => by
      simp only [ImportClause.retouch, h.lead]
      exact hR.pure _

theorem importDeclaration (d : ImportDeclaration) :
    R _ (v.importDeclaration d) (w.importDeclaration (d.retouch ρ)) :=
  hR.bind (option hR (h.importClause hR) _) fun _ => hR.bind (h.literal _) fun _ =>
    hR.bind (h.span _) fun _ => by
      simp only [ImportDeclaration.retouch, Terminator.retouch, h.lead]
      exact hR.pure _

theorem exportSpecifier (s : ExportSpecifier) :
    R _ (v.exportSpecifier s) (w.exportSpecifier (s.retouch ρ)) :=
  hR.bind (h.exportName hR _) fun _ => hR.bind (option hR (h.exportAlias hR) _) fun _ =>
    hR.bind (h.span _) fun _ => hR.pure _

theorem namedExports (n : NamedExports) :
    R _ (v.namedExports n) (w.namedExports (n.retouch ρ)) := by
  simp only [NamedExports.retouch, h.lead, List.map_id]
  exact hR.bind (h.separators _) fun _ => hR.bind (list hR (h.exportSpecifier hR) _)
    fun _ => hR.pure _

theorem fromClause (c : FromClause) : R _ (v.fromClause c) (w.fromClause (c.retouch ρ)) :=
  hR.bind (h.literal _) fun _ => by
    simp only [FromClause.retouch, h.lead]
    exact hR.pure _

theorem exportAll (d : ExportAll) : R _ (v.exportAll d) (w.exportAll (d.retouch ρ)) :=
  hR.bind (option hR (h.exportAlias hR) _) fun _ => hR.bind (h.fromClause hR _) fun _ =>
    hR.bind (h.span _) fun _ => by
      simp only [ExportAll.retouch, Terminator.retouch, h.lead]
      exact hR.pure _

end Visitor.Related

theorem Modifiers.retouch_eq_self {ρ : Retouch} (h : ρ.lead = id) (mods : Modifiers) :
    mods.retouch ρ = mods := by
  simp [retouch, h]

theorem Terminator.retouch_option {ρ : Retouch} (h : ρ.lead = id) (t : Option Terminator) :
    t.map (·.retouch ρ) = t := by
  cases t <;> simp [retouch, h]

namespace Tree

/-- Visitors that do related things at leaves and extents do so at trees. -/
theorem traverse_related {R : (α : Type) → m α → n α → Prop} (hR : VisitRel R) {c : Category}
    (t : Tree c) {ρ : Retouch} {v : Visitor m} {w : Visitor n} (h : v.Related R ρ w) :
    R _ (t.traverse v) ((t.retouch ρ).traverse w) := by
  induction t generalizing ρ v w
  case property isShorthand _ _ ihKey ihValue =>
    rw [retouch_property, Modifiers.retouch_eq_self h.lead, h.lead]
    cases isShorthand with
    | true => exact hR.bind (ihKey (h.hidden hR)) fun _ => hR.bind (ihValue h) fun _ =>
        hR.bind (h.span _) fun _ => hR.pure _
    | false => exact hR.bind (ihKey h) fun _ => hR.bind (ihValue h) fun _ =>
        hR.bind (h.span _) fun _ => hR.pure _
  case patternProperty isShorthand _ _ ihKey ihValue =>
    rw [retouch_patternProperty, h.lead]
    cases isShorthand with
    | true => exact hR.bind (ihKey (h.hidden hR)) fun _ => hR.bind (ihValue h) fun _ =>
        hR.bind (h.span _) fun _ => hR.pure _
    | false => exact hR.bind (ihKey h) fun _ => hR.bind (ihValue h) fun _ =>
        hR.bind (h.span _) fun _ => hR.pure _
  -- Trivia that is left alone is what it was.
  all_goals
    obtain ⟨lead, span, literal, text⟩ := ρ
    obtain rfl : lead = id := h.lead
    try simp only [retouch_array, retouch_object, retouch_sequence, retouch_cover,
      retouch_argumentList, retouch_paramList, retouch_arrayPattern, retouch_objectPattern,
      retouch_declaration, retouch_yield, retouch_method, retouch_field, retouch_forOfStmt,
      retouch_element, retouch_exportNamed, Modifiers.retouch_eq_self, Terminator.retouch_option,
      List.map_id, Option.map_id, id_eq]
  case importStmt d => exact hR.bind (h.importDeclaration hR d) fun _ => hR.pure _
  case exportAll d => exact hR.bind (h.exportAll hR d) fun _ => hR.pure _
  all_goals
    repeat first
      | exact hR.pure _
      | refine hR.bind (by first
          | apply_assumption; exact h
          | exact h.ident _
          | exact h.literal _
          | exact h.text _
          | exact h.separators _
          | exact h.span _
          | exact h.privateName hR _
          | exact h.functionHead hR _
          | exact h.tagName hR _
          | exact h.attributeName hR _
          | exact Visitor.Related.list hR (h.quasi hR) _
          | exact Visitor.Related.option hR h.ident _
          | exact Visitor.Related.option hR (h.closingTag hR) _
          | exact Visitor.Related.option hR (h.namedExports hR) _
          | exact Visitor.Related.option hR (h.fromClause hR) _) fun _ => ?_

end Tree

/-! ## Visits that do nothing -/

/-- A visitor that does nothing at leaves and extents. -/
structure Visitor.Idle (v : Visitor m) : Prop where
  /-- At names. -/
  ident (id : Ident) : v.ident id = pure id
  /-- At literals. -/
  literal (lit : Literal) : v.literal lit = pure lit
  /-- At texts. -/
  text (t : MarkupText) : v.text t = pure t
  /-- At separators. -/
  separators (seps : List String) : v.separators seps = pure seps
  /-- At extents. -/
  span (s : Span) : v.span s = pure s

namespace Visitor.Idle

variable [LawfulMonad m] {v : Visitor m} (h : v.Idle)
include h

theorem hidden : v.hidden.Idle := by
  constructor <;> intros <;> simp [Visitor.hidden, ofSpan, h.span]

omit h in
theorem option {α : Type} {visit : α → m α} (ha : ∀ a, visit a = pure a) (part : Option α) :
    Visitor.option visit part = pure part := by
  cases part <;> simp [Visitor.option, ha]

omit h in
theorem list {α : Type} {visit : α → m α} (ha : ∀ a, visit a = pure a) (items : List α) :
    Visitor.list visit items = pure items := by
  induction items with
  | nil => rfl
  | cons head tail ih => simp [Visitor.list, ha, ih]

theorem privateName (name : PrivateName) : v.privateName name = pure name := by
  simp [Visitor.privateName, h.span]

theorem quasi (piece : Quasi) : v.quasi piece = pure piece := by
  simp [Visitor.quasi, h.span]

theorem functionHead (head : FunctionHead) : v.functionHead head = pure head := by
  simp [Visitor.functionHead, option h.ident]

theorem tagIdent (id : TagIdent) : v.tagIdent id = pure id := by
  simp [Visitor.tagIdent, h.span]

theorem namespacedName (n : NamespacedName) : v.namespacedName n = pure n := by
  simp [Visitor.namespacedName, h.tagIdent, h.span]

theorem tagName (name : TagName) : v.tagName name = pure name := by
  induction name with
  | plain id => simp [Visitor.tagName, h.tagIdent]
  | namespaced n => simp [Visitor.tagName, h.namespacedName]
  | member base dotLead prop span ih => simp [Visitor.tagName, ih, h.tagIdent, h.span]

theorem attributeName (name : AttributeName) : v.attributeName name = pure name := by
  cases name <;> simp [Visitor.attributeName, h.tagIdent, h.namespacedName]

theorem closingTag (tag : ClosingTag) : v.closingTag tag = pure tag := by
  simp [Visitor.closingTag, h.tagName, h.span]

theorem exportName (name : ExportName) : v.exportName name = pure name := by
  cases name <;> simp [Visitor.exportName, h.ident, h.literal]

theorem exportAlias (a : ExportAlias) : v.exportAlias a = pure a := by
  simp [Visitor.exportAlias, h.exportName]

theorem importSpecifier (s : ImportSpecifier) : v.importSpecifier s = pure s := by
  have halias : ∀ a, v.importAlias a = pure a := fun a => by simp [Visitor.importAlias, h.ident]
  simp [Visitor.importSpecifier, h.exportName, h.span, option halias]

theorem namespaceImport (n : NamespaceImport) : v.namespaceImport n = pure n := by
  simp [Visitor.namespaceImport, h.ident, h.span]

theorem namedImports (n : NamedImports) : v.namedImports n = pure n := by
  simp [Visitor.namedImports, h.separators, list h.importSpecifier]

theorem importDeclaration (d : ImportDeclaration) : v.importDeclaration d = pure d := by
  have hclause : ∀ c, v.importClause c = pure c := fun c => by
    simp [Visitor.importClause, option h.ident, option h.namespaceImport, option h.namedImports]
  simp [Visitor.importDeclaration, option hclause, h.literal, h.span]

theorem exportSpecifier (s : ExportSpecifier) : v.exportSpecifier s = pure s := by
  simp [Visitor.exportSpecifier, h.exportName, option h.exportAlias, h.span]

theorem namedExports (n : NamedExports) : v.namedExports n = pure n := by
  simp [Visitor.namedExports, h.separators, list h.exportSpecifier]

theorem fromClause (c : FromClause) : v.fromClause c = pure c := by
  simp [Visitor.fromClause, h.literal]

theorem exportAll (d : ExportAll) : v.exportAll d = pure d := by
  simp [Visitor.exportAll, option h.exportAlias, h.fromClause, h.span]

end Visitor.Idle

/-- A visit that does nothing leaves a tree as it is. -/
theorem Tree.traverse_idle [LawfulMonad m] {v : Visitor m} (h : v.Idle) {c : Category}
    (t : Tree c) :
    t.traverse v = pure t := by
  induction t generalizing v
  all_goals first | rfl | change _ >>= _ = _
  case property isShorthand _ _ ihKey ihValue =>
    cases isShorthand <;> simp [ihKey h, ihKey h.hidden, ihValue h, h.span]
  case patternProperty isShorthand _ _ ihKey ihValue =>
    cases isShorthand <;> simp [ihKey h, ihKey h.hidden, ihValue h, h.span]
  all_goals simp only [h.ident, h.literal, h.text, h.separators, h.span, h.privateName,
    h.functionHead, h.tagName, h.attributeName, Visitor.Idle.list h.quasi,
    Visitor.Idle.option h.ident, Visitor.Idle.option h.closingTag,
    Visitor.Idle.option h.namedExports, Visitor.Idle.option h.fromClause, h.importDeclaration,
    h.exportAll, pure_bind, *]

theorem Visitor.idle_skip : (Visitor.skip : Visitor m).Idle :=
  ⟨fun _ => rfl, fun _ => rfl, fun _ => rfl, fun _ => rfl, fun _ => rfl⟩

/-- Being the same is a relation that pure values and sequences respect. -/
theorem VisitRel.eq : VisitRel fun α (x y : m α) => x = y :=
  ⟨fun _ => rfl, fun h h' => by rw [h, funext h']⟩

end

/-- The visitor that changes leaves and extents as a retouch does. -/
def Retouch.visitor (ρ : Retouch) : Visitor Id where
  ident id := id.retouch ρ
  literal := ρ.literal
  text := ρ.text
  separators := id
  span := ρ.span

namespace Tree

variable {c : Category} {ρ σ : Retouch}

/-- A visit that changes leaves and extents is a retouch. -/
theorem traverse_visitor (h : ρ.lead = id) (t : Tree c) : t.traverse ρ.visitor = t.retouch ρ := by
  have hrelated : ρ.visitor.Related (fun _ x y => x = y) ρ (Visitor.skip : Visitor Id) :=
    ⟨h, fun _ => rfl, fun _ => rfl, fun _ => rfl, fun _ => rfl, fun _ => rfl⟩
  exact (t.traverse_related .eq hrelated).trans (traverse_idle Visitor.idle_skip _)

/-- Changing extents is a retouch. -/
theorem mapSpans_eq_retouch (g : Span → Span) (t : Tree c) :
    t.mapSpans g = t.retouch { span := g } :=
  @traverse_visitor c { span := g } rfl t

/-- Retouching twice. -/
theorem retouch_retouch (hρ : ρ.lead = id) (hσ : σ.lead = id) (t : Tree c) :
    (t.retouch ρ).retouch σ = t.retouch (σ.comp ρ) := by
  have hrelated : (σ.comp ρ).visitor.Related (fun _ x y => x = y) ρ σ.visitor :=
    ⟨hρ, fun _ => rfl, fun _ => rfl, fun _ => rfl, fun _ => rfl, fun _ => rfl⟩
  have hcomp : (σ.comp ρ).lead = id := by simp [Retouch.comp, hρ, hσ]
  rw [← traverse_visitor hσ, ← t.traverse_related .eq hrelated, traverse_visitor hcomp]

end Tree

/-- Changing the extents of a program is a retouch. -/
theorem Program.mapSpans_eq_retouch (g : Span → Span) (p : Program) :
    p.mapSpans g = p.retouch { span := g } := by
  have hbody : p.body.map (·.mapSpans g) = p.body.map (·.retouch { span := g }) :=
    List.map_congr_left fun t _ => t.mapSpans_eq_retouch g
  rw [mapSpans_eq, hbody]
  rfl

end Verbatim
