import Verbatim.Parsed
import Verbatim.Proofs.Tree.Texts

/-!
# Changing the extents of a tree

The equations of `Tree.mapSpans`, one for each construct, and the fact that extents have no
influence on what is printed. So a program prints the same whichever extents the options select.

## Main definitions

* `Verbatim.Span.between` — complete extents.
* `Verbatim.Visitor.moving` — the visitor that changes every extent by a function.

## Main results

* `Verbatim.Tree.texts_mapSpans` — a tree prints the same after a change of its extents.
* `Verbatim.Program.print_mapSpans` — so does a program.
* `Verbatim.Tree.mapSpans_mapSpans` — changing extents twice.
-/

namespace Verbatim

/-- The complete extent between two points. -/
def Span.between (start stop : Position) : Span :=
  { range := some (start.offset, stop.offset), location := some { start, stop } }

/-- The visitor that changes every extent by `g`. -/
abbrev Visitor.moving (g : Span → Span) : Visitor Id := .ofSpan g

namespace Tree

section

variable {c : Category} (g : Span → Span)

/-! ## The equations of `mapSpans`

### Lists and options -/

@[simp]
theorem mapSpans_nil : (nil : Tree (.many c)).mapSpans g = nil := rfl

@[simp]
theorem mapSpans_cons (head : Tree c) (tail : Tree (.many c)) :
    (cons head tail).mapSpans g = .cons (head.mapSpans g) (tail.mapSpans g) := rfl

@[simp]
theorem mapSpans_absent : (absent : Tree (.maybe c)).mapSpans g = absent := rfl

@[simp]
theorem mapSpans_present (part : Tree c) :
    (present part).mapSpans g = .present (part.mapSpans g) := rfl

/-! ### Expressions -/

@[simp]
theorem mapSpans_identifier (id) :
    (identifier id).mapSpans g = .identifier ((Visitor.moving g).ident id) := rfl

@[simp]
theorem mapSpans_literal (lit) :
    (literal lit).mapSpans g = .literal ((Visitor.moving g).literal lit) := rfl

@[simp]
theorem mapSpans_template (t) : (template t).mapSpans g = .template (t.mapSpans g) := rfl

@[simp]
theorem mapSpans_tagged (tag quasi span) :
    (tagged tag quasi span).mapSpans g = .tagged (tag.mapSpans g) (quasi.mapSpans g) (g span) := rfl

@[simp]
theorem mapSpans_receiver (lead span) :
    (receiver lead span).mapSpans g = .receiver lead (g span) := rfl

@[simp]
theorem mapSpans_superclass (lead span) :
    (superclass lead span).mapSpans g = .superclass lead (g span) := rfl

@[simp]
theorem mapSpans_array (lead elements separators closeLead span) :
    (array lead elements separators closeLead span).mapSpans g =
      .array lead (elements.mapSpans g) separators closeLead (g span) := rfl

@[simp]
theorem mapSpans_object (lead members separators closeLead span) :
    (object lead members separators closeLead span).mapSpans g =
      .object lead (members.mapSpans g) separators closeLead (g span) := rfl

@[simp]
theorem mapSpans_functionExpr (f) :
    (functionExpr f).mapSpans g = .functionExpr (f.mapSpans g) := rfl

@[simp]
theorem mapSpans_arrow (isAsync asyncLead params arrowLead body span) :
    (arrow isAsync asyncLead params arrowLead body span).mapSpans g =
      .arrow isAsync asyncLead (params.mapSpans g) arrowLead (body.mapSpans g) (g span) := rfl

@[simp]
theorem mapSpans_classExpr (c) : (classExpr c).mapSpans g = .classExpr (c.mapSpans g) := rfl

@[simp]
theorem mapSpans_unary (lead op operand span) :
    (unary lead op operand span).mapSpans g = .unary lead op (operand.mapSpans g) (g span) := rfl

@[simp]
theorem mapSpans_update (op isBefore opLead operand span) :
    (update op isBefore opLead operand span).mapSpans g =
      .update op isBefore opLead (operand.mapSpans g) (g span) := rfl

@[simp]
theorem mapSpans_binary (left opLead op right span) :
    (binary left opLead op right span).mapSpans g =
      .binary (left.mapSpans g) opLead op (right.mapSpans g) (g span) := rfl

@[simp]
theorem mapSpans_assignment (target opLead op value span) :
    (assignment target opLead op value span).mapSpans g =
      .assignment (target.mapSpans g) opLead op (value.mapSpans g) (g span) := rfl

@[simp]
theorem mapSpans_conditional (test questionLead consequent colonLead alternate span) :
    (conditional test questionLead consequent colonLead alternate span).mapSpans g =
      .conditional (test.mapSpans g) questionLead (consequent.mapSpans g) colonLead
        (alternate.mapSpans g) (g span) := rfl

@[simp]
theorem mapSpans_sequence (items separators span) :
    (sequence items separators span).mapSpans g =
      .sequence (items.mapSpans g) separators (g span) := rfl

@[simp]
theorem mapSpans_call (callee isOptional optionalLead args span) :
    (call callee isOptional optionalLead args span).mapSpans g =
      .call (callee.mapSpans g) isOptional optionalLead (args.mapSpans g) (g span) := rfl

@[simp]
theorem mapSpans_construct (lead callee args span) :
    (construct lead callee args span).mapSpans g =
      .construct lead (callee.mapSpans g) (args.mapSpans g) (g span) := rfl

@[simp]
theorem mapSpans_memberAccess (object isOptional dotLead property span) :
    (memberAccess object isOptional dotLead property span).mapSpans g =
      .memberAccess (object.mapSpans g) isOptional dotLead (property.mapSpans g) (g span) := rfl

@[simp]
theorem mapSpans_metaProperty (subject dotLead property span) :
    (metaProperty subject dotLead property span).mapSpans g =
      .metaProperty ((Visitor.moving g).ident subject) dotLead ((Visitor.moving g).ident property)
        (g span) := rfl

@[simp]
theorem mapSpans_importCall (lead openLead source closeLead span) :
    (importCall lead openLead source closeLead span).mapSpans g =
      .importCall lead openLead (source.mapSpans g) closeLead (g span) := rfl

@[simp]
theorem mapSpans_parenthesized (lead inner closeLead span) :
    (parenthesized lead inner closeLead span).mapSpans g =
      .parenthesized lead (inner.mapSpans g) closeLead (g span) := rfl

@[simp]
theorem mapSpans_spread (lead operand span) :
    (spread lead operand span).mapSpans g = .spread lead (operand.mapSpans g) (g span) := rfl

@[simp]
theorem mapSpans_yield (lead starLead operand span) :
    (yield lead starLead operand span).mapSpans g =
      .yield lead starLead (operand.mapSpans g) (g span) := rfl

@[simp]
theorem mapSpans_await (lead operand span) :
    (await lead operand span).mapSpans g = .await lead (operand.mapSpans g) (g span) := rfl

@[simp]
theorem mapSpans_elementExpr (e) :
    (elementExpr e).mapSpans g = .elementExpr (e.mapSpans g) := rfl

@[simp]
theorem mapSpans_fragmentExpr (f) :
    (fragmentExpr f).mapSpans g = .fragmentExpr (f.mapSpans g) := rfl

@[simp]
theorem mapSpans_cover (asyncLead openLead items separators closeLead span) :
    (cover asyncLead openLead items separators closeLead span).mapSpans g =
      .cover asyncLead openLead (items.mapSpans g) separators closeLead (g span) := rfl

@[simp]
theorem mapSpans_templateLit (quasis exprs span) :
    (templateLit quasis exprs span).mapSpans g =
      .templateLit (Visitor.list (Visitor.moving g).quasi quasis) (exprs.mapSpans g) (g span) := rfl

/-! ### Arguments, members and keys -/

@[simp]
theorem mapSpans_argumentList (openLead items separators closeLead) :
    (argumentList openLead items separators closeLead).mapSpans g =
      .argumentList openLead (items.mapSpans g) separators closeLead := rfl

@[simp]
theorem mapSpans_property (modifiers key value kind isMethod isShorthand colonLead span) :
    (property modifiers key value kind isMethod isShorthand colonLead span).mapSpans g =
      .property modifiers (key.mapSpans g) (value.mapSpans g) kind isMethod isShorthand colonLead
        (g span) := by
  cases isShorthand <;> rfl

@[simp]
theorem mapSpans_spreadMember (lead operand span) :
    (spreadMember lead operand span).mapSpans g =
      .spreadMember lead (operand.mapSpans g) (g span) := rfl

@[simp]
theorem mapSpans_nameKey (id) :
    (nameKey id).mapSpans g = .nameKey ((Visitor.moving g).ident id) := rfl

@[simp]
theorem mapSpans_literalKey (lit) :
    (literalKey lit).mapSpans g = .literalKey ((Visitor.moving g).literal lit) := rfl

@[simp]
theorem mapSpans_privateKey (name) :
    (privateKey name).mapSpans g = .privateKey ((Visitor.moving g).privateName name) := rfl

@[simp]
theorem mapSpans_computedKey (openLead inner closeLead) :
    (computedKey openLead inner closeLead).mapSpans g =
      .computedKey openLead (inner.mapSpans g) closeLead := rfl

@[simp]
theorem mapSpans_nameAccess (id) :
    (nameAccess id).mapSpans g = .nameAccess ((Visitor.moving g).ident id) := rfl

@[simp]
theorem mapSpans_privateAccess (name) :
    (privateAccess name).mapSpans g = .privateAccess ((Visitor.moving g).privateName name) := rfl

@[simp]
theorem mapSpans_computedAccess (openLead inner closeLead) :
    (computedAccess openLead inner closeLead).mapSpans g =
      .computedAccess openLead (inner.mapSpans g) closeLead := rfl

/-! ### Functions and classes -/

@[simp]
theorem mapSpans_paramList (openLead items separators closeLead) :
    (paramList openLead items separators closeLead).mapSpans g =
      .paramList openLead (items.mapSpans g) separators closeLead := rfl

@[simp]
theorem mapSpans_bodyBlock (openLead stmts closeLead span) :
    (bodyBlock openLead stmts closeLead span).mapSpans g =
      .bodyBlock openLead (stmts.mapSpans g) closeLead (g span) := rfl

@[simp]
theorem mapSpans_function (head params body span) :
    (function head params body span).mapSpans g =
      .function ((Visitor.moving g).functionHead head) (params.mapSpans g) (body.mapSpans g) (g
        span) := rfl

@[simp]
theorem mapSpans_bareParam (id) :
    (bareParam id).mapSpans g = .bareParam ((Visitor.moving g).ident id) := rfl

@[simp]
theorem mapSpans_listedParams (params) :
    (listedParams params).mapSpans g = .listedParams (params.mapSpans g) := rfl

@[simp]
theorem mapSpans_blockBody (body) :
    (blockBody body).mapSpans g = .blockBody (body.mapSpans g) := rfl

@[simp]
theorem mapSpans_exprBody (value) :
    (exprBody value).mapSpans g = .exprBody (value.mapSpans g) := rfl

@[simp]
theorem mapSpans_heritage (lead base) :
    (heritage lead base).mapSpans g = .heritage lead (base.mapSpans g) := rfl

@[simp]
theorem mapSpans_classDef (lead name base openLead members closeLead span) :
    (classDef lead name base openLead members closeLead span).mapSpans g =
      .classDef lead (Visitor.option (Visitor.moving g).ident name) (base.mapSpans g) openLead
        (members.mapSpans g) closeLead (g span) := rfl

@[simp]
theorem mapSpans_method (modifiers kind key value span) :
    (method modifiers kind key value span).mapSpans g =
      .method modifiers kind (key.mapSpans g) (value.mapSpans g) (g span) := rfl

@[simp]
theorem mapSpans_field (modifiers key value terminator span) :
    (field modifiers key value terminator span).mapSpans g =
      .field modifiers (key.mapSpans g) (value.mapSpans g) terminator (g span) := rfl

@[simp]
theorem mapSpans_staticBlock (lead openLead stmts closeLead span) :
    (staticBlock lead openLead stmts closeLead span).mapSpans g =
      .staticBlock lead openLead (stmts.mapSpans g) closeLead (g span) := rfl

@[simp]
theorem mapSpans_strayTerminator (lead span) :
    (strayTerminator lead span).mapSpans g = .strayTerminator lead (g span) := rfl

@[simp]
theorem mapSpans_initializer (lead value) :
    (initializer lead value).mapSpans g = .initializer lead (value.mapSpans g) := rfl

/-! ### Patterns -/

@[simp]
theorem mapSpans_namePattern (id) :
    (namePattern id).mapSpans g = .namePattern ((Visitor.moving g).ident id) := rfl

@[simp]
theorem mapSpans_exprPattern (target) :
    (exprPattern target).mapSpans g = .exprPattern (target.mapSpans g) := rfl

@[simp]
theorem mapSpans_arrayPattern (lead elements separators closeLead span) :
    (arrayPattern lead elements separators closeLead span).mapSpans g =
      .arrayPattern lead (elements.mapSpans g) separators closeLead (g span) := rfl

@[simp]
theorem mapSpans_objectPattern (lead members separators closeLead span) :
    (objectPattern lead members separators closeLead span).mapSpans g =
      .objectPattern lead (members.mapSpans g) separators closeLead (g span) := rfl

@[simp]
theorem mapSpans_defaultPattern (target eqLead value span) :
    (defaultPattern target eqLead value span).mapSpans g =
      .defaultPattern (target.mapSpans g) eqLead (value.mapSpans g) (g span) := rfl

@[simp]
theorem mapSpans_restPattern (lead target span) :
    (restPattern lead target span).mapSpans g =
      .restPattern lead (target.mapSpans g) (g span) := rfl

@[simp]
theorem mapSpans_patternProperty (key value isShorthand colonLead span) :
    (patternProperty key value isShorthand colonLead span).mapSpans g =
      .patternProperty (key.mapSpans g) (value.mapSpans g) isShorthand colonLead (g span) := by
  cases isShorthand <;> rfl

@[simp]
theorem mapSpans_restMember (lead target span) :
    (restMember lead target span).mapSpans g = .restMember lead (target.mapSpans g) (g span) := rfl

/-! ### Statements -/

@[simp]
theorem mapSpans_exprStmt (value directive terminator span) :
    (exprStmt value directive terminator span).mapSpans g =
      .exprStmt (value.mapSpans g) directive terminator (g span) := rfl

@[simp]
theorem mapSpans_declarationStmt (d) :
    (declarationStmt d).mapSpans g = .declarationStmt (d.mapSpans g) := rfl

@[simp]
theorem mapSpans_functionStmt (f) :
    (functionStmt f).mapSpans g = .functionStmt (f.mapSpans g) := rfl

@[simp]
theorem mapSpans_classStmt (c) : (classStmt c).mapSpans g = .classStmt (c.mapSpans g) := rfl

@[simp]
theorem mapSpans_blockStmt (b) : (blockStmt b).mapSpans g = .blockStmt (b.mapSpans g) := rfl

@[simp]
theorem mapSpans_emptyStmt (lead span) :
    (emptyStmt lead span).mapSpans g = .emptyStmt lead (g span) := rfl

@[simp]
theorem mapSpans_ifStmt (lead openLead test closeLead consequent alternate span) :
    (ifStmt lead openLead test closeLead consequent alternate span).mapSpans g =
      .ifStmt lead openLead (test.mapSpans g) closeLead (consequent.mapSpans g) (alternate.mapSpans
        g) (g span) := rfl

@[simp]
theorem mapSpans_forStmt (lead openLead init firstLead test secondLead update closeLead
    body span) :
    (forStmt lead openLead init firstLead test secondLead update closeLead body span).mapSpans g =
      .forStmt lead openLead (init.mapSpans g) firstLead (test.mapSpans g) secondLead
        (update.mapSpans g) closeLead (body.mapSpans g) (g span) := rfl

@[simp]
theorem mapSpans_forInStmt (lead openLead left inLead right closeLead body span) :
    (forInStmt lead openLead left inLead right closeLead body span).mapSpans g =
      .forInStmt lead openLead (left.mapSpans g) inLead (right.mapSpans g) closeLead (body.mapSpans
        g) (g span) := rfl

@[simp]
theorem mapSpans_forOfStmt (lead awaitLead openLead left ofLead right closeLead body span)
    :
    (forOfStmt lead awaitLead openLead left ofLead right closeLead body span).mapSpans g =
      .forOfStmt lead awaitLead openLead (left.mapSpans g) ofLead (right.mapSpans g) closeLead
        (body.mapSpans g) (g span) := rfl

@[simp]
theorem mapSpans_whileStmt (lead openLead test closeLead body span) :
    (whileStmt lead openLead test closeLead body span).mapSpans g =
      .whileStmt lead openLead (test.mapSpans g) closeLead (body.mapSpans g) (g span) := rfl

@[simp]
theorem mapSpans_doWhileStmt (lead body whileLead openLead test closeLead terminator span)
    :
    (doWhileStmt lead body whileLead openLead test closeLead terminator span).mapSpans g =
      .doWhileStmt lead (body.mapSpans g) whileLead openLead (test.mapSpans g) closeLead terminator
        (g span) := rfl

@[simp]
theorem mapSpans_returnStmt (lead value terminator span) :
    (returnStmt lead value terminator span).mapSpans g =
      .returnStmt lead (value.mapSpans g) terminator (g span) := rfl

@[simp]
theorem mapSpans_breakStmt (lead label terminator span) :
    (breakStmt lead label terminator span).mapSpans g =
      .breakStmt lead (Visitor.option (Visitor.moving g).ident label) terminator (g span) := rfl

@[simp]
theorem mapSpans_continueStmt (lead label terminator span) :
    (continueStmt lead label terminator span).mapSpans g =
      .continueStmt lead (Visitor.option (Visitor.moving g).ident label) terminator (g span) := rfl

@[simp]
theorem mapSpans_throwStmt (lead value terminator span) :
    (throwStmt lead value terminator span).mapSpans g =
      .throwStmt lead (value.mapSpans g) terminator (g span) := rfl

@[simp]
theorem mapSpans_tryStmt (lead block handler finalizer span) :
    (tryStmt lead block handler finalizer span).mapSpans g =
      .tryStmt lead (block.mapSpans g) (handler.mapSpans g) (finalizer.mapSpans g) (g span) := rfl

@[simp]
theorem mapSpans_switchStmt (lead openLead subject closeLead braceLead cases closeBraceLead span) :
    (switchStmt lead openLead subject closeLead braceLead cases closeBraceLead span).mapSpans g =
      .switchStmt lead openLead (subject.mapSpans g) closeLead braceLead (cases.mapSpans g)
        closeBraceLead (g span) := rfl

@[simp]
theorem mapSpans_labeledStmt (label colonLead body span) :
    (labeledStmt label colonLead body span).mapSpans g =
      .labeledStmt ((Visitor.moving g).ident label) colonLead (body.mapSpans g) (g span) := rfl

@[simp]
theorem mapSpans_debuggerStmt (lead terminator span) :
    (debuggerStmt lead terminator span).mapSpans g = .debuggerStmt lead terminator (g span) := rfl

@[simp]
theorem mapSpans_withStmt (lead openLead subject closeLead body span) :
    (withStmt lead openLead subject closeLead body span).mapSpans g =
      .withStmt lead openLead (subject.mapSpans g) closeLead (body.mapSpans g) (g span) := rfl

@[simp]
theorem mapSpans_importStmt (d) :
    (importStmt d).mapSpans g = .importStmt ((Visitor.moving g).importDeclaration d) := rfl

@[simp]
theorem mapSpans_exportNamed (lead declaration specifiers origin terminator span) :
    (exportNamed lead declaration specifiers origin terminator span).mapSpans g =
      .exportNamed lead (declaration.mapSpans g) (Visitor.option (Visitor.moving g).namedExports
        specifiers) (Visitor.option (Visitor.moving g).fromClause origin) terminator (g span) := rfl

@[simp]
theorem mapSpans_exportDefault (lead defaultLead value span) :
    (exportDefault lead defaultLead value span).mapSpans g =
      .exportDefault lead defaultLead (value.mapSpans g) (g span) := rfl

@[simp]
theorem mapSpans_exportAll (d) :
    (exportAll d).mapSpans g = .exportAll ((Visitor.moving g).exportAll d) := rfl

@[simp]
theorem mapSpans_block (lead stmts closeLead span) :
    (block lead stmts closeLead span).mapSpans g =
      .block lead (stmts.mapSpans g) closeLead (g span) := rfl

@[simp]
theorem mapSpans_elseClause (lead body) :
    (elseClause lead body).mapSpans g = .elseClause lead (body.mapSpans g) := rfl

@[simp]
theorem mapSpans_declaration (lead kind items separators terminator span) :
    (declaration lead kind items separators terminator span).mapSpans g =
      .declaration lead kind (items.mapSpans g) separators terminator (g span) := rfl

@[simp]
theorem mapSpans_declarator (target init span) :
    (declarator target init span).mapSpans g =
      .declarator (target.mapSpans g) (init.mapSpans g) (g span) := rfl

@[simp]
theorem mapSpans_forDeclaration (d) :
    (forDeclaration d).mapSpans g = .forDeclaration (d.mapSpans g) := rfl

@[simp]
theorem mapSpans_forExpr (e) : (forExpr e).mapSpans g = .forExpr (e.mapSpans g) := rfl

@[simp]
theorem mapSpans_targetDeclaration (d) :
    (targetDeclaration d).mapSpans g = .targetDeclaration (d.mapSpans g) := rfl

@[simp]
theorem mapSpans_targetPattern (p) :
    (targetPattern p).mapSpans g = .targetPattern (p.mapSpans g) := rfl

@[simp]
theorem mapSpans_catchClause (lead param body span) :
    (catchClause lead param body span).mapSpans g =
      .catchClause lead (param.mapSpans g) (body.mapSpans g) (g span) := rfl

@[simp]
theorem mapSpans_catchParam (openLead target closeLead) :
    (catchParam openLead target closeLead).mapSpans g =
      .catchParam openLead (target.mapSpans g) closeLead := rfl

@[simp]
theorem mapSpans_finallyClause (lead body) :
    (finallyClause lead body).mapSpans g = .finallyClause lead (body.mapSpans g) := rfl

@[simp]
theorem mapSpans_switchCase (lead test colonLead body span) :
    (switchCase lead test colonLead body span).mapSpans g =
      .switchCase lead (test.mapSpans g) colonLead (body.mapSpans g) (g span) := rfl

@[simp]
theorem mapSpans_exportFunction (f) :
    (exportFunction f).mapSpans g = .exportFunction (f.mapSpans g) := rfl

@[simp]
theorem mapSpans_exportClass (c) :
    (exportClass c).mapSpans g = .exportClass (c.mapSpans g) := rfl

@[simp]
theorem mapSpans_exportExpr (value terminator) :
    (exportExpr value terminator).mapSpans g = .exportExpr (value.mapSpans g) terminator := rfl

/-! ### Markup -/

@[simp]
theorem mapSpans_element
    (lead name attributes selfClosing closeLead tagSpan children closing span) :
    (element lead name attributes selfClosing closeLead tagSpan children closing span).mapSpans g =
      .element lead ((Visitor.moving g).tagName name) (attributes.mapSpans g) selfClosing closeLead
        (g tagSpan) (children.mapSpans g) (Visitor.option (Visitor.moving g).closingTag closing)
        (g span) := rfl

@[simp]
theorem mapSpans_fragment (lead openingLead children closingLead slashLead closeLead span)
    :
    (fragment lead openingLead children closingLead slashLead closeLead span).mapSpans g =
      .fragment lead openingLead (children.mapSpans g) closingLead slashLead closeLead (g span) :=
        rfl

@[simp]
theorem mapSpans_attribute (name eqLead value span) :
    (Tree.attribute name eqLead value span).mapSpans g =
      .attribute ((Visitor.moving g).attributeName name) eqLead (value.mapSpans g) (g span) := rfl

@[simp]
theorem mapSpans_spreadAttribute (lead dotsLead operand closeLead span) :
    (spreadAttribute lead dotsLead operand closeLead span).mapSpans g =
      .spreadAttribute lead dotsLead (operand.mapSpans g) closeLead (g span) := rfl

@[simp]
theorem mapSpans_stringValue (lit) :
    (stringValue lit).mapSpans g = .stringValue ((Visitor.moving g).literal lit) := rfl

@[simp]
theorem mapSpans_exprValue (c) : (exprValue c).mapSpans g = .exprValue (c.mapSpans g) := rfl

@[simp]
theorem mapSpans_elementValue (e) :
    (elementValue e).mapSpans g = .elementValue (e.mapSpans g) := rfl

@[simp]
theorem mapSpans_fragmentValue (f) :
    (fragmentValue f).mapSpans g = .fragmentValue (f.mapSpans g) := rfl

@[simp]
theorem mapSpans_emptyContainer (lead inside insideSpan closeLead span) :
    (emptyContainer lead inside insideSpan closeLead span).mapSpans g =
      .emptyContainer lead inside (g insideSpan) closeLead (g span) := rfl

@[simp]
theorem mapSpans_exprContainer (lead value closeLead span) :
    (exprContainer lead value closeLead span).mapSpans g =
      .exprContainer lead (value.mapSpans g) closeLead (g span) := rfl

@[simp]
theorem mapSpans_textChild (text) :
    (textChild text).mapSpans g = .textChild ((Visitor.moving g).text text) := rfl

@[simp]
theorem mapSpans_exprChild (c) : (exprChild c).mapSpans g = .exprChild (c.mapSpans g) := rfl

@[simp]
theorem mapSpans_spreadChild (lead dotsLead operand closeLead span) :
    (spreadChild lead dotsLead operand closeLead span).mapSpans g =
      .spreadChild lead dotsLead (operand.mapSpans g) closeLead (g span) := rfl

@[simp]
theorem mapSpans_elementChild (e) :
    (elementChild e).mapSpans g = .elementChild (e.mapSpans g) := rfl

@[simp]
theorem mapSpans_fragmentChild (f) :
    (fragmentChild f).mapSpans g = .fragmentChild (f.mapSpans g) := rfl

end

/-- A list of trees is changed item by item. -/
@[simp]
theorem mapSpans_ofList {c : Category} (g : Span → Span) (items : List (Tree c)) :
    (ofList items).mapSpans g = ofList (items.map (·.mapSpans g)) := by
  induction items with
  | nil => rfl
  | cons head tail ih => simp [ofList, ih]

end Tree

/-! ## Leaves -/

namespace Visitor

variable (g : Span → Span)

@[simp]
theorem print_ident (id : Ident) : ((moving g).ident id : Ident).print = id.print := rfl

@[simp]
theorem print_literal (lit : Literal) : ((moving g).literal lit : Literal).print = lit.print := rfl

@[simp]
theorem print_privateName (name : PrivateName) :
    ((moving g).privateName name : PrivateName).print = name.print := rfl

@[simp]
theorem raw_text (text : MarkupText) : ((moving g).text text : MarkupText).raw = text.raw := rfl

@[simp]
theorem printName_option (name : Option Ident) :
    printName (option (moving g).ident name) = printName name := by
  cases name <;> rfl

@[simp]
theorem print_functionHead (head : FunctionHead) :
    ((moving g).functionHead head : FunctionHead).print = head.print := by
  change _ ++ printName (option (moving g).ident head.name) = _
  rw [printName_option]
  rfl

@[simp]
theorem printPieces_moving (delimiter : String) (pieces : List Quasi) (exprs : List String) :
    printPieces delimiter (list (moving g).quasi pieces) exprs =
      printPieces delimiter pieces exprs := by
  induction pieces generalizing delimiter exprs with
  | nil => rfl
  | cons piece pieces ih =>
    change _ ++ printPieces "\x7d" (list (moving g).quasi pieces) exprs.tail = _
    rw [ih]
    rfl

@[simp]
theorem print_tagName (name : TagName) :
    ((moving g).tagName name : TagName).print = name.print := by
  induction name with
  | plain id => rfl
  | namespaced n => rfl
  | member base dotLead prop span ih =>
    change ((moving g).tagName base : TagName).print ++ _ ++ _ ++ _ = _
    rw [ih]
    rfl

@[simp]
theorem print_attributeName (name : AttributeName) :
    ((moving g).attributeName name : AttributeName).print = name.print := by
  cases name <;> rfl

@[simp]
theorem print_closingTag (tag : ClosingTag) :
    ((moving g).closingTag tag : ClosingTag).print = tag.print := by
  change _ ++ _ ++ _ ++ _ ++ ((moving g).tagName tag.name : TagName).print ++ _ ++ _ = _
  rw [print_tagName]
  rfl

/-- Visiting an optional part does not change its text if the visit does not. -/
theorem map_print_option {α : Type} {visit : α → Id α} {print : α → String}
    (h : ∀ part, print (visit part) = print part) (part : Option α) :
    Option.map print (option (m := Id) visit part) = part.map print := by
  cases part with
  | none => rfl
  | some part => exact congrArg some (h part)

/-! ### Module lists -/

@[simp]
theorem print_exportName (name : ExportName) :
    ((moving g).exportName name : ExportName).print = name.print := by
  cases name <;> rfl

@[simp]
theorem printOption_exportAlias (alias? : Option ExportAlias) :
    ExportAlias.printOption (option (moving g).exportAlias alias?) =
      ExportAlias.printOption alias? := by
  cases alias? with
  | none => rfl
  | some a =>
    change _ ++ _ ++ ((moving g).exportName a.exported : ExportName).print = _
    rw [print_exportName]
    rfl

@[simp]
theorem print_exportSpecifier (s : ExportSpecifier) :
    ((moving g).exportSpecifier s : ExportSpecifier).print = s.print := by
  change ((moving g).exportName s.binding : ExportName).print
      ++ ExportAlias.printOption (option (moving g).exportAlias s.alias?) = _
  rw [print_exportName, printOption_exportAlias]
  rfl

@[simp]
theorem print_importSpecifier (s : ImportSpecifier) :
    ((moving g).importSpecifier s : ImportSpecifier).print = s.print := by
  obtain ⟨imported, alias?, span⟩ := s
  cases alias? with
  | none =>
    change ((moving g).exportName imported : ExportName).print ++ _ = _
    rw [print_exportName]
    rfl
  | some a =>
    change ((moving g).exportName imported : ExportName).print ++ _ = _
    rw [print_exportName]
    rfl

/-- Visiting an optional part, where a visit has no effect but its result. -/
theorem option_eq_map {α : Type} (visit : α → Id α) (part : Option α) :
    option (m := Id) visit part = part.map visit := by
  cases part <;> rfl

/-- Visiting a list, where a visit has no effect but its result. -/
theorem list_eq_map {α : Type} (visit : α → Id α) (items : List α) :
    list (m := Id) visit items = items.map visit := by
  induction items with
  | nil => rfl
  | cons head tail ih =>
    change visit head :: list (m := Id) visit tail = _
    rw [ih, List.map_cons]

/-- Visiting the items of a list does not change their texts if no visit does. -/
theorem map_print_list {α : Type} {visit : α → Id α} {print : α → String}
    (h : ∀ item, print (visit item) = print item) (items : List α) :
    List.map print (list (m := Id) visit items) = items.map print := by
  rw [list_eq_map, List.map_map]
  exact List.map_congr_left fun item _ => h item

@[simp]
theorem print_namedExports (n : NamedExports) :
    ((moving g).namedExports n : NamedExports).print = n.print := by
  change _ ++ _
      ++ joinList (List.map (·.print) (list (m := Id) (moving g).exportSpecifier n.specifiers)) _
      ++ _ ++ _ = _
  rw [map_print_list (print_exportSpecifier g)]
  rfl

@[simp]
theorem print_namedImports (n : NamedImports) :
    ((moving g).namedImports n : NamedImports).print = n.print := by
  change _ ++ _
      ++ joinList (List.map (·.print) (list (m := Id) (moving g).importSpecifier n.specifiers)) _
      ++ _ ++ _ = _
  rw [map_print_list (print_importSpecifier g)]
  rfl

@[simp]
theorem print_importClause (c : ImportClause) :
    ((moving g).importClause c : ImportClause).print = c.print := by
  obtain ⟨main, commaLead, space, named⟩ := c
  cases named with
  | none => cases main <;> cases space <;> rfl
  | some named =>
    have h := print_namedImports g named
    cases main <;> cases space <;> exact congrArg (_ ++ ·) h

@[simp]
theorem print_fromClause (c : FromClause) :
    ((moving g).fromClause c : FromClause).print = c.print := rfl

@[simp]
theorem print_importDeclaration (d : ImportDeclaration) :
    ((moving g).importDeclaration d : ImportDeclaration).print = d.print := by
  obtain ⟨lead, clause, fromLead, source, terminator, span⟩ := d
  cases clause with
  | none => rfl
  | some clause =>
    change _ ++ _ ++ (((moving g).importClause clause : ImportClause).print ++ _ ++ _) ++ _ ++ _ = _
    rw [print_importClause]
    rfl

@[simp]
theorem print_exportAll (d : ExportAll) :
    ((moving g).exportAll d : ExportAll).print = d.print := by
  change _ ++ _ ++ _ ++ _ ++ ExportAlias.printOption (option (moving g).exportAlias d.alias?) ++ _
      ++ _ = _
  rw [printOption_exportAlias]
  rfl

end Visitor

/-! ## Printing -/

/-- A tree prints the same after a change of its extents.

**Proof sketch.** Induction over the tree. The equations of `mapSpans` and of `texts` and the
induction hypotheses settle every construct, except where the layout looks one level deeper (an
access, a clause of a switch, an attribute) or a leaf carries a list. -/
theorem Tree.texts_mapSpans {c : Category} (g : Span → Span) (t : Tree c) (s : Setting) :
    (t.mapSpans g).texts s = t.texts s := by
  induction t generalizing s <;> try (simp [*]; done)
  case memberAccess base isOptional dotLead prop span ihBase ihProp =>
    cases prop with
    | nameAccess id => simp [ihBase]
    | privateAccess name => simp [ihBase]
    | computedAccess openLead inner closeLead =>
      have h := ihProp s
      simp_all
  case exportNamed lead declaration specifiers origin terminator span ih =>
    rw [mapSpans_exportNamed, texts_exportNamed, texts_exportNamed, ih]
    rw [Visitor.map_print_option (Visitor.print_namedExports g),
      Visitor.map_print_option (Visitor.print_fromClause g)]
  case switchCase lead test colonLead body span ihTest ihBody =>
    cases test with
    | absent => simp [ihBody]
    | present test =>
      have h := ihTest s
      simp_all
  case element lead name attributes selfClosing closeLead tagSpan children closing span ih ih' =>
    simp [ih, ih', Visitor.map_print_option (Visitor.print_closingTag g)]
  case «attribute» name eqLead value span ih =>
    cases value with
    | absent => simp
    | present value =>
      have h := ih s
      simp_all

/-- A tree prints the same after a change of its extents. -/
@[simp]
theorem Tree.print_mapSpans {c : Category} (g : Span → Span) (t : Tree c) :
    (t.mapSpans g).print = t.print := by
  rw [print_eq, print_eq, texts_mapSpans]

/-- Changing the extents of a program changes those of its statements and its own. -/
theorem Program.mapSpans_eq (f : Span → Span) (p : Program) :
    p.mapSpans f = { p with body := p.body.map (·.mapSpans f), span := f p.span } := by
  change { p with body := Visitor.list (m := Id) _ p.body, span := f p.span } = _
  rw [Visitor.list_eq_map]
  rfl

/-- A program prints the same after a change of its extents. -/
@[simp]
theorem Program.print_mapSpans (g : Span → Span) (p : Program) :
    (p.mapSpans g).print = p.print := by
  change concat (List.map (·.print) (Visitor.list (m := Id) (·.mapSpans g) p.body)) ++ p.tail = _
  rw [Visitor.map_print_list (Tree.print_mapSpans g)]
  rfl

/-! ## Changing extents twice -/

namespace Visitor

variable (g h : Span → Span)

/-- Visiting an optional part twice, where a visit has no effect but its result. -/
theorem option_option {α : Type} {visit visit' visit'' : α → Id α}
    (hv : ∀ part, visit' (visit part) = visit'' part) (part : Option α) :
    option (m := Id) visit' (option (m := Id) visit part) = option (m := Id) visit'' part := by
  cases part with
  | none => rfl
  | some part => exact congrArg some (hv part)

/-- Visiting a list twice, where a visit has no effect but its result. -/
theorem list_list {α : Type} {visit visit' visit'' : α → Id α}
    (hv : ∀ item, visit' (visit item) = visit'' item) (items : List α) :
    list (m := Id) visit' (list (m := Id) visit items) = list (m := Id) visit'' items := by
  rw [list_eq_map, list_eq_map, list_eq_map, List.map_map]
  exact List.map_congr_left fun item _ => hv item

@[simp]
theorem ident_ident (id : Ident) :
    (moving h).ident ((moving g).ident id) = (moving (h ∘ g)).ident id := rfl

@[simp]
theorem literal_literal (lit : Literal) :
    (moving h).literal ((moving g).literal lit) = (moving (h ∘ g)).literal lit := rfl

@[simp]
theorem text_text (t : MarkupText) :
    (moving h).text ((moving g).text t) = (moving (h ∘ g)).text t := rfl

@[simp]
theorem privateName_privateName (name : PrivateName) :
    (moving h).privateName ((moving g).privateName name) = (moving (h ∘ g)).privateName name := rfl

@[simp]
theorem functionHead_functionHead (head : FunctionHead) :
    (moving h).functionHead ((moving g).functionHead head) =
      (moving (h ∘ g)).functionHead head := by
  obtain ⟨isAsync, asyncLead, keywordLead, isGenerator, starLead, name⟩ := head
  cases name <;> rfl

@[simp]
theorem tagName_tagName (name : TagName) :
    (moving h).tagName ((moving g).tagName name) = (moving (h ∘ g)).tagName name := by
  induction name with
  | plain id => rfl
  | namespaced n => rfl
  | member base dotLead prop span ih =>
    change TagName.member ((moving h).tagName ((moving g).tagName base) : TagName) .. = _
    rw [ih]
    rfl

@[simp]
theorem attributeName_attributeName (name : AttributeName) :
    (moving h).attributeName ((moving g).attributeName name) =
      (moving (h ∘ g)).attributeName name := by
  cases name <;> rfl

theorem closingTag_closingTag (tag : ClosingTag) :
    (moving h).closingTag ((moving g).closingTag tag) = (moving (h ∘ g)).closingTag tag := by
  change ({ tag with
      name := (moving h).tagName ((moving g).tagName tag.name)
      span := h (g tag.span) } : ClosingTag) = _
  rw [tagName_tagName]
  rfl

/-! ### Module lists -/

theorem exportName_exportName (name : ExportName) :
    (moving h).exportName ((moving g).exportName name) = (moving (h ∘ g)).exportName name := by
  cases name <;> rfl

theorem namespaceImport_namespaceImport (n : NamespaceImport) :
    (moving h).namespaceImport ((moving g).namespaceImport n) =
      (moving (h ∘ g)).namespaceImport n := rfl

theorem quasi_quasi (q : Quasi) :
    (moving h).quasi ((moving g).quasi q) = (moving (h ∘ g)).quasi q := rfl

theorem fromClause_fromClause (c : FromClause) :
    (moving h).fromClause ((moving g).fromClause c) = (moving (h ∘ g)).fromClause c := rfl

theorem importSpecifier_importSpecifier (s : ImportSpecifier) :
    (moving h).importSpecifier ((moving g).importSpecifier s) =
      (moving (h ∘ g)).importSpecifier s := by
  obtain ⟨imported, alias?, span⟩ := s
  cases imported <;> cases alias? <;> rfl

/-- Extents that are changed twice are changed by both functions. -/
theorem importClause_importClause (c : ImportClause) :
    (moving h).importClause ((moving g).importClause c) = (moving (h ∘ g)).importClause c := by
  obtain ⟨main, commaLead, space, named⟩ := c
  have hnamed : ∀ n : NamedImports, (moving h).namedImports ((moving g).namedImports n) =
      (moving (h ∘ g)).namedImports n := fun n =>
    congrArg (fun specifiers => { n with specifiers : NamedImports })
      (list_list (importSpecifier_importSpecifier g h) n.specifiers)
  have hmain := option_option (ident_ident g h) main
  have hspace := option_option (namespaceImport_namespaceImport g h) space
  change ImportClause.mk (option (m := Id) (moving h).ident
    (option (m := Id) (moving g).ident main))
    commaLead (option (m := Id) (moving h).namespaceImport
      (option (m := Id) (moving g).namespaceImport space))
    (option (m := Id) (moving h).namedImports (option (m := Id) (moving g).namedImports named)) = _
  rw [hmain, hspace, option_option hnamed named]
  rfl

@[simp]
theorem importDeclaration_importDeclaration (d : ImportDeclaration) :
    (moving h).importDeclaration ((moving g).importDeclaration d) =
      (moving (h ∘ g)).importDeclaration d :=
  congrArg (fun clause => { d with clause, source := (moving (h ∘ g)).literal d.source
                                   span := h (g d.span) : ImportDeclaration })
    (option_option (importClause_importClause g h) d.clause)

theorem exportAlias_exportAlias (a : ExportAlias) :
    (moving h).exportAlias ((moving g).exportAlias a) = (moving (h ∘ g)).exportAlias a := by
  obtain ⟨asLead, exported⟩ := a
  cases exported <;> rfl

theorem exportSpecifier_exportSpecifier (s : ExportSpecifier) :
    (moving h).exportSpecifier ((moving g).exportSpecifier s) =
      (moving (h ∘ g)).exportSpecifier s := by
  obtain ⟨binding, alias?, span⟩ := s
  change ExportSpecifier.mk ((moving h).exportName ((moving g).exportName binding))
    (option (m := Id) (moving h).exportAlias (option (m := Id) (moving g).exportAlias alias?))
    (h (g span)) = _
  rw [exportName_exportName, option_option (exportAlias_exportAlias g h)]
  rfl

theorem namedExports_namedExports (n : NamedExports) :
    (moving h).namedExports ((moving g).namedExports n) = (moving (h ∘ g)).namedExports n :=
  congrArg (fun specifiers => { n with specifiers : NamedExports })
    (list_list (exportSpecifier_exportSpecifier g h) n.specifiers)

@[simp]
theorem exportAll_exportAll (d : ExportAll) :
    (moving h).exportAll ((moving g).exportAll d) = (moving (h ∘ g)).exportAll d :=
  congrArg (fun alias? => { d with alias?, origin := (moving (h ∘ g)).fromClause d.origin
                                   span := h (g d.span) : ExportAll })
    (option_option (exportAlias_exportAlias g h) d.alias?)

end Visitor

/-- Changing the extents of a tree twice. -/
@[simp]
theorem Tree.mapSpans_mapSpans {c : Category} (g h : Span → Span) (t : Tree c) :
    (t.mapSpans g).mapSpans h = t.mapSpans (h ∘ g) := by
  have names := Visitor.option_option (Visitor.ident_ident g h)
  have pieces := Visitor.list_list (Visitor.quasi_quasi g h)
  induction t <;> try (simp [*]; done)
  case exportNamed ih =>
    simp [ih, Visitor.option_option (Visitor.namedExports_namedExports g h),
      Visitor.option_option (Visitor.fromClause_fromClause g h)]
  case element ih ih' =>
    simp [ih, ih', Visitor.option_option (Visitor.closingTag_closingTag g h)]

/-- Changing the extents of a program twice. -/
theorem Program.mapSpans_mapSpans (g h : Span → Span) (p : Program) :
    (p.mapSpans g).mapSpans h = p.mapSpans (h ∘ g) := by
  simp [Program.mapSpans_eq]

end Verbatim
