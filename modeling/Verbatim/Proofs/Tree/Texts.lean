import Verbatim.Tree.Print

/-!
# What each construct prints

The equations of `Tree.texts`, one for each construct, and what follows for lists, for the joining
of items by recorded separators, and for the parts that a template is printed from. A proof about
printed text rewrites with these and never unfolds the definition.

## Main results

* `Verbatim.Tree.print_eq` — the text of a tree is the concatenation of its pieces.
* `Verbatim.Tree.texts_ofList` — a list of trees prints the texts of its items.
* `Verbatim.joinList_cons` — joining, one item and one separator at a time.
-/

namespace Verbatim

/-! ## Concatenation and joining -/

@[simp]
theorem concat_nil : concat [] = "" := rfl

@[simp]
theorem concat_cons (text : String) (texts : List String) :
    concat (text :: texts) = text ++ concat texts := rfl

@[simp]
theorem concat_append (texts more : List String) :
    concat (texts ++ more) = concat texts ++ concat more := by
  induction texts with
  | nil => simp
  | cons text texts ih => simp [ih, String.append_assoc]

@[simp]
theorem joinList_nil (separators : List String) : joinList [] separators = "" := rfl

/-- A single item is followed by the separator recorded after it, if there is one. -/
@[simp]
theorem joinList_single (item : String) (separators : List String) :
    joinList [item] separators = item ++ separators.headD "" := rfl

/-- An item and a separator in front of a list; a list without items has no separators either. -/
theorem joinList_cons (item separator : String) {items separators : List String}
    (h : items = [] → separators = []) :
    joinList (item :: items) (separator :: separators) =
      item ++ (separator ++ joinList items separators) := by
  cases items with
  | nil => simp [h rfl]
  | cons next items => simp [joinList, joinWith, String.append_assoc]

namespace Tree

/-- The text of a tree is the concatenation of its pieces. -/
theorem print_eq {c : Category} (t : Tree c) : t.print = concat (t.texts .standalone) := rfl

section

variable {c : Category}

/-! ## The equations of `texts`

### Lists and options -/

@[simp]
theorem texts_nil (s) : (nil : Tree (.many c)).texts s = [] := rfl

@[simp]
theorem texts_cons (head : Tree c) (tail : Tree (.many c)) (s) :
    (cons head tail).texts s = concat (head.texts .standalone) :: tail.texts .standalone := rfl

@[simp]
theorem texts_absent (s) : (absent : Tree (.maybe c)).texts s = [] := rfl

@[simp]
theorem texts_present (part : Tree c) (s) : (present part).texts s = part.texts s := rfl

/-! ### Expressions -/

@[simp]
theorem texts_identifier (id s) : (identifier id).texts s = [id.print] := rfl

@[simp]
theorem texts_literal (lit s) : (literal lit).texts s = [lit.print] := rfl

@[simp]
theorem texts_template (t s) : (template t).texts s = t.texts s := rfl

@[simp]
theorem texts_tagged (tag quasi span s) :
    (tagged tag quasi span).texts s = [concat (tag.texts s), concat (quasi.texts s)] := rfl

@[simp]
theorem texts_receiver (lead span s) : (receiver lead span).texts s = [lead, "this"] := rfl

@[simp]
theorem texts_superclass (lead span s) :
    (superclass lead span).texts s = [lead, "super"] := rfl

@[simp]
theorem texts_array (lead elements separators closeLead span s) :
    (array lead elements separators closeLead span).texts s =
      [lead, "[", joinList (elements.texts .standalone) separators, closeLead, "]"] := rfl

@[simp]
theorem texts_object (lead members separators closeLead span s) :
    (object lead members separators closeLead span).texts s =
      [lead, "\x7b", joinList (members.texts .standalone) separators, closeLead, "\x7d"] := rfl

@[simp]
theorem texts_functionExpr (f s) : (functionExpr f).texts s = f.texts s := rfl

@[simp]
theorem texts_arrow (isAsync asyncLead params arrowLead body span s) :
    (arrow isAsync asyncLead params arrowLead body span).texts s =
      [if isAsync then asyncLead ++ "async" else "", concat (params.texts s), arrowLead, "=>",
        concat (body.texts s)] := rfl

@[simp]
theorem texts_classExpr (c s) : (classExpr c).texts s = c.texts s := rfl

@[simp]
theorem texts_unary (lead op operand span s) :
    (unary lead op operand span).texts s = [lead, op.text, concat (operand.texts s)] := rfl

@[simp]
theorem texts_update (op isBefore opLead operand span s) :
    (update op isBefore opLead operand span).texts s =
      if isBefore then [opLead, op.text, concat (operand.texts s)]
      else [concat (operand.texts s), opLead, op.text] := rfl

@[simp]
theorem texts_binary (left opLead op right span s) :
    (binary left opLead op right span).texts s =
      [concat (left.texts s), opLead, op.text, concat (right.texts s)] := rfl

@[simp]
theorem texts_assignment (target opLead op value span s) :
    (assignment target opLead op value span).texts s =
      [concat (target.texts s), opLead, op.text, concat (value.texts s)] := rfl

@[simp]
theorem texts_conditional (test questionLead consequent colonLead alternate span s) :
    (conditional test questionLead consequent colonLead alternate span).texts s =
      [concat (test.texts s), questionLead, "?", concat (consequent.texts s), colonLead, ":",
        concat (alternate.texts s)] := rfl

@[simp]
theorem texts_sequence (items separators span s) :
    (sequence items separators span).texts s =
      [joinList (items.texts .standalone) separators] := rfl

@[simp]
theorem texts_call (callee isOptional optionalLead args span s) :
    (call callee isOptional optionalLead args span).texts s =
      [concat (callee.texts s), if isOptional then optionalLead ++ "?." else "",
        concat (args.texts s)] := rfl

@[simp]
theorem texts_construct (lead callee args span s) :
    (construct lead callee args span).texts s =
      [lead, "new", concat (callee.texts s), concat (args.texts s)] := rfl

@[simp]
theorem texts_memberAccess_computed (base isOptional dotLead openLead inner closeLead span
    s) :
    (memberAccess base isOptional dotLead (.computedAccess openLead inner closeLead) span).texts s =
      [concat (base.texts s), if isOptional then dotLead ++ "?." else "", openLead, "[",
        concat (inner.texts s), closeLead, "]"] := rfl

@[simp]
theorem texts_memberAccess_name (base isOptional dotLead id span s) :
    (memberAccess base isOptional dotLead (.nameAccess id) span).texts s =
      [concat (base.texts s), dotLead, if isOptional then "?." else ".",
        concat ((nameAccess id).texts s)] := rfl

@[simp]
theorem texts_memberAccess_private (base isOptional dotLead name span s) :
    (memberAccess base isOptional dotLead (.privateAccess name) span).texts s =
      [concat (base.texts s), dotLead, if isOptional then "?." else ".",
        concat ((privateAccess name).texts s)] := rfl

@[simp]
theorem texts_metaProperty (subject dotLead prop span s) :
    (metaProperty subject dotLead prop span).texts s =
      [subject.print, dotLead, ".", prop.print] := rfl

@[simp]
theorem texts_importCall (lead openLead source closeLead span s) :
    (importCall lead openLead source closeLead span).texts s =
      [lead, "import", openLead, "(", concat (source.texts s), closeLead, ")"] := rfl

@[simp]
theorem texts_parenthesized (lead inner closeLead span s) :
    (parenthesized lead inner closeLead span).texts s =
      [lead, "(", concat (inner.texts s), closeLead, ")"] := rfl

@[simp]
theorem texts_spread (lead operand span s) :
    (spread lead operand span).texts s = [lead, "...", concat (operand.texts s)] := rfl

@[simp]
theorem texts_yield (lead starLead operand span s) :
    (yield lead starLead operand span).texts s =
      [lead, "yield", printMark starLead "*", concat (operand.texts s)] := rfl

@[simp]
theorem texts_await (lead operand span s) :
    (await lead operand span).texts s = [lead, "await", concat (operand.texts s)] := rfl

@[simp]
theorem texts_elementExpr (e s) : (elementExpr e).texts s = e.texts s := rfl

@[simp]
theorem texts_fragmentExpr (f s) : (fragmentExpr f).texts s = f.texts s := rfl

@[simp]
theorem texts_cover (asyncLead openLead items separators closeLead span s) :
    (cover asyncLead openLead items separators closeLead span).texts s =
      [printMark asyncLead "async", openLead, "(", joinList (items.texts .standalone) separators,
        closeLead, ")"] := rfl

@[simp]
theorem texts_templateLit (quasis exprs span s) :
    (templateLit quasis exprs span).texts s =
      [printPieces "`" quasis (exprs.texts .standalone)] := rfl

/-! ### Arguments, members and keys -/

@[simp]
theorem texts_argumentList (openLead items separators closeLead s) :
    (argumentList openLead items separators closeLead).texts s =
      [openLead, "(", joinList (items.texts .standalone) separators, closeLead, ")"] := rfl

@[simp]
theorem texts_property (modifiers key value kind isMethod isShorthand colonLead span s) :
    (property modifiers key value kind isMethod isShorthand colonLead span).texts s =
      if isShorthand then [concat (value.texts .standalone)]
      else if isMethod || kind ≠ .plain then
        [modifiers.print kind.accessor, concat (key.texts .standalone),
          concat (value.texts .method)]
      else
        [modifiers.print kind.accessor, concat (key.texts .standalone), colonLead, ":",
          concat (value.texts .standalone)] := rfl

@[simp]
theorem texts_spreadMember (lead operand span s) :
    (spreadMember lead operand span).texts s = [lead, "...", concat (operand.texts s)] := rfl

@[simp]
theorem texts_nameKey (id s) : (nameKey id).texts s = [id.print] := rfl

@[simp]
theorem texts_literalKey (lit s) : (literalKey lit).texts s = [lit.print] := rfl

@[simp]
theorem texts_privateKey (name s) : (privateKey name).texts s = [name.print] := rfl

@[simp]
theorem texts_computedKey (openLead inner closeLead s) :
    (computedKey openLead inner closeLead).texts s =
      [openLead, "[", concat (inner.texts s), closeLead, "]"] := rfl

@[simp]
theorem texts_nameAccess (id s) : (nameAccess id).texts s = [id.print] := rfl

@[simp]
theorem texts_privateAccess (name s) : (privateAccess name).texts s = [name.print] := rfl

@[simp]
theorem texts_computedAccess (openLead inner closeLead s) :
    (computedAccess openLead inner closeLead).texts s =
      [openLead, "[", concat (inner.texts s), closeLead, "]"] := rfl

/-! ### Functions and classes -/

@[simp]
theorem texts_paramList (openLead items separators closeLead s) :
    (paramList openLead items separators closeLead).texts s =
      [openLead, "(", joinList (items.texts .standalone) separators, closeLead, ")"] := rfl

@[simp]
theorem texts_bodyBlock (openLead stmts closeLead span s) :
    (bodyBlock openLead stmts closeLead span).texts s =
      [openLead, "\x7b", concat (stmts.texts .standalone), closeLead, "\x7d"] := rfl

@[simp]
theorem texts_function (head params body span s) :
    (function head params body span).texts s =
      [if s = .standalone then head.print else "", concat (params.texts .standalone),
        concat (body.texts .standalone)] := rfl

@[simp]
theorem texts_bareParam (id s) : (bareParam id).texts s = [id.print] := rfl

@[simp]
theorem texts_listedParams (params s) :
    (listedParams params).texts s = params.texts s := rfl

@[simp]
theorem texts_blockBody (body s) : (blockBody body).texts s = body.texts s := rfl

@[simp]
theorem texts_exprBody (value s) : (exprBody value).texts s = value.texts s := rfl

@[simp]
theorem texts_heritage (lead base s) :
    (heritage lead base).texts s = [lead, "extends", concat (base.texts s)] := rfl

@[simp]
theorem texts_classDef (lead name base openLead members closeLead span s) :
    (classDef lead name base openLead members closeLead span).texts s =
      [lead, "class", printName name, concat (base.texts s), openLead, "\x7b",
        concat (members.texts .standalone), closeLead, "\x7d"] := rfl

@[simp]
theorem texts_method (modifiers kind key value span s) :
    (method modifiers kind key value span).texts s =
      [modifiers.print kind.accessor, concat (key.texts .standalone), concat (value.texts .method)]
        := rfl

@[simp]
theorem texts_field (modifiers key value terminator span s) :
    (field modifiers key value terminator span).texts s =
      [modifiers.print "", concat (key.texts s), concat (value.texts s), terminator.print] := rfl

@[simp]
theorem texts_staticBlock (lead openLead stmts closeLead span s) :
    (staticBlock lead openLead stmts closeLead span).texts s =
      [lead, "static", openLead, "\x7b", concat (stmts.texts .standalone), closeLead, "\x7d"] := rfl

@[simp]
theorem texts_strayTerminator (lead span s) :
    (strayTerminator lead span).texts s = [lead, ";"] := rfl

@[simp]
theorem texts_initializer (lead value s) :
    (initializer lead value).texts s = [lead, "=", concat (value.texts s)] := rfl

/-! ### Patterns -/

@[simp]
theorem texts_namePattern (id s) : (namePattern id).texts s = [id.print] := rfl

@[simp]
theorem texts_exprPattern (target s) : (exprPattern target).texts s = target.texts s := rfl

@[simp]
theorem texts_arrayPattern (lead elements separators closeLead span s) :
    (arrayPattern lead elements separators closeLead span).texts s =
      [lead, "[", joinList (elements.texts .standalone) separators, closeLead, "]"] := rfl

@[simp]
theorem texts_objectPattern (lead members separators closeLead span s) :
    (objectPattern lead members separators closeLead span).texts s =
      [lead, "\x7b", joinList (members.texts .standalone) separators, closeLead, "\x7d"] := rfl

@[simp]
theorem texts_defaultPattern (target eqLead value span s) :
    (defaultPattern target eqLead value span).texts s =
      [concat (target.texts s), eqLead, "=", concat (value.texts s)] := rfl

@[simp]
theorem texts_restPattern (lead target span s) :
    (restPattern lead target span).texts s = [lead, "...", concat (target.texts s)] := rfl

@[simp]
theorem texts_patternProperty (key value isShorthand colonLead span s) :
    (patternProperty key value isShorthand colonLead span).texts s =
      if isShorthand then [concat (value.texts s)]
      else [concat (key.texts s), colonLead, ":", concat (value.texts s)] := rfl

@[simp]
theorem texts_restMember (lead target span s) :
    (restMember lead target span).texts s = [lead, "...", concat (target.texts s)] := rfl

/-! ### Statements -/

@[simp]
theorem texts_exprStmt (value directive terminator span s) :
    (exprStmt value directive terminator span).texts s =
      [concat (value.texts s), terminator.print] := rfl

@[simp]
theorem texts_declarationStmt (d s) : (declarationStmt d).texts s = d.texts s := rfl

@[simp]
theorem texts_functionStmt (f s) : (functionStmt f).texts s = f.texts s := rfl

@[simp]
theorem texts_classStmt (c s) : (classStmt c).texts s = c.texts s := rfl

@[simp]
theorem texts_blockStmt (b s) : (blockStmt b).texts s = b.texts s := rfl

@[simp]
theorem texts_emptyStmt (lead span s) : (emptyStmt lead span).texts s = [lead, ";"] := rfl

@[simp]
theorem texts_ifStmt (lead openLead test closeLead consequent alternate span s) :
    (ifStmt lead openLead test closeLead consequent alternate span).texts s =
      [lead, "if", openLead, "(", concat (test.texts s), closeLead, ")",
        concat (consequent.texts s), concat (alternate.texts s)] := rfl

@[simp]
theorem texts_forStmt (lead openLead init firstLead test secondLead step closeLead body
    span s) :
    (forStmt lead openLead init firstLead test secondLead step closeLead body span).texts s =
      [lead, "for", openLead, "(", concat (init.texts s), firstLead, ";", concat (test.texts s),
        secondLead, ";", concat (step.texts s), closeLead, ")", concat (body.texts s)] := rfl

@[simp]
theorem texts_forInStmt (lead openLead left inLead right closeLead body span s) :
    (forInStmt lead openLead left inLead right closeLead body span).texts s =
      [lead, "for", openLead, "(", concat (left.texts s), inLead, "in", concat (right.texts s),
        closeLead, ")", concat (body.texts s)] := rfl

@[simp]
theorem texts_forOfStmt (lead awaitLead openLead left ofLead right closeLead body span s) :
    (forOfStmt lead awaitLead openLead left ofLead right closeLead body span).texts s =
      [lead, "for", printMark awaitLead "await", openLead, "(", concat (left.texts s), ofLead, "of",
        concat (right.texts s), closeLead, ")", concat (body.texts s)] := rfl

@[simp]
theorem texts_whileStmt (lead openLead test closeLead body span s) :
    (whileStmt lead openLead test closeLead body span).texts s =
      [lead, "while", openLead, "(", concat (test.texts s), closeLead, ")", concat (body.texts s)]
        := rfl

@[simp]
theorem texts_doWhileStmt (lead body whileLead openLead test closeLead terminator span s) :
    (doWhileStmt lead body whileLead openLead test closeLead terminator span).texts s =
      [lead, "do", concat (body.texts s), whileLead, "while", openLead, "(", concat (test.texts s),
        closeLead, ")", terminator.print] := rfl

@[simp]
theorem texts_returnStmt (lead value terminator span s) :
    (returnStmt lead value terminator span).texts s =
      [lead, "return", concat (value.texts s), terminator.print] := rfl

@[simp]
theorem texts_breakStmt (lead label terminator span s) :
    (breakStmt lead label terminator span).texts s =
      [lead, "break", printName label, terminator.print] := rfl

@[simp]
theorem texts_continueStmt (lead label terminator span s) :
    (continueStmt lead label terminator span).texts s =
      [lead, "continue", printName label, terminator.print] := rfl

@[simp]
theorem texts_throwStmt (lead value terminator span s) :
    (throwStmt lead value terminator span).texts s =
      [lead, "throw", concat (value.texts s), terminator.print] := rfl

@[simp]
theorem texts_tryStmt (lead guarded handler finalizer span s) :
    (tryStmt lead guarded handler finalizer span).texts s =
      [lead, "try", concat (guarded.texts s), concat (handler.texts s), concat (finalizer.texts s)]
        := rfl

@[simp]
theorem texts_switchStmt (lead openLead subject closeLead openBraceLead cases
    closeBraceLead span s) :
    (switchStmt lead openLead subject closeLead openBraceLead cases closeBraceLead span).texts s =
      [lead, "switch", openLead, "(", concat (subject.texts s), closeLead, ")", openBraceLead,
        "\x7b", concat (cases.texts .standalone), closeBraceLead, "\x7d"] := rfl

@[simp]
theorem texts_labeledStmt (label colonLead body span s) :
    (labeledStmt label colonLead body span).texts s =
      [label.print, colonLead, ":", concat (body.texts s)] := rfl

@[simp]
theorem texts_debuggerStmt (lead terminator span s) :
    (debuggerStmt lead terminator span).texts s = [lead, "debugger", terminator.print] := rfl

@[simp]
theorem texts_withStmt (lead openLead subject closeLead body span s) :
    (withStmt lead openLead subject closeLead body span).texts s =
      [lead, "with", openLead, "(", concat (subject.texts s), closeLead, ")", concat (body.texts s)]
        := rfl

@[simp]
theorem texts_importStmt (d s) : (importStmt d).texts s = [d.print] := rfl

@[simp]
theorem texts_exportNamed (lead decl specifiers origin terminator span s) :
    (exportNamed lead decl specifiers origin terminator span).texts s =
      [lead, "export", concat (decl.texts s), (specifiers.map (·.print)).getD "",
        (origin.map (·.print)).getD "", printTerminator terminator] := rfl

@[simp]
theorem texts_exportDefault (lead defaultLead value span s) :
    (exportDefault lead defaultLead value span).texts s =
      [lead, "export", defaultLead, "default", concat (value.texts s)] := rfl

@[simp]
theorem texts_exportAll (d s) : (exportAll d).texts s = [d.print] := rfl

@[simp]
theorem texts_block (lead stmts closeLead span s) :
    (block lead stmts closeLead span).texts s =
      [lead, "\x7b", concat (stmts.texts .standalone), closeLead, "\x7d"] := rfl

@[simp]
theorem texts_elseClause (lead body s) :
    (elseClause lead body).texts s = [lead, "else", concat (body.texts s)] := rfl

@[simp]
theorem texts_declaration (lead kind items separators terminator span s) :
    (declaration lead kind items separators terminator span).texts s =
      [lead, kind.text, joinList (items.texts .standalone) separators, printTerminator terminator]
        := rfl

@[simp]
theorem texts_declarator (target init span s) :
    (declarator target init span).texts s = [concat (target.texts s), concat (init.texts s)] := rfl

@[simp]
theorem texts_forDeclaration (d s) : (forDeclaration d).texts s = d.texts s := rfl

@[simp]
theorem texts_forExpr (e s) : (forExpr e).texts s = e.texts s := rfl

@[simp]
theorem texts_targetDeclaration (d s) : (targetDeclaration d).texts s = d.texts s := rfl

@[simp]
theorem texts_targetPattern (p s) : (targetPattern p).texts s = p.texts s := rfl

@[simp]
theorem texts_catchClause (lead param body span s) :
    (catchClause lead param body span).texts s =
      [lead, "catch", concat (param.texts s), concat (body.texts s)] := rfl

@[simp]
theorem texts_catchParam (openLead target closeLead s) :
    (catchParam openLead target closeLead).texts s =
      [openLead, "(", concat (target.texts s), closeLead, ")"] := rfl

@[simp]
theorem texts_finallyClause (lead body s) :
    (finallyClause lead body).texts s = [lead, "finally", concat (body.texts s)] := rfl

@[simp]
theorem texts_switchCase_case (lead test colonLead body span s) :
    (switchCase lead (.present test) colonLead body span).texts s =
      [lead, "case", concat (test.texts s), colonLead, ":", concat (body.texts .standalone)] := rfl

@[simp]
theorem texts_switchCase_default (lead colonLead body span s) :
    (switchCase lead .absent colonLead body span).texts s =
      [lead, "default", colonLead, ":", concat (body.texts .standalone)] := rfl

@[simp]
theorem texts_exportFunction (f s) : (exportFunction f).texts s = f.texts s := rfl

@[simp]
theorem texts_exportClass (c s) : (exportClass c).texts s = c.texts s := rfl

@[simp]
theorem texts_exportExpr (value terminator s) :
    (exportExpr value terminator).texts s = [concat (value.texts s), terminator.print] := rfl

/-! ### Markup -/

@[simp]
theorem texts_element (lead name attributes selfClosing closeLead openingSpan children
    closing span s) :
    (element lead name attributes selfClosing closeLead openingSpan children closing span).texts s =
      [lead, "<", name.print, concat (attributes.texts .standalone), printMark selfClosing "/",
        closeLead, ">", concat (children.texts .standalone),
        (closing.map (·.print)).getD ""] := rfl

@[simp]
theorem texts_fragment (lead openingLead children closingLead slashLead closeLead span s) :
    (fragment lead openingLead children closingLead slashLead closeLead span).texts s =
      [lead, "<", openingLead, ">", concat (children.texts .standalone), closingLead, "<",
        slashLead, "/", closeLead, ">"] := rfl

@[simp]
theorem texts_attribute_value (name eqLead value span s) :
    (Tree.attribute name eqLead (.present value) span).texts s =
      [name.print, eqLead, "=", concat (value.texts s)] := rfl

@[simp]
theorem texts_attribute_bare (name eqLead span s) :
    (Tree.attribute name eqLead .absent span).texts s = [name.print] := rfl

@[simp]
theorem texts_spreadAttribute (lead dotsLead operand closeLead span s) :
    (spreadAttribute lead dotsLead operand closeLead span).texts s =
      [lead, "\x7b", dotsLead, "...", concat (operand.texts s), closeLead, "\x7d"] := rfl

@[simp]
theorem texts_stringValue (lit s) : (stringValue lit).texts s = [lit.print] := rfl

@[simp]
theorem texts_exprValue (c s) : (exprValue c).texts s = c.texts s := rfl

@[simp]
theorem texts_elementValue (e s) : (elementValue e).texts s = e.texts s := rfl

@[simp]
theorem texts_fragmentValue (f s) : (fragmentValue f).texts s = f.texts s := rfl

@[simp]
theorem texts_emptyContainer (lead inside insideSpan closeLead span s) :
    (emptyContainer lead inside insideSpan closeLead span).texts s =
      [lead, "\x7b", inside, closeLead, "\x7d"] := rfl

@[simp]
theorem texts_exprContainer (lead value closeLead span s) :
    (exprContainer lead value closeLead span).texts s =
      [lead, "\x7b", concat (value.texts s), closeLead, "\x7d"] := rfl

@[simp]
theorem texts_textChild (text s) : (textChild text).texts s = [text.raw] := rfl

@[simp]
theorem texts_exprChild (c s) : (exprChild c).texts s = c.texts s := rfl

@[simp]
theorem texts_spreadChild (lead dotsLead operand closeLead span s) :
    (spreadChild lead dotsLead operand closeLead span).texts s =
      [lead, "\x7b", dotsLead, "...", concat (operand.texts s), closeLead, "\x7d"] := rfl

@[simp]
theorem texts_elementChild (e s) : (elementChild e).texts s = e.texts s := rfl

@[simp]
theorem texts_fragmentChild (f s) : (fragmentChild f).texts s = f.texts s := rfl

end

/-! ## Lists of trees -/

/-- A list of trees prints the texts of its items. -/
@[simp]
theorem texts_ofList {c : Category} (items : List (Tree c)) (s : Setting) :
    (ofList items).texts s = items.map (·.print) := by
  induction items generalizing s with
  | nil => rfl
  | cons head tail ih => simp [ofList, ih, print_eq]

end Tree

end Verbatim
