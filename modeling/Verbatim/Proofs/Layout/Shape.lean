import Verbatim.Proofs.Layout.Basic

/-!
# The layouts of trees

Every construct of the tree has a layout. Printing a tree is printing its layout, and visiting a
tree is visiting its layout, so whatever is proved of layouts is known of trees.

## Main definitions

* `Verbatim.Tree.shape` — the layout of a tree.

## Main results

* `Verbatim.Tree.print_shape` — a layout prints as its tree does.
* `Verbatim.Tree.shape_traverse` — a visit of a tree is a visit of its layout.
-/

namespace Verbatim

namespace Tree

/-- Whether a property is accessed by an expression in brackets. -/
def isComputed : Tree .access → Bool
  | .computedAccess .. => true
  | _ => false

/-- The layout of a list with separators. -/
def listOf {c : Category} (items : Tree (.many c)) (separators : List String) : Layout :=
  .list (items.toList.map (.part .standalone)) separators

/-- What a tree consists of. -/
def shape : {c : Category} → Setting → Tree c → Layout
  | _, _, .nil => .blank
  | _, _, .cons head tail => .seq (.part .standalone head) (.part .standalone tail)
  | _, _, .absent => .blank
  | _, s, .present inner => .part s inner
  | _, _, .identifier id => .ident id
  | _, _, .literal lit => .literal lit
  | _, s, .template t => .part s t
  | _, s, .tagged tag quasi span => .node span (.all [.part s tag, .part s quasi])
  | _, _, .receiver lead span => .node span (.token (lead ++ "this"))
  | _, _, .superclass lead span => .node span (.token (lead ++ "super"))
  | _, _, .array lead elements separators closeLead span =>
    .node span (.all [.token (lead ++ "["), listOf elements separators, .token (closeLead ++ "]")])
  | _, _, .object lead members separators closeLead span =>
    .node span (.all [.token (lead ++ "\x7b"), listOf members separators,
      .token (closeLead ++ "\x7d")])
  | _, s, .functionExpr f => .part s f
  | _, s, .arrow isAsync asyncLead params arrowLead body span =>
    .node span (.all [.onlyIf isAsync (asyncLead ++ "async"), .part s params,
      .token (arrowLead ++ "=>"), .part s body])
  | _, s, .classExpr c => .part s c
  | _, s, .unary lead op operand span =>
      .node span (.all [.token (lead ++ op.text), .part s operand])
  | _, s, .update op isBefore opLead operand span =>
    .node span (if isBefore then .all [.token (opLead ++ op.text), .part s operand]
      else .all [.part s operand, .token (opLead ++ op.text)])
  | _, s, .binary left opLead op right span =>
    .node span (.all [.part s left, .token (opLead ++ op.text), .part s right])
  | _, s, .assignment target opLead op value span =>
    .node span (.all [.part s target, .token (opLead ++ op.text), .part s value])
  | _, s, .conditional test questionLead consequent colonLead alternate span =>
    .node span (.all [.part s test, .token (questionLead ++ "?"), .part s consequent,
      .token (colonLead ++ ":"), .part s alternate])
  | _, _, .sequence items separators span => .node span (listOf items separators)
  | _, s, .call callee isOptional optionalLead args span =>
    .node span (.all [.part s callee, .onlyIf isOptional (optionalLead ++ "?."), .part s args])
  | _, s, .construct lead callee args span =>
    .node span (.all [.token (lead ++ "new"), .part s callee, .part s args])
  | _, s, .memberAccess base isOptional dotLead prop span =>
    .node span (.all [.part s base,
      .onlyIf (isOptional || !prop.isComputed) (dotLead ++ if isOptional then "?." else "."),
      .part s prop])
  | _, _, .metaProperty subject dotLead prop span =>
    .node span (.all [.ident subject, .token (dotLead ++ "."), .ident prop])
  | _, s, .importCall lead openLead source closeLead span =>
    .node span (.all [.token (lead ++ "import"), .token (openLead ++ "("), .part s source,
      .token (closeLead ++ ")")])
  | _, s, .parenthesized lead inner closeLead span =>
    .node span (.all [.token (lead ++ "("), .part s inner, .token (closeLead ++ ")")])
  | _, s, .spread lead operand span => .node span (.all [.token (lead ++ "..."), .part s operand])
  | _, s, .yield lead starLead operand span =>
    .node span (.all [.token (lead ++ "yield"), .mark starLead "*", .part s operand])
  | _, s, .await lead operand span => .node span (.all [.token (lead ++ "await"), .part s operand])
  | _, s, .elementExpr e => .part s e
  | _, s, .fragmentExpr f => .part s f
  | _, _, .cover asyncLead openLead items separators closeLead span =>
    .node span (.all [.mark asyncLead "async", .token (openLead ++ "("), listOf items separators,
      .token (closeLead ++ ")")])
  | _, _, .templateLit quasis exprs span =>
    .node span (.pieces "`" quasis (exprs.toList.map (.part .standalone)))
  | _, _, .argumentList openLead items separators closeLead =>
    .all [.token (openLead ++ "("), listOf items separators, .token (closeLead ++ ")")]
  | _, _, .property modifiers key value kind isMethod isShorthand colonLead span =>
    .node span (
      if isShorthand then .shorthand key (.part .standalone value)
      else if isMethod || kind ≠ .plain then
        .all [modifiers.layout kind.accessor, .part .standalone key, .part .method value]
      else
        .all [.loose (modifiers.print kind.accessor), .part .standalone key,
          .token (colonLead ++ ":"),
          .part .standalone value])
  | _, s, .spreadMember lead operand span =>
    .node span (.all [.token (lead ++ "..."), .part s operand])
  | _, _, .nameKey id => .ident id
  | _, _, .literalKey lit => .literal lit
  | _, _, .privateKey name => name.layout
  | _, s, .computedKey openLead inner closeLead =>
    .all [.token (openLead ++ "["), .part s inner, .token (closeLead ++ "]")]
  | _, _, .nameAccess id => .ident id
  | _, _, .privateAccess name => name.layout
  | _, s, .computedAccess openLead inner closeLead =>
    .all [.token (openLead ++ "["), .part s inner, .token (closeLead ++ "]")]
  | _, _, .paramList openLead items separators closeLead =>
    .all [.token (openLead ++ "("), listOf items separators, .token (closeLead ++ ")")]
  | _, _, .bodyBlock openLead stmts closeLead span =>
    .node span (.all [.token (openLead ++ "\x7b"), .part .standalone stmts,
      .token (closeLead ++ "\x7d")])
  | _, s, .function head params body span =>
    .node span (.all [if s = .standalone then head.layout else .hidden (nameLayout head.name),
      .part .standalone params, .part .standalone body])
  | _, _, .bareParam id => .ident id
  | _, s, .listedParams params => .part s params
  | _, s, .blockBody body => .part s body
  | _, s, .exprBody value => .part s value
  | _, s, .heritage lead base => .all [.token (lead ++ "extends"), .part s base]
  | _, s, .classDef lead name base openLead members closeLead span =>
    .node span (.all [.token (lead ++ "class"), nameLayout name, .part s base,
      .token (openLead ++ "\x7b"), .part .standalone members, .token (closeLead ++ "\x7d")])
  | _, _, .method modifiers kind key value span =>
    .node span (.all [modifiers.layout kind.accessor, .part .standalone key, .part .method value])
  | _, s, .field modifiers key value terminator span =>
    .node span (.all [modifiers.layout "", .part s key, .part s value, terminator.layout])
  | _, _, .staticBlock lead openLead stmts closeLead span =>
    .node span (.all [.token (lead ++ "static"), .token (openLead ++ "\x7b"),
      .part .standalone stmts, .token (closeLead ++ "\x7d")])
  | _, _, .strayTerminator lead span => .node span (.token (lead ++ ";"))
  | _, s, .initializer lead value => .all [.token (lead ++ "="), .part s value]
  | _, _, .namePattern id => .ident id
  | _, s, .exprPattern target => .part s target
  | _, _, .arrayPattern lead elements separators closeLead span =>
    .node span (.all [.token (lead ++ "["), listOf elements separators, .token (closeLead ++ "]")])
  | _, _, .objectPattern lead members separators closeLead span =>
    .node span (.all [.token (lead ++ "\x7b"), listOf members separators,
      .token (closeLead ++ "\x7d")])
  | _, s, .defaultPattern target eqLead value span =>
    .node span (.all [.part s target, .token (eqLead ++ "="), .part s value])
  | _, s, .restPattern lead target span =>
      .node span (.all [.token (lead ++ "..."), .part s target])
  | _, s, .patternProperty key value isShorthand colonLead span =>
    .node span (
      if isShorthand then .shorthand key (.part s value)
      else .all [.part s key, .token (colonLead ++ ":"), .part s value])
  | _, s, .restMember lead target span => .node span (.all [.token (lead ++ "..."), .part s target])
  | _, s, .exprStmt value _ terminator span => .node span (.all [.part s value, terminator.layout])
  | _, s, .declarationStmt d => .part s d
  | _, s, .functionStmt f => .part s f
  | _, s, .classStmt c => .part s c
  | _, s, .blockStmt b => .part s b
  | _, _, .emptyStmt lead span => .node span (.token (lead ++ ";"))
  | _, s, .ifStmt lead openLead test closeLead consequent alternate span =>
    .node span (.all [.token (lead ++ "if"), .token (openLead ++ "("), .part s test,
      .token (closeLead ++ ")"), .part s consequent, .part s alternate])
  | _, s, .forStmt lead openLead init firstLead test secondLead step closeLead body span =>
    .node span (.all [.token (lead ++ "for"), .token (openLead ++ "("), .part s init,
      .token (firstLead ++ ";"), .part s test, .token (secondLead ++ ";"), .part s step,
      .token (closeLead ++ ")"), .part s body])
  | _, s, .forInStmt lead openLead left inLead right closeLead body span =>
    .node span (.all [.token (lead ++ "for"), .token (openLead ++ "("), .part s left,
      .token (inLead ++ "in"), .part s right, .token (closeLead ++ ")"), .part s body])
  | _, s, .forOfStmt lead awaitLead openLead left ofLead right closeLead body span =>
    .node span (.all [.token (lead ++ "for"), .mark awaitLead "await", .token (openLead ++ "("),
      .part s left, .token (ofLead ++ "of"), .part s right, .token (closeLead ++ ")"),
        .part s body])
  | _, s, .whileStmt lead openLead test closeLead body span =>
    .node span (.all [.token (lead ++ "while"), .token (openLead ++ "("), .part s test,
      .token (closeLead ++ ")"), .part s body])
  | _, s, .doWhileStmt lead body whileLead openLead test closeLead terminator span =>
    .node span (.all [.token (lead ++ "do"), .part s body, .token (whileLead ++ "while"),
      .token (openLead ++ "("), .part s test, .token (closeLead ++ ")"), terminator.layout])
  | _, s, .returnStmt lead value terminator span =>
    .node span (.all [.token (lead ++ "return"), .part s value, terminator.layout])
  | _, _, .breakStmt lead label terminator span =>
    .node span (.all [.token (lead ++ "break"), nameLayout label, terminator.layout])
  | _, _, .continueStmt lead label terminator span =>
    .node span (.all [.token (lead ++ "continue"), nameLayout label, terminator.layout])
  | _, s, .throwStmt lead value terminator span =>
    .node span (.all [.token (lead ++ "throw"), .part s value, terminator.layout])
  | _, s, .tryStmt lead guarded handler finalizer span =>
    .node span (.all [.token (lead ++ "try"), .part s guarded, .part s handler, .part s finalizer])
  | _, s, .switchStmt lead openLead subject closeLead openBraceLead cases closeBraceLead span =>
    .node span (.all [.token (lead ++ "switch"), .token (openLead ++ "("), .part s subject,
      .token (closeLead ++ ")"), .token (openBraceLead ++ "\x7b"), .part .standalone cases,
      .token (closeBraceLead ++ "\x7d")])
  | _, s, .labeledStmt label colonLead body span =>
    .node span (.all [.ident label, .token (colonLead ++ ":"), .part s body])
  | _, _, .debuggerStmt lead terminator span =>
    .node span (.all [.token (lead ++ "debugger"), terminator.layout])
  | _, s, .withStmt lead openLead subject closeLead body span =>
    .node span (.all [.token (lead ++ "with"), .token (openLead ++ "("), .part s subject,
      .token (closeLead ++ ")"), .part s body])
  | _, _, .importStmt d => d.layout
  | _, s, .exportNamed lead decl specifiers origin terminator span =>
    .node span (.all [.token (lead ++ "export"), .part s decl,
      specifiers.elim .blank NamedExports.layout, origin.elim .blank FromClause.layout,
      terminator.elim .blank Terminator.layout])
  | _, s, .exportDefault lead defaultLead value span =>
    .node span (.all [.token (lead ++ "export"), .token (defaultLead ++ "default"), .part s value])
  | _, _, .exportAll d => d.layout
  | _, _, .block lead stmts closeLead span =>
    .node span
      (.all [.token (lead ++ "\x7b"), .part .standalone stmts, .token (closeLead ++ "\x7d")])
  | _, s, .elseClause lead body => .all [.token (lead ++ "else"), .part s body]
  | _, _, .declaration lead kind items separators terminator span =>
    .node span (.all [.token (lead ++ kind.text), listOf items separators,
      terminator.elim .blank Terminator.layout])
  | _, s, .declarator target init span => .node span (.all [.part s target, .part s init])
  | _, s, .forDeclaration d => .part s d
  | _, s, .forExpr e => .part s e
  | _, s, .targetDeclaration d => .part s d
  | _, s, .targetPattern p => .part s p
  | _, s, .catchClause lead param body span =>
    .node span (.all [.token (lead ++ "catch"), .part s param, .part s body])
  | _, s, .catchParam openLead target closeLead =>
    .all [.token (openLead ++ "("), .part s target, .token (closeLead ++ ")")]
  | _, s, .finallyClause lead body => .all [.token (lead ++ "finally"), .part s body]
  | _, s, .switchCase lead test colonLead body span =>
    .node span (.all [.token (lead ++ if test.toOption.isSome then "case" else "default"),
      .part s test, .token (colonLead ++ ":"), .part .standalone body])
  | _, s, .exportFunction f => .part s f
  | _, s, .exportClass c => .part s c
  | _, s, .exportExpr value terminator => .all [.part s value, terminator.layout]
  | _, _, .element lead name attributes selfClosing closeLead openingSpan children closing span =>
    .node span (.all [
      .node openingSpan (.all [.token (lead ++ "<"), name.layout, .part .standalone attributes,
        .mark selfClosing "/", .token (closeLead ++ ">")]),
      .part .standalone children, closing.elim .blank ClosingTag.layout])
  | _, _, .fragment lead openingLead children closingLead slashLead closeLead span =>
    .node span (.all [.token (lead ++ "<"), .token (openingLead ++ ">"), .part .standalone children,
      .token (closingLead ++ "<"), .token (slashLead ++ "/"), .token (closeLead ++ ">")])
  | _, s, .attribute name eqLead value span =>
    .node span (.all [name.layout, .onlyIf value.toOption.isSome (eqLead ++ "="), .part s value])
  | _, s, .spreadAttribute lead dotsLead operand closeLead span =>
    .node span (.all [.token (lead ++ "\x7b"), .token (dotsLead ++ "..."), .part s operand,
      .token (closeLead ++ "\x7d")])
  | _, _, .stringValue lit => .literal lit
  | _, s, .exprValue c => .part s c
  | _, s, .elementValue e => .part s e
  | _, s, .fragmentValue f => .part s f
  | _, _, .emptyContainer lead inside insideSpan closeLead span =>
    .node span (.gap insideSpan (.token (lead ++ "\x7b")) (.token (inside ++ closeLead ++ "\x7d")))
  | _, s, .exprContainer lead value closeLead span =>
    .node span (.all [.token (lead ++ "\x7b"), .part s value, .token (closeLead ++ "\x7d")])
  | _, _, .textChild text => .markup text
  | _, s, .exprChild c => .part s c
  | _, s, .spreadChild lead dotsLead operand closeLead span =>
    .node span (.all [.token (lead ++ "\x7b"), .token (dotsLead ++ "..."), .part s operand,
      .token (closeLead ++ "\x7d")])
  | _, s, .elementChild e => .part s e
  | _, s, .fragmentChild f => .part s f

/-! ## What is printed -/

section

variable {c : Category}

/-- The items of a list print what the list does. -/
theorem map_print_toList (items : Tree (.many c)) (s : Setting) :
    items.toList.map (·.print) = items.texts s := by
  obtain ⟨l, rfl⟩ : ∃ l, items = ofList l := ⟨_, items.ofList_toList.symm⟩
  rw [toList_ofList, texts_ofList]

theorem prints_toList (items : Tree (.many c)) :
    (items.toList.map (Layout.part .standalone)).map Layout.print = items.texts .standalone := by
  rw [List.map_map, ← items.map_print_toList .standalone]
  rfl

@[simp]
theorem print_listOf (items : Tree (.many c)) (separators : List String) :
    (listOf items separators).print = joinList (items.texts .standalone) separators := by
  rw [listOf, Layout.print, Layout.prints_eq_map, prints_toList]

/-- A layout prints as its tree does. -/
theorem print_shape (s : Setting) (t : Tree c) : (t.shape s).print = t.printIn s := by
  cases t
  case memberAccess base isOptional dotLead prop span =>
    cases prop <;> cases isOptional <;>
      simp [shape, isComputed, Layout.print, printIn, String.append_assoc]
  case templateLit quasis exprs span =>
    simp only [shape, Layout.print, printIn, texts_templateLit, concat_cons, concat_nil,
      String.append_empty]
    rw [Layout.print_pieces, prints_toList]
  case exportNamed lead decl specifiers origin terminator span =>
    cases specifiers <;> cases origin <;> cases terminator <;>
      simp [shape, Layout.print, printIn, printTerminator, String.append_assoc]
  case declaration lead kind items separators terminator span =>
    cases terminator <;>
      simp [shape, Layout.print, printIn, printTerminator, String.append_assoc]
  case switchCase lead test colonLead body span =>
    cases test <;> simp [shape, toOption, Layout.print, printIn, String.append_assoc]
  case «attribute» name eqLead value span =>
    cases value <;> simp [shape, toOption, Layout.print, printIn, String.append_assoc]
  case element lead name attributes selfClosing closeLead openingSpan children closing span =>
    cases closing <;> simp [shape, Layout.print, printIn, String.append_assoc]
  all_goals
    simp [shape, Layout.print, printIn, apply_ite Layout.print, apply_ite concat,
      String.append_assoc]

end

end Tree

end Verbatim
