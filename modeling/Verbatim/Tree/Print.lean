import Verbatim.Tree.Basic

/-!
# Printing trees

Every tree prints the trivia and the spelling of its own tokens and, between them, its parts in the
order of the grammar. Nothing depends on what contains a tree, with one exception: a function that
is the value of a method prints without its head, which the method has printed. The `Setting` of a
tree tells the two cases apart.

## Main definitions

* `Verbatim.Setting` — on its own, or as the value of a method.
* `Verbatim.Tree.texts` — the texts of the items of a list, or the one text of another tree.
* `Verbatim.Tree.print`, `Verbatim.Program.print` — the text of a tree and of a program.
-/

namespace Verbatim

/-- How a tree is to be printed. -/
inductive Setting where
  /-- On its own. -/
  | standalone
  /-- As the value of a method: a function shows only its parameters and body. -/
  | method
deriving DecidableEq, Repr

/-- The pieces of a template in their delimiters, with the texts of the expressions between. -/
def printPieces (delimiter : String) : List Quasi → List String → String
  | [], _ => ""
  | piece :: pieces, exprs =>
    piece.lead ++ delimiter ++ piece.raw
      ++ (if piece.isTail then "`" else "$\x7b" ++ exprs.headD "")
      ++ printPieces "\x7d" pieces exprs.tail

/-- The text of an optional terminator. -/
def printTerminator : Option Terminator → String
  | some t => t.print
  | none => ""

/-- The texts of the items of a list, none for an absent part, and one text for any other tree. -/
def Tree.texts : {c : Category} → Setting → Tree c → List String
  | _, _, .nil => []
  | _, _, .cons head tail => concat (head.texts .standalone) :: tail.texts .standalone
  | _, _, .absent => []
  | _, s, .present part => part.texts s
  | _, _, .identifier id => [id.print]
  | _, _, .literal lit => [lit.print]
  | _, s, .template t => t.texts s
  | _, s, .tagged tag quasi _ => [concat (tag.texts s), concat (quasi.texts s)]
  | _, _, .receiver lead _ => [lead, "this"]
  | _, _, .superclass lead _ => [lead, "super"]
  | _, _, .array lead elements separators closeLead _ =>
    [lead, "[", joinList (elements.texts .standalone) separators, closeLead, "]"]
  | _, _, .object lead members separators closeLead _ =>
    [lead, "\x7b", joinList (members.texts .standalone) separators, closeLead, "\x7d"]
  | _, s, .functionExpr f => f.texts s
  | _, s, .arrow isAsync asyncLead params arrowLead body _ =>
    [if isAsync then asyncLead ++ "async" else "", concat (params.texts s), arrowLead, "=>",
      concat (body.texts s)]
  | _, s, .classExpr c => c.texts s
  | _, s, .unary lead op operand _ => [lead, op.text, concat (operand.texts s)]
  | _, s, .update op isBefore opLead operand _ =>
    if isBefore then [opLead, op.text, concat (operand.texts s)]
    else [concat (operand.texts s), opLead, op.text]
  | _, s, .binary left opLead op right _ =>
    [concat (left.texts s), opLead, op.text, concat (right.texts s)]
  | _, s, .assignment target opLead op value _ =>
    [concat (target.texts s), opLead, op.text, concat (value.texts s)]
  | _, s, .conditional test questionLead consequent colonLead alternate _ =>
    [concat (test.texts s), questionLead, "?", concat (consequent.texts s), colonLead, ":",
      concat (alternate.texts s)]
  | _, _, .sequence items separators _ => [joinList (items.texts .standalone) separators]
  | _, s, .call callee isOptional optionalLead args _ =>
    [concat (callee.texts s), if isOptional then optionalLead ++ "?." else "",
      concat (args.texts s)]
  | _, s, .construct lead callee args _ =>
    [lead, "new", concat (callee.texts s), concat (args.texts s)]
  | _, s, .memberAccess base isOptional dotLead (.computedAccess openLead inner closeLead) _ =>
    [concat (base.texts s), if isOptional then dotLead ++ "?." else "", openLead, "[",
      concat (inner.texts s), closeLead, "]"]
  | _, s, .memberAccess base isOptional dotLead prop _ =>
    [concat (base.texts s), dotLead, if isOptional then "?." else ".",
      concat (prop.texts s)]
  | _, _, .metaProperty subject dotLead prop _ =>
    [subject.print, dotLead, ".", prop.print]
  | _, s, .importCall lead openLead source closeLead _ =>
    [lead, "import", openLead, "(", concat (source.texts s), closeLead, ")"]
  | _, s, .parenthesized lead inner closeLead _ =>
    [lead, "(", concat (inner.texts s), closeLead, ")"]
  | _, s, .spread lead operand _ => [lead, "...", concat (operand.texts s)]
  | _, s, .yield lead starLead operand _ =>
    [lead, "yield", printMark starLead "*", concat (operand.texts s)]
  | _, s, .await lead operand _ => [lead, "await", concat (operand.texts s)]
  | _, s, .elementExpr e => e.texts s
  | _, s, .fragmentExpr f => f.texts s
  | _, _, .cover asyncLead openLead items separators closeLead _ =>
    [printMark asyncLead "async", openLead, "(", joinList (items.texts .standalone) separators,
      closeLead, ")"]
  | _, _, .templateLit quasis exprs _ => [printPieces "`" quasis (exprs.texts .standalone)]
  | _, _, .argumentList openLead items separators closeLead =>
    [openLead, "(", joinList (items.texts .standalone) separators, closeLead, ")"]
  | _, _, .property modifiers key value kind isMethod isShorthand colonLead _ =>
    if isShorthand then [concat (value.texts .standalone)]
    else if isMethod || kind ≠ .plain then
      [modifiers.print kind.accessor, concat (key.texts .standalone), concat (value.texts .method)]
    else
      [modifiers.print kind.accessor, concat (key.texts .standalone), colonLead, ":",
        concat (value.texts .standalone)]
  | _, s, .spreadMember lead operand _ => [lead, "...", concat (operand.texts s)]
  | _, _, .nameKey id => [id.print]
  | _, _, .literalKey lit => [lit.print]
  | _, _, .privateKey name => [name.print]
  | _, s, .computedKey openLead inner closeLead =>
    [openLead, "[", concat (inner.texts s), closeLead, "]"]
  | _, _, .nameAccess id => [id.print]
  | _, _, .privateAccess name => [name.print]
  | _, s, .computedAccess openLead inner closeLead =>
    [openLead, "[", concat (inner.texts s), closeLead, "]"]
  | _, _, .paramList openLead items separators closeLead =>
    [openLead, "(", joinList (items.texts .standalone) separators, closeLead, ")"]
  | _, _, .bodyBlock openLead stmts closeLead _ =>
    [openLead, "\x7b", concat (stmts.texts .standalone), closeLead, "\x7d"]
  | _, s, .function head params body _ =>
    [if s = .standalone then head.print else "", concat (params.texts .standalone),
      concat (body.texts .standalone)]
  | _, _, .bareParam id => [id.print]
  | _, s, .listedParams params => params.texts s
  | _, s, .blockBody body => body.texts s
  | _, s, .exprBody value => value.texts s
  | _, s, .heritage lead base => [lead, "extends", concat (base.texts s)]
  | _, s, .classDef lead name base openLead members closeLead _ =>
    [lead, "class", printName name, concat (base.texts s), openLead, "\x7b",
      concat (members.texts .standalone), closeLead, "\x7d"]
  | _, _, .method modifiers kind key value _ =>
    [modifiers.print kind.accessor, concat (key.texts .standalone), concat (value.texts .method)]
  | _, s, .field modifiers key value terminator _ =>
    [modifiers.print "", concat (key.texts s), concat (value.texts s), terminator.print]
  | _, _, .staticBlock lead openLead stmts closeLead _ =>
    [lead, "static", openLead, "\x7b", concat (stmts.texts .standalone), closeLead, "\x7d"]
  | _, _, .strayTerminator lead _ => [lead, ";"]
  | _, s, .initializer lead value => [lead, "=", concat (value.texts s)]
  | _, _, .namePattern id => [id.print]
  | _, s, .exprPattern target => target.texts s
  | _, _, .arrayPattern lead elements separators closeLead _ =>
    [lead, "[", joinList (elements.texts .standalone) separators, closeLead, "]"]
  | _, _, .objectPattern lead members separators closeLead _ =>
    [lead, "\x7b", joinList (members.texts .standalone) separators, closeLead, "\x7d"]
  | _, s, .defaultPattern target eqLead value _ =>
    [concat (target.texts s), eqLead, "=", concat (value.texts s)]
  | _, s, .restPattern lead target _ => [lead, "...", concat (target.texts s)]
  | _, s, .patternProperty key value isShorthand colonLead _ =>
    if isShorthand then [concat (value.texts s)]
    else [concat (key.texts s), colonLead, ":", concat (value.texts s)]
  | _, s, .restMember lead target _ => [lead, "...", concat (target.texts s)]
  | _, s, .exprStmt value _ terminator _ => [concat (value.texts s), terminator.print]
  | _, s, .declarationStmt d => d.texts s
  | _, s, .functionStmt f => f.texts s
  | _, s, .classStmt c => c.texts s
  | _, s, .blockStmt b => b.texts s
  | _, _, .emptyStmt lead _ => [lead, ";"]
  | _, s, .ifStmt lead openLead test closeLead consequent alternate _ =>
    [lead, "if", openLead, "(", concat (test.texts s), closeLead, ")", concat (consequent.texts s),
      concat (alternate.texts s)]
  | _, s, .forStmt lead openLead init firstLead test secondLead step closeLead body _ =>
    [lead, "for", openLead, "(", concat (init.texts s), firstLead, ";", concat (test.texts s),
      secondLead, ";", concat (step.texts s), closeLead, ")", concat (body.texts s)]
  | _, s, .forInStmt lead openLead left inLead right closeLead body _ =>
    [lead, "for", openLead, "(", concat (left.texts s), inLead, "in", concat (right.texts s),
      closeLead, ")", concat (body.texts s)]
  | _, s, .forOfStmt lead awaitLead openLead left ofLead right closeLead body _ =>
    [lead, "for", printMark awaitLead "await", openLead, "(", concat (left.texts s), ofLead, "of",
      concat (right.texts s), closeLead, ")", concat (body.texts s)]
  | _, s, .whileStmt lead openLead test closeLead body _ =>
    [lead, "while", openLead, "(", concat (test.texts s), closeLead, ")", concat (body.texts s)]
  | _, s, .doWhileStmt lead body whileLead openLead test closeLead terminator _ =>
    [lead, "do", concat (body.texts s), whileLead, "while", openLead, "(", concat (test.texts s),
      closeLead, ")", terminator.print]
  | _, s, .returnStmt lead value terminator _ =>
    [lead, "return", concat (value.texts s), terminator.print]
  | _, _, .breakStmt lead label terminator _ =>
    [lead, "break", printName label, terminator.print]
  | _, _, .continueStmt lead label terminator _ =>
    [lead, "continue", printName label, terminator.print]
  | _, s, .throwStmt lead value terminator _ =>
    [lead, "throw", concat (value.texts s), terminator.print]
  | _, s, .tryStmt lead guarded handler finalizer _ =>
    [lead, "try", concat (guarded.texts s), concat (handler.texts s), concat (finalizer.texts s)]
  | _, s, .switchStmt lead openLead subject closeLead openBraceLead cases closeBraceLead _ =>
    [lead, "switch", openLead, "(", concat (subject.texts s), closeLead, ")", openBraceLead,
      "\x7b", concat (cases.texts .standalone), closeBraceLead, "\x7d"]
  | _, s, .labeledStmt label colonLead body _ =>
    [label.print, colonLead, ":", concat (body.texts s)]
  | _, _, .debuggerStmt lead terminator _ => [lead, "debugger", terminator.print]
  | _, s, .withStmt lead openLead subject closeLead body _ =>
    [lead, "with", openLead, "(", concat (subject.texts s), closeLead, ")", concat (body.texts s)]
  | _, _, .importStmt d => [d.print]
  | _, s, .exportNamed lead decl specifiers origin terminator _ =>
    [lead, "export", concat (decl.texts s), (specifiers.map (·.print)).getD "",
      (origin.map (·.print)).getD "", printTerminator terminator]
  | _, s, .exportDefault lead defaultLead value _ =>
    [lead, "export", defaultLead, "default", concat (value.texts s)]
  | _, _, .exportAll d => [d.print]
  | _, _, .block lead stmts closeLead _ =>
    [lead, "\x7b", concat (stmts.texts .standalone), closeLead, "\x7d"]
  | _, s, .elseClause lead body => [lead, "else", concat (body.texts s)]
  | _, _, .declaration lead kind items separators terminator _ =>
    [lead, kind.text, joinList (items.texts .standalone) separators, printTerminator terminator]
  | _, s, .declarator target init _ => [concat (target.texts s), concat (init.texts s)]
  | _, s, .forDeclaration d => d.texts s
  | _, s, .forExpr e => e.texts s
  | _, s, .targetDeclaration d => d.texts s
  | _, s, .targetPattern p => p.texts s
  | _, s, .catchClause lead param body _ =>
    [lead, "catch", concat (param.texts s), concat (body.texts s)]
  | _, s, .catchParam openLead target closeLead =>
    [openLead, "(", concat (target.texts s), closeLead, ")"]
  | _, s, .finallyClause lead body => [lead, "finally", concat (body.texts s)]
  | _, s, .switchCase lead (.present test) colonLead body _ =>
    [lead, "case", concat (test.texts s), colonLead, ":", concat (body.texts .standalone)]
  | _, _, .switchCase lead .absent colonLead body _ =>
    [lead, "default", colonLead, ":", concat (body.texts .standalone)]
  | _, s, .exportFunction f => f.texts s
  | _, s, .exportClass c => c.texts s
  | _, s, .exportExpr value terminator => [concat (value.texts s), terminator.print]
  | _, _, .element lead name attributes selfClosing closeLead _ children closing _ =>
    [lead, "<", name.print, concat (attributes.texts .standalone), printMark selfClosing "/",
      closeLead, ">", concat (children.texts .standalone), (closing.map (·.print)).getD ""]
  | _, _, .fragment lead openingLead children closingLead slashLead closeLead _ =>
    [lead, "<", openingLead, ">", concat (children.texts .standalone), closingLead, "<", slashLead,
      "/", closeLead, ">"]
  | _, s, .attribute name eqLead (.present value) _ =>
    [name.print, eqLead, "=", concat (value.texts s)]
  | _, _, .attribute name _ .absent _ => [name.print]
  | _, s, .spreadAttribute lead dotsLead operand closeLead _ =>
    [lead, "\x7b", dotsLead, "...", concat (operand.texts s), closeLead, "\x7d"]
  | _, _, .stringValue lit => [lit.print]
  | _, s, .exprValue c => c.texts s
  | _, s, .elementValue e => e.texts s
  | _, s, .fragmentValue f => f.texts s
  | _, _, .emptyContainer lead inside _ closeLead _ => [lead, "\x7b", inside, closeLead, "\x7d"]
  | _, s, .exprContainer lead value closeLead _ =>
    [lead, "\x7b", concat (value.texts s), closeLead, "\x7d"]
  | _, _, .textChild text => [text.raw]
  | _, s, .exprChild c => c.texts s
  | _, s, .spreadChild lead dotsLead operand closeLead _ =>
    [lead, "\x7b", dotsLead, "...", concat (operand.texts s), closeLead, "\x7d"]
  | _, s, .elementChild e => e.texts s
  | _, s, .fragmentChild f => f.texts s

/-- The text of a tree in a given setting. -/
def Tree.printIn {c : Category} (s : Setting) (t : Tree c) : String := concat (t.texts s)

/-- The text of a tree on its own. -/
def Tree.print {c : Category} (t : Tree c) : String := t.printIn .standalone

/-- The text of a program. -/
def Program.print (p : Program) : String := concat (p.body.map (·.print)) ++ p.tail

end Verbatim
