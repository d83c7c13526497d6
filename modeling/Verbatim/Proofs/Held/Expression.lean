import Verbatim.Proofs.Held.Function

/-!
# Markup and expressions of a parser that holds the context

Between brackets of any kind `in` is an operator again, whatever it is outside, and so it is between
`?` and `:`. The number of open elements is one more between the angle brackets of an element. The
body of an arrow function is read in a context of its own, in which a directive may make the code
strict.

## Main definitions

* `Verbatim.Held.markup`, `Verbatim.Held.markupRoot` — markup.
* `Verbatim.Held.operand` — operands.
* `Verbatim.Held.chain`, `Verbatim.Held.callee` — operands with accesses and calls.
* `Verbatim.Held.unary`, `Verbatim.Held.exponentiation`, `Verbatim.Held.binary` — operators.
* `Verbatim.Held.arrow` — arrow functions behind their parameters.
* `Verbatim.Held.cover`, `Verbatim.Held.assignment`, `Verbatim.Held.expression` — expressions.
-/

namespace Verbatim.Held

open Verbatim.Parse Verbatim.Grammar

variable {P : Productions} {p : Verbatim.Productions} {ctx : Context}

/-! ## Markup -/

/-- Takes a punctuator behind which another mode holds. -/
def expectThen (spelling : String) (after : Mode) : Held String :=
  reading (Grammar.expectThen · spelling after)

/-- The rest of an expression in braces, behind the opening brace. -/
def container (P : Productions) (start : Position) (openLead : String) (after : Mode)
    (allowsEmpty : Bool) : Held (Tree .container) := do
  let t ← look
  if t.isPunctuator "\x7d" then
    if !allowsEmpty then unexpected t
    let insideSpan ← finishAt .emptyExpr (← lastEnd) t.start
    let _ ← expectThen "\x7d" after
    let span ← finish .container start
    return .emptyContainer openLead t.lead insideSpan "" span
  let value ← allowingIn true P.assignment
  let closeLead ← expectThen "\x7d" after
  let span ← finish .container start
  return .exprContainer openLead value closeLead span

/-- The value of an attribute. -/
def attributeValue (P : Productions) : Held (Tree .attributeValue) := do
  let t ← look
  if t.isString then return .stringValue (← literal)
  if t.isPunctuator "\x7b" then
    let openLead ← leadThen .normal
    return .exprValue (← container P t.start openLead .tag false)
  if t.isPunctuator "<" then
    let openLead ← lead
    match ← P.markup t.start openLead .tag with
    | .element e => return .elementValue e
    | .fragment f => return .fragmentValue f
  unexpected t

/-- A spread attribute; the lookahead is its opening brace. -/
def spreadAttribute (P : Productions) : Held (Tree .attribute) := do
  let start ← here
  let openLead ← leadThen .normal
  let dotsLead ← expect "..."
  let operand ← allowingIn true P.assignment
  let closeLead ← expectThen "\x7d" .tag
  let span ← finish .spreadAttribute start
  return .spreadAttribute openLead dotsLead operand closeLead span

/-- An attribute. -/
def tagAttribute (P : Productions) : Held (Tree .attribute) := do
  if ← sees "\x7b" then spreadAttribute P
  else
    let start ← here
    let first ← reading tagIdent
    let name : AttributeName ←
      if ← sees ":" then .namespaced <$> reading (namespacedName · start first)
      else pure (.plain first)
    let (eqLead, value) : String × Tree (.maybe .attributeValue) ←
      match ← accept "=" with
      | some eqLead => pure (eqLead, .present (← attributeValue P))
      | none => pure ("", .absent)
    let span ← finish .attribute start
    return .attribute name eqLead value span

/-- A child in braces; the lookahead is the opening brace. -/
def childContainer (P : Productions) : Held (Tree .child) := do
  let start ← here
  let openLead ← leadThen .normal
  if ← sees "..." then
    let dotsLead ← lead
    let operand ← allowingIn true P.assignment
    let closeLead ← expectThen "\x7d" .text
    let span ← finish .spreadChild start
    return .spreadChild openLead dotsLead operand closeLead span
  return .exprChild (← container P start openLead .text true)

/-- The children of an element or fragment up to the `<` of its closing tag. -/
def children (P : Productions) (name : String) :
    Nat → Held (List (Tree .child) × Position × String)
  | 0 => stalled
  | rounds + 1 => do
    let t ← look
    match t.kind with
    | .eof => fail .markup (.unterminatedElement name) t.site
    | .markupText =>
      let t ← next
      let span ← finish .markupText t.start
      let (rest, closing) ← children P name rounds
      return (.textChild { value := t.text, raw := t.raw, span } :: rest, closing)
    | _ =>
      if t.isPunctuator "\x7b" then
        let child ← childContainer P
        let (rest, closing) ← children P name rounds
        return (child :: rest, closing)
      else if t.isPunctuator "<" then
        let openLead ← leadThen .tag
        if ← sees "/" then return ([], t.start, openLead)
        let child : Tree .child ←
          match ← P.markup t.start openLead .text with
          | .element e => pure (.elementChild e)
          | .fragment f => pure (.fragmentChild f)
        let (rest, closing) ← children P name rounds
        return (child :: rest, closing)
      else unexpected t

/-- A fragment, behind its first angle bracket. -/
def fragment (P : Productions) (start : Position) (openLead : String) (after : Mode) :
    Held (Tree .fragment) := do
  let openingLead ← expectThen ">" .text
  let (inner, _, closingLead) ← children P "" P.rounds
  let slashLead ← expect "/"
  let t ← look
  if !t.isPunctuator ">" then fail .markup (.mismatchedTag "<>") t.site
  let closeLead ← expectThen ">" after
  let span ← finish .fragment start
  return .fragment openLead openingLead (.ofList inner) closingLead slashLead closeLead span

/-- A closing tag, behind its angle bracket. -/
def closingTag (P : Productions) (start : Position) (openLead opened : String) (after : Mode) :
    Held ClosingTag := do
  let slashLead ← expect "/"
  let site := (← look).site
  let name ← reading (tagName · P.rounds)
  if name.qualified != opened then fail .markup (.mismatchedTag opened) site
  let closeLead ← expectThen ">" after
  let span ← finish .closingTag start
  return { lead := openLead, slashLead, name, closeLead, span }

/-- An element, behind its first angle bracket. -/
def element (P : Productions) (start : Position) (openLead : String) (after : Mode) :
    Held (Tree .element) := do
  let name ← reading (tagName · P.rounds)
  let attributes ← many endsAttributes (tagAttribute P) P.rounds
  if ← sees "/" then
    let selfClosing ← lead
    if !(← sees ">") then unexpectedHere
    let closeLead ← expectThen ">" after
    let openingSpan ← finish .openingTag start
    let span ← finish .element start
    return .element openLead name (.ofList attributes) (some selfClosing) closeLead openingSpan .nil
      none span
  let closeLead ← expectThen ">" .text
  let openingSpan ← finish .openingTag start
  let (inner, closingStart, closingLead) ← children P name.qualified P.rounds
  let closing ← closingTag P closingStart closingLead name.qualified after
  let span ← finish .element start
  return .element openLead name (.ofList attributes) none closeLead openingSpan (.ofList inner)
    (some closing) span

/-- Markup behind its first angle bracket. -/
def markup (P : Productions) (start : Position) (openLead : String) (after : Mode) : Held Markup :=
  deeper do
    if ← sees ">" then .fragment <$> fragment P start openLead after
    else .element <$> element P start openLead after

/-- Markup as an operand; the lookahead is its first angle bracket. -/
def markupRoot (P : Productions) : Held Expr := do
  setMode .tag
  rescan
  let start ← here
  let openLead ← lead
  match ← P.markup start openLead .normal with
  | .element e => return .elementExpr e
  | .fragment f => return .fragmentExpr f

theorem container_follows (hp : P.Follow p) (start : Position) (openLead : String) (after : Mode)
    (allowsEmpty : Bool) :
    Follows (container P start openLead after allowsEmpty) ctx
      (Grammar.container p ctx start openLead after allowsEmpty) := by
  refine .bind .lift fun t => .branch (.check ?_ .reading) ?_
  · exact .bind .lift fun _ => .bind .lift fun _ => .bind .reading fun _ =>
      .bind .lift fun _ => .pure
  · exact .bind (.inside (hp.assignment _)) fun _ => .bind .reading fun _ =>
      .bind .lift fun _ => .pure

theorem attributeValue_follows (hp : P.Follow p) :
    Follows (attributeValue P) ctx (Grammar.attributeValue p ctx) := by
  refine .bind .lift fun t => .branch (.bind .reading fun _ => .pure)
    (.branch ?_ (.branch ?_ .reading))
  · exact .bind .lift fun _ => .bind (container_follows hp _ _ _ _) fun _ => .pure
  · refine .bind .lift fun _ => .bind (hp.markup _ _ _ _) fun m => ?_
    cases m <;> exact .pure

theorem spreadAttribute_follows (hp : P.Follow p) :
    Follows (spreadAttribute P) ctx (Grammar.spreadAttribute p ctx) :=
  .bind .lift fun _ => .bind .lift fun _ => .bind .reading fun _ =>
    .bind (.inside (hp.assignment _)) fun _ => .bind .reading fun _ => .bind .lift fun _ => .pure

theorem tagAttribute_follows (hp : P.Follow p) :
    Follows (tagAttribute P) ctx (Grammar.tagAttribute p ctx) := by
  refine .bind .lift fun _ => .branch (spreadAttribute_follows hp) (.bind .lift fun _ =>
    .bind .reading fun _ => .bind .lift fun _ => .choice (fun _ => .bind .lift fun eqLead => ?_)
      (.map .reading) .pure)
  cases eqLead with
  | none => exact .bind .pure fun _ => .bind .lift fun _ => .pure
  | some =>
    exact .bind (attributeValue_follows hp) fun _ => .bind .pure fun _ => .bind .lift fun _ => .pure

theorem childContainer_follows (hp : P.Follow p) :
    Follows (childContainer P) ctx (Grammar.childContainer p ctx) :=
  .bind .lift fun _ => .bind .lift fun _ => .bind .lift fun _ => .branch
    (.bind .lift fun _ => .bind (.inside (hp.assignment _)) fun _ => .bind .reading fun _ =>
      .bind .lift fun _ => .pure)
    (.bind (container_follows hp _ _ _ _) fun _ => .pure)

/-- The children of an element are read in the mode of text, which each round restores by hand. -/
theorem children_follows (hp : P.Follow p) (name : String) {rounds rounds' : Nat}
    (hr : rounds = rounds') :
    Follows (children P name rounds) ctx (Grammar.children p ctx name rounds') := by
  subst hr
  induction rounds with
  | zero => exact .lift
  | succ rounds ih =>
    refine .bind .lift fun t => ?_
    have other : Follows
        (if t.isPunctuator "\x7b" then do
          let child ← childContainer P
          let (rest, closing) ← children P name rounds
          return (child :: rest, closing)
        else if t.isPunctuator "<" then do
          let openLead ← leadThen .tag
          if ← sees "/" then return ([], t.start, openLead)
          let child : Tree .child ←
            match ← P.markup t.start openLead .text with
            | .element e => pure (.elementChild e)
            | .fragment f => pure (.fragmentChild f)
          let (rest, closing) ← children P name rounds
          return (child :: rest, closing)
        else unexpected t) ctx
        (if t.isPunctuator "\x7b" then do
          let child ← Grammar.childContainer p ctx
          let (rest, closing) ← Grammar.children p ctx name rounds
          return (child :: rest, closing)
        else if t.isPunctuator "<" then do
          let openLead ← leadThen .tag
          if ← sees "/" then return ([], t.start, openLead)
          let child : Tree .child ←
            match ← p.markup t.start openLead .text ctx with
            | .element e => pure (.elementChild e)
            | .fragment f => pure (.fragmentChild f)
          let (rest, closing) ← Grammar.children p ctx name rounds
          return (child :: rest, closing)
        else Parse.unexpected ctx t) := by
      refine .branch (.bind (childContainer_follows hp) fun _ => .bind ih fun _ => .pure)
        (.branch (.bind .lift fun _ => .bind .lift fun _ => .branch .pure ?_) .reading)
      refine .bind (hp.markup _ _ _ _) fun m => ?_
      cases m <;> exact .bind .pure fun _ => .bind ih fun _ => .pure
    cases t.kind
    case eof => exact .lift
    case markupText => exact .bind .lift fun _ => .bind .lift fun _ => .bind ih fun _ => .pure
    all_goals exact other

theorem fragment_follows (hp : P.Follow p) (start : Position) (openLead : String) (after : Mode) :
    Follows (fragment P start openLead after) ctx
      (Grammar.fragment p ctx start openLead after) :=
  .bind .reading fun _ => .bind (children_follows hp _ hp.rounds) fun _ => .bind .reading fun _ =>
    .bind .lift fun _ => .check (.bind .reading fun _ => .bind .lift fun _ => .pure) .lift

theorem closingTag_follows (hp : P.Follow p) (start : Position) (openLead opened : String)
    (after : Mode) :
    Follows (closingTag P start openLead opened after) ctx
      (Grammar.closingTag p ctx start openLead opened after) := by
  refine .bind .reading fun _ => .bind .lift fun _ => ?_
  rw [hp.rounds]
  exact .bind .reading fun _ => .check (.bind .reading fun _ => .bind .lift fun _ => .pure) .lift

theorem element_follows (hp : P.Follow p) (start : Position) (openLead : String) (after : Mode) :
    Follows (element P start openLead after) ctx (Grammar.element p ctx start openLead after) := by
  have name : Follows (reading (tagName · P.rounds)) ctx (tagName ctx p.rounds) := by
    rw [hp.rounds]
    exact .reading
  refine .bind name fun _ => .bind (.many (tagAttribute_follows hp) hp.rounds) fun _ =>
    .bind .lift fun _ => .branch ?_ ?_
  · exact .bind .lift fun _ => .bind .lift fun _ => .check (.bind .reading fun _ =>
      .bind .lift fun _ => .bind .lift fun _ => .pure) .reading
  · exact .bind .reading fun _ => .bind .lift fun _ => .bind
      (children_follows hp _ hp.rounds) fun _ =>
      .bind (closingTag_follows hp _ _ _ _) fun _ => .bind .lift fun _ => .pure

theorem markup_follows (hp : P.Follow p) (start : Position) (openLead : String) (after : Mode) :
    Follows (markup P start openLead after) ctx (Grammar.markup p start openLead after ctx) :=
  .deeper (.bind .lift fun _ => .branch (.map (fragment_follows hp _ _ _))
    (.map (element_follows hp _ _ _)))

theorem markupRoot_follows (hp : P.Follow p) :
    Follows (markupRoot P) ctx (Grammar.markupRoot p ctx) := by
  refine .bind .lift fun _ => .bind .lift fun _ => .bind .lift fun _ => .bind .lift fun _ =>
    .bind (hp.markup _ _ _ _) fun m => ?_
  cases m <;> exact .pure

/-! ## Arrays and objects -/

/-- An item of a list, or all values of an item behind dots. -/
def spreadOr (value : Held Expr) : Held Expr := do
  let t ← look
  if t.isPunctuator "..." then
    let dotsLead ← lead
    let operand ← value
    let span ← finish .spread t.start
    return .spread dotsLead operand span
  value

/-- One element of an array literal, or a hole. -/
def arrayRound (P : Productions) : Held (Round (Tree (.maybe .expr))) := do
  if ← sees "," then return .hole .absent (← separator)
  return .item (.present (← spreadOr P.cover))

/-- An array literal. -/
def arrayLiteral (P : Productions) : Held Expr := do
  let start ← here
  let openLead ← expect "["
  let (elements, separators) ← allowingIn true (listed "]" (arrayRound P) P.rounds)
  let closeLead ← expect "]"
  let span ← finish .array start
  return .array openLead (.ofList elements) separators closeLead span

/-- The value of a shorthand property. -/
def shorthandValue (P : Productions) (start : Position) (id : Ident) : Held Expr := do
  let t ← look
  if t.isPunctuator "=" then
    let eqLead ← lead
    markPending t.site
    let value ← P.assignment
    let span ← finish .assignment start
    return .assignment (.namePattern id) eqLead .assign value span
  return .identifier id

/-- A property, method or accessor of an object literal. -/
def property (P : Productions) : Held (Tree .member) := do
  let start ← here
  let (mods, kind) ← modifiers
  let first ← look
  let name ← key P false
  let isModified := mods.asyncLead.isSome || mods.accessorLead.isSome || mods.starLead.isSome
  let t ← look
  if isModified || t.isPunctuator "(" then
    let value ← methodFunction P mods.asyncLead.isSome mods.starLead.isSome kind
    let span ← finish .property start
    return .property mods name (.functionExpr value) kind (kind == .plain) false "" span
  if t.isPunctuator ":" then
    let colonLead ← lead
    let value ← P.cover
    let span ← finish .property start
    return .property mods name value kind false false colonLead span
  let id ← reading (shorthandName · first name)
  checkReference first
  let value ← shorthandValue P start id
  let span ← finish .property start
  return .property mods name value kind false true "" span

/-- A member of an object literal. -/
def objectMember (P : Productions) : Held (Tree .member) := do
  let t ← look
  if t.isPunctuator "..." then
    let dotsLead ← lead
    let operand ← P.cover
    let span ← finish .spread t.start
    return .spreadMember dotsLead operand span
  property P

/-- An object literal. -/
def objectLiteral (P : Productions) : Held Expr := do
  let start ← here
  let openLead ← expect "\x7b"
  let (members, separators) ←
    allowingIn true (listed "\x7d" (.item <$> objectMember P) P.rounds)
  let closeLead ← expect "\x7d"
  let span ← finish .object start
  return .object openLead (.ofList members) separators closeLead span

theorem spreadOr_follows {value : Held Expr} {value' : Parse Expr} (h : Follows value ctx value') :
    Follows (spreadOr value) ctx (Grammar.spreadOr value') :=
  .bind .lift fun _ => .branch
    (.bind .lift fun _ => .bind h fun _ => .bind .lift fun _ => .pure) h

theorem arrayLiteral_follows (hp : P.Follow p) :
    Follows (arrayLiteral P) ctx (Grammar.arrayLiteral p ctx) := by
  have round : Follows (arrayRound P) ctx.inside (Grammar.arrayRound p ctx.inside) :=
    .bind .lift fun _ => .branch (.bind .reading fun _ => .pure)
      (.bind (spreadOr_follows (hp.cover _)) fun _ => .pure)
  exact .bind .lift fun _ => .bind .reading fun _ => .bind
    (.inside (.listed round hp.rounds rfl)) fun _ =>
    .bind .reading fun _ => .bind .lift fun _ => .pure

theorem shorthandValue_follows (hp : P.Follow p) (start : Position) (id : Ident) :
    Follows (shorthandValue P start id) ctx (Grammar.shorthandValue p ctx start id) :=
  .bind .lift fun _ => .branch (.bind .lift fun _ => .bind .lift fun _ => .bind (hp.assignment _)
    fun _ => .bind .lift fun _ => .pure) .pure

theorem property_follows (hp : P.Follow p) :
    Follows (property P) ctx (Grammar.property p ctx) := by
  refine .bind .lift fun _ => .bind .lift fun _ => .bind .lift fun _ => .bind (key_follows hp _)
    fun _ => .bind .lift fun _ => .branch ?_ (.branch ?_ ?_)
  · exact .bind (methodFunction_follows hp _ _ _) fun _ => .bind .lift fun _ => .pure
  · exact .bind .lift fun _ => .bind (hp.cover _) fun _ => .bind .lift fun _ => .pure
  · exact .bind .reading fun _ => .bind .reading fun _ => .bind (shorthandValue_follows hp _ _)
      fun _ => .bind .lift fun _ => .pure

theorem objectMember_follows (hp : P.Follow p) :
    Follows (objectMember P) ctx (Grammar.objectMember p ctx) :=
  .bind .lift fun _ => .branch
    (.bind .lift fun _ => .bind (hp.cover _) fun _ => .bind .lift fun _ => .pure)
    (property_follows hp)

theorem objectLiteral_follows (hp : P.Follow p) :
    Follows (objectLiteral P) ctx (Grammar.objectLiteral p ctx) :=
  .bind .lift fun _ => .bind .reading fun _ =>
    .bind (.inside (.listed (.map (objectMember_follows hp)) hp.rounds rfl)) fun _ =>
      .bind .reading fun _ => .bind .lift fun _ => .pure

/-! ## Arguments and groups -/

/-- Arguments in parentheses. -/
def argumentList (P : Productions) : Held (Tree .arguments) := do
  let openLead ← expect "("
  let (args, separators) ←
    allowingIn true (listed ")" (.item <$> spreadOr P.assignment) P.rounds)
  let closeLead ← expect ")"
  return .argumentList openLead (.ofList args) separators closeLead

/-- An item of a group. -/
def groupItem (P : Productions) : Held GroupItem := do
  let start ← here
  let value ← spreadOr P.cover
  return { value, start, stop := ← lastEnd }

/-- Reads a group. -/
def readGroup (P : Productions) : Held Group := do
  let openLead ← expect "("
  let (items, separators) ← allowingIn true (listed ")" (.item <$> groupItem P) P.rounds)
  let closeLead ← expect ")"
  return { openLead, items, separators, closeLead }

/-- A group in parentheses. -/
def group (P : Productions) : Held Expr := do
  let start ← here
  let g ← readGroup P
  if ← sees "=>" then return g.unresolved none (← extent start)
  reading (parenthesized · start g)

theorem argumentList_follows (hp : P.Follow p) :
    Follows (argumentList P) ctx (Grammar.argumentList p ctx) :=
  .bind .reading fun _ =>
    .bind (.inside (.listed (.map (spreadOr_follows (hp.assignment _))) hp.rounds rfl)) fun _ =>
      .bind .reading fun _ => .pure

theorem readGroup_follows (hp : P.Follow p) :
    Follows (readGroup P) ctx (Grammar.readGroup p ctx) := by
  have item : Follows (groupItem P) ctx.inside (Grammar.groupItem p ctx.inside) :=
    .bind .lift fun _ => .bind (spreadOr_follows (hp.cover _)) fun _ => .bind .lift fun _ => .pure
  exact .bind .reading fun _ => .bind (.inside (.listed (.map item) hp.rounds rfl)) fun _ =>
    .bind .reading fun _ => .pure

theorem group_follows (hp : P.Follow p) : Follows (group P) ctx (Grammar.group p ctx) :=
  .bind .lift fun _ => .bind (readGroup_follows hp) fun _ => .bind .lift fun _ =>
    .branch (.bind .lift fun _ => .pure) .reading

/-! ## Operands -/

/-- A name, or an asynchronous function. -/
def nameOperand (P : Productions) : Held Expr := do
  let isFunction ←
    if ← seesWord "async" then
      let t ← peek
      pure (t.isKeyword "function" && !t.newlineBefore)
    else pure false
  if isFunction then functionExpression P
  else
    let t ← next
    checkReference t
    return .identifier (← finishName t)

/-- An operand that starts with a punctuator. -/
def punctuatedOperand (P : Productions) (t : Token) : Held Expr := do
  match t.raw with
  | "(" => group P
  | "[" => arrayLiteral P
  | "\x7b" => objectLiteral P
  | "/" | "/=" =>
    rescanRegex
    return .literal (← literal)
  | "<" =>
    if (← context).allowsMarkup then markupRoot P else fail .markup .markupDisabled t.site
  | _ => unexpected t

/-- An operand that starts with a reserved word. -/
def keywordOperand (P : Productions) (t : Token) : Held Expr := do
  match t.raw with
  | "this" =>
    let thisLead ← lead
    let span ← finish .receiver t.start
    return .receiver thisLead span
  | "function" => functionExpression P
  | "class" => .classExpr <$> classDefinition P false false
  | _ => unexpected t

/-- An expression without operators, calls and accesses. -/
def operand (P : Productions) : Held Expr := do
  let t ← look
  match t.kind with
  | .identifier => nameOperand P
  | .numeric | .bigint | .string | .boolean | .null => .literal <$> literal
  | .template =>
    if t.isTemplateHead then .template <$> template P false else unexpected t
  | .punctuator => punctuatedOperand P t
  | .keyword => keywordOperand P t
  | _ => unexpected t

theorem nameOperand_follows (hp : P.Follow p) :
    Follows (nameOperand P) ctx (Grammar.nameOperand p ctx) := by
  refine .bind .lift fun _ => .branch (.bind .lift fun _ => .bind .pure ?_) (.bind .pure ?_)
  all_goals
    exact fun _ => .branch (functionExpression_follows hp)
      (.bind .lift fun _ => .bind .reading fun _ => .bind .lift fun _ => .pure)

/-- Groups, arrays, objects, templates and elements follow the faithful productions. -/
theorem punctuatedOperand_follows (hp : P.Follow p) (t : Token) :
    Follows (punctuatedOperand P t) ctx (Grammar.punctuatedOperand p ctx t) := by
  unfold Grammar.punctuatedOperand
  split
  case h_1 h => simpa only [punctuatedOperand, h] using group_follows hp
  case h_2 h => simpa only [punctuatedOperand, h] using arrayLiteral_follows hp
  case h_3 h => simpa only [punctuatedOperand, h] using objectLiteral_follows hp
  case h_6 h =>
    simp only [punctuatedOperand, h]
    exact .read (.branch (markupRoot_follows hp) .lift)
  case h_7 =>
    unfold punctuatedOperand
    split
    case h_7 => exact .reading
    all_goals contradiction
  all_goals
    rename_i h
    simp only [punctuatedOperand, h]
    exact .bind .lift fun _ => .bind .reading fun _ => .pure

/-- Operands that start with a reserved word follow the faithful productions. -/
theorem keywordOperand_follows (hp : P.Follow p) (t : Token) :
    Follows (keywordOperand P t) ctx (Grammar.keywordOperand p ctx t) := by
  unfold Grammar.keywordOperand
  split
  case h_1 h =>
    simp only [keywordOperand, h]
    exact .bind .lift fun _ => .bind .lift fun _ => .pure
  case h_2 h => simpa only [keywordOperand, h] using functionExpression_follows hp
  case h_3 h =>
    simp only [keywordOperand, h]
    exact .map (classDefinition_follows hp _ _)
  case h_4 =>
    unfold keywordOperand
    split
    case h_4 => exact .reading
    all_goals contradiction

theorem operand_follows (hp : P.Follow p) : Follows (operand P) ctx (Grammar.operand p ctx) := by
  refine .bind .lift fun t => ?_
  cases t.kind
  case identifier => exact nameOperand_follows hp
  case template => exact .branch (.map (template_follows hp _)) .reading
  case punctuator => exact punctuatedOperand_follows hp t
  case keyword => exact keywordOperand_follows hp t
  case numeric | bigint | string | boolean | null => exact .map .reading
  all_goals exact .reading

/-! ## Chains -/

/-- An expression in brackets. -/
def accessIndex (P : Productions) : Held (Tree .access) := do
  let openLead ← expect "["
  let inner ← allowingIn true P.expression
  let closeLead ← expect "]"
  return .computedAccess openLead inner closeLead

/-- A template behind the function that interprets it. -/
def taggedTemplate (P : Productions) (start : Position) (tag : Expr) : Held Expr := do
  let quasi ← template P true
  let span ← finish .taggedTemplate start
  return .tagged tag quasi span

/-- What follows the mark of an optional link. -/
def optionalLink (P : Productions) (start : Position) (base : Expr) : Held Expr := do
  let optionalLead ← lead
  let t ← look
  if t.isPunctuator "(" then
    finishCall start base true optionalLead (← argumentList P)
  else if t.isPunctuator "[" then
    finishAccess start base true optionalLead (← accessIndex P)
  else if t.kind = .template then reject .optionalChainTemplate t.site
  else finishAccess start base true optionalLead (← reading accessName)

/-- A link by a dot, a bracket or an argument list, if the lookahead is one. -/
def plainLink (P : Productions) (start : Position) (base : Expr) : Held (Option Expr) := do
  let t ← look
  if t.isPunctuator "." then
    let dotLead ← lead
    some <$> finishAccess start base false dotLead (← reading accessName)
  else if t.isPunctuator "[" then
    some <$> finishAccess start base false "" (← accessIndex P)
  else if t.isPunctuator "(" then
    some <$> finishCall start base false "" (← argumentList P)
  else return none

/-- One further link of a chain, if there is one. -/
def chainLink (P : Productions) (start : Position) (c : Chain) : Held (Option Chain) := do
  let t ← look
  if t.isPunctuator "?." then
    return some { value := ← optionalLink P start c.value, isOptional := true }
  if t.isTemplateHead then
    if c.isOptional then reject .optionalChainTemplate t.site
    return some { c with value := ← taggedTemplate P start c.value }
  return (← plainLink P start c.value).map ({ c with value := · })

/-- The creation of an object, or the target of a constructor. -/
def construct (P : Productions) : Held Expr := do
  let t ← next
  if ← sees "." then
    reading fun ctx => metaProperty ctx t "target" do
      if !ctx.inFunction then tolerate .misplacedNewTarget t.site
  else
    if ← seesKeyword "import" then unexpectedHere
    let base ← P.callee
    if base.isCover then unexpectedHere
    let args : Tree (.maybe .arguments) ←
      if ← sees "(" then .present <$> argumentList P else pure .absent
    let span ← finish .construct t.start
    return .construct t.lead base args span

/-- An import by a call, or the record of the module. -/
def importExpression (P : Productions) : Held Expr := do
  let t ← next
  if ← sees "." then
    reading fun ctx => metaProperty ctx t "meta" do
      if !ctx.isModule then reject .misplacedImportMeta t.site
  else
    let openLead ← expect "("
    let source ← allowingIn true P.assignment
    let closeLead ← expect ")"
    let span ← finish .importCall t.start
    return .importCall t.lead openLead source closeLead span

/-- A call of `async`, or the parameters of an asynchronous arrow function. -/
def asyncCall (P : Productions) (start : Position) (name : Ident) : Held Expr := do
  let pendingBefore ← pending
  setPending none
  let g ← readGroup P
  let t ← look
  if t.isPunctuator "=>" && !t.newlineBefore then
    setPending pendingBefore
    return g.unresolved (some name.lead) (← extent start)
  rejectPending
  setPending pendingBefore
  let args : Tree .arguments :=
    .argumentList g.openLead (.ofList g.values) g.separators g.closeLead
  let value ← finishCall start (.identifier name) false "" args
  iterate (plainLink P start) P.rounds value

/-- The beginning of a chain. -/
def chainHead (P : Productions) : Held Expr := do
  let t ← look
  if t.isKeyword "super" then reading superclass
  else if t.isKeyword "new" then construct P
  else if t.isKeyword "import" then importExpression P
  else operand P

/-- An operand with accesses and calls. -/
def chain (P : Productions) : Held Expr := do
  let first ← look
  let value ← chainHead P
  match ← asyncCallee first value with
  | some name => asyncCall P first.start name
  | none => return (← iterate (chainLink P first.start) P.rounds { value }).value

/-- One further access of a callee, if there is one. -/
def calleeLink (P : Productions) (start : Position) (base : Expr) : Held (Option Expr) := do
  let t ← look
  if t.isPunctuator "?." then unexpected t
  if t.isTemplateHead then some <$> taggedTemplate P start base
  else if t.isPunctuator "(" then return none
  else plainLink P start base

/-- An operand with accesses only. -/
def callee (P : Productions) : Held Expr := do
  let t ← look
  let value ←
    if t.isKeyword "new" then construct P
    else if t.isKeyword "super" then reading superclass
    else operand P
  iterate (calleeLink P t.start) P.rounds value

theorem accessIndex_follows (hp : P.Follow p) :
    Follows (accessIndex P) ctx (Grammar.accessIndex p ctx) :=
  .bind .reading fun _ => .bind (.inside (hp.expression _)) fun _ => .bind .reading fun _ => .pure

theorem taggedTemplate_follows (hp : P.Follow p) (start : Position) (tag : Expr) :
    Follows (taggedTemplate P start tag) ctx (Grammar.taggedTemplate p ctx start tag) :=
  .bind (template_follows hp _) fun _ => .bind .lift fun _ => .pure

theorem optionalLink_follows (hp : P.Follow p) (start : Position) (base : Expr) :
    Follows (optionalLink P start base) ctx (Grammar.optionalLink p ctx start base) :=
  .bind .lift fun _ => .bind .lift fun _ => .branch (.bind (argumentList_follows hp) fun _ => .lift)
    (.branch (.bind (accessIndex_follows hp) fun _ => .lift)
      (.branch .lift (.bind .reading fun _ => .lift)))

theorem plainLink_follows (hp : P.Follow p) (start : Position) (base : Expr) :
    Follows (plainLink P start base) ctx (Grammar.plainLink p ctx start base) :=
  .bind .lift fun _ => .branch (.bind .lift fun _ => .bind .reading fun _ => .map .lift)
    (.branch (.bind (accessIndex_follows hp) fun _ => .map .lift)
      (.branch (.bind (argumentList_follows hp) fun _ => .map .lift) .pure))

theorem chainLink_follows (hp : P.Follow p) (start : Position) (c : Chain) :
    Follows (chainLink P start c) ctx (Grammar.chainLink p ctx start c) :=
  .bind .lift fun _ => .branch (.bind (optionalLink_follows hp _ _) fun _ => .pure)
    (.branch (.check (.bind (taggedTemplate_follows hp _ _) fun _ => .pure) .lift)
      (.bind (plainLink_follows hp _ _) fun _ => .pure))

theorem construct_follows (hp : P.Follow p) : Follows (construct P) ctx
    (Grammar.construct p ctx) := by
  refine .bind .lift fun _ => .bind .lift fun _ => .branch .reading (.bind .lift fun _ => .check ?_
    .reading)
  refine .bind (hp.callee _) fun _ => .check ?_ .reading
  exact .bind .lift fun _ => .choice (fun _ => .bind .lift fun _ => .pure)
    (.map (argumentList_follows hp)) .pure

theorem importExpression_follows (hp : P.Follow p) :
    Follows (importExpression P) ctx (Grammar.importExpression p ctx) :=
  .bind .lift fun _ => .bind .lift fun _ => .branch .reading (.bind .reading fun _ =>
    .bind (.inside (hp.assignment _)) fun _ => .bind .reading fun _ => .bind .lift fun _ => .pure)

theorem asyncCall_follows (hp : P.Follow p) (start : Position) (name : Ident) :
    Follows (asyncCall P start name) ctx (Grammar.asyncCall p ctx start name) := by
  refine .bind .lift fun _ => .bind .lift fun _ => .bind (readGroup_follows hp) fun _ =>
    .bind .lift fun _ => .branch ?_ ?_
  · exact .bind .lift fun _ => .bind .lift fun _ => .pure
  · exact .bind .lift fun _ => .bind .lift fun _ => .bind .lift fun _ =>
      .iterate (fun _ => plainLink_follows hp _ _) hp.rounds

theorem chainHead_follows (hp : P.Follow p) : Follows (chainHead P) ctx (Grammar.chainHead p ctx) :=
  .bind .lift fun _ => .branch .reading (.branch (construct_follows hp)
    (.branch (importExpression_follows hp) (operand_follows hp)))

theorem chain_follows (hp : P.Follow p) : Follows (chain P) ctx (Grammar.chain p ctx) := by
  refine .bind .lift fun _ => .bind (chainHead_follows hp) fun _ => .bind .lift fun name => ?_
  cases name with
  | some => exact asyncCall_follows hp _ _
  | none => exact .bind (.iterate (fun _ => chainLink_follows hp _ _) hp.rounds) fun _ => .pure

theorem calleeLink_follows (hp : P.Follow p) (start : Position) (base : Expr) :
    Follows (calleeLink P start base) ctx (Grammar.calleeLink p ctx start base) :=
  .bind .lift fun _ => .check (.branch (.map (taggedTemplate_follows hp _ _))
    (.branch .pure (plainLink_follows hp _ _))) .reading

theorem callee_follows (hp : P.Follow p) : Follows (callee P) ctx (Grammar.callee p ctx) := by
  refine .bind .lift fun _ => .branch (.bind (construct_follows hp) fun _ => ?_)
    (.branch (.bind .reading fun _ => ?_) (.bind (operand_follows hp) fun _ => ?_))
  all_goals exact .iterate (fun _ => calleeLink_follows hp _ _) hp.rounds

/-- Fails on a group that is still to be resolved. -/
def rejectCover (e : Expr) : Held Unit := reading (Grammar.rejectCover · e)

/-! ## Unary operators -/

/-- An operator and its operand; the lookahead is the operator. -/
def unaryOperation (P : Productions) (op : UnaryOp) : Held Expr := do
  let t ← next
  let operand ← P.unary
  rejectCover operand
  match op, operand with
  | .delete, .identifier _ => if (← context).strict then tolerate .strictDelete t.site
  | _, _ => pure ()
  let span ← finish .unary t.start
  return .unary t.lead op operand span

/-- A value that is waited for; the lookahead is the operator. -/
def awaitOperation (P : Productions) : Held Expr := do
  if (← context).inParameters then reject .awaitInParameter (← look).site
  let t ← next
  let operand ← P.unary
  rejectCover operand
  let span ← finish .await t.start
  return .await t.lead operand span

/-- A step in front of its operand; the lookahead is the operator. -/
def updateBefore (P : Productions) (op : UpdateOp) : Held Expr := do
  let t ← next
  let first ← look
  let operand ← P.unary
  reading (checkUpdateTarget · operand first .strictPreUpdate)
  let span ← finish .update t.start
  return .update op true t.lead operand span

/-- A chain, with a step behind it if one stands on the same line. -/
def updateAfter (P : Productions) : Held Expr := do
  let first ← look
  let value ← chain P
  let t ← look
  match updateOp? t with
  | none => return value
  | some op =>
    if t.newlineBefore then return value
    reading (checkUpdateTarget · value first .strictPostUpdate)
    let opLead ← lead
    let span ← finish .update first.start
    return .update op false opLead value span

/-- Unary operators and steps. -/
def unary (P : Productions) : Held Expr := do
  let t ← look
  match unaryOp? t with
  | some op => unaryOperation P op
  | none =>
    if isAwait (← context) t then awaitOperation P
    else match updateOp? t with
      | some op => updateBefore P op
      | none => updateAfter P

theorem unaryOperation_follows (hp : P.Follow p) (op : UnaryOp) :
    Follows (unaryOperation P op) ctx (Grammar.unaryOperation p ctx op) := by
  refine .bind .lift fun _ => .bind (hp.unary _) fun operand => .bind .reading fun _ => ?_
  cases op
  case delete =>
    cases operand
    case identifier => exact .read (.check (.bind .lift fun _ => .pure) .lift)
    all_goals exact .bind .lift fun _ => .pure
  all_goals exact .bind .lift fun _ => .pure

theorem awaitOperation_follows (hp : P.Follow p) :
    Follows (awaitOperation P) ctx (Grammar.awaitOperation p ctx) := by
  refine .read (.branch (.bind .lift fun _ => .bind .lift fun _ => ?_) ?_)
  all_goals
    exact .bind .lift fun _ => .bind (hp.unary _) fun _ => .bind .reading fun _ =>
      .bind .lift fun _ => .pure

theorem updateBefore_follows (hp : P.Follow p) (op : UpdateOp) :
    Follows (updateBefore P op) ctx (Grammar.updateBefore p ctx op) :=
  .bind .lift fun _ => .bind .lift fun _ => .bind (hp.unary _) fun _ => .bind .reading fun _ =>
    .bind .lift fun _ => .pure

theorem updateAfter_follows (hp : P.Follow p) :
    Follows (updateAfter P) ctx (Grammar.updateAfter p ctx) := by
  refine .bind .lift fun _ => .bind (chain_follows hp) fun _ => .bind .lift fun t => ?_
  cases updateOp? t with
  | none => exact .pure
  | some =>
    exact .branch .pure (.bind .reading fun _ => .bind .lift fun _ => .bind .lift fun _ => .pure)

theorem unary_follows (hp : P.Follow p) : Follows (unary P) ctx (Grammar.unary p ctx) := by
  refine .bind .lift fun t => ?_
  cases unaryOp? t with
  | some => exact unaryOperation_follows hp _
  | none =>
    refine .read (.branch (awaitOperation_follows hp) ?_)
    cases updateOp? t with
    | some => exact updateBefore_follows hp _
    | none => exact updateAfter_follows hp

/-! ## Binary operators -/

/-- Exponentiation, whose left operand has no unary operator. -/
def exponentiation (P : Productions) : Held Expr := do
  let first ← look
  let base ← unary P
  let t ← look
  if !t.isPunctuator "**" then return base
  if (unaryOp? first).isSome || isAwait (← context) first then reject .unaryBeforeExponent t.site
  rejectCover base
  let opLead ← lead
  let power ← P.exponentiation
  rejectCover power
  let span ← finish .binary first.start
  return .binary base opLead .exponent power span

/-- The next operator of at least the given precedence with its right operand, if there is one. -/
def binaryStep (P : Productions) (start : Position) (least : Nat) (left : Expr) :
    Held (Option Expr) := do
  let t ← look
  match binaryOp? (← context) t with
  | none => return none
  | some op =>
    if op.precedence < least then return none
    rejectCover left
    let opLead ← lead
    let right ← P.binary (op.precedence + 1)
    rejectCover right
    if mixesCoalescing op left right then reject .mixedCoalescing t.site
    let span ← finish (if op.isLogical then .logical else .binary) start
    return some (.binary left opLead op right span)

/-- Binary operators of at least the given precedence. -/
def binary (P : Productions) (least : Nat) : Held Expr := do
  let start ← here
  let first ← exponentiation P
  iterate (binaryStep P start least) P.rounds first

/-- A binary operation, or a choice between two values. -/
def conditional (P : Productions) : Held Expr := do
  let start ← here
  let test ← binary P 0
  if !(← sees "?") then return test
  rejectCover test
  let questionLead ← lead
  let consequent ← allowingIn true P.assignment
  let colonLead ← expect ":"
  let alternate ← P.assignment
  let span ← finish .conditional start
  return .conditional test questionLead consequent colonLead alternate span

theorem exponentiation_follows (hp : P.Follow p) :
    Follows (exponentiation P) ctx (Grammar.exponentiation p ctx) := by
  refine .bind .lift fun _ => .bind (unary_follows hp) fun _ => .bind .lift fun _ => .branch .pure
    (.read (.check ?_ .lift))
  exact .bind .reading fun _ => .bind .lift fun _ => .bind (hp.exponentiation _) fun _ =>
    .bind .reading fun _ => .bind .lift fun _ => .pure

theorem binaryStep_follows (hp : P.Follow p) (start : Position) (least : Nat) (left : Expr) :
    Follows (binaryStep P start least left) ctx (Grammar.binaryStep p ctx start least left) := by
  refine .bind .lift fun t => .read ?_
  cases binaryOp? ctx t with
  | none => exact .pure
  | some =>
    exact .branch .pure (.bind .reading fun _ => .bind .lift fun _ => .bind (hp.binary _ _) fun _ =>
      .bind .reading fun _ => .check (.bind .lift fun _ => .pure) .lift)

theorem binary_follows (hp : P.Follow p) (least : Nat) :
    Follows (binary P least) ctx (Grammar.binary p least ctx) :=
  .bind .lift fun _ => .bind (exponentiation_follows hp) fun _ =>
    .iterate (fun _ => binaryStep_follows hp _ _ _) hp.rounds

theorem conditional_follows (hp : P.Follow p) :
    Follows (conditional P) ctx (Grammar.conditional p ctx) :=
  .bind .lift fun _ => .bind (binary_follows hp _) fun _ => .bind .lift fun _ => .branch .pure
    (.bind .reading fun _ => .bind .lift fun _ => .bind (.inside (hp.assignment _)) fun _ =>
      .bind .reading fun _ => .bind (hp.assignment _) fun _ => .bind .lift fun _ => .pure)

/-! ## Arrow functions -/

/-- The body of an arrow function, together with whether its code is strict. -/
def arrowBody (P : Productions) : Held (Tree .arrowBody × Bool) := do
  if ← sees "\x7b" then
    let body ← functionBody P
    return (.blockBody body, (← context).strict)
  return (.exprBody (← P.assignment), (← context).strict)

/-- An arrow function behind its parameters. -/
def arrow (P : Productions) (start : Position) (asyncLead : Option String)
    (params : Tree .arrowParams) (site : Site) : Held Expr := do
  let arrowLead ← expect "=>"
  let pendingBefore ← pending
  setPending none
  let (body, strict) ← within (·.arrowBody asyncLead.isSome) (arrowBody P)
  setPending pendingBefore
  let patterns := arrowPatterns params
  if arrowHasUseStrict body && !patterns.all (·.isName) then reject .illegalUseStrict site
  checkParameters strict true site patterns
  let span ← finish .arrow start
  return .arrow asyncLead.isSome (asyncLead.getD "") params arrowLead body span

/-- An arrow function with one parameter without parentheses. -/
def bareArrow (P : Productions) (start : Position) (asyncLead : Option String) (id : Ident)
    (t : Token) : Held Expr := do
  if asyncLead.isSome && id.name == "await" then unexpected t
  if (← context).strict && Text.isRestricted id.name then tolerate .strictParameterName t.site
  arrow P start asyncLead (.bareParam id) t.site

/-- An arrow function behind its parameters in parentheses. -/
def groupArrow (P : Productions) (start : Position) (asyncLead : Option String) (openLead : String)
    (items : List Expr) (separators : List String) (closeLead : String) : Held Expr := do
  let site := start.site
  let patterns ← reading (groupParameters · site (separators.length ≥ items.length) items)
  if asyncLead.isSome && (patterns.flatMap (·.boundNames)).any (·.name == "await") then
    reject (.unexpectedToken "await") site
  let params : Tree .params := .paramList openLead (.ofList patterns) separators closeLead
  arrow P start asyncLead (.listedParams params) site

/-- An asynchronous arrow function with one parameter without parentheses. -/
def asyncBareArrow (P : Productions) : Held Expr := do
  let start ← here
  let asyncLead ← lead
  let t ← next
  let id ← finishName t
  let after ← look
  if !after.isPunctuator "=>" || after.newlineBefore then unexpected after
  bareArrow P start (some asyncLead) id t

theorem arrowBody_does (hp : P.Follow p) :
    Does (arrowBody P) ctx (Grammar.arrowBody p ctx) fun v v' _ => v' = v := by
  refine Follows.lift.thenDoes fun _ => .branch (fun _ => .bind (functionBody_does hp) ?_) fun _ =>
    (hp.assignment _).thenDoes fun _ => .read (.pure rfl)
  rintro r _ _ ⟨rfl, rfl⟩
  exact .read (.pure rfl)

theorem arrow_follows (hp : P.Follow p) (start : Position) (asyncLead : Option String)
    (params : Tree .arrowParams) (site : Site) :
    Follows (arrow P start asyncLead params site) ctx
      (Grammar.arrow p ctx start asyncLead params site) :=
  .bind .reading fun _ => .bind .lift fun _ => .bind .lift fun _ =>
    .bind (.within (arrowBody_does hp)) fun _ => .bind .lift fun _ => .check (.bind .lift fun _ =>
      .bind .lift fun _ => .pure) .lift

theorem bareArrow_follows (hp : P.Follow p) (start : Position) (asyncLead : Option String)
    (id : Ident) (t : Token) :
    Follows (bareArrow P start asyncLead id t) ctx
      (Grammar.bareArrow p ctx start asyncLead id t) := by
  unfold bareArrow Grammar.bareArrow
  exact .check (.read (.check (arrow_follows hp _ _ _ _) .lift)) .reading

theorem groupArrow_follows (hp : P.Follow p) (start : Position) (asyncLead : Option String)
    (openLead : String) (items : List Expr) (separators : List String) (closeLead : String) :
    Follows (groupArrow P start asyncLead openLead items separators closeLead) ctx
      (Grammar.groupArrow p ctx start asyncLead openLead items separators closeLead) :=
  .bind .reading fun _ => .check (arrow_follows hp _ _ _ _) .lift

theorem asyncBareArrow_follows (hp : P.Follow p) :
    Follows (asyncBareArrow P) ctx (Grammar.asyncBareArrow p ctx) :=
  .bind .lift fun _ => .bind .lift fun _ => .bind .lift fun _ => .bind .lift fun _ =>
    .bind .lift fun _ => .check (bareArrow_follows hp _ _ _ _) .reading

/-! ## Assignments -/

/-- A value handed to the consumer of a generator; the lookahead is `yield`. -/
def yieldExpression (P : Productions) : Held Expr := do
  if (← context).inParameters then reject .yieldInParameter (← look).site
  let t ← next
  let first ← look
  let (starLead, operand) : Option String × Tree (.maybe .expr) ←
    if first.newlineBefore then pure (none, .absent)
    else if first.isPunctuator "*" then
      let starLead ← lead
      pure (some starLead, .present (← P.assignment))
    else if startsYieldOperand first then pure (none, .present (← P.assignment))
    else pure (none, .absent)
  let span ← finish .yield t.start
  return .yield t.lead starLead operand span

/-- An assignment behind its left side. -/
def assignTo (P : Productions) (first : Token) (left : Expr) (op : AssignOp)
    (pendingBefore : Option Site) : Held Expr := do
  let target ←
    if op = .assign then reading (assignmentTarget · left first .invalidAssignmentTarget)
    else reading (simpleTarget · left first .invalidAssignmentTarget)
  setPending pendingBefore
  let opLead ← lead
  let value ← P.assignment
  let span ← finish .assignment first.start
  return .assignment target opLead op value span

/-- An arrow function if the lookahead is an arrow and the expression in front of it can be
parameters. -/
def arrowAfter? (P : Productions) (first : Token) (value : Expr) (pendingBefore : Option Site) :
    Held (Option Expr) := do
  let t ← look
  if !t.isPunctuator "=>" then return none
  match value with
  | .cover asyncLead openLead items separators closeLead _ =>
    if t.newlineBefore then unexpected t
    setPending pendingBefore
    some <$> groupArrow P first.start asyncLead openLead items.toList separators closeLead
  | .identifier id =>
    if t.newlineBefore then unexpected t
    setPending pendingBefore
    some <$> bareArrow P first.start none id first
  | _ => return none

/-- An expression that begins with a conditional one. -/
def plainCover (P : Productions) : Held Expr := do
  let first ← look
  let pendingBefore ← pending
  setPending none
  let value ← conditional P
  match ← arrowAfter? P first value pendingBefore with
  | some value => return value
  | none =>
    match assignOp? (← look) with
    | some op => assignTo P first value op pendingBefore
    | none => settle value pendingBefore

/-- An expression without commas that may turn out to be a pattern. -/
def cover (P : Productions) : Held Expr := do
  let t ← look
  if (← context).allowsYield && t.isWord "yield" then yieldExpression P
  else if ← seesAsyncBareArrow then asyncBareArrow P
  else plainCover P

/-- An expression without commas, in which no shorthand property has a default. -/
def assignment (P : Productions) : Held Expr := do
  let pendingBefore ← pending
  setPending none
  let value ← cover P
  rejectPending
  setPending pendingBefore
  return value

/-- The expressions behind commas, if there are any, with a first expression in front. -/
def sequenceFrom (P : Productions) (start : Position) (first : Expr) : Held Expr := do
  if !(← sees ",") then return first
  let (rest, separators) ← afterCommas P.assignment P.rounds
  let span ← finish .sequence start
  return .sequence (.ofList (first :: rest)) separators span

/-- An expression, with commas. -/
def expression (P : Productions) : Held Expr := do
  let start ← here
  let first ← assignment P
  sequenceFrom P start first

theorem yieldExpression_follows (hp : P.Follow p) :
    Follows (yieldExpression P) ctx (Grammar.yieldExpression p ctx) := by
  refine .read (.branch (.bind .lift fun _ => .bind .lift fun _ => ?_) ?_)
  all_goals
    refine .bind .lift fun _ => .bind .lift fun _ => .branch (.bind .pure ?_) (.branch
      (.bind .lift fun _ => .bind (hp.assignment _) fun _ => .bind .pure ?_)
      (.branch (.bind (hp.assignment _) fun _ => .bind .pure ?_) (.bind .pure ?_)))
    all_goals exact fun _ => .bind .lift fun _ => .pure

theorem assignTo_follows (hp : P.Follow p) (first : Token) (left : Expr) (op : AssignOp)
    (pendingBefore : Option Site) :
    Follows (assignTo P first left op pendingBefore) ctx
      (Grammar.assignTo p ctx first left op pendingBefore) :=
  .choice (fun _ => .bind .lift fun _ => .bind .lift fun _ => .bind (hp.assignment _) fun _ =>
    .bind .lift fun _ => .pure) .reading .reading

theorem arrowAfter?_follows (hp : P.Follow p) (first : Token) (value : Expr)
    (pendingBefore : Option Site) :
    Follows (arrowAfter? P first value pendingBefore) ctx
      (Grammar.arrowAfter? p ctx first value pendingBefore) := by
  refine .bind .lift fun _ => .branch .pure ?_
  cases value
  case cover =>
    exact .check (.bind .lift fun _ => .map (groupArrow_follows hp _ _ _ _ _ _)) .reading
  case identifier => exact .check (.bind .lift fun _ =>
    .map (bareArrow_follows hp _ _ _ _)) .reading
  all_goals exact .pure

theorem plainCover_follows (hp : P.Follow p) :
    Follows (plainCover P) ctx (Grammar.plainCover p ctx) := by
  refine .bind .lift fun _ => .bind .lift fun _ => .bind .lift fun _ =>
    .bind (conditional_follows hp) fun _ => .bind (arrowAfter?_follows hp _ _ _) fun result => ?_
  cases result with
  | some => exact .pure
  | none =>
    refine .bind .lift fun t => ?_
    cases assignOp? t with
    | some => exact assignTo_follows hp _ _ _ _
    | none => exact .lift

theorem cover_follows (hp : P.Follow p) : Follows (cover P) ctx (Grammar.cover p ctx) :=
  .bind .lift fun _ => .read (.branch (yieldExpression_follows hp) (.bind .lift fun _ =>
    .branch (asyncBareArrow_follows hp) (plainCover_follows hp)))

theorem assignment_follows (hp : P.Follow p) :
    Follows (assignment P) ctx (Grammar.assignment p ctx) :=
  .bind .lift fun _ => .bind .lift fun _ => .bind (cover_follows hp) fun _ => .bind .lift fun _ =>
    .bind .lift fun _ => .pure

/-- The context in which a first expression was read does not matter. -/
theorem sequenceFrom_follows (hp : P.Follow p) (start : Position) (first : Expr) :
    Follows (sequenceFrom P start first) ctx (Grammar.sequenceFrom p ctx start first) :=
  .bind .lift fun _ => .branch .pure (.bind (.afterCommas (hp.assignment _) hp.rounds) fun _ =>
    .bind .lift fun _ => .pure)

theorem expression_follows (hp : P.Follow p) :
    Follows (expression P) ctx (Grammar.expression p ctx) :=
  .bind .lift fun _ => .bind (assignment_follows hp) fun _ => sequenceFrom_follows hp _ _

end Verbatim.Held
