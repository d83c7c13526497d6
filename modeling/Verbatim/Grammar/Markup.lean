import Verbatim.Grammar.Literal

/-!
# Markup

Elements and fragments. Tags, the text between them and the code in braces have different tokens.
Since one token of lookahead is held, the mode is changed just before the token in front of a new
region is consumed: the `>` of an opening tag is followed by text, a `{` by code, and the `}` that
closes the code by what there was before.

## Main definitions

* `Verbatim.Grammar.markupRoot` — markup as an operand.
* `Verbatim.Grammar.markup` — markup behind its first angle bracket.
-/

namespace Verbatim.Grammar

open Verbatim.Parse

/-- Takes a punctuator behind which another mode holds. -/
def expectThen (ctx : Context) (spelling : String) (after : Mode) : Parse String := do
  setMode after
  expect ctx spelling

/-- Consumes the lookahead, behind which another mode holds, and keeps its trivia. -/
def leadThen (after : Mode) : Parse String := do
  setMode after
  lead

/-! ## Names -/

/-- One name or part of a name. -/
def tagIdent (ctx : Context) : Parse TagIdent := do
  if (← look).kind ≠ .tagName then unexpectedHere ctx
  let t ← next
  let span ← finish .tagIdent t.start
  return { lead := t.lead, name := t.raw, span }

/-- A name within a namespace, behind the namespace. -/
def namespacedName (ctx : Context) (start : Position) (space : TagIdent) :
    Parse NamespacedName := do
  let colonLead ← expect ctx ":"
  let name ← tagIdent ctx
  let span ← finish .namespacedName start
  return { space, colonLead, name, span }

/-- A further member of a name, if there is one. -/
def tagMember (ctx : Context) (start : Position) (name : TagName) : Parse (Option TagName) := do
  match ← accept "." with
  | none => return none
  | some dotLead =>
    let property ← tagIdent ctx
    let span ← finish .tagMember start
    return some (.member name dotLead property span)

/-- The name of an element. -/
def tagName (ctx : Context) (rounds : Nat) : Parse TagName := do
  let start ← here
  let first ← tagIdent ctx
  if ← sees ":" then return .namespaced (← namespacedName ctx start first)
  iterate (tagMember ctx start) rounds (.plain first)

/-! ## Code in braces -/

/-- The rest of an expression in braces, behind the opening brace. -/
def container (p : Productions) (ctx : Context) (start : Position) (openLead : String)
    (after : Mode) (allowsEmpty : Bool) : Parse (Tree .container) := do
  let t ← look
  if t.isPunctuator "\x7d" then
    if !allowsEmpty then unexpected ctx t
    let insideSpan ← finishAt .emptyExpr (← lastEnd) t.start
    let _ ← expectThen ctx "\x7d" after
    let span ← finish .container start
    return .emptyContainer openLead t.lead insideSpan "" span
  let value ← p.assignment ctx.inside
  let closeLead ← expectThen ctx "\x7d" after
  let span ← finish .container start
  return .exprContainer openLead value closeLead span

/-! ## Attributes -/

/-- The value of an attribute. -/
def attributeValue (p : Productions) (ctx : Context) : Parse (Tree .attributeValue) := do
  let t ← look
  if t.isString then return .stringValue (← literal ctx)
  if t.isPunctuator "\x7b" then
    let openLead ← leadThen .normal
    return .exprValue (← container p ctx t.start openLead .tag false)
  if t.isPunctuator "<" then
    let openLead ← lead
    match ← p.markup t.start openLead .tag ctx with
    | .element e => return .elementValue e
    | .fragment f => return .fragmentValue f
  unexpected ctx t

/-- A spread attribute; the lookahead is its opening brace. -/
def spreadAttribute (p : Productions) (ctx : Context) : Parse (Tree .attribute) := do
  let start ← here
  let openLead ← leadThen .normal
  let dotsLead ← expect ctx "..."
  let operand ← p.assignment ctx.inside
  let closeLead ← expectThen ctx "\x7d" .tag
  let span ← finish .spreadAttribute start
  return .spreadAttribute openLead dotsLead operand closeLead span

/-- An attribute. -/
def tagAttribute (p : Productions) (ctx : Context) : Parse (Tree .attribute) := do
  if ← sees "\x7b" then spreadAttribute p ctx
  else
    let start ← here
    let first ← tagIdent ctx
    let name : AttributeName ←
      if ← sees ":" then .namespaced <$> namespacedName ctx start first else pure (.plain first)
    let (eqLead, value) : String × Tree (.maybe .attributeValue) ←
      match ← accept "=" with
      | some eqLead => pure (eqLead, .present (← attributeValue p ctx))
      | none => pure ("", .absent)
    let span ← finish .attribute start
    return .attribute name eqLead value span

/-! ## Children -/

/-- A child in braces; the lookahead is the opening brace. -/
def childContainer (p : Productions) (ctx : Context) : Parse (Tree .child) := do
  let start ← here
  let openLead ← leadThen .normal
  if ← sees "..." then
    let dotsLead ← lead
    let operand ← p.assignment ctx.inside
    let closeLead ← expectThen ctx "\x7d" .text
    let span ← finish .spreadChild start
    return .spreadChild openLead dotsLead operand closeLead span
  return .exprChild (← container p ctx start openLead .text true)

/-- The children of an element or fragment up to the `<` of its closing tag, which is consumed: the
children, and the start and trivia of that bracket. `name` is the name of the element. -/
def children (p : Productions) (ctx : Context) (name : String) :
    Nat → Parse (List (Tree .child) × Position × String)
  | 0 => stalled
  | rounds + 1 => do
    let t ← look
    match t.kind with
    | .eof => fail .markup (.unterminatedElement name) t.site
    | .markupText =>
      let t ← next
      let span ← finish .markupText t.start
      let (rest, closing) ← children p ctx name rounds
      return (.textChild { value := t.text, raw := t.raw, span } :: rest, closing)
    | _ =>
      if t.isPunctuator "\x7b" then
        let child ← childContainer p ctx
        let (rest, closing) ← children p ctx name rounds
        return (child :: rest, closing)
      else if t.isPunctuator "<" then
        let openLead ← leadThen .tag
        if ← sees "/" then return ([], t.start, openLead)
        let child : Tree .child ←
          match ← p.markup t.start openLead .text ctx with
          | .element e => pure (.elementChild e)
          | .fragment f => pure (.fragmentChild f)
        let (rest, closing) ← children p ctx name rounds
        return (child :: rest, closing)
      else unexpected ctx t

/-! ## Elements and fragments -/

/-- A fragment, behind its first angle bracket. -/
def fragment (p : Productions) (ctx : Context) (start : Position) (openLead : String)
    (after : Mode) : Parse (Tree .fragment) := do
  let openingLead ← expectThen ctx ">" .text
  let (inner, _, closingLead) ← children p ctx "" p.rounds
  let slashLead ← expect ctx "/"
  let t ← look
  if !t.isPunctuator ">" then fail .markup (.mismatchedTag "<>") t.site
  let closeLead ← expectThen ctx ">" after
  let span ← finish .fragment start
  return .fragment openLead openingLead (.ofList inner) closingLead slashLead closeLead span

/-- Whether a token ends the attributes of a tag. -/
def endsAttributes (t : Token) : Bool := t.isPunctuator ">" || t.isPunctuator "/"

/-- A closing tag, behind its angle bracket. -/
def closingTag (p : Productions) (ctx : Context) (start : Position) (openLead opened : String)
    (after : Mode) : Parse ClosingTag := do
  let slashLead ← expect ctx "/"
  let site := (← look).site
  let name ← tagName ctx p.rounds
  if name.qualified != opened then fail .markup (.mismatchedTag opened) site
  let closeLead ← expectThen ctx ">" after
  let span ← finish .closingTag start
  return { lead := openLead, slashLead, name, closeLead, span }

/-- An element, behind its first angle bracket. -/
def element (p : Productions) (ctx : Context) (start : Position) (openLead : String)
    (after : Mode) : Parse (Tree .element) := do
  let name ← tagName ctx p.rounds
  let attributes ← many endsAttributes (tagAttribute p ctx) p.rounds
  if ← sees "/" then
    let selfClosing ← lead
    if !(← sees ">") then unexpectedHere ctx
    let closeLead ← expectThen ctx ">" after
    let openingSpan ← finish .openingTag start
    let span ← finish .element start
    return .element openLead name (.ofList attributes) (some selfClosing) closeLead openingSpan .nil
      none span
  let closeLead ← expectThen ctx ">" .text
  let openingSpan ← finish .openingTag start
  let (inner, closingStart, closingLead) ← children p ctx name.qualified p.rounds
  let closing ← closingTag p ctx closingStart closingLead name.qualified after
  let span ← finish .element start
  return .element openLead name (.ofList attributes) none closeLead openingSpan (.ofList inner)
    (some closing) span

/-- Markup behind its first angle bracket, which starts at the given point and has the given
trivia; `after` is the mode of the token behind the markup. -/
def markup (p : Productions) (start : Position) (openLead : String) (after : Mode)
    (ctx : Context) : Parse Markup := do
  if ← sees ">" then .fragment <$> fragment p ctx start openLead after
  else .element <$> element p ctx start openLead after

/-- Markup as an operand; the lookahead is its first angle bracket. -/
def markupRoot (p : Productions) (ctx : Context) : Parse Expr := do
  setMode .tag
  rescan
  let start ← here
  let openLead ← lead
  match ← p.markup start openLead .normal ctx with
  | .element e => return .elementExpr e
  | .fragment f => return .fragmentExpr f

end Verbatim.Grammar
