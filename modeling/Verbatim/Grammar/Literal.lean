import Verbatim.Grammar.Productions

/-!
# Literals, names and keys

The productions of single tokens, and of the two constructs that hold expressions between
delimiters of their own: templates and computed keys.

## Main definitions

* `Verbatim.Text.bigint?` — the value of a big integer.
* `Verbatim.Grammar.literal` — literals; octal forms are faults in strict code.
* `Verbatim.Grammar.checkReference`, `Verbatim.Grammar.bindingName` — names in use and names bound.
* `Verbatim.Grammar.template` — templates.
* `Verbatim.Grammar.key` — keys of properties and members.
-/

namespace Verbatim

open Verbatim.Parse

/-- The value of a big integer from its digits, which may be preceded by the mark of a radix. -/
def Text.bigint? (text : String) : Option Int :=
  let (radix, digits) : Nat × List Char :=
    match text.toList with
    | '0' :: 'x' :: digits | '0' :: 'X' :: digits => (16, digits)
    | '0' :: 'o' :: digits | '0' :: 'O' :: digits => (8, digits)
    | '0' :: 'b' :: digits | '0' :: 'B' :: digits => (2, digits)
    | digits => (10, digits)
  if digits.isEmpty || !digits.all (isDigitOf radix) then none else some (numberOf radix digits)

namespace Grammar

open Verbatim.Text

/-! ## Literals -/

/-- The fault of a literal with octal digits in strict code. -/
def octalFault (t : Token) : Fault :=
  if t.kind = .numeric && t.raw.toList.any (fun c => c == '8' || c == '9') then .strictLeadingZero
  else .strictOctal

/-- The value of a literal token that was just consumed. -/
def literalValue (ctx : Context) (t : Token) : Parse Value :=
  match t.kind, t.value with
  | .numeric, .number value => return .number value
  | .bigint, .text text =>
    match bigint? text with
    | some value => return .bigint value
    | none => fail .scanner .illegalToken t.site
  | .string, _ => return .string t.text
  | .boolean, _ => return .boolean (t.raw == "true")
  | .null, _ => return .null
  | .regex, .regex pattern flags => return .regex pattern flags
  | _, _ => unexpected ctx t

/-- A literal; the lookahead is its token. -/
def literal (ctx : Context) : Parse Literal := do
  let t ← next
  if t.octal && ctx.strict then tolerate (octalFault t) t.site
  let value ← literalValue ctx t
  let span ← finish .literal t.start
  return { lead := t.lead, value, raw := t.raw, span }

/-! ## Names -/

/-- Fails on the operators of the context, which are no names. -/
def checkOperatorWord (ctx : Context) (t : Token) : Parse Unit := do
  if t.text == "yield" && ctx.allowsYield then unexpected ctx t
  if t.text == "await" && (ctx.allowsAwait || ctx.isModule) then unexpected ctx t

/-- Checks a name that is used. -/
def checkReference (ctx : Context) (t : Token) : Parse Unit := do
  checkOperatorWord ctx t
  if ctx.strict && isStrictReserved t.text then tolerate .strictReservedWord t.site

/-- A name that is bound; `restricted` is the fault of a restricted name in strict code. -/
def bindingName (restricted : Fault) (ctx : Context) : Parse Ident := do
  if !(← look).isName then unexpectedHere ctx
  let t ← next
  checkOperatorWord ctx t
  if ctx.strict then
    if isStrictReserved t.text then tolerate .strictReservedWord t.site
    else if isRestricted t.text then tolerate restricted t.site
  finishName t

/-! ## Templates -/

/-- The text of a template piece between its delimiters: one character in front, and one behind the
last piece or two behind any other. -/
def pieceText (raw : String) (isTail : Bool) : String :=
  let inner := raw.toList.drop 1
  String.ofList (inner.take (inner.length - if isTail then 1 else 2))

/-- One static piece of a template. A piece with an invalid escape may stand only in a template
with a function. -/
def templatePiece (ctx : Context) (tagged : Bool) : Parse Quasi := do
  if (← look).kind ≠ .template then unexpectedHere ctx
  let t ← next
  match t.value with
  | .template cooked _ isTail =>
    if cooked.isNone && !tagged then
      fail .scanner (if t.octal then .templateOctal else .invalidHexEscape) t.site
    let span ← finish .templateElement t.start
    return { lead := t.lead, raw := pieceText t.raw isTail, cooked, isTail, span }
  | _ => unexpected ctx t

/-- The pieces of a template and the expressions between them. -/
def templateParts (p : Productions) (ctx : Context) (tagged : Bool) :
    Nat → Parse (List Quasi × List Expr)
  | 0 => stalled
  | rounds + 1 => do
    let piece ← templatePiece ctx tagged
    if piece.isTail then return ([piece], [])
    let value ← p.expression ctx.inside
    let (pieces, values) ← templateParts p ctx tagged rounds
    return (piece :: pieces, value :: values)

/-- A template; the lookahead is its first piece. -/
def template (p : Productions) (ctx : Context) (tagged : Bool) : Parse (Tree .template) := do
  let start ← here
  let (quasis, values) ← templateParts p ctx tagged p.rounds
  let span ← finish .template start
  return .templateLit quasis (.ofList values) span

/-! ## Keys -/

/-- The key of a property or member. -/
def key (p : Productions) (ctx : Context) (allowsPrivate : Bool) : Parse (Tree .key) := do
  let t ← look
  if t.isAnyName then return .nameKey (← anyName)
  match t.kind with
  | .string | .numeric | .bigint => return .literalKey (← literal ctx)
  | .privateName =>
    if allowsPrivate then return .privateKey (← finishPrivateName (← next)) else unexpected ctx t
  | _ =>
    if t.isPunctuator "[" then
      let openLead ← lead
      let inner ← p.assignment ctx.inside
      let closeLead ← expect ctx "]"
      return .computedKey openLead inner closeLead
    else unexpected ctx t

/-- Whether the word that is the lookahead modifies what follows, and is no key of its own. -/
def isModifier (forbidsNewline : Bool) : Parse Bool := do
  let t ← peek
  return !(t.isEof || (forbidsNewline && t.newlineBefore)
    || t.isOneOf [",", ":", "(", ")", "\x7d", "=", ";"])

end Grammar

end Verbatim
