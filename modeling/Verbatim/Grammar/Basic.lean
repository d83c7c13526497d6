import Verbatim.Grammar.Context
import Verbatim.Grammar.Parser
import Verbatim.Text.Character
import Verbatim.Tree.Leaf

/-!
# The steps that productions are made of

Taking a certain token, closing a node, reading the end of a statement, and reading lists. Every
loop is bounded by a number of rounds; a bound of one more than the characters that remain is never
reached, because each round takes a token.

## Main definitions

* `Verbatim.Parse.unexpected` — the failure at a token that may not stand where it does.
* `Verbatim.Parse.expect`, `Verbatim.Parse.expectKeyword`, `Verbatim.Parse.expectWord` — taking a
  certain token, of which only the trivia is kept.
* `Verbatim.Parse.finish` — closing a node at the last consumed token.
* `Verbatim.Parse.terminator` — the end of a statement, written or inserted.
* `Verbatim.Parse.many`, `Verbatim.Parse.listed` — lists without and with commas.
-/

namespace Verbatim

open Verbatim.Text

/-- The fault of a token that may not stand where it does. -/
def Token.misplaced (t : Token) (strict : Bool) : Fault :=
  match t.kind with
  | .eof => .unexpectedEnd
  | .numeric | .bigint => .unexpectedNumber
  | .string => .unexpectedString
  | .template => .unexpectedTemplate
  | .identifier =>
    if strict && isStrictReserved t.raw then .unexpectedReserved else .unexpectedIdentifier
  | _ => .unexpectedToken t.raw

/-- Whether a token is one of the words, reserved or not, that may stand where any name may. -/
def Token.isAnyName (t : Token) : Bool :=
  match t.kind with
  | .identifier | .keyword | .boolean | .null => true
  | _ => false

/-- Whether a token is one of the given punctuators. -/
def Token.isOneOf (t : Token) (spellings : List String) : Bool :=
  t.kind = .punctuator && spellings.contains t.raw

/-- Whether a token is a string. -/
def Token.isString (t : Token) : Bool := t.kind = .string

/-- Whether a token is a name that is not reserved. -/
def Token.isName (t : Token) : Bool := t.kind = .identifier

/-- Whether a token is the first piece of a template. -/
def Token.isTemplateHead (t : Token) : Bool :=
  match t.kind, t.value with
  | .template, .template _ isHead _ => isHead
  | _, _ => false

/-- The place of an error at a token. -/
def Token.site (t : Token) : Site := t.start.site

namespace Parse

/-! ## Failures -/

/-- Fails at a token that may not stand where it does. -/
def unexpected {α : Type} (ctx : Context) (t : Token) : Parse α :=
  reject (t.misplaced ctx.strict) t.site

/-- Fails at the lookahead. -/
def unexpectedHere {α : Type} (ctx : Context) : Parse α := do unexpected ctx (← look)

/-! ## The lookahead -/

/-- Whether the lookahead is the given punctuator. -/
def sees (spelling : String) : Parse Bool := return (← look).isPunctuator spelling

/-- Whether the lookahead is the given reserved word. -/
def seesKeyword (word : String) : Parse Bool := return (← look).isKeyword word

/-- Whether the lookahead is the given name, spelled without escapes. -/
def seesWord (word : String) : Parse Bool := return (← look).isWord word

/-- Where the lookahead starts. -/
def here : Parse Position := return (← look).start

/-! ## Taking tokens -/

/-- Consumes the lookahead and keeps its trivia. -/
def lead : Parse String := return (← next).lead

/-- Takes the given punctuator and keeps its trivia. -/
def expect (ctx : Context) (spelling : String) : Parse String := do
  if ← sees spelling then lead else unexpectedHere ctx

/-- Takes the given reserved word and keeps its trivia. -/
def expectKeyword (ctx : Context) (word : String) : Parse String := do
  if ← seesKeyword word then lead else unexpectedHere ctx

/-- Takes the given name and keeps its trivia. -/
def expectWord (ctx : Context) (word : String) : Parse String := do
  if ← seesWord word then lead else unexpectedHere ctx

/-- Takes a comma; its trivia and itself are kept. -/
def separator (ctx : Context) : Parse String := return (← expect ctx ",") ++ ","

/-- Takes the given punctuator if it is there, and keeps its trivia. -/
def accept (spelling : String) : Parse (Option String) := do
  if ← sees spelling then return some (← lead) else return none

/-- The end of a statement: a semicolon, or nothing at a line break, a closing brace or the end of
the source. -/
def terminator (ctx : Context) : Parse Terminator := do
  let t ← look
  if t.isPunctuator ";" then return { lead := ← lead }
  else if t.newlineBefore || t.isPunctuator "\x7d" || t.isEof then return .inserted
  else unexpected ctx t

/-! ## Nodes -/

/-- Closes a node at a given point. -/
def finishAt (kind : NodeKind) (start stop : Position) : Parse Span := do
  let span ← spanBetween start stop
  report kind span
  return span

/-- Closes a node at the last consumed token. -/
def finish (kind : NodeKind) (start : Position) : Parse Span := do
  finishAt kind start (← lastEnd)

/-- The extent up to the last consumed token, of which no node is reported. -/
def extent (start : Position) : Parse Span := do spanBetween start (← lastEnd)

/-- Makes a name of the token that was just consumed. -/
def finishName (t : Token) : Parse Ident := do
  let span ← finish .identifier t.start
  return { lead := t.lead, name := t.text, raw := t.raw, span }

/-- Makes a private name of the token that was just consumed. -/
def finishPrivateName (t : Token) : Parse PrivateName := do
  let span ← finish .privateName t.start
  return { lead := t.lead, name := t.text, span }

/-- Takes the lookahead as a name, whatever word it is. -/
def anyName : Parse Ident := do finishName (← next)

/-! ## Loops -/

/-- Reads items until the lookahead is such that the list ends. -/
def many {α : Type} (ends : Token → Bool) (item : Parse α) : Nat → Parse (List α)
  | 0 => stalled
  | rounds + 1 => do
    if ends (← look) then return []
    let head ← item
    let tail ← many ends item rounds
    return head :: tail

/-- One round of reading a list with commas. -/
inductive Round (α : Type) where
  /-- An item, after which either a comma or the end of the list follows. -/
  | item (value : α)
  /-- An item that has already taken the comma after it. -/
  | hole (value : α) (separator : String)
  /-- An item after which the list ends. -/
  | last (value : α)

/-- Reads a list with commas up to the given closing punctuator, which is not consumed: the items
and the commas. -/
def listed {α : Type} (ctx : Context) (close : String) (round : Parse (Round α)) :
    Nat → Parse (List α × List String)
  | 0 => stalled
  | rounds + 1 => do
    if ← sees close then return ([], [])
    match ← round with
    | .item value =>
      if ← sees close then return ([value], [])
      let comma ← separator ctx
      let (values, commas) ← listed ctx close round rounds
      return (value :: values, comma :: commas)
    | .hole value comma =>
      let (values, commas) ← listed ctx close round rounds
      return (value :: values, comma :: commas)
    | .last value => return ([value], [])

/-- Reads one item, and further ones as long as commas follow: the items behind the first, and the
commas. -/
def afterCommas {α : Type} (ctx : Context) (item : Parse α) : Nat → Parse (List α × List String)
  | 0 => stalled
  | rounds + 1 => do
    if !(← sees ",") then return ([], [])
    let comma ← separator ctx
    let value ← item
    let (values, commas) ← afterCommas ctx item rounds
    return (value :: values, comma :: commas)

/-- Repeats a step on a value as long as it gives a new value. -/
def iterate {α : Type} (step : α → Parse (Option α)) : Nat → α → Parse α
  | 0, _ => stalled
  | rounds + 1, value => do
    match ← step value with
    | some value => iterate step rounds value
    | none => return value

end Parse

end Verbatim
