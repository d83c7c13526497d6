import Verbatim.Scan.Numeral
import Verbatim.Scan.Punctuator
import Verbatim.Scan.Quotation
import Verbatim.Scan.Regex
import Verbatim.Scan.Word
import Verbatim.Text.Entity

/-!
# What a token starts with

The first characters of a token tell which reader reads it. Which tokens there are depends on the
mode, and the stack of open braces tells the brace that closes a template substitution from one
that closes a block.

## Main definitions

* `Verbatim.Mode`, `Verbatim.Brace` — which tokens there are, and what an open brace belongs to.
* `Verbatim.Opening` — what a token starts with.
* `Verbatim.Opening.of`, `Verbatim.Opening.reader`, `Verbatim.Opening.nest` — how a text starts,
  what reads the token, and what it does to the open braces.
-/

namespace Verbatim

open Verbatim.Text

/-- Which tokens there are. -/
inductive Mode where
  /-- The tokens of the language. -/
  | normal
  /-- The tokens within a tag: names may contain hyphens and strings have no escapes. -/
  | tag
  /-- The text between tags, up to a brace or a tag. -/
  | text
deriving DecidableEq, Repr, Inhabited

/-- What an open brace belongs to. -/
inductive Brace where
  /-- A block, literal or container. -/
  | plain
  /-- A substitution in a template. -/
  | substitution
deriving DecidableEq, Repr

/-- What a token starts with. -/
inductive Opening where
  /-- Nothing remains. -/
  | eof
  /-- A name or reserved word. -/
  | word
  /-- A string. -/
  | string (quote : Char)
  /-- A template piece, the first of its template or a later one. -/
  | template (isHead : Bool)
  /-- A number. -/
  | numeral
  /-- A private name. -/
  | privateName
  /-- An operator or delimiter of the language. -/
  | punctuator (first : Char)
  /-- A delimiter of markup. -/
  | delimiter (c : Char)
  /-- A string within a tag. -/
  | tagString (quote : Char)
  /-- A name within a tag. -/
  | tagName
  /-- Text between tags. -/
  | markupText
  /-- Nothing that may stand within a tag. -/
  | illegal
deriving DecidableEq, Repr

namespace Opening

/-- What a token of the language starts with; a closing brace may close a substitution. -/
def ofLanguage (inSubstitution : Bool) : List Char → Opening
  | [] => .eof
  | c :: rest =>
    if isNameStart c || c == '\\' then .word
    else if c == '"' || c == '\x27' then .string c
    else if c == '\x60' then .template true
    else if isDecimalDigit c || (c == '.' && rest.head?.any isDecimalDigit) then .numeral
    else if c == '#' then .privateName
    else if c == '\x7d' && inSubstitution then .template false
    else .punctuator c

/-- What a token within a tag starts with. -/
def ofTag : List Char → Opening
  | [] => .eof
  | c :: _ =>
    if "<>/:=.\x7b\x7d".toList.contains c then .delimiter c
    else if c == '"' || c == '\x27' then .tagString c
    else if isNameStart c then .tagName
    else .illegal

/-- What a token between tags starts with. -/
def ofText : List Char → Opening
  | [] => .eof
  | c :: _ => if c == '\x7b' || c == '<' then .delimiter c else .markupText

/-- What the next token starts with. -/
def of (mode : Mode) (braces : List Brace) (chars : List Char) : Opening :=
  match mode with
  | .normal => ofLanguage (braces.head? = some .substitution) chars
  | .tag => ofTag chars
  | .text => ofText chars

end Opening

/-! ## Readers of markup -/

namespace Read

variable {σ : Type} [Readable σ]

/-- The decoded form of markup text that has been taken. -/
def decoded (text : List Char) : ReadOn σ String := do
  match Entity.decode (String.ofList text) with
  | .ok value => return value
  | .error invalid => throw (.invalidEntity invalid.reference)

/-- A string within a tag, which ends with its quote. -/
def tagString (quote : Char) : ReadOn σ Lexeme := do
  skip 1
  let body ← takeWhile (· ≠ quote)
  if (← peek).isNone then throw .unterminatedAttribute
  skip 1
  return { kind := .string, value := .text (← decoded body) }

/-- A name within a tag. -/
def tagName : ReadOn σ Lexeme := do
  let name ← takeWhile fun c => isNamePart c || c == '-'
  return { kind := .tagName, value := .text (String.ofList name) }

/-- Text between tags. -/
def markupText : ReadOn σ Lexeme := do
  let text ← takeWhile fun c => c ≠ '\x7b' && c ≠ '<'
  return { kind := .markupText, value := .text (← decoded text) }

end Read

namespace Opening

/-- The reader of what a token starts with. -/
def reader {σ : Type} [Readable σ] : Opening → ReadOn σ Lexeme
  | .eof => return { kind := .eof }
  | .word => Read.word
  | .string quote => Read.string quote
  | .template isHead => do
    Read.skip 1
    Read.templatePiece isHead
  | .numeral => Read.numeral
  | .privateName => Read.privateName
  | .punctuator _ => do
    let _ ← Read.punctuator
    return { kind := .punctuator }
  | .delimiter _ => do
    Read.skip 1
    return { kind := .punctuator }
  | .tagString quote => Read.tagString quote
  | .tagName => Read.tagName
  | .markupText => Read.markupText
  | .illegal => throw .illegalToken

/-- The stage that finds what is wrong with a token. -/
def stage : Opening → Stage
  | .delimiter _ | .tagString _ | .tagName | .markupText | .illegal => .markup
  | _ => .scanner

/-- What a token does to the open braces, innermost first. Within a tag, no brace is closed. -/
def nest (opening : Opening) (lexeme : Lexeme) (braces : List Brace) : List Brace :=
  match opening with
  | .punctuator '\x7b' | .delimiter '\x7b' => .plain :: braces
  | .punctuator '\x7d' => braces.tail
  | .template isHead =>
    let outer := if isHead then braces else braces.tail
    match lexeme.value with
    | .template _ _ false => .substitution :: outer
    | _ => outer
  | _ => braces

end Opening

end Verbatim
