import Verbatim.Scan.Read
import Verbatim.Scan.Token

/-!
# Regular expression literals

A regular expression is read only where the grammar asks for one, because a slash may also divide.

## Main definitions

* `Verbatim.Read.regex` — a regular expression literal.
-/

namespace Verbatim.Read

open Verbatim.Text

variable {σ : Type} [Readable σ]

/-- Passes over the body of a regular expression up to and including its closing slash; a slash
within brackets does not close. -/
def regexBody : Nat → Bool → ReadOn σ Unit
  | 0, _ => throw .unterminatedRegex
  | fuel + 1, inClass => do
    match ← peek with
    | none => throw .unterminatedRegex
    | some c =>
      if isLineTerminator c then throw .unterminatedRegex
      skip 1
      if c = '\\' then
        if (← peek).all isLineTerminator then throw .unterminatedRegex
        skip 1
        regexBody fuel inClass
      else if c = '[' then regexBody fuel true
      else if c = ']' then regexBody fuel false
      else if c = '/' && !inClass then return
      else regexBody fuel inClass

/-- Whether flags are known and none is repeated. -/
def validFlags : List Char → Bool
  | [] => true
  | flag :: flags => "dgimsuyv".toList.contains flag && !flags.contains flag && validFlags flags

/-- A regular expression literal. -/
def regex : ReadOn σ Lexeme := do
  if !(← peekIs (· == '/')) then throw .illegalToken
  skip 1
  let ((), body) ← spelled (do regexBody ((← remaining).length + 1) false)
  let flags ← takeWhile isNamePart
  if (← peekIs (· == '\\')) || !validFlags flags then throw .invalidRegexFlags
  return { kind := .regex, value := .regex (String.ofList body.dropLast) (String.ofList flags) }

end Verbatim.Read
