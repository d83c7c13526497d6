import Verbatim.Scan.Read
import Verbatim.Scan.Token

/-!
# Numerals

Decimal numerals with fraction and exponent, numerals in radix sixteen, eight and two, numerals with
a leading zero, and big integers. Single low lines may separate digits.

## Main definitions

* `Verbatim.Read.digits` — digits and separators.
* `Verbatim.Read.numeral` — a numeral and its value.
-/

namespace Verbatim.Read

open Verbatim.Text

variable {σ : Type} [Readable σ]

/-- Passes over digits with single separators between them: whether all separators are well placed,
and what follows, from a misplaced separator on. -/
def digitsFrom (radix : Nat) (afterDigit : Bool) : List Char → Bool × List Char
  | [] => (true, [])
  | c :: rest =>
    if c = '_' then
      if afterDigit && rest.head?.any (isDigitOf radix) then digitsFrom radix false rest
      else (false, c :: rest)
    else if isDigitOf radix c then digitsFrom radix true rest
    else (true, c :: rest)

/-- Digits in the given radix with single separators between them. -/
def digits (radix : Nat) : ReadOn σ Unit := do
  let (wellPlaced, rest) := digitsFrom radix false (← remaining)
  moveTo rest
  if !wellPlaced then throw .illegalToken

/-- A numeral must not run into a name or another digit. -/
def numeralEnd : ReadOn σ Unit := do
  if ← peekIs fun c => isNameStart c || isDecimalDigit c || c == '\\' then throw .illegalToken

/-- The spelling of a numeral without its separators. -/
def withoutSeparators (chars : List Char) : List Char := chars.filter (· ≠ '_')

/-- A big integer, whose suffix comes next, from its spelling without the suffix. -/
def bigint (spelling : List Char) : ReadOn σ Lexeme := do
  skip 1
  numeralEnd
  return { kind := .bigint, value := .text (String.ofList (withoutSeparators spelling)) }

/-- A numeral whose first two characters, a zero and the given letter, name its radix. -/
def radixNumeral (radix : Nat) (letter : Char) : ReadOn σ Lexeme := do
  jump 2
  let ((), spelling) ← spelled (digits radix)
  if spelling.isEmpty then throw .illegalToken
  if ← peekIs (· == 'n') then bigint ('0' :: letter :: spelling)
  else
    numeralEnd
    return { kind := .numeric
             value := .number (Double.ofDigits radix (spelling.filterMap (digitValue? radix))) }

/-- The value of a decimal numeral: whole digits, an optional fraction and an optional exponent. -/
def decimalValue (spelling : List Char) : Double :=
  let isMark (c : Char) : Bool := c == 'e' || c == 'E'
  let mantissa := spelling.takeWhile (!isMark ·)
  let exponent := (spelling.dropWhile (!isMark ·)).drop 1
  let whole := mantissa.takeWhile (· ≠ '.')
  let fraction := (mantissa.dropWhile (· ≠ '.')).drop 1
  let power : Int := numberOf 10 exponent
  let power := if exponent.head? = some '-' then -power else power
  Double.ofDecimal (numberOf 10 (whole ++ fraction)) (power - fraction.length)

/-- An optional fraction: whether there is a point. -/
def fraction : ReadOn σ Bool := do
  if !(← peekIs (· == '.')) then return false
  skip 1
  if ← peekIs isDecimalDigit then digits 10
  return true

/-- An optional exponent: whether there is one. -/
def exponent : ReadOn σ Bool := do
  if !(← peekIs fun c => c == 'e' || c == 'E') then return false
  skip 1
  if ← peekIs fun c => c == '+' || c == '-' then skip 1
  if !(← peekIs isDecimalDigit) then throw .illegalToken
  digits 10
  return true

/-- The rest of a decimal numeral after its whole digits: whether it has neither fraction nor
exponent. -/
def decimalTail : ReadOn σ Bool := do
  let hasFraction ← fraction
  let hasExponent ← exponent
  return !hasFraction && !hasExponent

/-- A decimal numeral without a needless leading zero. -/
def decimalNumeral : ReadOn σ Lexeme := do
  let (isWhole, spelling) ← spelled do
    if !(← peekIs (· == '.')) then digits 10
    decimalTail
  if isWhole && (← peekIs (· == 'n')) then bigint spelling
  else
    numeralEnd
    return { kind := .numeric, value := .number (decimalValue (withoutSeparators spelling)) }

/-- A numeral with a needless leading zero: octal if all its digits are, decimal otherwise. -/
def legacyNumeral : ReadOn σ Lexeme := do
  let whole ← takeWhile isDecimalDigit
  if whole.all isOctalDigit then
    numeralEnd
    let value := Double.ofDigits 8 (whole.filterMap (digitValue? 8))
    return { kind := .numeric, value := .number value, octal := true }
  else
    let (_, tail) ← spelled decimalTail
    numeralEnd
    let value := decimalValue (withoutSeparators (whole ++ tail))
    return { kind := .numeric, value := .number value, octal := true }

/-- A numeral that starts with a zero, given the character behind it. -/
def zeroNumeral (second : Char) : ReadOn σ Lexeme :=
  if second = 'x' || second = 'X' then radixNumeral 16 second
  else if second = 'o' || second = 'O' then radixNumeral 8 second
  else if second = 'b' || second = 'B' then radixNumeral 2 second
  else if isDecimalDigit second then legacyNumeral
  else decimalNumeral

/-- A numeral and its value. -/
def numeral : ReadOn σ Lexeme := do
  if ← peekIs (· == '0') then
    match ← peekSecond with
    | some second => zeroNumeral second
    | none => decimalNumeral
  else decimalNumeral

end Verbatim.Read
