import Verbatim.Number.Shortest
import Verbatim.Text.Character
import Verbatim.Text.Quoted

/-!
# Reading JSON

Readers of the parts of a JSON document. A reader knows how far it has come, and a failure names
the place: lines count from one, and columns count the bytes of the line up to and including the
offending one. A value that nobody asked for is passed over; a string in it may name an unpaired
surrogate, which is a fault only where the text is needed.

The library that reads an options document, `serde_json`, is not among the sources: the readers here
stand for its documented behaviour, as far as such a document can show it. No proof opens them, and
no result about parsing, printing or the shell depends on what they answer.

## Main definitions

* `Verbatim.Json.Fault`, `Verbatim.Json.Error` — what may be wrong with a document, and where.
* `Verbatim.Json.Reader` — readers.
* `Verbatim.Json.string`, `Verbatim.Json.number` — strings and numbers.
* `Verbatim.Json.skipValue` — values that nobody asked for.
* `Verbatim.Json.mismatch` — the failure at a value of another type than expected.
-/

namespace Verbatim.Json

open Verbatim.Text

/-! ## Faults -/

/-- What may be wrong with a document. -/
inductive Fault where
  /-- The document ends inside an array. -/
  | endInList
  /-- The document ends inside an object. -/
  | endInObject
  /-- The document ends inside a string. -/
  | endInString
  /-- The document ends where a value is expected. -/
  | endInValue
  /-- No colon behind a member's name. -/
  | expectedColon
  /-- Neither a comma nor the end of an array. -/
  | expectedListEnd
  /-- Neither a comma nor the end of an object. -/
  | expectedObjectEnd
  /-- A misspelled word. -/
  | expectedWord
  /-- No value. -/
  | expectedValue
  /-- An unknown escape. -/
  | invalidEscape
  /-- A malformed number. -/
  | invalidNumber
  /-- A number too large to represent. -/
  | numberOutOfRange
  /-- A control character in a string. -/
  | controlCharacter
  /-- A member's name that is no string. -/
  | keyNotString
  /-- A surrogate without its partner. -/
  | loneSurrogate
  /-- An unfinished pair of surrogates. -/
  | unfinishedPair
  /-- A comma behind the last item. -/
  | trailingComma
  /-- Something behind the value. -/
  | trailingCharacters
  /-- A value of another type than expected. -/
  | wrongType (found expected : String)
  /-- A name that is none of those expected. -/
  | unknownName (name expected : String)
  /-- A member that is given twice. -/
  | repeatedMember (name : String)
deriving DecidableEq, Repr

/-- The wording of a fault. -/
def Fault.message : Fault → String
  | .endInList => "EOF while parsing a list"
  | .endInObject => "EOF while parsing an object"
  | .endInString => "EOF while parsing a string"
  | .endInValue => "EOF while parsing a value"
  | .expectedColon => "expected `:`"
  | .expectedListEnd => "expected `,` or `]`"
  | .expectedObjectEnd => "expected `,` or `\x7d`"
  | .expectedWord => "expected ident"
  | .expectedValue => "expected value"
  | .invalidEscape => "invalid escape"
  | .invalidNumber => "invalid number"
  | .numberOutOfRange => "number out of range"
  | .controlCharacter => "control character (\\u0000-\\u001F) found while parsing a string"
  | .keyNotString => "key must be a string"
  | .loneSurrogate => "lone leading surrogate in hex escape"
  | .unfinishedPair => "unexpected end of hex escape"
  | .trailingComma => "trailing comma"
  | .trailingCharacters => "trailing characters"
  | .wrongType found expected => "invalid type: " ++ found ++ ", expected " ++ expected
  | .unknownName name expected => "unknown variant `" ++ name ++ "`, expected " ++ expected
  | .repeatedMember name => "duplicate field `" ++ name ++ "`"

/-- A place in a document. -/
structure Place where
  /-- The line, counted from one. -/
  line : Nat := 1
  /-- The number of bytes of the line in front of the place. -/
  column : Nat := 0
deriving DecidableEq, Repr

/-- The place behind a character. -/
def Place.past (p : Place) (c : Char) : Place :=
  if c = '\n' then { line := p.line + 1 } else { p with column := p.column + c.utf8Size }

/-- The place a number of bytes further on, at most the end of the characters that follow. -/
def Place.after (p : Place) : Nat → List Char → Place
  | 0, _ | _, [] => p
  | bytes, c :: cs =>
    if c.utf8Size ≤ bytes then (p.past c).after (bytes - c.utf8Size) cs
    else { p with column := p.column + bytes }

/-- A fault and its place. -/
structure Error where
  /-- The fault. -/
  fault : Fault
  /-- The place. -/
  place : Place
deriving DecidableEq, Repr

/-- The wording of an error. -/
def Error.message (e : Error) : String :=
  e.fault.message ++ " at line " ++ toString e.place.line ++ " column " ++ toString e.place.column

/-! ## Readers -/

/-- How far a reader has come. -/
structure Input where
  /-- The characters that follow. -/
  rest : List Char
  /-- The place. -/
  place : Place := {}

/-- Readers of parts of a document. -/
abbrev Reader := EStateM Error Input

/-- Fails a number of bytes further on. -/
def failAfter {α : Type} (bytes : Nat) (fault : Fault) : Reader α := do
  let s ← get
  throw { fault, place := s.place.after bytes s.rest }

/-- Fails at the next byte. -/
def failAt {α : Type} (fault : Fault) : Reader α := failAfter 1 fault

/-- Fails a number of bytes earlier, on the same line. -/
def failBefore {α : Type} (bytes : Nat) (fault : Fault) : Reader α := do
  let p := (← get).place
  throw { fault, place := { p with column := p.column - bytes } }

/-- The next character. -/
def peek : Reader (Option Char) := return (← get).rest.head?

/-- Moves past a number of characters. -/
def skip (count : Nat) : Reader Unit := modify fun s =>
  { rest := s.rest.drop count, place := (s.rest.take count).foldl Place.past s.place }

/-- Takes characters as long as they are of a class. -/
def takeWhile (isMember : Char → Bool) : Reader (List Char) := do
  let taken := (← get).rest.takeWhile isMember
  skip taken.length
  return taken

/-- Passes over white space. -/
def skipSpace : Reader Unit := do
  let _ ← takeWhile fun c => c == ' ' || c == '\n' || c == '\t' || c == '\r'

/-- The next character behind white space; `atEnd` is the fault if there is none. -/
def peekValue (atEnd : Fault) : Reader Char := do
  skipSpace
  match ← peek with
  | some c => return c
  | none => failAt atEnd

/-- The remaining characters of a word. -/
def word : List Char → Reader Unit
  | [] => return
  | c :: cs => do
    match ← peek with
    | none => failAt .endInValue
    | some d =>
      if d != c then failAt .expectedWord
      skip 1
      word cs

/-! ## Strings -/

/-- The character that a one-letter escape stands for. -/
def escape? (c : Char) : Option Char :=
  [('"', '"'), ('\\', '\\'), ('/', '/'), ('b', '\x08'), ('f', '\x0c'), ('n', '\n'), ('r', '\r'),
    ('t', '\t')].lookup c

/-- The code unit that four hexadecimal digits name. -/
def hexQuad : Reader Nat := do
  let rest := (← get).rest
  if byteLength rest < 4 then failAfter (byteLength rest) .endInString
  let digits := rest.take 4
  if !digits.all (isDigitOf 16) then failAfter 4 .invalidEscape
  skip 4
  return numberOf 16 digits

/-- The character of an unpaired or trailing code unit. -/
def unitChar (code : Nat) : Reader Char :=
  match scalar? code with
  | some c => return c
  | none => failAfter 0 .loneSurrogate

/-- A mark between the two code units of a pair. -/
def pairMark (c : Char) : Reader Unit := do
  match ← peek with
  | none => failAt .endInString
  | some d =>
    if d != c then failAt .unfinishedPair
    skip 1

/-- The character that an escape by code units stands for: one unit, or a pair of surrogates. -/
def unicodeEscape : Reader Char := do
  let high ← hexQuad
  if 0xD800 ≤ high && high < 0xDC00 then
    pairMark '\\'
    pairMark 'u'
    let low ← hexQuad
    if 0xDC00 ≤ low && low < 0xE000 then
      unitChar (0x10000 + (high - 0xD800) * 0x400 + (low - 0xDC00))
    else failAfter 0 .loneSurrogate
  else unitChar high

/-- What an escape stands for, behind its backslash. If the text is not needed, code units are not
put together. -/
def escaped (needed : Bool) : Reader (List Char) := do
  match ← peek with
  | none => failAt .endInString
  | some 'u' =>
    skip 1
    if needed then return [← unicodeEscape]
    let _ ← hexQuad
    return []
  | some c =>
    match escape? c with
    | some c =>
      skip 1
      return [c]
    | none => failAt .invalidEscape

/-- The characters of a string up to its closing quote. A control character is met behind it if the
text is needed, and in front of it otherwise. -/
def stringChars (needed : Bool) : Nat → Reader (List Char)
  | 0 => failAt .endInString
  | rounds + 1 => do
    match ← peek with
    | none => failAt .endInString
    | some '"' =>
      skip 1
      return []
    | some '\\' =>
      skip 1
      let head ← escaped needed
      return head ++ (← stringChars needed rounds)
    | some c =>
      if c.toNat < 0x20 then failAfter (if needed then 1 else 0) .controlCharacter
      skip 1
      return c :: (← stringChars needed rounds)

/-- A string behind its opening quote. -/
def string (needed : Bool) : Reader String := do
  return String.ofList (← stringChars needed ((← get).rest.length + 1))

/-! ## Numbers -/

/-- A power of ten as it is written. -/
structure Exponent where
  /-- Whether there is a minus sign. -/
  isNegative : Bool
  /-- The digits. -/
  digits : List Char

/-- A number as it is written, without its sign. -/
structure Number where
  /-- The digits in front of the point. -/
  whole : List Char
  /-- The digits behind the point, if there is one. -/
  fraction : Option (List Char)
  /-- The exponent, if there is one. -/
  exponent : Option Exponent

/-- At least one digit; `atEnd` is the fault if nothing follows. -/
def digits (atEnd : Fault) : Reader (List Char) := do
  match ← peek with
  | none => failAt atEnd
  | some c => if isDecimalDigit c then takeWhile isDecimalDigit else failAt .invalidNumber

/-- The digits in front of the point, which have no needless leading zero. -/
def wholeDigits (atEnd : Fault) : Reader (List Char) := do
  if (← peek) != some '0' then digits atEnd
  else
    skip 1
    if (← peek).any isDecimalDigit then failAt .invalidNumber
    return ['0']

/-- The exponent behind its mark. -/
def exponent (atEnd : Fault) : Reader Exponent := do
  let sign ← peek
  if sign == some '+' || sign == some '-' then skip 1
  return { isNegative := sign == some '-', digits := ← digits atEnd }

/-- A number behind its sign; `atEnd` is the fault if it breaks off. -/
def number (atEnd : Fault) : Reader Number := do
  let whole ← wholeDigits atEnd
  let fraction ←
    if (← peek) == some '.' then
      skip 1
      some <$> digits atEnd
    else pure none
  let exponent ←
    if (← peek).any fun c => c == 'e' || c == 'E' then
      skip 1
      some <$> exponent atEnd
    else pure none
  return { whole, fraction, exponent }

/-- Takes in digits as long as the value stays within a limit, and leaves the digits from the first
one that does not fit. -/
def absorb (limit : Nat) : Nat → List Char → Nat × List Char
  | value, [] => (value, [])
  | value, c :: cs =>
    let next := value * 10 + numberOf 10 [c]
    if limit < next then (value, c :: cs) else absorb limit next cs

/-- The value of a number, up to its sign. The digits in front of the point and behind it fill one
machine word; those of the former that do not fit count as zeros, and those of the latter from the
first that does not fit count for nothing. A power of ten beyond thirty-two bits is a fault at the
digit that shows it, unless it makes no difference to a zero or makes a zero. -/
def Number.value (n : Number) : Reader Double := do
  let (significand, zeros) := absorb (powTwo 64 - 1) 0 n.whole
  let fraction := n.fraction.getD []
  let (significand, unused) := absorb (powTwo 64 - 1) significand fraction
  let power : Int := zeros.length + unused.length - fraction.length
  let scaled (power : Int) : Reader Double := do
    let x := (Double.ofNat significand).scaleTen power
    if x.isInfinite then failAfter 0 .numberOutOfRange
    return x
  match n.exponent with
  | none => scaled power
  | some exponent =>
    match absorb (powTwo 31 - 1) 0 exponent.digits with
    | (size, []) => scaled (if exponent.isNegative then power - size else power + size)
    | (_, _ :: unread) =>
      if significand ≠ 0 && !exponent.isNegative then
        failBefore unread.length .numberOutOfRange
      return Double.zero

/-- The text of a double that is not negative, which shows by a point or an exponent that it is
one. An exponent always has a sign. -/
def pointed (x : Double) : String := if x.isZero then "0.0" else x.shortest.scientific "+"

/-- How a number is described: as an integer if it is written as one and fits in a machine word of
either sign, and as a floating point number otherwise. -/
def Number.describe (n : Number) (isNegative : Bool) : Reader String := do
  let sign := if isNegative then "-" else ""
  let whole := numberOf 10 n.whole
  let fits := if isNegative then 0 < whole && whole ≤ powTwo 63 else whole < powTwo 64
  if n.fraction.isNone && n.exponent.isNone && fits then
    return "integer `" ++ sign ++ toString whole ++ "`"
  return "floating point `" ++ sign ++ pointed (← n.value) ++ "`"

/-! ## Values -/

/-- Fails at a value of another type than expected; the value is described as far as it is read. -/
def mismatch {α : Type} (expected : String) : Reader α := do
  let found ←
    match ← peek with
    | some 'n' =>
      skip 1
      word "ull".toList
      pure "null"
    | some 't' =>
      skip 1
      word "rue".toList
      pure "boolean `true`"
    | some 'f' =>
      skip 1
      word "alse".toList
      pure "boolean `false`"
    | some '-' =>
      skip 1
      (← number .endInValue).describe true
    | some '"' =>
      skip 1
      pure ("string " ++ listed (← string true))
    | some '[' => pure "sequence"
    | some '\x7b' => pure "map"
    | some c =>
      if isDecimalDigit c then (← number .endInValue).describe false else failAt .expectedValue
    | none => failAt .expectedValue
  failAfter 0 (.wrongType found expected)

/-- The colon behind a member's name. -/
def colon : Reader Unit := do
  if (← peekValue .endInObject) != ':' then failAt .expectedColon
  skip 1

mutual

/-- Passes over a value that nobody asked for. -/
def skipValue : Nat → Reader Unit
  | 0 => failAt .endInValue
  | rounds + 1 => do
    match ← peekValue .endInValue with
    | 'n' =>
      skip 1
      word "ull".toList
    | 't' =>
      skip 1
      word "rue".toList
    | 'f' =>
      skip 1
      word "alse".toList
    | '-' =>
      skip 1
      let _ ← number .invalidNumber
    | '"' =>
      skip 1
      let _ ← string false
    | '[' =>
      skip 1
      if (← peekValue .endInList) == ']' then skip 1 else skipItems rounds
    | '\x7b' =>
      skip 1
      if (← peekValue .endInObject) == '\x7d' then skip 1 else skipMembers rounds
    | c =>
      if isDecimalDigit c then
        let _ ← number .invalidNumber
      else failAt .expectedValue

/-- Passes over the items of an array and its end. -/
def skipItems : Nat → Reader Unit
  | 0 => failAt .endInList
  | rounds + 1 => do
    skipValue rounds
    match ← peekValue .endInList with
    | ',' =>
      skip 1
      skipItems rounds
    | ']' => skip 1
    | _ => failAt .expectedListEnd

/-- Passes over the members of an object and its end. -/
def skipMembers : Nat → Reader Unit
  | 0 => failAt .endInObject
  | rounds + 1 => do
    if (← peekValue .endInObject) != '"' then failAt .keyNotString
    skip 1
    let _ ← string false
    colon
    skipValue rounds
    match ← peekValue .endInObject with
    | ',' =>
      skip 1
      skipMembers rounds
    | '\x7d' => skip 1
    | _ => failAt .expectedObjectEnd

end

/-- Passes over a value that nobody asked for. -/
def skipAny : Reader Unit := do skipValue (2 * (← get).rest.length + 2)

/-- Reads a whole document, behind which only white space may stand. -/
def read {α : Type} (reader : Reader α) (document : String) : Except Error α :=
  let whole : Reader α := do
    let value ← reader
    skipSpace
    if (← peek).isSome then failAt .trailingCharacters
    return value
  match whole.run { rest := document.toList } with
  | .ok value _ => .ok value
  | .error error _ => .error error

end Verbatim.Json
