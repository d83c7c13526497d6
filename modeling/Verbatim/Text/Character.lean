import Verbatim.Text.Letters

/-!
# Character classes and reserved words

The classes of characters that separate one token from the next, and the words that are not free
to be names.

## Main definitions

* `Verbatim.Text.scalar?`, `Verbatim.Text.byteLength` — code points and UTF-8 lengths.
* `Verbatim.Text.isLineTerminator`, `Verbatim.Text.isBlank` — the two kinds of white space.
* `Verbatim.Text.trim` — a text without the white space around it.
* `Verbatim.Text.isNameStart`, `Verbatim.Text.isNamePart` — what a name may begin with and be
  continued by.
* `Verbatim.Text.digitValue?` — the value of a digit in a radix.
* `Verbatim.Text.isKeyword`, `Verbatim.Text.isStrictReserved`, `Verbatim.Text.isRestricted` — the
  reserved words, those reserved in strict code only, and the two names strict code may not bind.
-/

namespace Verbatim.Text

/-- Whether a character lies in one of the given inclusive ranges. -/
def within (ranges : List (Nat × Nat)) (c : Char) : Bool :=
  ranges.any fun (low, high) => low ≤ c.toNat && c.toNat ≤ high

/-- Whether a character is one of the 128 ASCII characters. -/
def isAscii (c : Char) : Bool := c.toNat < 0x80

/-- The character with the given code point, if the code point is a Unicode scalar value. -/
def scalar? (code : Nat) : Option Char :=
  if h : code.isValidChar then some (Char.ofNatAux code h) else none

/-- The number of bytes of a text in UTF-8. -/
def byteLength (text : List Char) : Nat :=
  text.foldr (fun c rest => c.utf8Size + rest) 0

/-! ## White space -/

/-- Line feed, carriage return, line separator and paragraph separator end a line. -/
def isLineTerminator (c : Char) : Bool :=
  c == '\n' || c == '\r' || c == '\u2028' || c == '\u2029'

/-- White space within a line: tab, vertical tab, form feed, the space separators and the byte
order mark. -/
def isBlank (c : Char) : Bool :=
  within [(0x09, 0x09), (0x0B, 0x0C), (0x20, 0x20), (0xA0, 0xA0), (0x1680, 0x1680),
    (0x2000, 0x200A), (0x202F, 0x202F), (0x205F, 0x205F), (0x3000, 0x3000), (0xFEFF, 0xFEFF)] c

/-- White space of any kind, line ends included; the byte order mark is none. -/
def isWhiteSpace (c : Char) : Bool :=
  within [(0x09, 0x0D), (0x20, 0x20), (0x85, 0x85), (0xA0, 0xA0), (0x1680, 0x1680),
    (0x2000, 0x200A), (0x2028, 0x2029), (0x202F, 0x202F), (0x205F, 0x205F), (0x3000, 0x3000)] c

/-- A text without the white space around it. -/
def trim (text : String) : String :=
  let inner := text.toList.dropWhile isWhiteSpace
  String.ofList (inner.reverse.dropWhile isWhiteSpace).reverse

/-! ## Names -/

/-- A name begins with a dollar sign, a low line, an alphabetic character or one of four symbols
that count as letters. -/
def isNameStart (c : Char) : Bool :=
  if isAscii c then
    c == '$' || c == '_' || c.isAlpha
  else
    within alphabetic c || within [(0x2118, 0x2118), (0x212E, 0x212E), (0x309B, 0x309C)] c

/-- Connector punctuation beyond ASCII. -/
def connectors : List (Nat × Nat) :=
  [(0x203F, 0x2040), (0x2054, 0x2054), (0xFE33, 0xFE34), (0xFE4D, 0xFE4F), (0xFF3F, 0xFF3F)]

/-- Combining marks that may continue a name. -/
def combiningMarks : List (Nat × Nat) :=
  [(0x0300, 0x036F), (0x0483, 0x0489), (0x0591, 0x05BD), (0x0610, 0x061A), (0x064B, 0x065F),
    (0x0900, 0x0903), (0x093A, 0x094F), (0x1AB0, 0x1AFF), (0x1DC0, 0x1DFF), (0x20D0, 0x20FF),
    (0xFE00, 0xFE0F), (0xFE20, 0xFE2F)]

/-- The zero-width joiners and the few symbols and digits that may only continue a name. -/
def nameContinuations : List (Nat × Nat) :=
  [(0x00B7, 0x00B7), (0x0387, 0x0387), (0x1369, 0x1371), (0x19DA, 0x19DA), (0x200C, 0x200D)]

/-- A name is continued by anything that may start one, a numeral, a connector or a mark. -/
def isNamePart (c : Char) : Bool :=
  if isAscii c then
    c == '$' || c == '_' || c.isAlphanum
  else
    isNameStart c || within numeric c || within nameContinuations c || within connectors c
      || within combiningMarks c

/-! ## Digits -/

/-- The value of an ASCII digit or letter as a digit, letters counting on from ten. -/
def digitValue (c : Char) : Option Nat :=
  if '0' ≤ c && c ≤ '9' then some (c.toNat - '0'.toNat)
  else if 'a' ≤ c && c ≤ 'z' then some (c.toNat - 'a'.toNat + 10)
  else if 'A' ≤ c && c ≤ 'Z' then some (c.toNat - 'A'.toNat + 10)
  else none

/-- The value of a digit below `radix`. -/
def digitValue? (radix : Nat) (c : Char) : Option Nat :=
  (digitValue c).filter (· < radix)

/-- Whether a character is a digit in the given radix. -/
def isDigitOf (radix : Nat) (c : Char) : Bool := (digitValue? radix c).isSome

/-- The ten decimal digits. -/
def isDecimalDigit (c : Char) : Bool := '0' ≤ c && c ≤ '9'

/-- The eight octal digits. -/
def isOctalDigit (c : Char) : Bool := '0' ≤ c && c ≤ '7'

/-- The number that a list of digits spells in the given radix; other characters do not count. -/
def numberOf (radix : Nat) (digits : List Char) : Nat :=
  (digits.filterMap (digitValue? radix)).foldl (fun value digit => value * radix + digit) 0

/-! ## Words -/

/-- The words that are never names. -/
def keywords : List String :=
  ["break", "case", "catch", "class", "const", "continue", "debugger", "default", "delete", "do",
    "else", "enum", "export", "extends", "finally", "for", "function", "if", "import", "in",
    "instanceof", "new", "return", "super", "switch", "this", "throw", "try", "typeof", "var",
    "void", "while", "with"]

/-- The words that are not names in strict code. -/
def strictWords : List String :=
  ["implements", "interface", "package", "private", "protected", "public", "static", "yield",
    "let"]

/-- Whether a word is a keyword everywhere. -/
def isKeyword (word : String) : Bool := keywords.contains word

/-- Whether a word is reserved in strict code. -/
def isStrictReserved (word : String) : Bool := strictWords.contains word

/-- Strict code may neither bind nor assign these two names. -/
def isRestricted (word : String) : Bool := word == "eval" || word == "arguments"

end Verbatim.Text
