import Verbatim.Scan.Read

/-!
# Operators and delimiters

## Main definitions

* `Verbatim.punctuators` — the punctuators, longest first.
* `Verbatim.Read.punctuator` — the longest punctuator that comes next.
-/

namespace Verbatim

/-- Operators and delimiters, longest first. -/
def punctuators : List String :=
  [">>>=", "...", "===", "!==", ">>>", "<<=", ">>=", "**=", "&&=", "||=", "??=", "=>", "==", "!=",
    "<=", ">=", "&&", "||", "??", "?.", "++", "--", "+=", "-=", "*=", "/=", "%=", "&=", "|=", "^=",
    "<<", ">>", "**", "\x7b", "\x7d", "(", ")", "[", "]", ";", ",", "<", ">", "+", "-", "*", "/",
    "%", "&", "|", "^", "!", "~", "?", ":", "=", ".", "@"]

/-- The punctuator at the front of a text. A question mark and a point are two tokens when a digit
follows them. -/
def punctuator? (chars : List Char) : Option String :=
  match punctuators.find? (·.toList.isPrefixOf chars) with
  | some "?." => if (chars.drop 2).head?.any Text.isDecimalDigit then some "?" else some "?."
  | found => found

/-- The longest punctuator that comes next. -/
def Read.punctuator {σ : Type} [Readable σ] : ReadOn σ String := do
  match punctuator? (← remaining) with
  | none => throw .illegalToken
  | some spelling =>
    jump (Text.byteLength spelling.toList)
    return spelling

end Verbatim
