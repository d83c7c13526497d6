import Verbatim.Number.Double
import Verbatim.Source.Position

/-!
# Tokens and comments

A token keeps the trivia in front of it, so the trivia and the spellings of all tokens of a source,
followed by the trivia at its end, are the source.

## Main definitions

* `Verbatim.Token` — a token with its trivia and extent.
* `Verbatim.Comment` — a comment with its extent.
* `Verbatim.TokenRecord` — an entry of the list of tokens that a parse collects.
-/

namespace Verbatim

/-- The kinds of tokens. -/
inductive TokenKind where
  /-- A truth value. -/
  | boolean
  /-- The end of the source. -/
  | eof
  /-- A name, which may be a word with a meaning in some places. -/
  | identifier
  /-- A reserved word. -/
  | keyword
  /-- The null literal. -/
  | null
  /-- A number. -/
  | numeric
  /-- A big integer. -/
  | bigint
  /-- An operator or delimiter. -/
  | punctuator
  /-- A string. -/
  | string
  /-- A regular expression. -/
  | regex
  /-- A piece of a template. -/
  | template
  /-- A private name. -/
  | privateName
  /-- A name in markup. -/
  | tagName
  /-- Text in markup. -/
  | markupText
deriving DecidableEq, Repr, Inhabited

/-- The label of a kind in token lists. -/
def TokenKind.label : TokenKind → String
  | .boolean => "Boolean"
  | .eof => "<end>"
  | .identifier => "Identifier"
  | .keyword => "Keyword"
  | .null => "Null"
  | .numeric => "Numeric"
  | .bigint => "BigInt"
  | .punctuator => "Punctuator"
  | .string => "String"
  | .regex => "RegularExpression"
  | .template => "Template"
  | .privateName => "PrivateIdentifier"
  | .tagName => "JSXIdentifier"
  | .markupText => "JSXText"

/-- What a token means beyond its spelling. -/
inductive TokenValue where
  /-- Nothing. -/
  | plain
  /-- A decoded name, string or text. -/
  | text (text : String)
  /-- A number. -/
  | number (value : Double)
  /-- The body and flags of a regular expression. -/
  | regex (pattern flags : String)
  /-- A template piece: its decoded text, if all escapes are valid, and whether it starts and ends
  the template. -/
  | template (cooked : Option String) (isHead isTail : Bool)
deriving DecidableEq, Repr, Inhabited

/-- What the characters of a token amount to, without their place. -/
structure Lexeme where
  /-- The kind. -/
  kind : TokenKind
  /-- The meaning. -/
  value : TokenValue := .plain
  /-- A number with a leading zero, or a string or template with an octal escape. -/
  octal : Bool := false
  /-- A name spelled with escapes. -/
  escaped : Bool := false
deriving DecidableEq, Repr, Inhabited

/-- A token. -/
structure Token extends Lexeme where
  /-- The spelling. -/
  raw : String
  /-- The trivia between the previous token and this one. -/
  lead : String
  /-- The point before the first character. -/
  start : Position
  /-- The point after the last character. -/
  stop : Position
  /-- The byte offset of the line in which the token starts. -/
  lineStart : Nat
  /-- Whether the trivia contains a line terminator. -/
  newlineBefore : Bool
deriving DecidableEq, Repr, Inhabited

namespace Token

/-- Whether a token is the given punctuator. -/
def isPunctuator (t : Token) (spelling : String) : Bool :=
  t.kind = .punctuator && t.raw == spelling

/-- Whether a token is the given reserved word. -/
def isKeyword (t : Token) (word : String) : Bool := t.kind = .keyword && t.raw == word

/-- Whether a token is the given name, spelled without escapes. -/
def isWord (t : Token) (word : String) : Bool :=
  t.kind = .identifier && !t.escaped && t.raw == word

/-- The decoded text of a token, or its spelling when it has none. -/
def text (t : Token) : String :=
  match t.value with
  | .text text => text
  | _ => t.raw

/-- Whether a token is the end of the source. -/
def isEof (t : Token) : Bool := t.kind = .eof

end Token

/-- The kinds of comments. -/
inductive CommentKind where
  /-- A comment up to the end of the line. -/
  | line
  /-- A comment between delimiters. -/
  | block
deriving DecidableEq, Repr

/-- A comment. -/
structure Comment where
  /-- The kind. -/
  kind : CommentKind
  /-- The text without delimiters. -/
  value : String
  /-- The extent, delimiters included. -/
  span : Span
deriving DecidableEq, Repr

/-- An entry of the list of tokens that a parse collects. -/
structure TokenRecord where
  /-- The kind. -/
  kind : TokenKind
  /-- The spelling. -/
  value : String
  /-- The extent. -/
  span : Span
deriving DecidableEq, Repr

end Verbatim
