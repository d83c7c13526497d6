import Verbatim.Source.Position

/-!
# Faults and how they are reported

A fault is the cause of an error. Every wording stands in one function, `Fault.message`. A syntax
error is a fault found by one of four stages at one place of the source. A `Report` decides what
becomes of a fault that parsing can survive: it is recorded when faults are tolerated and ends the
parse otherwise.

## Main definitions

* `Verbatim.Fault`, `Verbatim.Fault.message` — the causes and their wording.
* `Verbatim.SyntaxError` — a fault with its place.
* `Verbatim.Report` — the record of tolerated faults.
-/

namespace Verbatim

/-- The stage that found an error. -/
inductive Stage where
  /-- The characters form no token. -/
  | scanner
  /-- The tokens form no construct. -/
  | grammar
  /-- A parenthesised group is neither an expression nor a parameter list. -/
  | coverGrammar
  /-- The markup is malformed. -/
  | markup
deriving DecidableEq, Repr, Inhabited

/-- The causes of errors. -/
inductive Fault where
  /-- The source ends inside a construct. -/
  | unexpectedEnd
  /-- A name where none may stand. -/
  | unexpectedIdentifier
  /-- A number where none may stand. -/
  | unexpectedNumber
  /-- A string where none may stand. -/
  | unexpectedString
  /-- A template piece where none may stand. -/
  | unexpectedTemplate
  /-- A word reserved in strict code where a name was meant. -/
  | unexpectedReserved
  /-- Characters that form no token. -/
  | illegalToken
  /-- A block comment without end. -/
  | unterminatedComment
  /-- A template without end. -/
  | unterminatedTemplate
  /-- A regular expression without end. -/
  | unterminatedRegex
  /-- Unknown or repeated regular expression flags. -/
  | invalidRegexFlags
  /-- A hexadecimal escape without its two digits. -/
  | invalidHexEscape
  /-- A malformed Unicode escape. -/
  | invalidUnicodeEscape
  /-- A reserved word spelled with escapes. -/
  | escapedKeyword
  /-- Something that cannot be assigned to. -/
  | invalidAssignmentTarget
  /-- Something that a for-in loop cannot assign to. -/
  | invalidForInTarget
  /-- Something that a for-of loop cannot assign to. -/
  | invalidForOfTarget
  /-- Something that a pattern cannot assign to. -/
  | invalidDestructuringTarget
  /-- A rest element that is not the last. -/
  | misplacedRest
  /-- A shorthand property with a default outside a pattern. -/
  | shorthandInitializer
  /-- A break with nothing to leave. -/
  | illegalBreak
  /-- A continue outside loops. -/
  | illegalContinue
  /-- A return outside functions. -/
  | illegalReturn
  /-- A line break between throw and its operand. -/
  | newlineAfterThrow
  /-- A try statement without handler and finalizer. -/
  | missingHandler
  /-- A second default clause. -/
  | repeatedDefault
  /-- A with statement in strict code. -/
  | strictWith
  /-- A restricted name bound by catch in strict code. -/
  | strictCatchVariable
  /-- A restricted name declared in strict code. -/
  | strictVariableName
  /-- A restricted name as parameter in strict code. -/
  | strictParameterName
  /-- A repeated parameter in strict code. -/
  | strictRepeatedParameter
  /-- A repeated parameter where none may repeat. -/
  | repeatedParameter
  /-- A restricted name as function name in strict code. -/
  | strictFunctionName
  /-- An octal literal or escape in strict code. -/
  | strictOctal
  /-- A decimal with a leading zero in strict code. -/
  | strictLeadingZero
  /-- An octal escape in a template. -/
  | templateOctal
  /-- Delete of a plain name in strict code. -/
  | strictDelete
  /-- Assignment to a restricted name in strict code. -/
  | strictAssignment
  /-- A restricted name stepped after use in strict code. -/
  | strictPostUpdate
  /-- A restricted name stepped before use in strict code. -/
  | strictPreUpdate
  /-- A word reserved in strict code used as a name. -/
  | strictReservedWord
  /-- A function declared as a loop or branch body in strict code. -/
  | strictNestedFunction
  /-- A strictness directive under parameters that are not plain names. -/
  | illegalUseStrict
  /-- The name let bound by let or const. -/
  | letBinding
  /-- A constant without a value. -/
  | missingInitializer
  /-- A declared pattern without a value. -/
  | missingPatternInitializer
  /-- A loop variable with a value of its own. -/
  | loopInitializer
  /-- A constructor that is an accessor, generator or asynchronous. -/
  | specialConstructor
  /-- A field named like the constructor. -/
  | constructorField
  /-- A second constructor. -/
  | repeatedConstructor
  /-- A static member named prototype. -/
  | staticPrototype
  /-- A getter with parameters. -/
  | getterParameters
  /-- A setter without exactly one parameter. -/
  | setterParameters
  /-- A setter with a rest parameter. -/
  | setterRest
  /-- A parameter after the rest parameter. -/
  | parameterAfterRest
  /-- A rest parameter with a default. -/
  | defaultedRest
  /-- An import declaration that is not at the top of a module. -/
  | misplacedImport
  /-- An export declaration that is not at the top of a module. -/
  | misplacedExport
  /-- A module list without its source. -/
  | missingFrom
  /-- The constructor target outside functions. -/
  | misplacedNewTarget
  /-- The module record outside modules. -/
  | misplacedImportMeta
  /-- Coalescing mixed with the other logical operators. -/
  | mixedCoalescing
  /-- An unparenthesised unary operand of exponentiation. -/
  | unaryBeforeExponent
  /-- A template on an optional chain. -/
  | optionalChainTemplate
  /-- A rest element in a parenthesised expression. -/
  | restInParentheses
  /-- A group before an arrow that is no parameter list. -/
  | malformedParameters
  /-- An await expression in parameters. -/
  | awaitInParameter
  /-- A yield expression in parameters. -/
  | yieldInParameter
  /-- An attribute string without end. -/
  | unterminatedAttribute
  /-- Markup where it is not enabled. -/
  | markupDisabled
  /-- A token where it may not stand. -/
  | unexpectedToken (token : String)
  /-- A label that is not in scope. -/
  | unknownLabel (label : String)
  /-- A label declared again inside itself. -/
  | repeatedLabel (label : String)
  /-- A closing tag that does not match. -/
  | mismatchedTag (name : String)
  /-- An element without closing tag. -/
  | unterminatedElement (name : String)
  /-- A numeric character reference to no character. -/
  | invalidEntity (reference : String)
  /-- Reading went on without taking anything in; this never happens. -/
  | stalled
  /-- A fault that is described by its own text. -/
  | described (text : String)
deriving DecidableEq, Repr, Inhabited

/-- The wording of a fault. -/
def Fault.message : Fault → String
  | .unexpectedEnd => "Unexpected end of input"
  | .unexpectedIdentifier => "Unexpected identifier"
  | .unexpectedNumber => "Unexpected number"
  | .unexpectedString => "Unexpected string"
  | .unexpectedTemplate => "Unexpected quasi"
  | .unexpectedReserved => "Unexpected reserved word"
  | .illegalToken => "Invalid or unexpected token"
  | .unterminatedComment => "Unterminated multi-line comment"
  | .unterminatedTemplate => "Unterminated template literal"
  | .unterminatedRegex => "Invalid regular expression: missing /"
  | .invalidRegexFlags => "Invalid regular expression flags"
  | .invalidHexEscape => "Invalid hexadecimal escape sequence"
  | .invalidUnicodeEscape => "Invalid Unicode escape sequence"
  | .escapedKeyword => "Keyword must not contain escaped characters"
  | .invalidAssignmentTarget => "Invalid left-hand side in assignment"
  | .invalidForInTarget => "Invalid left-hand side in for-in"
  | .invalidForOfTarget => "Invalid left-hand side in for-loop"
  | .invalidDestructuringTarget => "Invalid destructuring assignment target"
  | .misplacedRest => "Rest element must be last element"
  | .shorthandInitializer => "Invalid shorthand property initializer"
  | .illegalBreak => "Illegal break statement"
  | .illegalContinue => "Illegal continue statement: no surrounding iteration statement"
  | .illegalReturn => "Illegal return statement"
  | .newlineAfterThrow => "Illegal newline after throw"
  | .missingHandler => "Missing catch or finally after try"
  | .repeatedDefault => "More than one default clause in switch statement"
  | .strictWith => "Strict mode code may not include a with statement"
  | .strictCatchVariable => "Catch variable may not be eval or arguments in strict mode"
  | .strictVariableName => "Variable name may not be eval or arguments in strict mode"
  | .strictParameterName => "Parameter name eval or arguments is not allowed in strict mode"
  | .strictRepeatedParameter => "Strict mode function may not have duplicate parameter names"
  | .repeatedParameter => "Duplicate parameter name not allowed in this context"
  | .strictFunctionName => "Function name may not be eval or arguments in strict mode"
  | .strictOctal => "Octal literals are not allowed in strict mode."
  | .strictLeadingZero => "Decimals with leading zeros are not allowed in strict mode."
  | .templateOctal => "Octal escape sequences are not allowed in template strings."
  | .strictDelete => "Delete of an unqualified identifier in strict mode."
  | .strictAssignment => "Assignment to eval or arguments is not allowed in strict mode"
  | .strictPostUpdate =>
    "Postfix increment/decrement may not have eval or arguments operand in "
      ++ "strict mode"
  | .strictPreUpdate =>
    "Prefix increment/decrement may not have eval or arguments operand in "
      ++ "strict mode"
  | .strictReservedWord => "Use of future reserved word in strict mode"
  | .strictNestedFunction =>
    "In strict mode code, functions can only be declared at top level or "
      ++ "inside a block"
  | .illegalUseStrict => "Illegal 'use strict' directive in function with non-simple parameter list"
  | .letBinding => "let is disallowed as a lexically bound name"
  | .missingInitializer => "Missing initializer in const declaration"
  | .missingPatternInitializer => "Missing initializer in destructuring declaration"
  | .loopInitializer => "for-in/of loop variable declaration may not have an initializer."
  | .specialConstructor => "Class constructor may not be an accessor"
  | .constructorField => "Classes may not have a field named 'constructor'"
  | .repeatedConstructor => "A class may only have one constructor"
  | .staticPrototype => "Classes may not have static property named prototype"
  | .getterParameters => "Getter must not have any formal parameters."
  | .setterParameters => "Setter must have exactly one formal parameter."
  | .setterRest => "Setter function argument must not be a rest parameter"
  | .parameterAfterRest => "Rest parameter must be last formal parameter"
  | .defaultedRest => "Unexpected token ="
  | .misplacedImport => "Unexpected token import"
  | .misplacedExport => "Unexpected token export"
  | .missingFrom => "Unexpected token"
  | .misplacedNewTarget => "new.target expression is not allowed here"
  | .misplacedImportMeta => "Cannot use 'import.meta' outside a module"
  | .mixedCoalescing => "Nullish coalescing cannot be mixed with && or || without parentheses"
  | .unaryBeforeExponent =>
    "Unary operator used immediately before exponentiation expression. "
      ++ "Parenthesis must be used to disambiguate operator precedence"
  | .optionalChainTemplate => "Invalid tagged template on optional chain"
  | .restInParentheses => "Unexpected token ... in parenthesized expression"
  | .malformedParameters => "Malformed arrow function parameter list"
  | .awaitInParameter => "Illegal await-expression in formal parameters of async function"
  | .yieldInParameter => "Yield expression not allowed in formal parameter"
  | .unterminatedAttribute => "Unterminated string in JSX attribute"
  | .markupDisabled => "JSX syntax is not enabled"
  | .unexpectedToken token => "Unexpected token " ++ token
  | .unknownLabel label => "Undefined label '" ++ label ++ "'"
  | .repeatedLabel label => "Label '" ++ label ++ "' has already been declared"
  | .mismatchedTag name => "Expected corresponding JSX closing tag for " ++ name
  | .unterminatedElement name => "Unterminated JSX contents for <" ++ name ++ ">"
  | .invalidEntity reference => "Invalid character reference " ++ reference
  | .stalled => "No progress"
  | .described text => text

/-- The place of an error. -/
structure Site where
  /-- The byte offset. -/
  index : Nat := 0
  /-- The line, counted from one in thirty-two bits. -/
  line : Nat := 0
  /-- The column, counted in characters from one in thirty-two bits. -/
  column : Nat := 0
deriving DecidableEq, Repr, Inhabited

/-- The place of an error at a point of the source. -/
def Position.site (p : Position) : Site := ⟨p.offset, p.line, wrapAdd p.column 1⟩

/-- A fault with the stage that found it, its place and the label of the source. -/
structure SyntaxError where
  /-- The stage that found it. -/
  stage : Stage
  /-- The cause. -/
  fault : Fault
  /-- Where it is. -/
  site : Site
  /-- The label of the source, when one was given. -/
  source : Option String := none
deriving DecidableEq, Repr, Inhabited

namespace SyntaxError

/-- The wording without the place. -/
def message (e : SyntaxError) : String := e.fault.message

/-- The wording with the line, and with the label of the source if there is one. -/
def display (e : SyntaxError) : String :=
  (match e.source with
    | some label => label ++ ":"
    | none => "") ++ "Line " ++ toString e.site.line ++ ": " ++ e.message

/-- Gives an error the label of its source, unless it has one. -/
def label (source : Option String) (e : SyntaxError) : SyntaxError :=
  if e.source.isSome then e else { e with source }

@[simp]
theorem site_label (source : Option String) (e : SyntaxError) :
    (e.label source).site = e.site := by
  unfold label
  split <;> rfl

@[simp]
theorem fault_label (source : Option String) (e : SyntaxError) :
    (e.label source).fault = e.fault := by
  unfold label
  split <;> rfl

@[simp]
theorem label_none (e : SyntaxError) : e.label none = e := by
  obtain ⟨stage, fault, site, _ | source⟩ := e <;> rfl

end SyntaxError

/-! ## Tolerance -/

/-- What becomes of faults that parsing can survive, and those recorded so far. -/
structure Report where
  /-- Whether such faults are recorded instead of ending the parse. -/
  tolerant : Bool := false
  /-- The label given to errors. -/
  source : Option String := none
  /-- The errors recorded so far, oldest first. -/
  errors : Array SyntaxError := #[]
deriving DecidableEq, Repr, Inhabited

namespace Report

/-- The error for a fault, labelled with the source. -/
def error (r : Report) (site : Site) (stage : Stage) (fault : Fault) : SyntaxError :=
  { stage, fault, site, source := r.source }

/-- Records an error if errors are tolerated, and hands it back otherwise. -/
def tolerate (r : Report) (e : SyntaxError) : Except SyntaxError Report :=
  if r.tolerant then .ok { r with errors := r.errors.push e } else .error e

end Report

end Verbatim
