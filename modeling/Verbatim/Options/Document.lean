import Verbatim.Options.Basic
import Verbatim.Options.Json

/-!
# Options written as a document

Options may be given as a JSON object with one member for each option, absent members keeping their
defaults and unknown members being ignored, or as an array of the values in the order of the
fields.

## Main definitions

* `Verbatim.Options.Field` — the options by name.
* `Verbatim.Options.ofDocument` — the options that a document spells, or what is wrong with it.
-/

namespace Verbatim.Options

open Verbatim.Json

/-- The options by name, in the order in which an array lists them. -/
inductive Field where
  /-- The goal. -/
  | goal
  /-- Byte ranges. -/
  | range
  /-- Lines and columns. -/
  | location
  /-- The label of the source. -/
  | source
  /-- Token collection. -/
  | tokens
  /-- Comment collection. -/
  | comments
  /-- Tolerance. -/
  | tolerant
  /-- Markup. -/
  | jsx
deriving DecidableEq, Repr

namespace Field

/-- Every field, in order. -/
def all : List Field := [.goal, .range, .location, .source, .tokens, .comments, .tolerant, .jsx]

/-- The name of a field in a document. -/
def key : Field → String
  | .goal => "sourceType"
  | .range => "range"
  | .location => "loc"
  | .source => "source"
  | .tokens => "tokens"
  | .comments => "comments"
  | .tolerant => "tolerant"
  | .jsx => "jsx"

/-- The field with a given name. -/
def ofKey? (key : String) : Option Field := all.find? (·.key == key)

end Field

/-! ## Values -/

/-- A switch is a truth value. -/
def readSwitch : Reader Bool := do
  match ← peekValue .endInValue with
  | 't' =>
    skip 1
    word "rue".toList
    return true
  | 'f' =>
    skip 1
    word "alse".toList
    return false
  | _ => mismatch "a boolean"

/-- A string is expected. -/
def readText (expected : String) : Reader String := do
  if (← peekValue .endInValue) == '"' then
    skip 1
    string true
  else mismatch expected

/-- A label is a string, or null for none. -/
def readLabel : Reader (Option String) := do
  skipSpace
  if (← peek) == some 'n' then
    skip 1
    word "ull".toList
    return none
  else some <$> readText "a string"

/-- The name of a goal. -/
def readGoalName : Reader Goal := do
  let name ← readText "variant identifier"
  if name == "script" then return .script
  else if name == "module" then return .module
  else failAfter 0 (.unknownName name "`script` or `module`")

/-- A goal is written as its name, or as an object with that name as its only member and null as
the value. -/
def readGoal : Reader Goal := do
  match ← peekValue .endInValue with
  | '"' => readGoalName
  | '\x7b' =>
    skip 1
    let goal ← readGoalName
    colon
    if (← peekValue .endInValue) == 'n' then
      skip 1
      word "ull".toList
    else mismatch "unit"
    skipSpace
    match ← peek with
    | some '\x7d' =>
      skip 1
      return goal
    | some _ => failAfter 0 .expectedValue
    | none => failAfter 0 .endInObject
  | _ => failAt .expectedValue

/-- Reads the value of one field. -/
def readField (options : Options) (field : Field) : Reader Options := do
  match field with
  | .goal => return { options with goal := ← readGoal }
  | .range => return { options with range := ← readSwitch }
  | .location => return { options with location := ← readSwitch }
  | .source => return { options with source := ← readLabel }
  | .tokens => return { options with tokens := ← readSwitch }
  | .comments => return { options with comments := ← readSwitch }
  | .tolerant => return { options with tolerant := ← readSwitch }
  | .jsx => return { options with jsx := ← readSwitch }

/-! ## Objects -/

/-- Fails at a member that is given twice, behind its name. -/
def failRepeated {α : Type} (field : Field) : Reader α := do
  skipSpace
  let closes := (← peek) == some '\x7d'
  failAfter (if closes then 1 else 0) (.repeatedMember field.key)

/-- Moves to the name of the next member, if there is one. -/
def seekMember (isFirst : Bool) : Reader Bool := do
  let c ← peekValue .endInObject
  if c == '\x7d' then return false
  if isFirst then
    if c != '"' then failAt .keyNotString
    return true
  if c != ',' then failAt .expectedObjectEnd
  skip 1
  match ← peekValue .endInValue with
  | '"' => return true
  | '\x7d' => failAt .trailingComma
  | _ => failAt .keyNotString

/-- Sets the fields that the members name; no field may be named twice. -/
def readMembers (options : Options) (seen : List Field) (isFirst : Bool) : Nat → Reader Options
  | 0 => failAt .endInObject
  | rounds + 1 => do
    if !(← seekMember isFirst) then
      skip 1
      return options
    skip 1
    let name ← string true
    match Field.ofKey? name with
    | some field =>
      if seen.contains field then failRepeated field
      colon
      let options ← readField options field
      readMembers options (field :: seen) false rounds
    | none =>
      colon
      skipAny
      readMembers options seen false rounds

/-! ## Arrays -/

/-- Moves to the next item, if there is one. -/
def seekItem (isFirst : Bool) : Reader Bool := do
  let c ← peekValue .endInList
  if c == ']' then return false
  if isFirst then return true
  if c != ',' then failAt .expectedListEnd
  skip 1
  if (← peekValue .endInValue) == ']' then failAt .trailingComma
  return true

/-- The end of an array, which holds no further item. -/
def endItems : Reader Unit := do
  match ← peekValue .endInList with
  | ']' => skip 1
  | ',' =>
    skip 1
    skipSpace
    if (← peek) == some ']' then failAt .trailingComma else failAt .trailingCharacters
  | _ => failAt .trailingCharacters

/-- Sets the fields in order as long as there are items. -/
def readItems (options : Options) (isFirst : Bool) : List Field → Reader Options
  | [] => do
    endItems
    return options
  | field :: fields => do
    if ← seekItem isFirst then
      let options ← readField options field
      readItems options false fields
    else
      endItems
      return options

/-! ## Documents -/

/-- Reads options. -/
def readOptions : Reader Options := do
  match ← peekValue .endInValue with
  | '[' =>
    skip 1
    readItems {} true Field.all
  | '\x7b' =>
    skip 1
    readMembers {} [] true ((← get).rest.length + 1)
  | _ => mismatch "struct ParseOptions"

/-- The options that a document spells. -/
def ofDocument (document : String) : Except Json.Error Options := Json.read readOptions document

end Verbatim.Options
