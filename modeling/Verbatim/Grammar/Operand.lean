import Verbatim.Grammar.Class
import Verbatim.Grammar.Markup
import Verbatim.Tree.Names

/-!
# Operands

The expressions without operators: names, literals, array and object literals, functions, classes,
markup, and groups in parentheses. A group stays unresolved when an arrow follows, and is an
expression in parentheses otherwise.

## Main definitions

* `Verbatim.Grammar.operand` — the operands.
* `Verbatim.Grammar.arrayLiteral`, `Verbatim.Grammar.objectLiteral` — literals that may turn out to
  be patterns.
* `Verbatim.Grammar.group` — groups in parentheses.
* `Verbatim.Grammar.argumentList` — arguments of calls.
-/

namespace Verbatim.Grammar

open Verbatim.Parse

/-! ## Spread -/

/-- An item of a list, or all values of an item behind dots. -/
def spreadOr (value : Parse Expr) : Parse Expr := do
  let t ← look
  if t.isPunctuator "..." then
    let dotsLead ← lead
    let operand ← value
    let span ← finish .spread t.start
    return .spread dotsLead operand span
  value

/-! ## Arrays -/

/-- One element of an array literal, or a hole. -/
def arrayRound (p : Productions) (ctx : Context) : Parse (Round (Tree (.maybe .expr))) := do
  if ← sees "," then return .hole .absent (← separator ctx)
  return .item (.present (← spreadOr (p.cover ctx)))

/-- An array literal. -/
def arrayLiteral (p : Productions) (ctx : Context) : Parse Expr := do
  let start ← here
  let openLead ← expect ctx "["
  let (elements, separators) ← listed ctx "]" (arrayRound p ctx.inside) p.rounds
  let closeLead ← expect ctx "]"
  let span ← finish .array start
  return .array openLead (.ofList elements) separators closeLead span

/-! ## Objects -/

/-- Marks a shorthand property with a default as pending, unless one is pending already. -/
def markPending (site : Site) : Parse Unit := do
  setPending ((← pending).or (some site))

/-- The value of a shorthand property: its name, or its name with a default. -/
def shorthandValue (p : Productions) (ctx : Context) (start : Position) (id : Ident) :
    Parse Expr := do
  let t ← look
  if t.isPunctuator "=" then
    let eqLead ← lead
    markPending t.site
    let value ← p.assignment ctx
    let span ← finish .assignment start
    return .assignment (.namePattern id) eqLead .assign value span
  return .identifier id

/-- The name that a shorthand property consists of, given the first token of its key. -/
def shorthandName (ctx : Context) (first : Token) (name : Tree .key) : Parse Ident := do
  match name with
  | .nameKey id => if first.isName then return id else unexpectedHere ctx
  | _ => unexpectedHere ctx

/-- A property, method or accessor of an object literal. -/
def property (p : Productions) (ctx : Context) : Parse (Tree .member) := do
  let start ← here
  let (mods, kind) ← modifiers
  let first ← look
  let name ← key p ctx false
  let isModified := mods.asyncLead.isSome || mods.accessorLead.isSome || mods.starLead.isSome
  let t ← look
  if isModified || t.isPunctuator "(" then
    let value ← methodFunction p ctx mods.asyncLead.isSome mods.starLead.isSome kind
    let span ← finish .property start
    return .property mods name (.functionExpr value) kind (kind == .plain) false "" span
  if t.isPunctuator ":" then
    let colonLead ← lead
    let value ← p.cover ctx
    let span ← finish .property start
    return .property mods name value kind false false colonLead span
  let id ← shorthandName ctx first name
  checkReference ctx first
  let value ← shorthandValue p ctx start id
  let span ← finish .property start
  return .property mods name value kind false true "" span

/-- A member of an object literal. -/
def objectMember (p : Productions) (ctx : Context) : Parse (Tree .member) := do
  let t ← look
  if t.isPunctuator "..." then
    let dotsLead ← lead
    let operand ← p.cover ctx
    let span ← finish .spread t.start
    return .spreadMember dotsLead operand span
  property p ctx

/-- An object literal. -/
def objectLiteral (p : Productions) (ctx : Context) : Parse Expr := do
  let start ← here
  let openLead ← expect ctx "\x7b"
  let (members, separators) ←
    listed ctx "\x7d" (.item <$> objectMember p ctx.inside) p.rounds
  let closeLead ← expect ctx "\x7d"
  let span ← finish .object start
  return .object openLead (.ofList members) separators closeLead span

/-! ## Arguments -/

/-- Arguments in parentheses. -/
def argumentList (p : Productions) (ctx : Context) : Parse (Tree .arguments) := do
  let openLead ← expect ctx "("
  let (args, separators) ←
    listed ctx ")" (.item <$> spreadOr (p.assignment ctx.inside)) p.rounds
  let closeLead ← expect ctx ")"
  return .argumentList openLead (.ofList args) separators closeLead

/-! ## Groups -/

/-- An item of a group with its extent. -/
structure GroupItem where
  /-- The item. -/
  value : Expr
  /-- Where it starts. -/
  start : Position
  /-- Where it ends. -/
  stop : Position

/-- An item of a group. -/
def groupItem (p : Productions) (ctx : Context) : Parse GroupItem := do
  let start ← here
  let value ← spreadOr (p.cover ctx)
  return { value, start, stop := ← lastEnd }

/-- Whether an item of a group is spread. -/
def GroupItem.isSpread (item : GroupItem) : Bool :=
  match item.value with
  | .spread .. => true
  | _ => false

/-- A group in parentheses, in the order in which it is written. -/
structure Group where
  /-- The trivia in front of the opening parenthesis. -/
  openLead : String
  /-- The items. -/
  items : List GroupItem
  /-- The commas with their trivia. -/
  separators : List String
  /-- The trivia in front of the closing parenthesis. -/
  closeLead : String

namespace Group

/-- The items without their extents. -/
def values (g : Group) : List Expr := g.items.map (·.value)

/-- The extent of the items, if there are any. -/
def bounds? (g : Group) : Option (Position × Position) :=
  match g.items.head?, g.items.getLast? with
  | some first, some last => some (first.start, last.stop)
  | _, _ => none

/-- Where the first spread item starts. -/
def spreadSite? (g : Group) : Option Site :=
  (g.items.find? (·.isSpread)).map (·.start.site)

/-- The group as parameters that are still to be resolved. -/
def unresolved (g : Group) (asyncLead : Option String) (span : Span) : Expr :=
  .cover asyncLead g.openLead (.ofList g.values) g.separators g.closeLead span

end Group

/-- Reads a group. -/
def readGroup (p : Productions) (ctx : Context) : Parse Group := do
  let openLead ← expect ctx "("
  let (items, separators) ← listed ctx ")" (.item <$> groupItem p ctx.inside) p.rounds
  let closeLead ← expect ctx ")"
  return { openLead, items, separators, closeLead }

/-- Fails if a shorthand property with a default is pending. -/
def rejectPending : Parse Unit := do
  match ← pending with
  | some site => reject .shorthandInitializer site
  | none => return

/-- The expression that stands in a group. -/
def groupValue (g : Group) : Parse Expr :=
  match g.values, g.bounds? with
  | [value], _ => return value
  | values, some (start, stop) => do
    let span ← finishAt .sequence start stop
    return .sequence (.ofList values) g.separators span
  | _, none => stalled

/-- A group that is no parameter list: an expression in parentheses. -/
def parenthesized (ctx : Context) (start : Position) (g : Group) : Parse Expr := do
  if g.separators.length ≥ g.items.length then unexpectedHere ctx
  if let some site := g.spreadSite? then fail .coverGrammar .restInParentheses site
  rejectPending
  let inner ← groupValue g
  let span ← finish .parenthesized start
  return .parenthesized g.openLead inner g.closeLead span

/-- A group in parentheses: parameters to be resolved if an arrow follows, and an expression
otherwise. -/
def group (p : Productions) (ctx : Context) : Parse Expr := do
  let start ← here
  let g ← readGroup p ctx
  if ← sees "=>" then return g.unresolved none (← extent start)
  parenthesized ctx start g

/-! ## Operands -/

/-- A name, or an asynchronous function. -/
def nameOperand (p : Productions) (ctx : Context) : Parse Expr := do
  let isFunction ←
    if ← seesWord "async" then
      let t ← peek
      pure (t.isKeyword "function" && !t.newlineBefore)
    else pure false
  if isFunction then functionExpression p ctx
  else
    let t ← next
    checkReference ctx t
    return .identifier (← finishName t)

/-- An operand that starts with a punctuator. -/
def punctuatedOperand (p : Productions) (ctx : Context) (t : Token) : Parse Expr := do
  match t.raw with
  | "(" => group p ctx
  | "[" => arrayLiteral p ctx
  | "\x7b" => objectLiteral p ctx
  | "/" | "/=" =>
    rescanRegex
    return .literal (← literal ctx)
  | "<" =>
    if ctx.allowsMarkup then markupRoot p ctx else fail .markup .markupDisabled t.site
  | _ => unexpected ctx t

/-- An operand that starts with a reserved word. -/
def keywordOperand (p : Productions) (ctx : Context) (t : Token) : Parse Expr := do
  match t.raw with
  | "this" =>
    let thisLead ← lead
    let span ← finish .receiver t.start
    return .receiver thisLead span
  | "function" => functionExpression p ctx
  | "class" => .classExpr <$> classDefinition p ctx false false
  | _ => unexpected ctx t

/-- An expression without operators, calls and accesses. -/
def operand (p : Productions) (ctx : Context) : Parse Expr := do
  let t ← look
  match t.kind with
  | .identifier => nameOperand p ctx
  | .numeric | .bigint | .string | .boolean | .null => .literal <$> literal ctx
  | .template =>
    if t.isTemplateHead then .template <$> template p ctx false else unexpected ctx t
  | .punctuator => punctuatedOperand p ctx t
  | .keyword => keywordOperand p ctx t
  | _ => unexpected ctx t

end Verbatim.Grammar
