import Verbatim.Grammar.Literal
import Verbatim.Tree.Names

/-!
# Bindings

Names and patterns in declarations, parameters and handlers, and what must hold of the names of a
parameter list.

## Main definitions

* `Verbatim.Grammar.binding` — names and patterns.
* `Verbatim.Grammar.bindingElement` — the same with an optional default.
* `Verbatim.Grammar.bindingRest` — the target of all that remains.
* `Verbatim.Grammar.checkParameters` — the check of parameter names.
-/

namespace Verbatim.Grammar

open Verbatim.Parse Verbatim.Text

/-! ## Parts of patterns -/

/-- A default behind a target that starts at the given point, if there is one. -/
def withDefault (p : Productions) (ctx : Context) (start : Position) (target : Pattern) :
    Parse Pattern := do
  match ← accept "=" with
  | none => return target
  | some eqLead =>
    let value ← p.assignment ctx.inside
    let span ← finish .defaultPattern start
    return .defaultPattern target eqLead value span

/-- A target with an optional default. -/
def bindingElement (p : Productions) (restricted : Fault) (ctx : Context) : Parse Pattern := do
  let start ← here
  let target ← p.binding restricted ctx
  withDefault p ctx start target

/-- A target for all that remains, which must be the last before `close`. -/
def bindingRest (p : Productions) (restricted : Fault) (ctx : Context) (close : String)
    (misplaced : Fault) : Parse Pattern := do
  let start ← here
  let dotsLead ← expect ctx "..."
  let target ← p.binding restricted ctx
  let t ← look
  if t.isPunctuator "=" then reject .defaultedRest t.site
  if !t.isPunctuator close then reject misplaced t.site
  let span ← finish .rest start
  return .restPattern dotsLead target span

/-! ## Patterns -/

/-- One element of an array pattern. -/
def arrayBindingRound (p : Productions) (restricted : Fault) (ctx : Context) :
    Parse (Round (Tree (.maybe .pattern))) := do
  if ← sees "," then return .hole .absent (← separator ctx)
  if ← sees "..." then
    return .last (.present (← bindingRest p restricted ctx "]" .misplacedRest))
  return .item (.present (← bindingElement p restricted ctx))

/-- An array pattern. -/
def arrayBinding (p : Productions) (restricted : Fault) (ctx : Context) : Parse Pattern := do
  let start ← here
  let openLead ← expect ctx "["
  let (elements, separators) ← listed ctx "]" (arrayBindingRound p restricted ctx) p.rounds
  let closeLead ← expect ctx "]"
  let span ← finish .arrayPattern start
  return .arrayPattern openLead (.ofList elements) separators closeLead span

/-- One property of an object pattern. A name without a colon is both key and target, and its key
is kept without trivia, since the target carries the only spelling. -/
def bindingProperty (p : Productions) (restricted : Fault) (ctx : Context) :
    Parse (Tree .patternMember) := do
  let start ← here
  let isShorthand ←
    if (← look).isName then pure !((← peek).isPunctuator ":") else pure false
  if isShorthand then
    let id ← bindingName restricted ctx
    let value ← withDefault p ctx start (.namePattern id)
    let span ← finish .property start
    return .patternProperty (.nameKey id.bare) value true "" span
  let name ← key p ctx false
  let colonLead ← expect ctx ":"
  let value ← bindingElement p restricted ctx
  let span ← finish .property start
  return .patternProperty name value false colonLead span

/-- A target for all remaining properties, which is a name. -/
def bindingMemberRest (restricted : Fault) (ctx : Context) : Parse (Tree .patternMember) := do
  let start ← here
  let dotsLead ← expect ctx "..."
  let id ← bindingName restricted ctx
  let t ← look
  if !t.isPunctuator "\x7d" then reject .misplacedRest t.site
  let span ← finish .rest start
  return .restMember dotsLead (.namePattern id) span

/-- One member of an object pattern. -/
def objectBindingRound (p : Productions) (restricted : Fault) (ctx : Context) :
    Parse (Round (Tree .patternMember)) := do
  if ← sees "..." then return .last (← bindingMemberRest restricted ctx)
  return .item (← bindingProperty p restricted ctx)

/-- An object pattern. -/
def objectBinding (p : Productions) (restricted : Fault) (ctx : Context) : Parse Pattern := do
  let start ← here
  let openLead ← expect ctx "\x7b"
  let (members, separators) ← listed ctx "\x7d" (objectBindingRound p restricted ctx) p.rounds
  let closeLead ← expect ctx "\x7d"
  let span ← finish .objectPattern start
  return .objectPattern openLead (.ofList members) separators closeLead span

/-- A name, an array pattern or an object pattern. -/
def binding (p : Productions) (restricted : Fault) (ctx : Context) : Parse Pattern := do
  if ← sees "[" then arrayBinding p restricted ctx
  else if ← sees "\x7b" then objectBinding p restricted ctx
  else return .namePattern (← bindingName restricted ctx)

/-! ## Parameter names -/

/-- Checks parameter names in order: in strict code none is restricted, reserved or repeated, and
in other code none is repeated if `unique`. `seen` holds the names before. -/
def checkParameterNames (strict unique : Bool) (site : Site) (seen : List String) :
    List Ident → Parse Unit
  | [] => return
  | id :: ids => do
    if strict && isRestricted id.name then tolerate .strictParameterName site
    if strict && isStrictReserved id.name then tolerate .strictReservedWord site
    if seen.contains id.name then
      if strict then tolerate .strictRepeatedParameter site
      else if unique then tolerate .repeatedParameter site
    checkParameterNames strict unique site (id.name :: seen) ids

/-- Checks the names that parameters bind. -/
def checkParameters (strict unique : Bool) (site : Site) (params : List Pattern) : Parse Unit :=
  checkParameterNames strict unique site [] (params.flatMap (·.boundNames))

/-- Whether a name occurs twice. -/
def repeatsName (ids : List Ident) : Bool := !decide (ids.map (·.name)).Nodup

end Verbatim.Grammar
