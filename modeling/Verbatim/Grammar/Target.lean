import Verbatim.Grammar.Basic
import Verbatim.Tree.Names

/-!
# Expressions that turn out to be targets

Only the token behind an array or object literal, or behind a parenthesised group, tells whether it
was a pattern. So patterns are first read as expressions and then converted; the conversion moves
every piece of trivia and every separator to the same place of the pattern.

A conversion notes the faults that a parse may survive and fails on the others. All of them are
reported at one place, the start of the construct.

## Main definitions

* `Verbatim.Conversion` — conversions and their faults.
* `Verbatim.Category.target` — what the constructs of a kind are converted to.
* `Verbatim.Tree.asTarget` — the conversion.
* `Verbatim.Parse.convert` — a conversion as a step of a parse.
* `Verbatim.Parse.assignmentTarget`, `Verbatim.Parse.simpleTarget` — the left sides of assignments.
-/

namespace Verbatim

open Verbatim.Text

/-- What a target is for. -/
inductive TargetUse where
  /-- Binding: only names may be targets. -/
  | binding
  /-- Assignment: properties may be targets too. -/
  | assignment
deriving DecidableEq, Repr

/-- Conversions: they note faults that may be survived, and fail on others. -/
abbrev Conversion := EStateM Fault (List Fault)

namespace Conversion

/-- Notes a fault that may be survived. -/
def note (fault : Fault) : Conversion Unit := modify (· ++ [fault])

end Conversion

/-- What the constructs of a kind are converted to. -/
@[reducible]
def Category.target : Category → Category
  | .expr => .pattern
  | .member => .patternMember
  | .many c => .many c.target
  | .maybe c => .maybe c.target
  | c => c

namespace TargetUse

/-- The fault of an expression that cannot be a target. -/
def invalid : TargetUse → Fault
  | .binding => .invalidDestructuringTarget
  | .assignment => .invalidAssignmentTarget

/-- The fault of a restricted name in strict code. -/
def restricted : TargetUse → Fault
  | .binding => .strictParameterName
  | .assignment => .strictAssignment

/-- Notes a restricted name in strict code. -/
def checkName (use : TargetUse) (strict : Bool) (id : Ident) : Conversion Unit := do
  if strict && isRestricted id.name then Conversion.note use.restricted

end TargetUse

namespace Tree

/-- A rest target, which has no default. -/
def checkRest (target : Pattern) : Conversion Unit :=
  match target with
  | .defaultPattern .. => throw .defaultedRest
  | _ => pure ()

/-- A rest target in an object pattern, which is a name or an expression. -/
def checkMemberRest (use : TargetUse) (target : Pattern) : Conversion Unit :=
  match target with
  | .namePattern _ | .exprPattern _ => pure ()
  | _ => throw use.invalid

/-- A name with a default, as written in a pattern. -/
def checkDefault (use : TargetUse) (strict : Bool) (target : Pattern) : Conversion Unit := do
  if use = .binding && !target.isBinding then throw use.invalid
  match target with
  | .namePattern id => use.checkName strict id
  | _ => pure ()

/-- Converts an expression to a target, and likewise the members and elements of literals.
`trailing` says of a list that a separator follows its last item, so that the last item is not the
end of the list. -/
def asTarget (use : TargetUse) (strict : Bool) :
    {c : Category} → (trailing : Bool) → Tree c → Conversion (Tree c.target)
  | .expr, _, .identifier id => do
    use.checkName strict id
    return .namePattern id
  | .expr, _, .array lead elements separators closeLead span => do
    let trailing := separators.length ≥ elements.toList.length
    let elements ← elements.asTarget use strict trailing
    return .arrayPattern lead elements separators closeLead span
  | .expr, _, .object lead members separators closeLead span => do
    let trailing := separators.length ≥ members.toList.length
    let members ← members.asTarget use strict trailing
    return .objectPattern lead members separators closeLead span
  | .expr, _, .assignment target opLead .assign value span => do
    checkDefault use strict target
    return .defaultPattern target opLead value span
  | .expr, _, e =>
    match use with
    | .assignment => do
      let isAccess := match e with
        | .memberAccess .. | .parenthesized .. => true
        | _ => false
      if !(isAccess && e.isSimpleTarget) then Conversion.note use.invalid
      return .exprPattern e
    | .binding => throw use.invalid
  | .member, _, .property _ key value kind isMethod isShorthand colonLead span => do
    if isMethod || kind != .plain then throw use.invalid
    let value ← value.asTarget use strict false
    return .patternProperty key value isShorthand colonLead span
  | .many _, _, .nil => return .nil
  | .many (.maybe .expr), trailing, .cons (.present (.spread lead operand span)) tail => do
    if trailing || !tail.toList.isEmpty then throw .misplacedRest
    let target ← operand.asTarget use strict false
    checkRest target
    return .cons (.present (.restPattern lead target span)) .nil
  | .many .member, trailing, .cons (.spreadMember lead operand span) tail => do
    if trailing || !tail.toList.isEmpty then throw .misplacedRest
    let target ← operand.asTarget use strict false
    checkRest target
    checkMemberRest use target
    return .cons (.restMember lead target span) .nil
  | .many _, trailing, .cons head tail => do
    let head ← head.asTarget use strict false
    let tail ← tail.asTarget use strict trailing
    return .cons head tail
  | .maybe _, _, .absent => return .absent
  | .maybe _, _, .present part => return .present (← part.asTarget use strict false)
  | _, _, _ => throw use.invalid

end Tree

namespace Parse

/-- Tolerates faults one after the other, all at one place. -/
def tolerateAll (finder : Finder) (site : Site) : List Fault → Parse Unit
  | [] => return
  | fault :: faults => do
    .ask (.tolerate finder fault site)
    tolerateAll finder site faults

/-- A conversion as a step of a parse. -/
def convertAs {α : Type} (finder : Finder) (site : Site) (conversion : Conversion α) : Parse α :=
  match conversion.run [] with
  | .ok value faults => do
    tolerateAll finder site faults
    return value
  | .error fault faults => do
    tolerateAll finder site faults
    .andThen (.ask (.fail (finder.thrown fault site))) nofun

/-- A conversion whose faults are faults of the grammar. -/
def convert {α : Type} (site : Site) (conversion : Conversion α) : Parse α :=
  convertAs .grammar site conversion

/-- A name or property as target of an assignment. Anything else is a fault that may be
survived. -/
def simpleTarget (ctx : Context) (e : Expr) (start : Token) (fault : Fault) : Parse Pattern := do
  match e with
  | .identifier id =>
    if ctx.strict && isRestricted id.name then tolerate .strictAssignment start.site
    return .namePattern id
  | _ =>
    if !e.isSimpleTarget then tolerate fault start.site
    return .exprPattern e

/-- The left side of a plain assignment: array and object literals are patterns. -/
def assignmentTarget (ctx : Context) (e : Expr) (start : Token) (fault : Fault) :
    Parse Pattern :=
  match e with
  | .array .. | .object .. =>
    convert start.site (e.asTarget .assignment ctx.strict false)
  | _ => simpleTarget ctx e start fault

end Parse

end Verbatim
