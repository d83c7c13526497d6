import Verbatim.Grammar.NodeKind
import Verbatim.Scan.Scanner
import Verbatim.Source.Fault

/-!
# Parsing actions

A parsing action is a finite tree: it has a value, it asks something of the source of tokens, or it
is one action after another. The productions of the grammar are such actions, and a statement about
all of them that follows from how single requests are answered is one induction over `Parse`.

One token of lookahead is held at any time. A request consumes it, looks one token further, or
scans it again under other rules. Nothing in an action catches a failure.

## Main definitions

* `Verbatim.Finder` — what finds a fault, and the errors that it becomes.
* `Verbatim.Request`, `Verbatim.Request.Answer` — what an action may ask, and the answers.
* `Verbatim.Parse` — the actions, which have the operations of a monad.
* `Verbatim.Parse.look`, `Verbatim.Parse.next`, … — the single requests as actions.

## Implementation notes

One action after another is a constructor and not a function that regroups trees, so that each
request is met once when an action is run. The laws of a monad hold of what actions do, and
`Parse.run_bind` is the equation to reason by.
-/

namespace Verbatim

/-- What finds a fault that a parse may survive. -/
inductive Finder where
  /-- A production, or a conversion whose faults are its own. -/
  | grammar
  /-- The conversion of a group to parameters, in which any fault makes the whole group
  malformed. -/
  | parameters
deriving DecidableEq, Repr

namespace Finder

/-- The error that records a fault. -/
def recorded (fault : Fault) (site : Site) : SyntaxError := { stage := .grammar, fault, site }

/-- The error that a fault ends the parse with. -/
def thrown : Finder → Fault → Site → SyntaxError
  | .grammar, fault, site => recorded fault site
  | .parameters, _, site => { stage := .coverGrammar, fault := .malformedParameters, site }

end Finder

/-- What a parsing action may ask. -/
inductive Request where
  /-- The lookahead. -/
  | look
  /-- The lookahead, which is consumed. -/
  | next
  /-- The token after the lookahead; nothing is consumed. -/
  | peek
  /-- To scan the lookahead again under the rules that now hold. -/
  | rescan
  /-- To scan the lookahead again, as a regular expression. -/
  | rescanRegex
  /-- To change which tokens there are. -/
  | setMode (mode : Mode)
  /-- The point after the last consumed token. -/
  | lastEnd
  /-- The first shorthand property with a default that is still to become part of a pattern. -/
  | pending
  /-- To change which shorthand property is pending. -/
  | setPending (site : Option Site)
  /-- What is recorded of the extent between two points. -/
  | span (start stop : Position)
  /-- To report a finished node. -/
  | finish (kind : NodeKind) (span : Span)
  /-- To survive a fault: it is recorded if faults are tolerated, and ends the parse otherwise. -/
  | tolerate (finder : Finder) (fault : Fault) (site : Site)
  /-- To end the parse. -/
  | fail (error : SyntaxError)

/-- What a request is answered by. -/
@[reducible]
def Request.Answer : Request → Type
  | .look | .next | .peek => Token
  | .lastEnd => Position
  | .pending => Option Site
  | .span .. => Span
  | .rescan | .rescanRegex | .setMode _ | .setPending _ | .finish .. | .tolerate .. => Unit
  | .fail _ => Empty

/-- A parsing action with results in the given type. -/
inductive Parse : Type → Type 1 where
  /-- Nothing to ask. -/
  | done {α : Type} (value : α) : Parse α
  /-- A request, whose answer is the result. -/
  | ask (request : Request) : Parse request.Answer
  /-- An action, and how to go on with its result. -/
  | andThen {α β : Type} (first : Parse α) (resume : α → Parse β) : Parse β

namespace Parse

instance : Monad Parse where
  pure := .done
  bind := .andThen

/-! ## Single requests -/

/-- The lookahead. -/
def look : Parse Token := .ask .look

/-- Consumes the lookahead. -/
def next : Parse Token := .ask .next

/-- The token after the lookahead. -/
def peek : Parse Token := .ask .peek

/-- Scans the lookahead again under the rules that now hold. -/
def rescan : Parse Unit := .ask .rescan

/-- Scans the lookahead again as a regular expression. -/
def rescanRegex : Parse Unit := .ask .rescanRegex

/-- Changes which tokens there are. -/
def setMode (mode : Mode) : Parse Unit := .ask (.setMode mode)

/-- The point after the last consumed token. -/
def lastEnd : Parse Position := .ask .lastEnd

/-- The pending shorthand property. -/
def pending : Parse (Option Site) := .ask .pending

/-- Changes which shorthand property is pending. -/
def setPending (site : Option Site) : Parse Unit := .ask (.setPending site)

/-- What is recorded of the extent between two points. -/
def spanBetween (start stop : Position) : Parse Span := .ask (.span start stop)

/-- Reports a finished node. -/
def report (kind : NodeKind) (span : Span) : Parse Unit := .ask (.finish kind span)

/-- Ends the parse. -/
def fail {α : Type} (stage : Stage) (fault : Fault) (site : Site) : Parse α :=
  .andThen (.ask (.fail { stage, fault, site })) nofun

/-- Ends the parse with a fault of the grammar. -/
def reject {α : Type} (fault : Fault) (site : Site) : Parse α := fail .grammar fault site

/-- Records a fault of the grammar if faults are tolerated, and ends the parse otherwise. -/
def tolerate (fault : Fault) (site : Site) : Parse Unit := .ask (.tolerate .grammar fault site)

/-- Ends the parse at the lookahead because a bound on the number of steps was too small. -/
def stalled {α : Type} : Parse α := do fail .grammar .stalled (← look).start.site

end Parse

end Verbatim
