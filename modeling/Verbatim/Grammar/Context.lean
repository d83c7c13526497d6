import Verbatim.Options.Basic

/-!
# The context of a production

What a construct may contain depends on what surrounds it. The productions take this context as an
argument and hand a changed one to the constructs inside, so it never has to be restored.

## Main definitions

* `Verbatim.Context` — what surrounds a construct.
* `Verbatim.Context.start` — what surrounds a whole source.
* `Verbatim.Context.inside`, `Verbatim.Context.callable`, … — the changes that nesting makes.
-/

namespace Verbatim

/-- What surrounds a construct. -/
structure Context where
  /-- The code is strict. -/
  strict : Bool := false
  /-- The source is a module. -/
  isModule : Bool := false
  /-- Markup may stand as an operand. -/
  allowsMarkup : Bool := true
  /-- The word `in` is an operator; it is none in the head of a loop. -/
  allowsIn : Bool := true
  /-- The word `yield` is an operator. -/
  allowsYield : Bool := false
  /-- The word `await` is an operator. -/
  allowsAwait : Bool := false
  /-- The construct is inside a function. -/
  inFunction : Bool := false
  /-- The construct is inside a loop. -/
  inLoop : Bool := false
  /-- The construct is inside a switch. -/
  inSwitch : Bool := false
  /-- The construct is inside a parameter list. -/
  inParameters : Bool := false
  /-- The labels in scope, innermost first. -/
  labels : List String := []
deriving DecidableEq, Repr

namespace Context

/-- What surrounds a whole source. -/
def start (goal : Goal) (allowsMarkup : Bool) : Context :=
  let isModule := goal = .module
  { strict := isModule, isModule, allowsMarkup, allowsAwait := isModule }

/-- Inside brackets of any kind, `in` is an operator. -/
def inside (ctx : Context) : Context := { ctx with allowsIn := true }

/-- In the head of a loop, `in` is no operator. -/
def loopHead (ctx : Context) : Context := { ctx with allowsIn := false }

/-- In the body of a loop. -/
def loopBody (ctx : Context) : Context := { ctx with inLoop := true }

/-- In the clauses of a switch. -/
def switchBody (ctx : Context) : Context := { ctx with inSwitch := true }

/-- In a statement with a label. -/
def labelled (ctx : Context) (label : String) : Context :=
  { ctx with labels := label :: ctx.labels }

/-- In a class, where all code is strict. -/
def classBody (ctx : Context) : Context := { ctx with strict := true }

/-- In the body of a function, method or accessor. -/
def callable (ctx : Context) (isAsync isGenerator : Bool) : Context :=
  { ctx with
    allowsIn := true
    allowsYield := isGenerator
    allowsAwait := isAsync
    inFunction := true
    inLoop := false
    inSwitch := false
    inParameters := false
    labels := [] }

/-- In the body of an arrow function. Whether `in` is an operator stays as it was. -/
def arrowBody (ctx : Context) (isAsync : Bool) : Context :=
  { ctx with
    allowsYield := false
    allowsAwait := isAsync
    inFunction := true
    inLoop := false
    inSwitch := false
    inParameters := false
    labels := [] }

/-- In the value of a field. -/
def fieldValue (ctx : Context) : Context :=
  { ctx with allowsIn := true, allowsYield := false, allowsAwait := false, inParameters := false }

/-- In a static block. -/
def staticBlock (ctx : Context) : Context :=
  { ctx with
    allowsIn := true
    allowsYield := false
    allowsAwait := false
    inFunction := false
    inLoop := false
    inSwitch := false
    inParameters := false
    labels := [] }

end Context

end Verbatim
