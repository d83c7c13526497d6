import Verbatim.Grammar.Module

/-!
# The language

The productions of every depth, and a whole source.

## Main definitions

* `Verbatim.Productions.deepen` — productions that call the given ones.
* `Verbatim.Productions.ofDepth` — the productions of a given depth.
* `Verbatim.Grammar.program` — a whole source.
-/

namespace Verbatim

/-- The productions that call the given ones on the parts behind their first token. -/
def Productions.deepen (p : Productions) : Productions where
  rounds := p.rounds + 1
  expression := Grammar.expression p
  assignment := Grammar.assignment p
  cover := Grammar.cover p
  binary := Grammar.binary p
  exponentiation := Grammar.exponentiation p
  unary := Grammar.unary p
  chain := Grammar.chain p
  callee := Grammar.callee p
  binding := Grammar.binding p
  statement := Grammar.statement p
  item := Grammar.item p
  markup := Grammar.markup p

/-- The productions of a given depth. -/
def Productions.ofDepth : Nat → Productions
  | 0 => .exhausted
  | depth + 1 => (ofDepth depth).deepen

/-- The productions for a source. Every call of one by another takes a character, and so does every
round of a loop, so neither the depth nor the rounds are ever used up. -/
def Productions.forSource (source : String) : Productions := ofDepth (source.length + 3)

namespace Grammar

open Verbatim.Parse

/-- A whole source. -/
def program (p : Productions) (goal : Goal) (allowsMarkup : Bool) : Parse Program := do
  let ctx := Context.start goal allowsMarkup
  let start ← here
  let (directives, strict) ← prologue p ctx
  let ctx := { ctx with strict }
  let one := match goal with
    | .script => p.item ctx
    | .module => moduleItem p ctx
  let rest ← many Token.isEof one p.rounds
  let tail := (← look).lead
  let span ← finish .program start
  return { goal, body := directives ++ rest, tail, span }

end Grammar

end Verbatim
