/-!
# Parse options

What a source is parsed as, which records are kept, and which faults are survived.

## Main definitions

* `Verbatim.Goal` — script or module.
* `Verbatim.Options` — the options of a parse, with their defaults.
-/

namespace Verbatim

/-- What a source is parsed as. -/
inductive Goal where
  /-- A classic script: sloppy code unless it asks to be strict, and no imports or exports. -/
  | script
  /-- A module: strict code, with imports and exports. -/
  | module
deriving DecidableEq, Repr, Inhabited

/-- The options of a parse. -/
structure Options where
  /-- Script or module. -/
  goal : Goal := .script
  /-- Record byte ranges in spans. -/
  range : Bool := false
  /-- Record lines and columns in spans. -/
  location : Bool := false
  /-- The label of the source in errors and locations. -/
  source : Option String := none
  /-- Collect the tokens. -/
  tokens : Bool := false
  /-- Collect the comments. -/
  comments : Bool := false
  /-- Record faults that parsing can survive instead of failing. -/
  tolerant : Bool := false
  /-- Accept markup in expressions. -/
  jsx : Bool := true
deriving DecidableEq, Repr, Inhabited

/-- Whether the goal is a module. -/
def Options.isModule (o : Options) : Bool := o.goal = .module

end Verbatim
