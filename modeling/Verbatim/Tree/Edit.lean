import Verbatim.Tree.Traverse

/-!
# Edits

Four kinds of leaves can be edited: names, literals, markup texts, and the separators of lists. The
leaves of each kind are numbered in the order of the traversal.

## Main definitions

* `Verbatim.Leaves`, `Verbatim.Program.leaves` — the leaves of a program.
* `Verbatim.Edit`, `Verbatim.Edit.apply` — a change of one leaf or of all leaves of a kind.
-/

namespace Verbatim

/-! ## Listing -/

/-- The leaves of a program, in order. -/
structure Leaves where
  /-- The names. -/
  idents : List Ident := []
  /-- The literals. -/
  literals : List Literal := []
  /-- The markup texts. -/
  texts : List MarkupText := []
  /-- The separators of each list. -/
  lists : List (List String) := []
deriving DecidableEq, Repr

/-- Collects leaves. -/
def Leaves.collect : Visitor (StateM Leaves) :=
  { (Visitor.skip : Visitor (StateM Leaves)) with
    ident := fun id => do
      modify fun l => { l with idents := l.idents ++ [id] }
      return id
    literal := fun lit => do
      modify fun l => { l with literals := l.literals ++ [lit] }
      return lit
    text := fun t => do
      modify fun l => { l with texts := l.texts ++ [t] }
      return t
    separators := fun seps => do
      modify fun l => { l with lists := l.lists ++ [seps] }
      return seps }

/-- The leaves of a program. -/
def Program.leaves (p : Program) : Leaves := ((p.traverse Leaves.collect).run {}).2

/-! ## Editing -/

/-- What is done to a leaf. -/
inductive Change where
  /-- A name is replaced. -/
  | rename (name : String)
  /-- The value of a literal is replaced. -/
  | replace (value : Value)
  /-- A markup text is replaced. -/
  | retext (text : String)
  /-- The separators of a list are replaced. -/
  | separate (separators : List String)
deriving DecidableEq, Repr

/-- A change of the leaf with the given number, or of all leaves of its kind. -/
structure Edit where
  /-- The number of the leaf. -/
  index : Option Nat
  /-- What is done to it. -/
  change : Change
deriving DecidableEq, Repr

/-- What is told of a leaf that was changed. -/
inductive Hit where
  /-- The new spelling. -/
  | spelling (text : String)
  /-- The new number of separators. -/
  | count (size : Nat)
deriving DecidableEq, Repr

namespace Edit

/-- How far an edit has come. -/
structure Progress where
  /-- The number of leaves of the kind that were visited. -/
  visited : Nat := 0
  /-- What is told of those that were changed. -/
  hits : List Hit := []

/-- Visits a leaf of the kind that is edited. -/
def visit {α : Type} (index : Option Nat) (change : α → α) (hit : α → Hit) (leaf : α) :
    StateM Progress α := do
  let s ← get
  if index.all (· == s.visited) then
    let leaf := change leaf
    set ({ visited := s.visited + 1, hits := s.hits ++ [hit leaf] } : Progress)
    return leaf
  else
    set { s with visited := s.visited + 1 }
    return leaf

/-- Visits the leaves of the kind that is edited. -/
def visitor (e : Edit) : Visitor (StateM Progress) :=
  let none : Visitor (StateM Progress) := Visitor.skip
  match e.change with
  | .rename name => { none with ident := visit e.index (·.rename name) (.spelling ·.raw) }
  | .replace value => { none with literal := visit e.index (·.replace value) (.spelling ·.raw) }
  | .retext text => { none with text := visit e.index (·.replace text) (.spelling ·.raw) }
  | .separate separators =>
    { none with separators := visit e.index (fun _ => separators) (.count ·.length) }

/-- Applies an edit: the edited program, and what is told of the leaves that were changed. -/
def apply (e : Edit) (p : Program) : Program × List Hit :=
  let (p, progress) := (p.traverse e.visitor).run {}
  (p, progress.hits)

end Edit

end Verbatim
