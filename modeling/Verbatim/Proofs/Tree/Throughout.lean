import Verbatim.Proofs.Formed.Tree

/-!
# What holds throughout a tree

A rule that speaks of one construct at a time, whatever surrounds it, holds throughout a tree if it
holds of the tree itself and throughout its parts. So that a tree obeys such a rule is shown where
the tree is put together, and what is known of its parts is known of whatever occurs in it.

## Main definitions

* `Verbatim.Tree.Throughout` — what holds of every construct in a tree.

## Main results

* `Verbatim.Tree.Throughout.of_contains` — it holds of whatever occurs in the tree.
* `Verbatim.Tree.Throughout.mapSpans` — extents have no influence.
-/

namespace Verbatim.Tree

/-- What holds of every construct in a tree. -/
inductive Throughout (P : (c : Category) → Tree c → Prop) : {c : Category} → Tree c → Prop where
  /-- It holds of the tree itself, and throughout its parts. -/
  | intro {c : Category} {t : Tree c} (here : P c t)
    (inParts : ∀ part ∈ t.bareParts, Throughout P part.2) : Throughout P t

namespace Throughout

variable {P : (c : Category) → Tree c → Prop} {c c₁ c₂ c₃ c₄ : Category} {t : Tree c} {t₁ : Tree c₁}
  {t₂ : Tree c₂} {t₃ : Tree c₃} {t₄ : Tree c₄}

theorem here (h : t.Throughout P) : P c t := by
  cases h
  assumption

theorem part (h : t.Throughout P) (part : Sigma Tree) (hmem : part ∈ t.bareParts) :
    part.2.Throughout P := by
  cases h with
  | intro _ inParts => exact inParts part hmem

/-- It holds of whatever occurs in the tree. -/
theorem of_contains {d : Category} {ctx ctx' : Context} {x : Tree d} (h : t.Throughout P)
    (hx : Contains ctx t ctx' x) : P d x := by
  induction hx with
  | whole => exact h.here
  | inPart part mem _ ih =>
    refine ih (h.part part.whole ?_)
    rw [← map_whole_innerParts]
    exact List.mem_map_of_mem mem

/-- What does not depend on extents holds throughout a tree with other extents. -/
theorem mapSpans (g : Span → Span)
    (hP : ∀ {c : Category} {t : Tree c}, P c t → P c (t.mapSpans g)) (h : t.Throughout P) :
    (t.mapSpans g).Throughout P := by
  induction h with
  | intro here _ ih =>
    refine .intro (hP here) fun part hpart => ?_
    rw [bareParts, innerParts_mapSpans, List.map_map] at hpart
    obtain ⟨inner, hinner, rfl⟩ := List.mem_map.1 hpart
    exact ih inner.whole (List.mem_map_of_mem hinner)

/-! ## Trees from parts -/

/-- A construct without parts. -/
theorem leaf (here : P c t) (hparts : t.bareParts = []) : t.Throughout P :=
  .intro here (hparts ▸ List.forall_mem_nil _)

/-- A construct with one part. -/
theorem one (h₁ : t₁.Throughout P) (here : P c t) (hparts : t.bareParts = [⟨_, t₁⟩]) :
    t.Throughout P := by
  refine .intro here ?_
  rw [hparts, List.forall_mem_singleton]
  exact h₁

/-- A construct with two parts. -/
theorem two (h₁ : t₁.Throughout P) (h₂ : t₂.Throughout P) (here : P c t)
    (hparts : t.bareParts = [⟨_, t₁⟩, ⟨_, t₂⟩]) : t.Throughout P := by
  refine .intro here ?_
  rw [hparts, List.forall_mem_cons, List.forall_mem_singleton]
  exact ⟨h₁, h₂⟩

/-- A construct with three parts. -/
theorem three (h₁ : t₁.Throughout P) (h₂ : t₂.Throughout P) (h₃ : t₃.Throughout P) (here : P c t)
    (hparts : t.bareParts = [⟨_, t₁⟩, ⟨_, t₂⟩, ⟨_, t₃⟩]) : t.Throughout P := by
  refine .intro here ?_
  rw [hparts, List.forall_mem_cons, List.forall_mem_cons, List.forall_mem_singleton]
  exact ⟨h₁, h₂, h₃⟩

/-- A construct with four parts. -/
theorem four (h₁ : t₁.Throughout P) (h₂ : t₂.Throughout P) (h₃ : t₃.Throughout P)
    (h₄ : t₄.Throughout P) (here : P c t)
    (hparts : t.bareParts = [⟨_, t₁⟩, ⟨_, t₂⟩, ⟨_, t₃⟩, ⟨_, t₄⟩]) : t.Throughout P := by
  refine .intro here ?_
  rw [hparts, List.forall_mem_cons, List.forall_mem_cons, List.forall_mem_cons,
    List.forall_mem_singleton]
  exact ⟨h₁, h₂, h₃, h₄⟩

/-- A list, if the rule demands nothing of lists as such. -/
theorem ofList {items : List (Tree c)} (hnil : P (.many c) .nil)
    (hcons : ∀ (head : Tree c) (tail : Tree (.many c)), P (.many c) (.cons head tail))
    (h : ∀ x ∈ items, x.Throughout P) : (Tree.ofList items).Throughout P := by
  induction items with
  | nil => exact leaf hnil rfl
  | cons head tail ih =>
    obtain ⟨hhead, htail⟩ := List.forall_mem_cons.1 h
    exact two hhead (ih htail) (hcons _ _) rfl

theorem toList {items : Tree (.many c)} (h : items.Throughout P) :
    ∀ x ∈ items.toList, x.Throughout P := by
  generalize hitems : items.toList = l
  induction l generalizing items with
  | nil => exact List.forall_mem_nil _
  | cons head tail ih =>
    cases items with
    | nil => cases hitems
    | cons first rest =>
      obtain ⟨rfl, rfl⟩ := List.cons.inj hitems
      have hrest := h.part ⟨_, rest⟩ (List.mem_cons_of_mem _ (List.mem_singleton_self _))
      exact List.forall_mem_cons.2 ⟨h.part ⟨_, first⟩ (List.mem_cons_self ..), ih hrest rfl⟩

end Throughout

end Verbatim.Tree
