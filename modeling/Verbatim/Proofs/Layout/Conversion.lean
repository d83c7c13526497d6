import Verbatim.Proofs.Layout.Laid
import Verbatim.Proofs.Tree.Conversion

/-!
# Layouts of what is converted

A literal that is converted to a pattern keeps the place of each of its parts, so the pattern is
laid out over the tokens of the literal.

## Main definitions

* `Verbatim.Layout.Recast`, `Verbatim.Layout.RecastAll` — layouts over the same tokens.

## Main results

* `Verbatim.Tree.Becomes.recast` — a tree and what it becomes are laid out over the same tokens.
-/

namespace Verbatim

namespace Layout

/-- What is laid out as the one layout is laid out as the other. -/
def Recast (l l' : Layout) : Prop := ∀ g us, l.Laid g us → l'.Laid g us

/-- Items that are recast one by one. -/
inductive RecastAll : List Layout → List Layout → Prop where
  /-- There are none. -/
  | nil : RecastAll [] []
  /-- The first item and the others. -/
  | cons {l l' : Layout} {items items' : List Layout} (first : l.Recast l')
    (rest : RecastAll items items') : RecastAll (l :: items) (l' :: items')

namespace Recast

variable {l l' m m' : Layout}

theorem refl : l.Recast l := fun _ _ => id

theorem trans (h : l.Recast l') (h' : l'.Recast m) : l.Recast m := fun _ _ hl => h' _ _ (h _ _ hl)

theorem seq (h : l.Recast l') (h' : m.Recast m') : (Layout.seq l m).Recast (.seq l' m') := by
  intro g us hl
  cases hl with
  | seq first rest => exact .seq (h _ _ first) (h' _ _ rest)

theorem node {span : Span} (h : l.Recast l') : (Layout.node span l).Recast (.node span l') := by
  intro g us hl
  cases hl with
  | node inner covers => exact .node (h _ _ inner) covers

theorem shorthand {key : Tree .key} (h : l.Recast l') :
    (Layout.shorthand key l).Recast (.shorthand key l') := by
  intro g us hl
  cases hl with
  | shorthand inner head span => exact .shorthand (h _ _ inner) head span

/-- What is in front of a layout has no tokens. -/
theorem of_loose {text : String} : (Layout.seq (.loose text) l).Recast l := by
  intro g us hl
  cases hl with
  | seq first rest =>
    cases first
    exact rest

theorem part {c d : Category} {t : Tree c} {t' : Tree d}
    (h : (t.shape .standalone).Recast (t'.shape .standalone)) :
    (Layout.part .standalone t).Recast (.part .standalone t') := by
  intro g us hl
  cases hl with
  | part inner => exact .part (h _ _ inner) rfl

/-- Items with separators. -/
theorem joined {items items' : List Layout} (h : RecastAll items items')
    (separators : List String) :
    (Layout.joined items separators).Recast (Layout.joined items' separators) := by
  induction h generalizing separators with
  | nil => exact refl
  | cons first rest ih =>
    cases rest with
    | nil => exact seq first refl
    | cons next rest => exact seq first (seq refl (ih separators.tail))

theorem list {items items' : List Layout} (h : RecastAll items items')
    (separators : List String) : (Layout.list items separators).Recast
    (.list items' separators) := by
  intro g us hl
  cases hl with
  | list inner => exact .list (joined h separators _ _ inner)

end Recast

end Layout

namespace Tree

open Layout

/-- The layouts of the items of a list. -/
def parts : {c : Category} → Tree c → List Layout
  | _, .cons head tail => .part .standalone head :: tail.parts
  | _, _ => []

theorem parts_eq_map {c : Category} (items : Tree (.many c)) :
    items.parts = items.toList.map (.part .standalone) := by
  obtain ⟨l, rfl⟩ : ∃ l, items = ofList l := ⟨_, items.ofList_toList.symm⟩
  rw [toList_ofList]
  induction l with
  | nil => rfl
  | cons head tail ih => exact congrArg _ ih

variable {use : TargetUse} {trailing : Bool}

theorem parts_expr (e : Expr) : e.parts = [] := by
  cases e <;> rfl

/-- A tree and what it becomes are laid out over the same tokens, and so are the items of lists. -/
theorem Becomes.recast_parts {c d : Category} {t : Tree c} {t' : Tree d}
    (h : Becomes use trailing t t') :
    (t.shape .standalone).Recast (t'.shape .standalone) ∧ RecastAll t.parts t'.parts := by
  have hrest : ∀ {k k' : Category} {v : Tree k} {v' : Tree k'},
      (v.shape .standalone).Recast (v'.shape .standalone) →
      ((Tree.cons v .nil).shape .standalone).Recast ((Tree.cons v' .nil).shape .standalone) ∧
        RecastAll (Tree.cons v .nil).parts (Tree.cons v' .nil).parts :=
    fun hv => ⟨.seq (.part hv) (.part .refl), .cons (.part hv) .nil⟩
  induction h with
  | identifier => exact ⟨.refl, .nil⟩
  | @array _ lead elements elements' separators closeLead span _ ih =>
    have hlist := Recast.list ih.2 separators
    rw [parts_eq_map, parts_eq_map] at hlist
    exact ⟨.node (.seq .refl (.seq hlist .refl)), .nil⟩
  | @object _ lead members members' separators closeLead span _ ih =>
    have hlist := Recast.list ih.2 separators
    rw [parts_eq_map, parts_eq_map] at hlist
    exact ⟨.node (.seq .refl (.seq hlist .refl)), .nil⟩
  | assignment => exact ⟨.refl, .nil⟩
  | @other _ e => exact ⟨fun _ _ hl => .part hl rfl, parts_expr e ▸ .nil⟩
  | @property _ mods key value value' isShorthand colonLead span _ ih =>
    refine ⟨?_, .nil⟩
    cases isShorthand with
    | true => exact .node (.shorthand (.part ih.1))
    | false => exact .node (.trans .of_loose (.seq .refl (.seq .refl (.part ih.1))))
  | nil => exact ⟨.refl, .nil⟩
  | cons _ _ _ ih ih' => exact ⟨.seq (.part ih.1) (.part ih'.1), .cons (.part ih.1) ih'.2⟩
  | @restElement lead operand target span _ _ ih =>
    have hspread : ((Tree.spread lead operand span).shape .standalone).Recast
        ((restPattern lead target span).shape .standalone) := .node (.seq .refl (.part ih.1))
    exact hrest (v := .present (.spread lead operand span)) (.part hspread)
  | @restMember lead operand target span _ _ _ ih =>
    exact hrest (v := .spreadMember lead operand span)
      (.node (.seq .refl (.part ih.1)))
  | absent => exact ⟨.refl, .nil⟩
  | present _ ih => exact ⟨.part ih.1, .nil⟩

/-- A tree and what it becomes are laid out over the same tokens. -/
theorem Becomes.recast {c d : Category} {t : Tree c} {t' : Tree d}
    (h : Becomes use trailing t t') :
    (Layout.part .standalone t).Recast (.part .standalone t') := .part h.recast_parts.1

end Tree

end Verbatim
