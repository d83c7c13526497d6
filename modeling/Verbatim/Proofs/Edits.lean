import Verbatim.Proofs.Extents
import Verbatim.Proofs.Layout.Atoms
import Verbatim.Tree.Edit

/-!
# Edits of a parsed program

Edits of names, literals and texts in markup change nothing of a source but what lies in the extents
of the edited leaves. Each of these is replaced by the new spelling of its leaf, whatever the order
and the number of the edits.

## Main definitions

* `Verbatim.Leaves.of` — the leaves of a kind.
* `Verbatim.Edit.on`, `Verbatim.Program.edited` — what edits make of a leaf, and of a program.
* `Verbatim.Patched` — a text with some of its ranges replaced.

## Main results

* `Verbatim.Edit.apply_flat` — an edit of a program edits its atoms, each by its number.
* `Verbatim.parse_edits` — an edited program prints its source with the edited leaves replaced.
-/

namespace Verbatim

open Verbatim.Layout Verbatim.Text

/-! ## Leaves and edits -/

/-- The leaves of a kind, in order. -/
def Leaves.of (l : Leaves) : LeafKind → List Leaf
  | .name => l.idents.map .name
  | .literal => l.literals.map .literal
  | .text => l.texts.map .text

namespace Change

/-- The kind of leaf that is changed. Separators are no leaf. -/
def kind : Change → Option LeafKind
  | rename _ => some .name
  | replace _ => some .literal
  | retext _ => some .text
  | separate _ => none

/-- What is made of a leaf. -/
def on : Change → Leaf → Leaf
  | rename name, .name id => .name (id.rename name)
  | replace value, .literal lit => .literal (lit.replace value)
  | retext text, .text t => .text (t.replace text)
  | _, leaf => leaf

end Change

namespace Edit

/-- Whether a leaf of the given kind and number is edited. -/
def selects (e : Edit) (kind : LeafKind) (number : Nat) : Bool :=
  e.change.kind == some kind && e.index.all (· == number)

/-- What is made of a leaf with the given number among those of its kind. -/
def on (e : Edit) (number : Nat) (leaf : Leaf) : Leaf :=
  if e.selects leaf.kind number then e.change.on leaf else leaf

end Edit

/-- What edits make of a leaf, one after the other. -/
def Leaf.edited (edits : List Edit) (number : Nat) (leaf : Leaf) : Leaf :=
  edits.foldl (fun leaf e => e.on number leaf) leaf

/-- What edits make of a program, one after the other. -/
def Program.edited (p : Program) (edits : List Edit) : Program :=
  edits.foldl (fun p e => (e.apply p).1) p

section

variable (e : Edit) (edits : List Edit) (number : Nat) (leaf : Leaf)

@[simp]
theorem Change.kind_on (c : Change) : (c.on leaf).kind = leaf.kind := by
  cases c <;> cases leaf <;> rfl

@[simp]
theorem Change.lead_on (c : Change) : (c.on leaf).lead = leaf.lead := by
  cases c <;> cases leaf <;> rfl

@[simp]
theorem Edit.kind_on : (e.on number leaf).kind = leaf.kind := by
  unfold on
  split <;> simp

@[simp]
theorem Edit.lead_on : (e.on number leaf).lead = leaf.lead := by
  unfold on
  split <;> simp

@[simp]
theorem Leaf.lead_edited : (leaf.edited edits number).lead = leaf.lead := by
  induction edits generalizing leaf with
  | nil => rfl
  | cons e edits ih => exact (ih _).trans (e.lead_on number leaf)

/-- A leaf that no edit selects stays as it is. -/
theorem Leaf.edited_eq_self (h : ¬ ∃ e ∈ edits, e.selects leaf.kind number) :
    leaf.edited edits number = leaf := by
  induction edits with
  | nil => rfl
  | cons e edits ih =>
    have he : e.on number leaf = leaf :=
      if_neg fun hs => h ⟨e, List.mem_cons_self, hs⟩
    change (e.on number leaf).edited edits number = leaf
    rw [he]
    exact ih fun ⟨e, he, hs⟩ => h ⟨e, List.mem_cons_of_mem _ he, hs⟩

end

/-! ## Numbered atoms -/

/-- An atom in the place of a token, with its number among the leaves of its kind. -/
structure Slot where
  /-- The token. -/
  token : Token
  /-- The atom. -/
  atom : Atom
  /-- The number; that of a word is of no account. -/
  number : Nat

/-- What is made of the atom in a slot. -/
def Slot.map (f : Nat → Leaf → Leaf) (s : Slot) : Slot :=
  { s with atom := s.atom.visit (m := Id) (f s.number) }

theorem Slot.map_self (s : Slot) : s.map (fun _ leaf => leaf) = s := by
  obtain ⟨t, atom, number⟩ := s
  cases atom <;> rfl

theorem Slot.map_map (f f' : Nat → Leaf → Leaf) (s : Slot) :
    (s.map f).map f' = s.map fun number leaf => f' number (f number leaf) := by
  obtain ⟨t, atom, number⟩ := s
  cases atom <;> rfl

/-- One more leaf of a kind. -/
def bump (count : LeafKind → Nat) (kind : LeafKind) : LeafKind → Nat := fun other =>
  if other = kind then count other + 1 else count other

/-- The leaves in slots are numbered, from the given numbers on. -/
inductive Numbered : (LeafKind → Nat) → List Slot → Prop where
  /-- There is nothing to number. -/
  | nil {count : LeafKind → Nat} : Numbered count []
  /-- A word has no number. -/
  | word {count : LeafKind → Nat} {text : String} {t : Token} {number : Nat} {slots : List Slot}
    (behind : Numbered count slots) : Numbered count (⟨t, .word text, number⟩ :: slots)
  /-- A leaf has the next number. -/
  | leaf {count : LeafKind → Nat} {leaf : Leaf} {t : Token} {slots : List Slot}
    (behind : Numbered (bump count leaf.kind) slots) :
    Numbered count (⟨t, .leaf leaf, count leaf.kind⟩ :: slots)

/-- Atoms can be numbered. -/
theorem Numbered.exists (pairs : List (Token × Atom)) (count : LeafKind → Nat) :
    ∃ slots : List Slot, slots.map (fun s => (s.token, s.atom)) = pairs ∧ Numbered count slots := by
  induction pairs generalizing count with
  | nil => exact ⟨[], rfl, .nil⟩
  | cons pair pairs ih =>
    obtain ⟨t, atom⟩ := pair
    cases atom with
    | word text =>
      obtain ⟨slots, rfl, h⟩ := ih count
      exact ⟨⟨t, .word text, 0⟩ :: slots, rfl, .word h⟩
    | leaf leaf =>
      obtain ⟨slots, rfl, h⟩ := ih (bump count leaf.kind)
      exact ⟨⟨t, .leaf leaf, count leaf.kind⟩ :: slots, rfl, .leaf h⟩

namespace Numbered

variable {count : LeafKind → Nat} {slots : List Slot}

/-- What keeps the kinds of leaves keeps their numbers. -/
theorem map {f : Nat → Leaf → Leaf} (hf : ∀ number leaf, (f number leaf).kind = leaf.kind)
    (h : Numbered count slots) : Numbered count (slots.map (.map f)) := by
  induction h with
  | nil => exact .nil
  | word _ ih => exact .word ih
  | @leaf count leaf t slots _ ih =>
    have hkind := hf (count leaf.kind) leaf
    rw [← hkind] at ih
    have hslot := Numbered.leaf (t := t) ih
    rw [hkind] at hslot
    exact hslot

end Numbered

/-! ## Edits of atoms -/

namespace Edit

variable {e : Edit} {kind : LeafKind}

/-- What is done at a leaf, after some leaves of the kind that is edited. -/
def step (e : Edit) (leaf : Leaf) : StateM Nat Leaf := fun visited =>
  if e.change.kind = some leaf.kind then (e.on visited leaf, visited + 1) else (leaf, visited)

theorem on_eq {leaf : Leaf} (h : e.change.kind = some leaf.kind) (number : Nat) :
    e.on number leaf = if e.index.all (· == number) then e.change.on leaf else leaf := by
  simp [on, selects, h]

theorem on_ne {leaf : Leaf} (h : e.change.kind ≠ some leaf.kind) (number : Nat) :
    e.on number leaf = leaf := by
  simp [on, selects, h]

/-- A leaf of the kind that is edited is changed if its number is that of the edit. -/
theorem visit_eq {α : Type} (index : Option Nat) (change : α → α) (hit : α → Hit) (a : α)
    (s : Progress) :
    visit index change hit a s = if index.all (· == s.visited) then
      (change a, { visited := s.visited + 1, hits := s.hits ++ [hit (change a)] })
    else (a, { s with visited := s.visited + 1 }) := by
  change (if index.all (· == s.visited) then _ else _ : StateM Progress α) s = _
  split <;> rfl

/-- What a step does is what the visitor does. -/
theorem step_visit {α : Type} (wrap : α → Leaf) (change : α → α) (hit : α → Hit) {a : α}
    (hk : e.change.kind = some (wrap a).kind) (hc : e.change.on (wrap a) = wrap (change a))
    (s : Progress) : e.step (wrap a) s.visited =
      (wrap (visit e.index change hit a s).1, (visit e.index change hit a s).2.visited) := by
  rw [visit_eq, step, if_pos hk, on_eq hk, hc]
  split <;> rfl

/-- All that matters of an edit is how many leaves of its kind it has visited. -/
theorem follows (hk : e.change.kind = some kind) : e.visitor.Follows Progress.visited e.step := by
  obtain ⟨index, change⟩ := e
  cases change with
  | rename name =>
    refine ⟨fun leaf s => ?_, fun _ _ => ⟨rfl, rfl⟩, id, fun _ => rfl⟩
    cases leaf with
    | name id => exact step_visit Leaf.name (·.rename name) (.spelling ·.raw) rfl rfl s
    | literal | text => rfl
  | replace value =>
    refine ⟨fun leaf s => ?_, fun _ _ => ⟨rfl, rfl⟩, id, fun _ => rfl⟩
    cases leaf with
    | literal lit => exact step_visit Leaf.literal (·.replace value) (.spelling ·.raw) rfl rfl s
    | name | text => rfl
  | retext text =>
    refine ⟨fun leaf s => ?_, fun _ _ => ⟨rfl, rfl⟩, id, fun _ => rfl⟩
    cases leaf with
    | text t => exact step_visit Leaf.text (·.replace text) (.spelling ·.raw) rfl rfl s
    | name | literal => rfl
  | separate => cases hk

end Edit

/-- An edit of atoms is one of each of them. -/
theorem Numbered.visit {e : Edit} {kind : LeafKind} (hk : e.change.kind = some kind)
    {count : LeafKind → Nat} {slots : List Slot} (h : Numbered count slots) :
    (Visitor.list (Atom.visit e.step) (slots.map (·.atom)) (count kind)).1 =
      (slots.map (Slot.map e.on)).map (·.atom) := by
  induction h with
  | nil => rfl
  | word _ ih => exact congrArg (_ :: ·) ih
  | @leaf count leaf t slots _ ih =>
    have hstep : e.step leaf (count kind) =
      (e.on (count leaf.kind) leaf, bump count leaf.kind kind) := by
      by_cases hkind : leaf.kind = kind
      · subst hkind
        simp [Edit.step, hk, bump]
      · have hne : e.change.kind ≠ some leaf.kind := by simpa [hk] using Ne.symm hkind
        simp [Edit.step, hne, Edit.on_ne hne, bump, Ne.symm hkind]
    change Atom.leaf (e.step leaf (count kind)).1 :: (Visitor.list (Atom.visit e.step) _
      (e.step leaf (count kind)).2).1 = Atom.leaf _ :: _
    rw [hstep]
    exact congrArg (_ :: ·) ih

/-! ## Edits of a program -/

namespace Program

/-- A visit of a program that changes extents by a function is one of its layout. -/
theorem layout_traverse {σ : Type} {v : Visitor (StateM σ)} (hv : ∃ g, v.Moves g)
    (p : Program) (s : σ) :
    (p.traverse v s).1.layout = (p.layout.visit v s).1 ∧
      (p.traverse v s).2 = (p.layout.visit v s).2 := by
  obtain ⟨g, hg⟩ := hv
  have hbody : ∀ (stmts : List Stmt) (s : σ), (Tree.ofList stmts).traverse v s =
      (Tree.ofList (Visitor.list (·.traverse v) stmts s).1,
        (Visitor.list (·.traverse v) stmts s).2) := by
    intro stmts
    induction stmts with
    | nil => exact fun _ => rfl
    | cons stmt stmts ih =>
      intro s
      have htree : (Tree.ofList (stmt :: stmts)).traverse v s =
          (.cons (stmt.traverse v s).1
            ((Tree.ofList stmts).traverse v (stmt.traverse v s).2).1,
            ((Tree.ofList stmts).traverse v (stmt.traverse v s).2).2) := rfl
      rw [htree, ih]
      rfl
  have hlayout : p.layout.visit v s = (Layout.part .standalone
      ((Tree.ofList p.body).traverse v s).1, ((Tree.ofList p.body).traverse v s).2) := rfl
  rw [hlayout, hbody]
  refine ⟨rfl, ?_⟩
  change (v.span p.span (Visitor.list (·.traverse v) p.body s).2).2 = _
  rw [hg]
  rfl

end Program

/-- An edit of a program is one of its atoms. -/
theorem Edit.apply_flat {e : Edit} {kind : LeafKind} (hk : e.change.kind = some kind) {p : Program}
    {slots : List Slot} (hn : Numbered (fun _ => 0) slots)
    (h : Flat p.layout (slots.map (·.atom))) :
    Flat (e.apply p).1.layout ((slots.map (Slot.map e.on)).map (·.atom)) := by
  have hvisits := h.visit (Edit.follows hk) {}
  have hflat := hvisits.flat
  rw [show Progress.visited {} = (fun _ : LeafKind => 0) kind from rfl, hn.visit hk] at hflat
  change Flat (p.traverse e.visitor {}).1.layout _
  rw [(Program.layout_traverse (Edit.follows hk).span p {}).1]
  exact hflat

/-- What edits make of the atoms of a program. -/
theorem Program.edited_flat {edits : List Edit} (hk : ∀ e ∈ edits, e.change.kind.isSome)
    {p : Program}
    {slots : List Slot} (hn : Numbered (fun _ => 0) slots)
    (h : Flat p.layout (slots.map (·.atom))) :
    Flat (p.edited edits).layout ((slots.map (Slot.map (Leaf.edited edits))).map (·.atom)) ∧
      (p.edited edits).tail = p.tail := by
  induction edits generalizing p slots with
  | nil =>
    have hself : slots.map (Slot.map (Leaf.edited [])) = slots :=
      (List.map_congr_left fun s _ => s.map_self).trans (List.map_id slots)
    rw [hself]
    exact ⟨h, rfl⟩
  | cons e edits ih =>
    obtain ⟨kind, hkind⟩ := Option.isSome_iff_exists.1 (hk e List.mem_cons_self)
    obtain ⟨hflat, htail⟩ := ih (fun e he => hk e (List.mem_cons_of_mem _ he))
      (hn.map fun number leaf => e.kind_on number leaf) (Edit.apply_flat hkind hn h)
    have hboth : (slots.map (Slot.map e.on)).map (Slot.map (Leaf.edited edits)) =
        slots.map (Slot.map (Leaf.edited (e :: edits))) := by
      rw [List.map_map]
      exact List.map_congr_left fun s _ => s.map_map _ _
    exact ⟨hboth ▸ hflat, htail⟩

/-! ## The leaves of a program -/

/-- What is done at a leaf when leaves are collected. -/
def Leaf.record (leaf : Leaf) : StateM (LeafKind → List Leaf) Leaf := fun leaves =>
  (leaf, fun kind => if kind = leaf.kind then leaves kind ++ [leaf] else leaves kind)

theorem Leaf.record_snd (leaf : Leaf) (leaves : LeafKind → List Leaf) (kind : LeafKind) :
    (leaf.record leaves).2 kind = if kind = leaf.kind then leaves kind ++ [leaf] else leaves kind :=
  rfl

/-- Leaves are collected by their kinds. -/
theorem Leaves.collect_follows : Leaves.collect.Follows Leaves.of Leaf.record := by
  refine ⟨fun leaf s => ?_, fun _ _ => ⟨rfl, funext fun kind => by cases kind <;> rfl⟩, id,
    fun _ => rfl⟩
  refine Prod.ext (by cases leaf <;> rfl) (funext fun kind => ?_)
  cases leaf with
  | name id =>
    change _ = Leaves.of { s with idents := s.idents ++ [id] } kind
    cases kind <;> simp [Leaf.record, Leaves.of, Leaf.kind]
  | literal lit =>
    change _ = Leaves.of { s with literals := s.literals ++ [lit] } kind
    cases kind <;> simp [Leaf.record, Leaves.of, Leaf.kind]
  | text t =>
    change _ = Leaves.of { s with texts := s.texts ++ [t] } kind
    cases kind <;> simp [Leaf.record, Leaves.of, Leaf.kind]

/-- The leaf of a kind that has a number is that of the slot with this number. -/
theorem Numbered.collected {count : LeafKind → Nat} {slots : List Slot} (h : Numbered count slots)
    (leaves : LeafKind → List Leaf) (hc : ∀ kind, count kind = (leaves kind).length)
    (kind : LeafKind) (number : Nat) (leaf : Leaf) :
    ((Visitor.list (Atom.visit Leaf.record) (slots.map (·.atom)) leaves).2 kind)[number]? =
        some leaf ↔
      (leaves kind)[number]? = some leaf ∨
        ∃ s ∈ slots, s.atom = .leaf leaf ∧ leaf.kind = kind ∧ s.number = number := by
  induction h generalizing leaves with
  | nil => exact (or_iff_left fun ⟨_, hs, _⟩ => absurd hs List.not_mem_nil).symm
  | @word count text t _ slots _ ih =>
    refine (ih leaves hc).trans
      (or_congr_right ⟨fun ⟨s, hs, h⟩ => ⟨s, List.mem_cons_of_mem _ hs, h⟩,
      fun ⟨s, hs, h⟩ => ?_⟩)
    rcases List.mem_cons.1 hs with rfl | hs
    · cases h.1
    · exact ⟨s, hs, h⟩
  | @leaf count next t slots _ ih =>
    have hlist : Visitor.list (Atom.visit Leaf.record) (Atom.leaf next :: slots.map (·.atom)) leaves
      = (.leaf next :: (Visitor.list (Atom.visit Leaf.record) (slots.map (·.atom))
          (next.record leaves).2).1, (Visitor.list (Atom.visit Leaf.record) (slots.map (·.atom))
          (next.record leaves).2).2) := rfl
    have hnext : ((next.record leaves).2 kind)[number]? = some leaf ↔
        (leaves kind)[number]? = some leaf ∨
          next = leaf ∧ leaf.kind = kind ∧ count next.kind = number := by
      by_cases hkind : kind = next.kind
      · subst hkind
        rw [hc, Leaf.record_snd, if_pos rfl]
        rcases Nat.lt_trichotomy number (leaves next.kind).length with hlt | rfl | hlt
        · rw [List.getElem?_append_left hlt]
          exact (or_iff_left fun h => absurd h.2.2 (Nat.ne_of_gt hlt)).symm
        · rw [List.getElem?_concat_length, List.getElem?_eq_none (Nat.le_refl _)]
          constructor
          · rintro ⟨⟩
            exact .inr ⟨rfl, rfl, rfl⟩
          · rintro (h | ⟨rfl, -⟩)
            · cases h
            · rfl
        · rw [List.getElem?_eq_none (by simp; omega), List.getElem?_eq_none (Nat.le_of_lt hlt)]
          exact (or_iff_left fun h => absurd h.2.2 (Nat.ne_of_lt hlt)).symm
      · rw [Leaf.record_snd, if_neg hkind]
        refine ⟨.inl, ?_⟩
        rintro (h | ⟨rfl, rfl, -⟩)
        · exact h
        · exact absurd rfl hkind
    rw [List.map_cons, hlist, ih _ fun kind => ?_, hnext, or_assoc]
    · refine or_congr_right ⟨?_, ?_⟩
      · rintro (⟨rfl, h⟩ | ⟨s, hs, h⟩)
        · exact ⟨_, List.mem_cons_self, rfl, h⟩
        · exact ⟨s, List.mem_cons_of_mem _ hs, h⟩
      · rintro ⟨s, hs, hleaf, h⟩
        rcases List.mem_cons.1 hs with rfl | hs
        · exact .inl ⟨Atom.leaf.inj hleaf, h⟩
        · exact .inr ⟨s, hs, hleaf, h⟩
    · rw [Leaf.record_snd, bump]
      split <;> simp [hc]

/-- The leaves of a kind are the numbered slots of that kind in the layout. -/
theorem Program.leaves_of {p : Program} {slots : List Slot} (hn : Numbered (fun _ => 0) slots)
    (h : Flat p.layout (slots.map (·.atom))) (kind : LeafKind) (number : Nat) (leaf : Leaf) :
    (p.leaves.of kind)[number]? = some leaf ↔
      ∃ s ∈ slots, s.atom = .leaf leaf ∧ leaf.kind = kind ∧ s.number = number := by
  have hstate := (h.visit Leaves.collect_follows {}).state
  rw [← (Program.layout_traverse Leaves.collect_follows.span p {}).2] at hstate
  have hcollected := hn.collected (Leaves.of {}) (fun kind => by cases kind <;> rfl)
    kind number leaf
  rw [← hstate] at hcollected
  have hnone : ((Leaves.of {} kind)[number]? = some leaf) = False :=
    by cases kind <;> simp [Leaves.of]
  rw [hnone, false_or] at hcollected
  exact hcollected

/-! ## Patches -/

/-- A text in which some ranges, one behind the other, are replaced. The text stands at the given
offset of a source. -/
inductive Patched : Nat → List Char → List ((Nat × Nat) × String) → List Char → Prop where
  /-- Nothing is replaced. -/
  | nil {offset : Nat} {text : List Char} : Patched offset text [] text
  /-- What lies in a range is replaced, and what lies in front of it is not. -/
  | cons {offset start stop : Nat} {front old rest new : List Char} {spelling : String}
    {patches : List ((Nat × Nat) × String)} (start_eq : start = offset + byteLength front)
    (stop_eq : stop = start + byteLength old) (notEmpty : old ≠ [])
    (behind : Patched stop rest patches new) :
    Patched offset (front ++ old ++ rest) (((start, stop), spelling) :: patches)
      (front ++ spelling.toList ++ new)

/-- What stands in front of a text is not replaced. -/
theorem Patched.prepend {offset offset' : Nat} {text new : List Char}
    {patches : List ((Nat × Nat) × String)} (h : Patched offset' text patches new)
    {front : List Char} (ho : offset' = offset + byteLength front) :
    Patched offset (front ++ text) patches (front ++ new) := by
  cases h with
  | nil => exact .nil
  | @cons _ start stop front' old rest new spelling patches start_eq stop_eq notEmpty behind =>
    have hstart : start = offset + byteLength (front ++ front') := by
      rw [byteLength_append, start_eq, ho, Nat.add_assoc]
    have hcons : Patched offset (front ++ front' ++ old ++ rest)
      (((start, stop), spelling) :: patches)
        (front ++ front' ++ spelling.toList ++ new) := .cons hstart stop_eq notEmpty behind
    simp only [List.append_assoc] at hcons ⊢
    exact hcons

namespace Slot

/-- An atom stands in the place of its token, and prints what the token spells. -/
structure Stands (g : Span → Span) (s : Slot) : Prop where
  /-- It stands there. -/
  sits : s.atom.Sits g s.token
  /-- It prints what the token spells. -/
  print_eq : s.atom.print = s.token.lead ++ s.token.raw

/-- The range of an edited leaf, and its new spelling. -/
def patch (edits : List Edit) (s : Slot) : Option ((Nat × Nat) × String) :=
  match s.atom with
  | .word _ => none
  | .leaf leaf => if edits.any (·.selects leaf.kind s.number) then
      some (s.token.range, (leaf.edited edits s.number).raw)
    else none

theorem patch_eq_some {edits : List Edit} {s : Slot} {x : (Nat × Nat) × String} :
    s.patch edits = some x ↔ ∃ leaf, s.atom = .leaf leaf ∧
      (∃ e ∈ edits, e.selects leaf.kind s.number) ∧
      x = (s.token.range, (leaf.edited edits s.number).raw) := by
  obtain ⟨t, atom, number⟩ := s
  cases atom with
  | word => simp [patch]
  | leaf leaf => simp [patch, @eq_comm _ _ x]

variable {g : Span → Span} {slots : List Slot}

/-- If some atoms print together what their tokens spell, then each of them does. -/
theorem stands (h : ∀ s ∈ slots, s.atom.Sits g s.token)
    (hp : concat (slots.map (·.atom.print)) = textOf (slots.map (·.token))) :
    ∀ s ∈ slots, s.Stands g := by
  rw [textOf, List.map_map] at hp
  exact fun s hs => ⟨h s hs, eq_of_concat_eq (fun s hs => (h s hs).print_length_le) hp s hs⟩

end Slot

/-- Atoms that are edited in a divided text print it with the edited leaves replaced. -/
theorem Divided.patched {g : Span → Span} {offset offset' : Nat} {text rest : List Char}
    {slots : List Slot} (h : Divided offset text (slots.map (·.token)) offset' rest)
    (hs : ∀ s ∈ slots, s.Stands g) (edits : List Edit) :
    Patched offset text (slots.filterMap (·.patch edits))
      ((concat (slots.map fun s => (s.map (Leaf.edited edits)).atom.print)).toList ++ rest) := by
  induction slots generalizing offset text with
  | nil =>
    cases h with
    | nil => exact .nil
  | cons s slots ih =>
    obtain ⟨t, atom, number⟩ := s
    cases h with
    | @cons _ _ lead raw rest' _ _ _ trivia notEmpty lead_eq raw_eq start stop behind =>
      have hrest := ih behind fun s hs' => hs s (List.mem_cons_of_mem _ hs')
      obtain ⟨hsits, hprint⟩ := hs _ List.mem_cons_self
      have hstop : t.stop.offset = offset + byteLength (lead ++ raw) := by
        rw [byteLength_append, stop, start, Nat.add_assoc]
      have hlead : t.lead.toList = lead := by rw [lead_eq, String.toList_ofList]
      have hraw : t.raw.toList = raw := by rw [raw_eq, String.toList_ofList]
      rw [List.map_cons, concat_cons, String.toList_append, List.append_assoc _ _ rest]
      cases hsits with
      | word =>
        change Patched offset _ (slots.filterMap _) ((Atom.print (.word _)).toList ++ _)
        rw [hprint, String.toList_append, hlead, hraw]
        exact hrest.prepend hstop
      | @leaf leaf _ hl hr =>
        change Patched offset _ _ ((Atom.print (.leaf (leaf.edited edits number))).toList ++ _)
        rw [Atom.print, Leaf.lead_edited, hl, String.toList_append, hlead]
        by_cases hselect : edits.any (·.selects leaf.kind number) = true
        · have hpatch : Slot.patch edits ⟨t, .leaf leaf, number⟩ =
              some (t.range, (leaf.edited edits number).raw) := if_pos hselect
          rw [List.filterMap_cons_some hpatch]
          exact .cons start stop notEmpty hrest
        · have hpatch : Slot.patch edits ⟨t, .leaf leaf, number⟩ = none := if_neg hselect
          rw [List.filterMap_cons_none hpatch, leaf.edited_eq_self _ _ (by simpa using hselect), hr,
            hraw]
          exact hrest.prepend hstop

/-! ## Edits of a parse -/

/-- A range of a program is that of a leaf that edits select, and they spell the leaf as given. -/
def Program.Replaces (p : Program) (edits : List Edit) (range : Nat × Nat) (spelling : String) :
    Prop :=
  ∃ kind number leaf, (p.leaves.of kind)[number]? = some leaf ∧
    (∃ e ∈ edits, e.selects kind number) ∧ leaf.span.range = some range ∧
    spelling = (leaf.edited edits number).raw

/-- Edits of leaves replace what the source is in the ranges of the leaves that they select by the
new spellings of these leaves, and nothing else. Every leaf has a range. -/
theorem parse_edits (o : Options) (source : String) (out : Parsed) (hr : o.range = true)
    (h : parse o source = .ok out) (hp : out.program.print = source) (edits : List Edit)
    (he : ∀ e ∈ edits, e.change.kind.isSome) :
    (∀ kind, ∀ leaf ∈ out.program.leaves.of kind, leaf.span.range.isSome) ∧
      ∃ patches, Patched 0 source.toList patches (out.program.edited edits).print.toList ∧
        ∀ range spelling, (range, spelling) ∈ patches ↔
          out.program.Replaces edits range spelling := by
  obtain ⟨r, rfl⟩ := Reading.of_parse h
  obtain ⟨first, last, hcourse⟩ := r.along
  obtain ⟨pairs, htokens, hflat, hpairs⟩ := hcourse.laid.flat
  obtain ⟨slots, rfl, hnumbered⟩ := Numbered.exists pairs fun _ => 0
  rw [List.map_map] at htokens hflat
  replace htokens : slots.map (·.token) = (consumed o source).map (·.1) := htokens
  replace hflat : Flat (Parsed.select o r.program r.last).program.layout
    (slots.map (·.atom)) := hflat
  have hsits : ∀ s ∈ slots, s.atom.Sits (·.select o) s.token := fun s hs =>
    hpairs _ (List.mem_map_of_mem hs)
  have hspan : ∀ s ∈ slots, ∀ leaf, s.atom = .leaf leaf → leaf.span.range = some s.token.range := by
    intro s hs leaf hleaf
    have hsit := hsits s hs
    rw [hleaf] at hsit
    cases hsit with
    | leaf _ _ span =>
      rw [span]
      exact if_pos hr
  have hprint := hflat.print_eq
  have htail : (Parsed.select o r.program r.last).program.tail = r.program.tail := rfl
  rw [r.print_layout htail hp, List.map_map, ← htokens] at hprint
  have hstands := Slot.stands hsits hprint.symm
  have hleaves := Program.leaves_of hnumbered hflat
  refine ⟨fun kind leaf hleaf => ?_, slots.filterMap (·.patch edits), ?_, fun range spelling => ?_⟩
  · obtain ⟨number, hnumber⟩ := List.getElem?_of_mem hleaf
    obtain ⟨s, hs, hatom, -⟩ := (hleaves kind number leaf).1 hnumber
    rw [hspan s hs leaf hatom]
    rfl
  · obtain ⟨hedited, hsame⟩ := Program.edited_flat he hnumbered hflat
    have hdivided := r.divided
    rw [← htokens] at hdivided
    rw [Program.print, ← Program.print_layout, hedited.print_eq, hsame, htail, r.tail_spec.1,
      String.toList_append, String.toList_ofList, List.map_map, List.map_map]
    exact hdivided.patched hstands edits
  · rw [List.mem_filterMap]
    constructor
    · rintro ⟨s, hs, hpatch⟩
      obtain ⟨leaf, hatom, hselect, heq⟩ := Slot.patch_eq_some.1 hpatch
      obtain ⟨rfl, rfl⟩ := Prod.mk.inj heq
      exact ⟨leaf.kind, s.number, leaf, (hleaves _ _ _).2 ⟨s, hs, hatom, rfl, rfl⟩, hselect,
        hspan s hs leaf hatom, rfl⟩
    · rintro ⟨kind, number, leaf, hleaf, hselect, hrange, rfl⟩
      obtain ⟨s, hs, hatom, rfl, rfl⟩ := (hleaves kind number leaf).1 hleaf
      rw [hspan s hs leaf hatom] at hrange
      cases hrange
      exact ⟨s, hs, Slot.patch_eq_some.2 ⟨leaf, hatom, hselect, rfl⟩⟩

/-- A name behind a literal, and the literal. -/
theorem parse_edits_sum : ∃ out patches, parse { range := true } "f(1) /*a*/ + b" = .ok out ∧
    out.program.print = "f(1) /*a*/ + b" ∧
    (out.program.edited [⟨some 1, .rename "cc"⟩, ⟨some 0, .replace (.boolean true)⟩]).print =
      "f(true) /*a*/ + cc" ∧
    Patched 0 "f(1) /*a*/ + b".toList patches "f(true) /*a*/ + cc".toList ∧
    ∀ range spelling, (range, spelling) ∈ patches ↔ out.program.Replaces
      [⟨some 1, .rename "cc"⟩, ⟨some 0, .replace (.boolean true)⟩] range spelling := by
  obtain ⟨out, h⟩ : ∃ out, parse { range := true } "f(1) /*a*/ + b" = .ok out :=
    exists_of_isOk (by decide +kernel)
  have hprints : (parse { range := true } "f(1) /*a*/ + b").toOption.map (fun out =>
      (out.program.print, (out.program.edited
        [⟨some 1, .rename "cc"⟩, ⟨some 0, .replace (.boolean true)⟩]).print)) =
      some ("f(1) /*a*/ + b", "f(true) /*a*/ + cc") := by decide +kernel
  rw [h] at hprints
  obtain ⟨hprint, hedited⟩ := Prod.mk.inj (Option.some.inj hprints)
  obtain ⟨-, patches, hpatched, hall⟩ := parse_edits { range := true } _ out rfl h hprint
    [⟨some 1, .rename "cc"⟩, ⟨some 0, .replace (.boolean true)⟩] (by decide)
  rw [hedited] at hpatched
  exact ⟨out, patches, h, hprint, hedited, hpatched, hall⟩

end Verbatim
