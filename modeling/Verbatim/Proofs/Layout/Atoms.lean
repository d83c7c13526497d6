import Verbatim.Proofs.Layout.Laid

/-!
# The atoms of a layout

Below all of its parts, a layout consists of single words, marks and leaves, and it prints these one
behind the other. A visit visits the leaves in this order, and changes nothing else. If a layout is
laid out over tokens, then it has one atom for each of them.

## Main definitions

* `Verbatim.Leaf`, `Verbatim.LeafKind` — the leaves that can be edited.
* `Verbatim.Atom` — words, marks and leaves.
* `Verbatim.Layout.Flat` — the atoms of a layout, one behind the other.
* `Verbatim.Atom.Sits` — an atom in the place of a token.
* `Verbatim.Visitor.Follows` — what a visitor does at leaves, as far as it can be observed.

## Main results

* `Verbatim.Layout.Flat.print_eq` — a layout prints its atoms.
* `Verbatim.Layout.Flat.visit` — a visit visits the atoms.
* `Verbatim.Layout.Laid.flat` — there is one atom for each token.
-/

namespace Verbatim

/-- What kind of leaf can be edited. -/
inductive LeafKind where
  /-- A name. -/
  | name
  /-- A literal. -/
  | literal
  /-- Text in markup. -/
  | text
deriving DecidableEq, Repr

/-- A leaf that can be edited. -/
inductive Leaf where
  /-- A name. -/
  | name (id : Ident)
  /-- A literal. -/
  | literal (lit : Literal)
  /-- Text in markup. -/
  | text (t : MarkupText)
deriving DecidableEq, Repr

namespace Leaf

/-- The kind of a leaf. -/
def kind : Leaf → LeafKind
  | name _ => .name
  | literal _ => .literal
  | text _ => .text

/-- The trivia in front of a leaf; there is none in front of text in markup. -/
def lead : Leaf → String
  | name id => id.lead
  | literal lit => lit.lead
  | text _ => ""

/-- The spelling of a leaf. -/
def raw : Leaf → String
  | name id => id.raw
  | literal lit => lit.raw
  | text t => t.raw

/-- The extent of a leaf. -/
def span : Leaf → Span
  | name id => id.span
  | literal lit => lit.span
  | text t => t.span

/-- The layout of a leaf. -/
def layout : Leaf → Layout
  | name id => .ident id
  | literal lit => .literal lit
  | text t => .markup t

theorem print_layout (leaf : Leaf) : leaf.layout.print = leaf.lead ++ leaf.raw := by
  cases leaf with
  | name | literal => rfl
  | text t => exact String.empty_append.symm

end Leaf

/-- What a visitor does at a leaf. -/
def Visitor.leaf {m : Type → Type} [Monad m] (v : Visitor m) : Leaf → m Leaf
  | .name id => return .name (← v.ident id)
  | .literal lit => return .literal (← v.literal lit)
  | .text t => return .text (← v.text t)

/-- A word, a mark or a leaf. -/
inductive Atom where
  /-- A word or mark with its trivia. -/
  | word (text : String)
  /-- A leaf. -/
  | leaf (leaf : Leaf)

namespace Atom

/-- What is printed of an atom. -/
def print : Atom → String
  | word text => text
  | leaf l => l.lead ++ l.raw

/-- Words and marks are not visited. -/
def visit {m : Type → Type} [Monad m] (step : Leaf → m Leaf) : Atom → m Atom
  | word text => return .word text
  | leaf l => return .leaf (← step l)

/-- An atom stands in the place of a token. -/
inductive Sits (g : Span → Span) : Atom → Token → Prop where
  /-- A word or mark. -/
  | word {shown text : String} {t : Token} (text_eq : text = t.lead ++ shown)
    (le : shown.length ≤ t.raw.length) : Sits g (.word text) t
  /-- A leaf. -/
  | leaf {l : Leaf} {t : Token} (lead : l.lead = t.lead) (raw : l.raw = t.raw)
    (span : l.span = g (.between t.start t.stop)) (kind : l.kind = .text → t.kind = .markupText) :
    Sits g (.leaf l) t

/-- An atom prints no more than its token spells. -/
theorem Sits.print_length_le {g : Span → Span} {a : Atom} {t : Token} (h : a.Sits g t) :
    a.print.length ≤ (t.lead ++ t.raw).length := by
  cases h with
  | word text_eq le =>
    rw [print, text_eq, String.length_append, String.length_append]
    omega
  | leaf lead raw => exact Nat.le_of_eq (by rw [print, lead, raw])

end Atom

namespace Layout

/-- The atoms of a layout, one behind the other. Layouts with texts that belong to no token have
none, and neither have those with parts that are not printed. -/
inductive Flat : Layout → List Atom → Prop where
  /-- A word or mark. -/
  | token {text : String} : Flat (.token text) [.word text]
  /-- No text. -/
  | loose : Flat (.loose "") []
  /-- A leaf. -/
  | leaf {leaf : Leaf} : Flat leaf.layout [.leaf leaf]
  /-- A part. -/
  | part {c : Category} {s : Setting} {t : Tree c} {atoms : List Atom}
    (inner : Flat (t.shape s) atoms) : Flat (.part s t) atoms
  /-- One thing behind another. -/
  | seq {l l' : Layout} {as bs : List Atom} (first : Flat l as) (rest : Flat l' bs) :
    Flat (.seq l l') (as ++ bs)
  /-- Items with separators. -/
  | list {items : List Layout} {separators : List String} {atoms : List Atom}
    (inner : Flat (joined items separators) atoms) : Flat (.list items separators) atoms
  /-- What an extent covers. -/
  | node {span : Span} {l : Layout} {atoms : List Atom} (inner : Flat l atoms) :
    Flat (.node span l) atoms
  /-- What an extent separates. -/
  | gap {span : Span} {l l' : Layout} {as bs : List Atom} (first : Flat l as) (rest : Flat l' bs) :
    Flat (.gap span l l') (as ++ bs)
  /-- Nothing that is not printed. -/
  | hidden : Flat (.hidden blank) []
  /-- A shorthand property. -/
  | shorthand {id : Ident} {l : Layout} {atoms : List Atom} (inner : Flat l atoms) :
    Flat (.shorthand (.nameKey id) l) atoms

namespace Flat

variable {l : Layout} {atoms : List Atom}

/-- A layout prints its atoms. -/
theorem print_eq (h : Flat l atoms) : l.print = concat (atoms.map Atom.print) := by
  induction h with
  | token => simp [print, Atom.print]
  | leaf => simp [Leaf.print_layout, Atom.print]
  | loose | hidden => rfl
  | @part c s t _ _ ih => exact (Tree.print_shape s t).symm.trans ih
  | seq _ _ ih ih' | gap _ _ ih ih' => rw [print, ih, ih', List.map_append, concat_append]
  | list _ ih =>
    rw [print_joined, ← prints_eq_map] at ih
    exact ih
  | node _ ih | shorthand _ ih => exact ih

end Flat

/-- A layout has one atom in the place of each of the given tokens. -/
def FlatOver (g : Span → Span) (l : Layout) (tokens : List Token) : Prop :=
  ∃ pairs : List (Token × Atom), pairs.map (·.1) = tokens ∧ Flat l (pairs.map (·.2)) ∧
    ∀ p ∈ pairs, p.2.Sits g p.1

namespace FlatOver

variable {g : Span → Span} {l l' m : Layout} {ts us : List Token}

theorem single {t : Token} {a : Atom} (h : Flat l [a]) (ha : a.Sits g t) : FlatOver g l [t] :=
  ⟨[(t, a)], rfl, h, fun _ hp => List.mem_singleton.1 hp ▸ ha⟩

theorem nil (h : Flat l []) : FlatOver g l [] :=
  ⟨[], rfl, h, fun _ hp => absurd hp List.not_mem_nil⟩

theorem imp (h : FlatOver g l ts) (hm : ∀ as, Flat l as → Flat m as) : FlatOver g m ts := by
  obtain ⟨pairs, htokens, hflat, hsits⟩ := h
  exact ⟨pairs, htokens, hm _ hflat, hsits⟩

theorem append (h : FlatOver g l ts) (h' : FlatOver g l' us)
    (hm : ∀ as bs, Flat l as → Flat l' bs → Flat m (as ++ bs)) : FlatOver g m (ts ++ us) := by
  obtain ⟨ps, rfl, hflat, hsits⟩ := h
  obtain ⟨qs, rfl, hflat', hsits'⟩ := h'
  refine ⟨ps ++ qs, List.map_append, ?_, fun p hp => ?_⟩
  · rw [List.map_append]
    exact hm _ _ hflat hflat'
  · exact (List.mem_append.1 hp).elim (hsits p) (hsits' p)

end FlatOver

/-- A layout over tokens has one atom in the place of each of them. -/
theorem Laid.flat {g : Span → Span} {l : Layout} {tokens : List Token} (h : l.Laid g tokens) :
    FlatOver g l tokens := by
  induction h with
  | token text_eq le => exact FlatOver.single Flat.token (Atom.Sits.word text_eq le)
  | @ident id _ lead raw span =>
    exact FlatOver.single (@Flat.leaf (.name id)) (Atom.Sits.leaf lead raw span nofun)
  | @literal lit _ lead raw span =>
    exact FlatOver.single (@Flat.leaf (.literal lit)) (Atom.Sits.leaf lead raw span nofun)
  | @markup x _ kind lead raw span =>
    exact FlatOver.single (@Flat.leaf (.text x)) (Atom.Sits.leaf lead.symm raw span fun _ => kind)
  | part _ _ ih => exact ih.imp fun _ => .part
  | list _ ih => exact ih.imp fun _ => .list
  | node _ _ ih => exact ih.imp fun _ => .node
  | shorthand _ _ _ ih => exact ih.imp fun _ => .shorthand
  | seq _ _ ih ih' => exact ih.append ih' fun _ _ => .seq
  | gap _ _ _ _ _ ih ih' => exact ih.append ih' fun _ _ => .gap
  | loose => exact FlatOver.nil Flat.loose
  | hidden => exact FlatOver.nil Flat.hidden

end Layout

/-! ## Visits -/

section

variable {σ τ : Type}

/-- What a visitor does at leaves can be observed of its states. It changes extents by a function
and no separators. -/
structure Visitor.Follows (v : Visitor (StateM σ)) (observe : σ → τ) (step : Leaf → StateM τ Leaf) :
    Prop where
  /-- At a leaf. -/
  leaf : ∀ leaf s, step leaf (observe s) = ((v.leaf leaf s).1, observe (v.leaf leaf s).2)
  /-- At separators. -/
  separators : ∀ separators s, (v.separators separators s).1 = separators ∧
    observe (v.separators separators s).2 = observe s
  /-- At extents. -/
  span : ∃ g, v.Moves g

/-- Visiting some things behind others. -/
theorem Visitor.list_append {α : Type} (visit : α → StateM σ α) (as bs : List α) (s : σ) :
    Visitor.list visit (as ++ bs) s = (let (as', s₁) := Visitor.list visit as s
      let (bs', s₂) := Visitor.list visit bs s₁
      (as' ++ bs', s₂)) := by
  induction as generalizing s with
  | nil => rfl
  | cons a as ih =>
    have hstep : Visitor.list visit (a :: (as ++ bs)) s =
        ((visit a s).1 :: (Visitor.list visit (as ++ bs) (visit a s).2).1,
          (Visitor.list visit (as ++ bs) (visit a s).2).2) := rfl
    rw [List.cons_append, hstep, ih]
    rfl

variable {v : Visitor (StateM σ)} {observe : σ → τ} {step : Leaf → StateM τ Leaf}

/-- What a visit makes of a layout and its atoms. -/
structure Layout.Visits (v : Visitor (StateM σ)) (observe : σ → τ) (step : Leaf → StateM τ Leaf)
    (l : Layout) (atoms : List Atom) (s : σ) : Prop where
  /-- The atoms are visited. -/
  flat : Flat (l.visit v s).1 (Visitor.list (Atom.visit step) atoms (observe s)).1
  /-- The states can be observed. -/
  state : observe (l.visit v s).2 = (Visitor.list (Atom.visit step) atoms (observe s)).2

/-- A visit of a layout visits its atoms. -/
theorem Layout.Flat.visit (hv : v.Follows observe step) {l : Layout} {atoms : List Atom}
    (h : Flat l atoms) (s : σ) : l.Visits v observe step atoms s := by
  obtain ⟨g, hg⟩ := hv.span
  induction h generalizing s with
  | token => exact ⟨.token, rfl⟩
  | loose => exact ⟨.loose, rfl⟩
  | @leaf leaf =>
    have hvisit : leaf.layout.visit v s = ((v.leaf leaf s).1.layout, (v.leaf leaf s).2) := by
      cases leaf <;> rfl
    have hlist : Visitor.list (Atom.visit step) [.leaf leaf] (observe s) =
        ([.leaf (v.leaf leaf s).1], observe (v.leaf leaf s).2) := by
      change ([Atom.leaf (step leaf (observe s)).1], (step leaf (observe s)).2) = _
      rw [hv.leaf]
    constructor
    · rw [hvisit, hlist]
      exact .leaf
    · rw [hvisit, hlist]
  | @part c setting t atoms _ ih =>
    have hshape := congrFun (Tree.shape_traverse hg setting t) s
    obtain ⟨hflat, hstate⟩ := ih s
    rw [← hshape] at hflat hstate
    exact ⟨.part hflat, hstate⟩
  | @seq l l' as bs _ _ ih ih' =>
    obtain ⟨hflat, hstate⟩ := ih s
    obtain ⟨hflat', hstate'⟩ := ih' (l.visit v s).2
    rw [hstate] at hflat' hstate'
    constructor
    · rw [Visitor.list_append]
      exact .seq hflat hflat'
    · rw [Visitor.list_append]
      exact hstate'
  | @list items separators atoms _ ih =>
    obtain ⟨hsame, hobserve⟩ := hv.separators separators s
    obtain ⟨hflat, hstate⟩ := ih (v.separators separators s).2
    rw [visit_joined] at hflat hstate
    rw [hobserve] at hflat hstate
    have hvisit : (Layout.list items separators).visit v s =
        (Layout.list (visits v items (v.separators separators s).2).1 separators,
          (visits v items (v.separators separators s).2).2) := by
      change (Layout.list _ (v.separators separators s).1, _) = _
      rw [hsame]
    constructor
    · rw [hvisit]
      exact .list hflat
    · rw [hvisit]
      exact hstate
  | @node span l atoms _ ih =>
    obtain ⟨hflat, hstate⟩ := ih s
    have hvisit : (Layout.node span l).visit v s =
        (Layout.node (g span) (l.visit v s).1, (l.visit v s).2) := by
      rw [Layout.visit, hg]
      rfl
    constructor
    · rw [hvisit]
      exact .node hflat
    · rw [hvisit]
      exact hstate
  | @gap span l l' as bs _ _ ih ih' =>
    obtain ⟨hflat, hstate⟩ := ih s
    obtain ⟨hflat', hstate'⟩ := ih' (l.visit v s).2
    rw [hstate] at hflat' hstate'
    have hvisit : (Layout.gap span l l').visit v s =
        (Layout.gap (g span) (l.visit v s).1 (l'.visit v (l.visit v s).2).1,
          (l'.visit v (l.visit v s).2).2) := by
      rw [Layout.visit, hg]
      rfl
    constructor
    · rw [hvisit, Visitor.list_append]
      exact .gap hflat hflat'
    · rw [hvisit, Visitor.list_append]
      exact hstate'
  | hidden => exact ⟨.hidden, rfl⟩
  | @shorthand id l atoms _ ih =>
    obtain ⟨hflat, hstate⟩ := ih s
    have hvisit : (Layout.shorthand (.nameKey id) l).visit v s =
        (Layout.shorthand (.nameKey { id with span := g id.span }) (l.visit v s).1,
          (l.visit v s).2) := by
      have hkey : (Tree.nameKey id).traverse v.hidden = pure
        (.nameKey { id with span := g id.span }) := by
        change (do
          let id ← (do
            let span ← v.span id.span
            return { id with span })
          return Tree.nameKey id) = _
        simp [hg _]
      rw [Layout.visit, hkey]
      rfl
    constructor
    · rw [hvisit]
      exact .shorthand hflat
    · rw [hvisit]
      exact hstate

end

end Verbatim
