import Verbatim.Proofs.Layout.Laid

/-!
# Parts of a layout

What a layout consists of occurs in it, at any depth. If a layout is laid out over tokens and prints
what they spell, then each of its parts is laid out over some of these tokens, one behind the other,
and prints what they spell.

## Main definitions

* `Verbatim.Layout.Within` — a layout that occurs in another one.
* `Verbatim.Layout.HasExtent` — the extent of what a layout lays out.
* `Verbatim.Layout.HasSpan` — an extent that occurs in a layout.

## Main results

* `Verbatim.Layout.Laid.within` — the parts of a layout print what their tokens spell.
* `Verbatim.Layout.Laid.covers` — the extent of a layout reaches from its first to its last token.
-/

namespace Verbatim

/-- Texts that are no longer than others are these if they are the same together. -/
theorem eq_and_eq_of_append_eq {a b a' b' : String} (h : a ++ b = a' ++ b')
    (ha : a.length ≤ a'.length) (hb : b.length ≤ b'.length) : a = a' ∧ b = b' := by
  have hlength := congrArg String.length h
  rw [String.length_append, String.length_append] at hlength
  have hchars := congrArg String.toList h
  rw [String.toList_append, String.toList_append] at hchars
  obtain ⟨ha, hb⟩ := List.append_inj hchars (by simp only [String.length_toList]; omega)
  exact ⟨String.toList_inj.1 ha, String.toList_inj.1 hb⟩

/-- The same for the texts of some items. -/
theorem eq_of_concat_eq {α : Type} {f g : α → String} {items : List α}
    (hle : ∀ a ∈ items, (f a).length ≤ (g a).length)
    (h : concat (items.map f) = concat (items.map g)) : ∀ a ∈ items, f a = g a := by
  have hall : ∀ items : List α, (∀ a ∈ items, (f a).length ≤ (g a).length) →
      (concat (items.map f)).length ≤ (concat (items.map g)).length := by
    intro items hle
    induction items with
    | nil => exact Nat.le_refl _
    | cons a items ih =>
      obtain ⟨ha, hitems⟩ := List.forall_mem_cons.1 hle
      have hrest := ih hitems
      rw [List.map_cons, List.map_cons, concat_cons, concat_cons, String.length_append,
        String.length_append]
      omega
  induction items with
  | nil => exact fun _ ha => absurd ha List.not_mem_nil
  | cons a items ih =>
    obtain ⟨ha, hitems⟩ := List.forall_mem_cons.1 hle
    rw [List.map_cons, List.map_cons, concat_cons, concat_cons] at h
    obtain ⟨hfirst, hrest⟩ := eq_and_eq_of_append_eq h ha (hall items hitems)
    exact List.forall_mem_cons.2 ⟨hfirst, ih hitems hrest⟩

namespace Layout

variable {g : Span → Span}

/-! ## What occurs in a layout -/

/-- A layout occurs in another one. The key of a shorthand property is not printed, and so it does
not count. -/
inductive Within (x : Layout) : Layout → Prop where
  /-- The layout itself. -/
  | refl : Within x x
  /-- What occurs in the layout of a part. -/
  | part {c : Category} {s : Setting} {t : Tree c} (inner : Within x (t.shape s)) :
    Within x (.part s t)
  /-- What occurs in the first of two things. -/
  | first {l l' : Layout} (inner : Within x l) : Within x (.seq l l')
  /-- What occurs in the other one. -/
  | rest {l l' : Layout} (inner : Within x l') : Within x (.seq l l')
  /-- What occurs among items and separators. -/
  | list {items : List Layout} {separators : List String}
    (inner : Within x (joined items separators)) : Within x (.list items separators)
  /-- What an extent covers. -/
  | node {span : Span} {l : Layout} (inner : Within x l) : Within x (.node span l)
  /-- What stands in front of a gap. -/
  | gapFirst {span : Span} {l l' : Layout} (inner : Within x l) : Within x (.gap span l l')
  /-- What stands behind it. -/
  | gapRest {span : Span} {l l' : Layout} (inner : Within x l') : Within x (.gap span l l')
  /-- What is not printed. -/
  | hidden {l : Layout} (inner : Within x l) : Within x (.hidden l)
  /-- What stands for a shorthand property. -/
  | shorthand {key : Tree .key} {l : Layout} (inner : Within x l) : Within x (.shorthand key l)

/-- The extent of what a layout lays out. -/
inductive HasExtent (span : Span) : Layout → Prop where
  /-- That of a node. -/
  | node {l : Layout} : HasExtent span (.node span l)
  /-- That of a name. -/
  | ident {id : Ident} (span_eq : id.span = span) : HasExtent span (.ident id)
  /-- That of a literal. -/
  | literal {lit : Literal} (span_eq : lit.span = span) : HasExtent span (.literal lit)
  /-- That of a part. -/
  | part {c : Category} {s : Setting} {t : Tree c} (inner : HasExtent span (t.shape s)) :
    HasExtent span (.part s t)

/-- Expressions and statements have an extent. -/
theorem exists_hasExtent {c : Category} (h : c = .expr ∨ c = .stmt) (s : Setting) (t : Tree c) :
    ∃ span, HasExtent span (.part s t) := by
  suffices hshape : ∃ span, HasExtent span (t.shape s) from hshape.imp fun _ => .part
  rcases h with rfl | rfl
  · cases t
    case identifier id => exact ⟨_, .ident rfl⟩
    case literal lit => exact ⟨_, .literal rfl⟩
    case template t => cases t; exact ⟨_, .part .node⟩
    case functionExpr f => cases f; exact ⟨_, .part .node⟩
    case classExpr c => cases c; exact ⟨_, .part .node⟩
    case elementExpr e => cases e; exact ⟨_, .part .node⟩
    case fragmentExpr f => cases f; exact ⟨_, .part .node⟩
    all_goals exact ⟨_, .node⟩
  · cases t
    case declarationStmt d => cases d; exact ⟨_, .part .node⟩
    case functionStmt f => cases f; exact ⟨_, .part .node⟩
    case classStmt c => cases c; exact ⟨_, .part .node⟩
    case blockStmt b => cases b; exact ⟨_, .part .node⟩
    all_goals exact ⟨_, .node⟩

/-- The extent of a layout reaches from its first to its last token. -/
theorem Laid.covers {l : Layout} {tokens : List Token} {span : Span} (h : l.Laid g tokens)
    (hs : l.HasExtent span) : span.Covers g tokens := by
  induction hs generalizing tokens with
  | node =>
    cases h with
    | node _ covers => exact covers
  | ident span_eq =>
    cases h with
    | ident _ _ span => exact Span.covers_singleton.2 (span_eq ▸ span)
  | literal span_eq =>
    cases h with
    | literal _ _ span => exact Span.covers_singleton.2 (span_eq ▸ span)
  | part _ ih =>
    cases h with
    | part inner => exact ih inner

/-! ## Where parts are laid out -/

/-- If two things print together what their tokens spell, then each of them does. -/
theorem Laid.split {l l' : Layout} {ts us : List Token} (h : l.Laid g ts) (h' : l'.Laid g us)
    (hp : l.print ++ l'.print = textOf (ts ++ us)) :
    l.print = textOf ts ∧ l'.print = textOf us := by
  rw [textOf_append] at hp
  exact eq_and_eq_of_append_eq hp h.length_le h'.length_le

/-- A layout is laid out over some of the given tokens, one behind the other, and prints what they
spell on a condition. -/
def LaidAmong (g : Span → Span) (x : Layout) (tokens : List Token) (condition : Prop) : Prop :=
  ∃ front mid back, tokens = front ++ mid ++ back ∧ x.Laid g mid ∧
    (condition → x.print = textOf mid)

namespace LaidAmong

variable {x : Layout} {ts us : List Token} {p q : Prop}

theorem imp (h : LaidAmong g x ts p) (hq : q → p) : LaidAmong g x ts q := by
  obtain ⟨front, mid, back, hts, hmid, hprint⟩ := h
  exact ⟨front, mid, back, hts, hmid, fun h => hprint (hq h)⟩

theorem append (h : LaidAmong g x ts p) (us : List Token) : LaidAmong g x (ts ++ us) p := by
  obtain ⟨front, mid, back, rfl, hmid⟩ := h
  exact ⟨front, mid, back ++ us, by simp only [List.append_assoc], hmid⟩

theorem prepend (h : LaidAmong g x us p) (ts : List Token) : LaidAmong g x (ts ++ us) p := by
  obtain ⟨front, mid, back, rfl, hmid⟩ := h
  exact ⟨ts ++ front, mid, back, by simp only [List.append_assoc], hmid⟩

end LaidAmong

/-- What occurs in a layout is laid out over some of its tokens. It prints what they spell, if the
whole layout prints what all the tokens spell. -/
theorem Laid.within {l x : Layout} {tokens : List Token} (h : l.Laid g tokens) (hx : Within x l) :
    LaidAmong g x tokens (l.print = textOf tokens) := by
  induction hx generalizing tokens with
  | refl => exact ⟨[], tokens, [], by simp, h, id⟩
  | @part _ s t _ ih =>
    cases h with
    | part inner => exact (ih inner).imp (Tree.print_shape s t).trans
  | first _ ih =>
    cases h with
    | seq first rest => exact ((ih first).imp fun hp => (split first rest hp).1).append _
  | rest _ ih =>
    cases h with
    | seq first rest => exact ((ih rest).imp fun hp => (split first rest hp).2).prepend _
  | list _ ih =>
    cases h with
    | list inner =>
      refine (ih inner).imp fun hp => ?_
      rw [print_joined, ← prints_eq_map]
      exact hp
  | node _ ih =>
    cases h with
    | node inner => exact ih inner
  | gapFirst _ ih =>
    cases h with
    | gap first rest => exact ((ih first).imp fun hp => (split first rest hp).1).append _
  | gapRest _ ih =>
    cases h with
    | gap first rest => exact ((ih rest).imp fun hp => (split first rest hp).2).prepend _
  | hidden _ ih =>
    cases h with
    | hidden => exact (ih .loose).imp fun _ => rfl
  | shorthand _ ih =>
    cases h with
    | shorthand inner => exact ih inner

/-! ## Extents -/

/-- An extent occurs in a layout; that of a key that is not printed counts, too. -/
inductive HasSpan (span : Span) : Layout → Prop where
  /-- That of a name. -/
  | ident {id : Ident} (span_eq : id.span = span) : HasSpan span (.ident id)
  /-- That of a literal. -/
  | literal {lit : Literal} (span_eq : lit.span = span) : HasSpan span (.literal lit)
  /-- That of text in markup. -/
  | markup {t : MarkupText} (span_eq : t.span = span) : HasSpan span (.markup t)
  /-- That of a node. -/
  | node {l : Layout} : HasSpan span (.node span l)
  /-- That of a gap. -/
  | gap {l l' : Layout} : HasSpan span (.gap span l l')
  /-- One in a part. -/
  | part {c : Category} {s : Setting} {t : Tree c} (inner : HasSpan span (t.shape s)) :
    HasSpan span (.part s t)
  /-- One in the first of two things. -/
  | first {l l' : Layout} (inner : HasSpan span l) : HasSpan span (.seq l l')
  /-- One in the other one. -/
  | rest {l l' : Layout} (inner : HasSpan span l') : HasSpan span (.seq l l')
  /-- One among items and separators. -/
  | list {items : List Layout} {separators : List String}
    (inner : HasSpan span (joined items separators)) : HasSpan span (.list items separators)
  /-- One within a node. -/
  | inside {outer : Span} {l : Layout} (inner : HasSpan span l) : HasSpan span (.node outer l)
  /-- One in front of a gap. -/
  | gapFirst {outer : Span} {l l' : Layout} (inner : HasSpan span l) :
    HasSpan span (.gap outer l l')
  /-- One behind it. -/
  | gapRest {outer : Span} {l l' : Layout} (inner : HasSpan span l') :
    HasSpan span (.gap outer l l')
  /-- One of what is not printed. -/
  | hidden {l : Layout} (inner : HasSpan span l) : HasSpan span (.hidden l)
  /-- One of the key of a shorthand property. -/
  | key {key : Tree .key} {l : Layout} (inner : HasSpan span (key.shape .standalone)) :
    HasSpan span (.shorthand key l)
  /-- One of what stands for a shorthand property. -/
  | shorthand {key : Tree .key} {l : Layout} (inner : HasSpan span l) :
    HasSpan span (.shorthand key l)

end Layout

end Verbatim
