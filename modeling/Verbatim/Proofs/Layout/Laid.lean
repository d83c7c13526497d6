import Verbatim.Proofs.Layout.Visit
import Verbatim.Proofs.Partition

/-!
# Layouts over tokens

A layout is laid out over tokens if each of its words, marks and leaves is one of them, in their
order, and each of its extents reaches from the first to the last token inside it. A leaf is spelled
as its token is. Any other token is printed behind its trivia by a text that is no longer than its
spelling; if the whole layout prints what all the tokens spell, then so does each part of it.

Not all of an extent may be kept, so the extents are those between tokens up to a function.

## Main definitions

* `Verbatim.Span.Covers` — an extent from the first to the last of some tokens.
* `Verbatim.Layout.Laid` — a layout that is laid out over tokens.

## Main results

* `Verbatim.Layout.Laid.ne_nil` — an expression or statement is laid out over at least one token.
* `Verbatim.Layout.Laid.length_le` — a layout prints no more than its tokens spell.
* `Verbatim.Layout.Laid.mapSpans` — what changes extents keeps a layout where it is.
-/

namespace Verbatim

/-- The text of some tokens with the trivia in front of them. -/
def textOf (tokens : List Token) : String := concat (tokens.map fun t => t.lead ++ t.raw)

@[simp]
theorem textOf_nil : textOf [] = "" := rfl

@[simp]
theorem textOf_append (ts us : List Token) : textOf (ts ++ us) = textOf ts ++ textOf us := by
  rw [textOf, List.map_append, concat_append]
  rfl

theorem textOf_singleton (t : Token) : textOf [t] = t.lead ++ t.raw := by
  simp [textOf]

/-- An extent reaches from the first to the last of some tokens. -/
def Span.Covers (g : Span → Span) (span : Span) (tokens : List Token) : Prop :=
  ∃ first last, tokens.head? = some first ∧ tokens.getLast? = some last ∧
    span = g (.between first.start last.stop)

section

variable {g : Span → Span} {span : Span}

theorem Span.Covers.ne_nil {tokens : List Token} (h : span.Covers g tokens) : tokens ≠ [] := by
  obtain ⟨first, -, hfirst, -⟩ := h
  rintro rfl
  cases hfirst

/-- The extent of one token. -/
theorem Span.covers_singleton {t : Token} :
    span.Covers g [t] ↔ span = g (.between t.start t.stop) := by
  constructor
  · rintro ⟨first, last, ⟨⟩, ⟨⟩, h⟩
    exact h
  · exact fun h => ⟨t, t, rfl, rfl, h⟩

end

/-- Whether a construct of the kind has at least one token. -/
def Category.isSolid : Category → Bool
  | .many _ | .maybe _ => false
  | _ => true

/-- Whether a tree may stand in a setting: only functions are values of methods. -/
def Tree.fits : {c : Category} → Setting → Tree c → Bool
  | _, .standalone, _ => true
  | _, .method, .function .. | _, .method, .functionExpr _ => true
  | _, .method, _ => false

namespace Layout

/-- A layout is laid out over tokens; its extents are those between tokens, changed by `g`. -/
inductive Laid (g : Span → Span) : Layout → List Token → Prop where
  /-- A word or mark. -/
  | token {shown text : String} {t : Token} (text_eq : text = t.lead ++ shown)
    (le : shown.length ≤ t.raw.length) : Laid g (.token text) [t]
  /-- No token. -/
  | loose : Laid g (.loose "") []
  /-- A name. -/
  | ident {id : Ident} {t : Token} (lead : id.lead = t.lead) (raw : id.raw = t.raw)
    (span : id.span = g (.between t.start t.stop)) : Laid g (.ident id) [t]
  /-- A literal. -/
  | literal {lit : Literal} {t : Token} (lead : lit.lead = t.lead) (raw : lit.raw = t.raw)
    (span : lit.span = g (.between t.start t.stop)) : Laid g (.literal lit) [t]
  /-- Text in markup, which has no trivia. -/
  | markup {x : MarkupText} {t : Token} (kind : t.kind = .markupText) (lead : t.lead = "")
    (raw : x.raw = t.raw) (span : x.span = g (.between t.start t.stop)) : Laid g (.markup x) [t]
  /-- A part. -/
  | part {c : Category} {s : Setting} {t : Tree c} {tokens : List Token}
    (inner : Laid g (t.shape s) tokens) (fits : t.fits s = true) :
    Laid g (.part s t) tokens
  /-- One thing behind another. -/
  | seq {l l' : Layout} {ts us : List Token} (first : Laid g l ts) (rest : Laid g l' us) :
    Laid g (.seq l l') (ts ++ us)
  /-- Items with separators. -/
  | list {items : List Layout} {separators : List String} {tokens : List Token}
    (inner : Laid g (joined items separators) tokens) : Laid g (.list items separators) tokens
  /-- What an extent covers. -/
  | node {span : Span} {l : Layout} {tokens : List Token} (inner : Laid g l tokens)
    (covers : span.Covers g tokens) : Laid g (.node span l) tokens
  /-- What an extent separates. -/
  | gap {span : Span} {l l' : Layout} {ts us : List Token} {t u : Token} (first : Laid g l ts)
    (rest : Laid g l' us) (last : ts.getLast? = some t) (head : us.head? = some u)
    (span_eq : span = g (.between t.stop u.start)) : Laid g (.gap span l l') (ts ++ us)
  /-- Nothing but the keys of shorthand properties goes unprinted. -/
  | hidden : Laid g (.hidden blank) []
  /-- A shorthand property. Its key is a name that has the extent of the first token or none. -/
  | shorthand {id : Ident} {l : Layout} {t : Token} {tokens : List Token} (inner : Laid g l tokens)
    (head : tokens.head? = some t) (span : id.span = g (.between t.start t.stop) ∨ id.span = g {}) :
    Laid g (.shorthand (.nameKey id) l) tokens

/-- Whether a layout has at least one token. -/
def isSolid : Layout → Bool
  | .token _ | .ident _ | .literal _ | .markup _ | .node .. | .gap .. | .shorthand .. => true
  | @part c _ _ => c.isSolid
  | .seq first rest => first.isSolid || rest.isSolid
  | .list (item :: _) _ => item.isSolid
  | _ => false

end Layout

/-! ## What has tokens -/

@[simp]
theorem TagName.isSolid_layout (name : TagName) : name.layout.isSolid = true := by
  cases name <;> rfl

@[simp]
theorem AttributeName.isSolid_layout (name : AttributeName) : name.layout.isSolid = true := by
  cases name <;> rfl

/-- The layout of a construct has at least one token, unless the construct is a list or may be
absent. -/
theorem Tree.isSolid_shape {c : Category} (h : c.isSolid = true) (s : Setting) (t : Tree c) :
    (t.shape s).isSolid = true := by
  cases t <;> simp_all [shape, Layout.isSolid, Layout.all, Category.isSolid,
    ImportDeclaration.layout, ExportAll.layout, PrivateName.layout]

/-- A tree whose extents are changed stays in its setting. -/
theorem Tree.fits_traverse {c : Category} (f : Span → Span) (s : Setting) (t : Tree c) :
    (t.traverse (m := Id) (.ofSpan f)).fits s = t.fits s := by
  cases s with
  | standalone => rfl
  | method => cases t <;> rfl

namespace Layout

variable {g : Span → Span}

theorem isSolid_joined {item : Layout} {items : List Layout} {separators : List String}
    (h : item.isSolid = true) : (joined (item :: items) separators).isSolid = true := by
  cases items <;> simp [joined, isSolid, h]

/-- A solid layout is laid over at least one token. -/
theorem Laid.ne_nil {l : Layout} {tokens : List Token} (h : l.Laid g tokens)
    (hl : l.isSolid = true) : tokens ≠ [] := by
  induction h with
  | token | ident | literal | markup => exact List.cons_ne_nil _ _
  | part _ _ ih => exact ih (Tree.isSolid_shape hl _ _)
  | seq _ _ ih ih' =>
    intro hnil
    obtain ⟨hts, hus⟩ := List.append_eq_nil_iff.1 hnil
    rcases Bool.or_eq_true_iff.1 hl with hl | hl
    · exact ih hl hts
    · exact ih' hl hus
  | node _ covers => exact covers.ne_nil
  | gap _ _ last =>
    intro hnil
    rw [(List.append_eq_nil_iff.1 hnil).1] at last
    cases last
  | shorthand _ head =>
    rintro rfl
    cases head
  | @list items _ _ _ ih =>
    cases items with
    | nil => cases hl
    | cons item items => exact ih (isSolid_joined hl)
  | loose | hidden => cases hl

/-- What a layout prints is no longer than its tokens. -/
theorem Laid.length_le {l : Layout} {tokens : List Token} (h : l.Laid g tokens) :
    l.print.length ≤ (textOf tokens).length := by
  induction h with
  | @token shown _ t text_eq le =>
    subst text_eq
    simp only [print, textOf_singleton, String.length_append]
    omega
  | ident lead raw | literal lead raw =>
    exact Nat.le_of_eq (by rw [print, textOf_singleton, ← lead, ← raw]; rfl)
  | markup _ lead raw =>
    exact Nat.le_of_eq (by rw [print, textOf_singleton, lead, ← raw, String.empty_append])
  | @part c s t tokens inner _ ih =>
    rw [Tree.print_shape] at ih
    exact ih
  | seq _ _ ih ih' | gap _ _ _ _ _ ih ih' =>
    simp only [print, textOf_append, String.length_append]
    omega
  | @list items separators _ inner ih =>
    rw [print_joined, ← prints_eq_map] at ih
    exact ih
  | node _ _ ih | shorthand _ _ _ ih => exact ih
  | loose | hidden => exact Nat.le_refl _

/-! ## Changes of extents -/

/-- What changes extents keeps a layout where it is. -/
theorem Laid.mapSpans {l : Layout} {tokens : List Token} (h : l.Laid g tokens) (f : Span → Span) :
    Laid (f ∘ g) (l.visit (m := Id) (.ofSpan f)) tokens := by
  induction h with
  | token text_eq le => exact .token text_eq le
  | loose => exact .loose
  | ident lead raw span => exact .ident lead raw (congrArg f span)
  | literal lead raw span => exact .literal lead raw (congrArg f span)
  | markup kind lead raw span => exact .markup kind lead raw (congrArg f span)
  | @part c s t tokens _ fits ih =>
    have hshape : (t.traverse (m := Id) (.ofSpan f)).shape s =
        (t.shape s).visit (m := Id) (.ofSpan f) :=
      Tree.shape_traverse (m := Id) (v := .ofSpan f) (g := f) (fun _ => rfl) s t
    refine .part (t := t.traverse (m := Id) (.ofSpan f)) (hshape ▸ ih) ?_
    rw [Tree.fits_traverse]
    exact fits
  | seq _ _ ih ih' => exact .seq ih ih'
  | @list items separators _ _ ih =>
    rw [visit_joined (m := Id) (v := .ofSpan f)] at ih
    exact .list ih
  | node _ covers ih =>
    obtain ⟨first, last, hfirst, hlast, rfl⟩ := covers
    exact .node ih ⟨first, last, hfirst, hlast, rfl⟩
  | gap _ _ last head span_eq ih ih' => exact .gap ih ih' last head (congrArg f span_eq)
  | hidden => exact .hidden
  | shorthand _ head span ih => exact .shorthand ih head (span.imp (congrArg f) (congrArg f))

end Layout

end Verbatim
