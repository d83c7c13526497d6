import Mathlib.Data.List.Chain
import Verbatim.Proofs.Grammar.Target

/-!
# Tags that match and texts between them

A tree could hold an element with any closing tag, or none. In markup that is read, the closing tag
has the name of the opening tag. That is found out from the two names as they are written in one
text, which tells them apart: a name that is read has neither colons nor dots. Between tags, no two
texts are neighbours, and none is empty.

## Main definitions

* `Verbatim.TagName.bare` — a name without trivia and extents.
* `Verbatim.TagsMatch` — the tags of an element match.
* `Verbatim.ChildrenApart` — texts stand apart.
* `Verbatim.Tree.MarkupSound` — what markup has to obey.

## Main results

* `Verbatim.TagName.bare_eq_of_qualified_eq` — names that are written alike are alike.
-/

namespace Verbatim

/-! ## Names -/

/-- A name in markup without trivia and extent. -/
def TagIdent.bare (id : TagIdent) : TagIdent := { lead := "", name := id.name, span := {} }

/-- The name of an element without trivia and extents. -/
def TagName.bare : TagName → TagName
  | .plain id => .plain id.bare
  | .namespaced n =>
    .namespaced { space := n.space.bare, colonLead := "", name := n.name.bare, span := {} }
  | .member object _ property _ => .member object.bare "" property.bare {}

/-- A text without the signs that join names. -/
def IsUnjoined (text : String) : Prop := ∀ c ∈ text.toList, c ≠ ':' ∧ c ≠ '.'

/-- The parts of a name have none of the signs that join them. -/
def TagName.Unjoined : TagName → Prop
  | .plain id => IsUnjoined id.name
  | .namespaced n => IsUnjoined n.space.name ∧ IsUnjoined n.name.name
  | .member object _ property _ => object.Unjoined ∧ IsUnjoined property.name

/-- Texts that are joined by a sign are the same if they are joined to the same text, and none of
the second ones has the sign. -/
theorem append_sign_inj {sign : Char} {a b x y : List Char} (hx : sign ∉ x) (hy : sign ∉ y)
    (h : a ++ sign :: x = b ++ sign :: y) : a = b ∧ x = y := by
  have hsplit : ∀ {a b x y : List Char}, sign ∉ x → a ++ sign :: x = b ++ sign :: y →
      a.length ≤ b.length → a = b ∧ x = y := by
    intro a b x y hx h hle
    obtain ⟨c, rfl, hc⟩ : ∃ c, b = a ++ c ∧ sign :: x = c ++ sign :: y := by
      rcases List.append_eq_append_iff.1 h with ⟨c, rfl, hc⟩ | ⟨c, rfl, hc⟩
      · exact ⟨c, rfl, hc⟩
      · have hnil : c = [] := by
          rw [List.length_append] at hle
          exact List.eq_nil_of_length_eq_zero (by omega)
        subst hnil
        exact ⟨[], by simp, by simpa using hc.symm⟩
    cases c with
    | nil => exact ⟨(List.append_nil a).symm, (List.cons.inj hc).2⟩
    | cons d c =>
      refine absurd ?_ hx
      rw [(List.cons.inj hc).2]
      exact List.mem_append_right _ List.mem_cons_self
  rcases Nat.le_total a.length b.length with hle | hle
  · exact hsplit hx h hle
  · obtain ⟨rfl, rfl⟩ := hsplit hy h.symm hle
    exact ⟨rfl, rfl⟩

namespace TagName

theorem toList_qualified_namespaced (n : NamespacedName) :
    (namespaced n).qualified.toList = n.space.name.toList ++ ':' :: n.name.name.toList := by
  rw [qualified, String.toList_append, String.toList_append]
  simp

theorem toList_qualified_member (object : TagName) (dotLead : String) (property : TagIdent)
    (span : Span) :
    (member object dotLead property span).qualified.toList =
      object.qualified.toList ++ '.' :: property.name.toList := by
  rw [qualified, String.toList_append, String.toList_append]
  simp

/-- A member has a dot. -/
theorem dot_mem_member {object : TagName} {dotLead : String} {property : TagIdent} {span : Span} :
    '.' ∈ (member object dotLead property span).qualified.toList := by
  rw [toList_qualified_member]
  exact List.mem_append_right _ List.mem_cons_self

/-- A name within a namespace has a colon. -/
theorem colon_mem_namespaced {n : NamespacedName} : ':' ∈ (namespaced n).qualified.toList := by
  rw [toList_qualified_namespaced]
  exact List.mem_append_right _ List.mem_cons_self

/-- Nothing else has a dot. -/
theorem dot_not_mem {name : TagName} (h : name.Unjoined)
    (hname : ∀ object dotLead property span, name ≠ member object dotLead property span) :
    '.' ∉ name.qualified.toList := by
  cases name with
  | plain id => exact fun hdot => (h '.' hdot).2 rfl
  | namespaced n =>
    rw [toList_qualified_namespaced]
    intro hdot
    rcases List.mem_append.1 hdot with hdot | hdot
    · exact (h.1 '.' hdot).2 rfl
    · rcases List.mem_cons.1 hdot with hdot | hdot
      · exact absurd hdot (by decide)
      · exact (h.2 '.' hdot).2 rfl
  | member object dotLead property span => exact absurd rfl (hname object dotLead property span)

/-- Names that are written alike are alike, if no part of them has a sign that joins parts. -/
theorem bare_eq_of_qualified_eq {x y : TagName} (hx : x.Unjoined) (hy : y.Unjoined)
    (h : x.qualified = y.qualified) : x.bare = y.bare := by
  have hchars := congrArg String.toList h
  induction x generalizing y with
  | plain id =>
    cases y with
    | plain id' =>
      have hname : id.name = id'.name := h
      simp [bare, TagIdent.bare, hname]
    | namespaced n => exact absurd rfl (hx ':' (hchars.symm ▸ colon_mem_namespaced)).1
    | member => exact absurd (hchars.symm ▸ dot_mem_member) (dot_not_mem hx nofun)
  | namespaced n =>
    cases y with
    | plain id => exact absurd rfl (hy ':' (hchars ▸ colon_mem_namespaced)).1
    | namespaced n' =>
      rw [toList_qualified_namespaced, toList_qualified_namespaced] at hchars
      obtain ⟨hspace, hname⟩ := append_sign_inj (fun hc => (hx.2 ':' hc).1 rfl)
        (fun hc => (hy.2 ':' hc).1 rfl) hchars
      simp [bare, TagIdent.bare, String.toList_inj.1 hspace, String.toList_inj.1 hname]
    | member => exact absurd (hchars.symm ▸ dot_mem_member) (dot_not_mem hx nofun)
  | member object dotLead property span ih =>
    cases y with
    | plain | namespaced => exact absurd (hchars ▸ dot_mem_member) (dot_not_mem hy nofun)
    | member object' dotLead' property' span' =>
      rw [toList_qualified_member, toList_qualified_member] at hchars
      obtain ⟨hobject, hproperty⟩ := append_sign_inj (fun hc => (hx.2 '.' hc).2 rfl)
        (fun hc => (hy.2 '.' hc).2 rfl) hchars
      have hbare := ih hx.1 hy.1 (String.toList_inj.1 hobject) hobject
      simp [bare, TagIdent.bare, hbare, String.toList_inj.1 hproperty]

/-- Extents are no part of a name. -/
theorem bare_moving (g : Span → Span) (name : TagName) :
    ((Visitor.moving g).tagName name).bare = name.bare := by
  induction name with
  | plain | namespaced => rfl
  | member object dotLead property span ih =>
    change member ((Visitor.moving g).tagName object).bare "" property.bare {} = _
    rw [ih]
    rfl

end TagName

/-! ## Elements and fragments -/

/-- The tags of an element match: either it closes itself, and has neither children nor a closing
tag, or it has a closing tag with the name of the opening one. -/
def TagsMatch (name : TagName) (selfClosing : Option String) (children : List (Tree .child))
    (closing : Option ClosingTag) : Prop :=
  selfClosing.isSome = true ∧ children = [] ∧ closing = none ∨
    selfClosing = none ∧ ∃ tag, closing = some tag ∧ tag.name.bare = name.bare

namespace Tree

variable {c : Category}

/-- The text that a child is. -/
def markupText? : {c : Category} → Tree c → Option MarkupText
  | _, .textChild text => some text
  | _, _ => none

end Tree

/-- Of two children that are neighbours at most one is a text, and no text is empty. -/
structure ChildrenApart (children : List (Tree .child)) : Prop where
  /-- Texts are no neighbours. -/
  apart : children.IsChain fun x y => x.markupText? = none ∨ y.markupText? = none
  /-- A text has a spelling. -/
  spelled : ∀ child ∈ children, ∀ text, child.markupText? = some text → text.raw ≠ ""

/-- No children. -/
theorem ChildrenApart.nil : ChildrenApart [] := ⟨.nil, List.forall_mem_nil _⟩

/-- A child that is no text. -/
theorem ChildrenApart.cons {child : Tree .child} {rest : List (Tree .child)}
    (h : ChildrenApart rest)
    (hchild : child.markupText? = none) : ChildrenApart (child :: rest) := by
  refine ⟨?_, List.forall_mem_cons.2 ⟨fun _ htext => ?_, h.spelled⟩⟩
  · exact List.isChain_cons.2 ⟨fun _ _ => .inl hchild, h.apart⟩
  · cases hchild.symm.trans htext

/-- A text in front of a child that is none. -/
theorem ChildrenApart.text {text : MarkupText} {rest : List (Tree .child)} (h : ChildrenApart rest)
    (hrest : ∀ child ∈ rest.head?, child.markupText? = none) (htext : text.raw ≠ "") :
    ChildrenApart (.textChild text :: rest) := by
  refine ⟨?_, List.forall_mem_cons.2 ⟨?_, h.spelled⟩⟩
  · exact List.isChain_cons.2 ⟨fun child hc => .inr (hrest child hc), h.apart⟩
  · rintro _ ⟨⟩
    exact htext

namespace Tree

variable {c : Category} (g : Span → Span)

/-- What markup has to obey. -/
def MarkupSound : {c : Category} → Tree c → Prop
  | _, .element _ name _ selfClosing _ _ children closing _ =>
    TagsMatch name selfClosing children.toList closing ∧ ChildrenApart children.toList
  | _, .fragment _ _ children _ _ _ _ => ChildrenApart children.toList
  | _, _ => True

theorem markupText?_mapSpans (t : Tree c) :
    (t.mapSpans g).markupText? =
      t.markupText?.map fun text => { text with span := g text.span } := by
  cases t
  case property => rw [mapSpans_property]; rfl
  case patternProperty => rw [mapSpans_patternProperty]; rfl
  all_goals rfl

/-- Extents are no part of children. -/
theorem childrenApart_mapSpans {children : List (Tree .child)} (h : ChildrenApart children) :
    ChildrenApart (children.map (·.mapSpans g)) := by
  refine ⟨(List.isChain_map _).2 (h.apart.imp fun x y hxy => ?_), fun child hchild text htext => ?_⟩
  · simpa [markupText?_mapSpans] using hxy
  · obtain ⟨child, hmem, rfl⟩ := List.mem_map.1 hchild
    rw [markupText?_mapSpans] at htext
    obtain ⟨text, ht, rfl⟩ := Option.map_eq_some_iff.1 htext
    exact h.spelled child hmem text ht

theorem tagsMatch_mapSpans {name : TagName} {selfClosing : Option String}
    {children : List (Tree .child)}
    {closing : Option ClosingTag} (h : TagsMatch name selfClosing children closing) :
    TagsMatch ((Visitor.moving g).tagName name) selfClosing (children.map (·.mapSpans g))
      (closing.map (Visitor.moving g).closingTag) := by
  rcases h with ⟨hs, rfl, rfl⟩ | ⟨hs, tag, rfl, htag⟩
  · exact .inl ⟨hs, rfl, rfl⟩
  · refine .inr ⟨hs, _, rfl, ?_⟩
    change ((Visitor.moving g).tagName tag.name).bare = _
    rw [TagName.bare_moving, TagName.bare_moving, htag]

/-- What markup has to obey says nothing of extents. -/
theorem MarkupSound.mapSpans {t : Tree c} (h : t.MarkupSound) : (t.mapSpans g).MarkupSound := by
  cases t
  case element lead name attributes selfClosing closeLead openingSpan children closing span =>
    have htags := tagsMatch_mapSpans g h.1
    have hchildren := childrenApart_mapSpans g h.2
    rw [← toList_mapSpans] at htags hchildren
    refine ⟨?_, hchildren⟩
    cases closing <;> exact htags
  case fragment =>
    have hchildren := childrenApart_mapSpans g h
    rwa [← toList_mapSpans] at hchildren
  case property => rw [mapSpans_property]; trivial
  case patternProperty => rw [mapSpans_patternProperty]; trivial
  all_goals trivial

end Tree

end Verbatim
