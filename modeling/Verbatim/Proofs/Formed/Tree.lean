import Verbatim.Proofs.Static.Rules

/-!
# Well-formed trees

More trees can be built than sources have. Dots stand in front of the items of certain lists only,
and in a pattern in front of the last item only; a group of which it is not known whether it is a
parameter list stands in no finished program; a template has a piece on either side of each
expression. The rules are about one construct and its direct parts, and a tree is well formed if
they hold for all constructs in it. How such a tree is put together from its parts, and that
conversion to a pattern keeps it so, is shown without a parser.

## Main definitions

* `Verbatim.Tree.hasDots`, `Verbatim.Tree.allowsDots` — where dots stand, and where they may.
* `Verbatim.Tree.DotsLast` — lists in which they stand in front of the last item only.
* `Verbatim.Tree.Formed` — the rules for one construct.
* `Verbatim.Tree.Sound`, `Verbatim.Tree.Plain` — trees that obey them, and such trees without dots.

## Main results

* `Verbatim.Tree.Formed.mapSpans` — extents have no influence.
* `Verbatim.Tree.Becomes.converted` — conversion keeps trees well formed.
-/

namespace Verbatim

/-- Whether constructs of a kind are items of literals. -/
def Category.isElement : Category → Bool
  | .member | .maybe .expr => true
  | _ => false

/-- Whether constructs of a kind are no lists. -/
def Category.isSingle : Category → Bool
  | .many _ => false
  | .maybe c => c.isSingle
  | _ => true

theorem Category.isSingle_of_isElement {c : Category} (h : c.isElement = true) :
    c.isSingle = true := by
  cases c
  case member => rfl
  case maybe c => cases c <;> first | rfl | exact nomatch h
  all_goals exact nomatch h

/-- A part without what surrounds it. -/
def Part.whole (part : Part) : Sigma Tree := ⟨part.category, part.tree⟩

namespace Tree

/-! ## Dots -/

/-- Whether a construct has dots in front, or an item of a list has. -/
def hasDots : {c : Category} → Tree c → Bool
  | _, .spread .. | _, .spreadMember .. | _, .restPattern .. | _, .restMember .. => true
  | _, .cons head tail => head.hasDots || tail.hasDots
  | _, .present part => part.hasDots
  | _, _ => false

/-- Whether the parts of a construct may have dots in front: the items of literals, arguments,
patterns and parameters may. -/
def allowsDots : {c : Category} → Tree c → Bool
  | _, .array .. | _, .object .. | _, .argumentList .. => true
  | _, .arrayPattern .. | _, .objectPattern .. | _, .paramList .. => true
  | _, .cons .. | _, .present .. => true
  | _, _ => false

/-- Only the last item has dots in front, and if it has, no separator follows it. -/
structure DotsLast {c : Category} (items : Tree (.many c)) (separators : List String) : Prop where
  /-- No other item has dots. -/
  front : ∀ x ∈ items.toList.dropLast, x.hasDots = false
  /-- A separator behind the last item is one for each item. -/
  final : items.hasDots = true → separators.length < items.toList.length

/-- Whether a pattern is what is assigned to, with neither dots nor a default. -/
def isTarget : Pattern → Bool
  | .defaultPattern .. | .restPattern .. => false
  | _ => true

/-! ## The rules -/

/-- The pieces of a template: one more than there are expressions, the last of which is marked. -/
structure PiecesAround (quasis : List Quasi) (count : Nat) : Prop where
  /-- A piece in front of each expression, and one behind the last. -/
  length : quasis.length = count + 1
  /-- The last piece is marked. -/
  tail : ∀ q ∈ quasis.getLast?, q.isTail = true
  /-- No other piece is. -/
  front : ∀ q ∈ quasis.dropLast, q.isTail = false

/-- What the rules demand of a construct apart from where dots stand. -/
def Shaped : {c : Category} → Tree c → Prop
  | _, .cover .. => False
  | _, .templateLit quasis exprs _ => PiecesAround quasis exprs.toList.length
  | _, .assignment target _ _ _ _ => target.isTarget = true
  | _, .arrayPattern _ elements separators _ _ => DotsLast elements separators
  | _, .objectPattern _ members separators _ _ => DotsLast members separators
  | _, .paramList _ items separators _ =>
    DotsLast items separators ∧ ∀ p ∈ items.toList, p.isBinding = true
  | _, .defaultPattern target _ _ _ => target.isTarget = true
  | _, .restPattern _ target _ => target.isTarget = true
  | _, .restMember _ target _ => target.isPlace = true
  | _, .declarator target _ _ => target.isTarget = true ∧ target.isBinding = true
  | _, .catchParam _ target _ => target.isTarget = true ∧ target.isBinding = true
  | _, _ => True

/-- The parts of a construct. -/
def bareParts {c : Category} (t : Tree c) : List (Sigma Tree) := (t.innerParts {}).map Part.whole

/-- The parts of a construct are the same whatever surrounds it. -/
theorem map_whole_innerParts {c : Category} (ctx : Context) (t : Tree c) :
    (t.innerParts ctx).map Part.whole = t.bareParts := by
  cases t
  case property mods key value kind isMethod isShorthand colonLead span =>
    change Part.whole ⟨ctx, key⟩ :: (valueParts ctx isShorthand value).map Part.whole =
      Part.whole ⟨{}, key⟩ :: (valueParts {} isShorthand value).map Part.whole
    unfold valueParts
    split
    · rfl
    · split <;> rfl
  all_goals rfl

/-- The rules for one construct. -/
structure Formed {c : Category} (t : Tree c) : Prop where
  /-- Those about its own shape. -/
  shape : t.Shaped
  /-- Dots stand only where they may. -/
  dots : t.allowsDots = false → ∀ part ∈ t.bareParts, part.2.hasDots = false

section

variable {c : Category} (g : Span → Span)

theorem hasDots_mapSpans (t : Tree c) : (t.mapSpans g).hasDots = t.hasDots := by
  induction t
  case cons head tail ih ih' =>
    change ((head.mapSpans g).hasDots || (tail.mapSpans g).hasDots) = _
    rw [ih, ih']
    rfl
  case present part ih => exact ih
  case property => rw [mapSpans_property]; rfl
  case patternProperty => rw [mapSpans_patternProperty]; rfl
  all_goals rfl

theorem allowsDots_mapSpans (t : Tree c) : (t.mapSpans g).allowsDots = t.allowsDots := by
  cases t
  case property => rw [mapSpans_property]; rfl
  case patternProperty => rw [mapSpans_patternProperty]; rfl
  all_goals rfl

theorem isTarget_mapSpans (p : Pattern) : (p.mapSpans g).isTarget = p.isTarget := by
  cases p <;> rfl

theorem DotsLast.mapSpans {items : Tree (.many c)} {separators : List String}
    (h : DotsLast items separators) : DotsLast (items.mapSpans g) separators := by
  refine ⟨?_, fun hdots => ?_⟩
  · rw [toList_mapSpans, ← List.map_dropLast, List.forall_mem_map]
    exact fun x hx => (hasDots_mapSpans g x).trans (h.front x hx)
  · rw [toList_mapSpans, List.length_map]
    exact h.final ((hasDots_mapSpans g items).symm.trans hdots)

theorem PiecesAround.mapSpans {quasis : List Quasi} {count : Nat} (h : PiecesAround quasis count) :
    PiecesAround (quasis.map (Visitor.moving g).quasi) count := by
  refine ⟨(List.length_map ..).trans h.length, ?_, ?_⟩
  · rw [List.getLast?_map]
    rintro _ hq
    obtain ⟨q, hlast, rfl⟩ := Option.map_eq_some_iff.1 hq
    exact h.tail q hlast
  · rw [← List.map_dropLast, List.forall_mem_map]
    exact h.front

/-- Extents have no part in the shape of a tree. -/
theorem Shaped.mapSpans {t : Tree c} (h : t.Shaped) : (t.mapSpans g).Shaped := by
  cases t
  case cover => exact h
  case templateLit quasis exprs span =>
    change PiecesAround _ (exprs.mapSpans g).toList.length
    rw [toList_mapSpans, List.length_map, Visitor.list_eq_map]
    exact PiecesAround.mapSpans g h
  case assignment => exact (isTarget_mapSpans g _).trans h
  case arrayPattern => exact DotsLast.mapSpans g h
  case objectPattern => exact DotsLast.mapSpans g h
  case paramList openLead items separators closeLead =>
    refine ⟨DotsLast.mapSpans g h.1, ?_⟩
    change ∀ p ∈ (items.mapSpans g).toList, p.isBinding = true
    rw [toList_mapSpans, List.forall_mem_map]
    exact fun p hp => (isBinding_mapSpans g p).trans (h.2 p hp)
  case defaultPattern => exact (isTarget_mapSpans g _).trans h
  case restPattern => exact (isTarget_mapSpans g _).trans h
  case restMember => exact (isPlace_mapSpans g _).trans h
  case declarator => exact ⟨(isTarget_mapSpans g _).trans h.1, (isBinding_mapSpans g _).trans h.2⟩
  case catchParam => exact ⟨(isTarget_mapSpans g _).trans h.1, (isBinding_mapSpans g _).trans h.2⟩
  case property => rw [mapSpans_property]; trivial
  case patternProperty => rw [mapSpans_patternProperty]; trivial
  all_goals trivial

/-- The rules say nothing of extents. -/
theorem Formed.mapSpans {t : Tree c} (h : t.Formed) : (t.mapSpans g).Formed := by
  refine ⟨h.shape.mapSpans g, fun hd part hpart => ?_⟩
  rw [bareParts, innerParts_mapSpans, List.map_map] at hpart
  obtain ⟨inner, hinner, rfl⟩ := List.mem_map.1 hpart
  have hdots := h.dots ((allowsDots_mapSpans g t).symm.trans hd) inner.whole
    (List.mem_map_of_mem hinner)
  exact (hasDots_mapSpans g inner.tree).trans hdots

end

/-- Every construct in the tree obeys the rules. -/
inductive Sound : {c : Category} → Tree c → Prop where
  /-- The tree itself obeys them, and its parts do. -/
  | intro {c : Category} {t : Tree c} (rule : t.Formed)
      (inParts : ∀ part ∈ t.bareParts, Sound part.2) :
    Sound t

/-- The same, with no dots in front. -/
structure Plain {c : Category} (t : Tree c) : Prop where
  /-- Every construct obeys the rules. -/
  sound : t.Sound
  /-- No dots stand in front. -/
  noDots : t.hasDots = false

variable {c c₁ c₂ c₃ c₄ : Category} {t : Tree c} {t₁ : Tree c₁} {t₂ : Tree c₂} {t₃ : Tree c₃}
  {t₄ : Tree c₄}

/-! ## Trees from parts -/

namespace Sound

theorem rule (h : t.Sound) : t.Formed := by
  cases h
  assumption

theorem part (h : t.Sound) (part : Sigma Tree) (hmem : part ∈ t.bareParts) : part.2.Sound := by
  cases h with
  | intro _ inParts => exact inParts part hmem

/-- Where no dots may stand, there are none. -/
theorem plain (h : t.Sound) (hd : t.allowsDots = false) (part : Sigma Tree)
    (hmem : part ∈ t.bareParts) :
    part.2.Plain := ⟨h.part part hmem, h.rule.dots hd part hmem⟩

/-- The rules hold of whatever occurs in the tree. -/
theorem formed {d : Category} {ctx ctx' : Context} {x : Tree d} (h : t.Sound)
    (hx : Contains ctx t ctx' x) : x.Formed := by
  induction hx with
  | whole => exact h.rule
  | inPart part mem _ ih =>
    refine ih (h.part part.whole ?_)
    rw [← map_whole_innerParts]
    exact List.mem_map_of_mem mem

/-- A construct whose parts have no dots in front. -/
theorem of_plain (rule : t.Shaped) (h : ∀ part ∈ t.bareParts, part.2.Plain) : t.Sound :=
  .intro ⟨rule, fun _ part hmem => (h part hmem).noDots⟩ fun part hmem => (h part hmem).sound

/-- A construct with one part that has dots in front. -/
theorem behindDots (h₁ : t₁.Plain) (rule : t.Shaped) (hparts : t.bareParts = [⟨_, t₁⟩]) :
    t.Sound := by
  refine of_plain rule ?_
  rw [hparts, List.forall_mem_singleton]
  exact h₁

/-- A construct with one part, which may have dots in front. -/
theorem ofDots (h₁ : t₁.Sound) (rule : t.Shaped) (hparts : t.bareParts = [⟨_, t₁⟩])
    (hd : t.allowsDots = true) : t.Sound := by
  refine .intro ⟨rule, fun hno => absurd (hd.symm.trans hno) (by decide)⟩ ?_
  rw [hparts, List.forall_mem_singleton]
  exact h₁

theorem nil : (nil : Tree (.many c)).Sound := of_plain trivial (List.forall_mem_nil _)

theorem cons {head : Tree c} {tail : Tree (.many c)} (h : head.Sound) (ht : tail.Sound) :
    (cons head tail).Sound := by
  refine .intro ⟨trivial, nofun⟩ ?_
  exact List.forall_mem_cons.2 ⟨h, List.forall_mem_singleton.2 ht⟩

theorem present (h : t.Sound) : (present t).Sound := ofDots h trivial rfl rfl

theorem ofList {items : List (Tree c)} (h : ∀ x ∈ items, x.Sound) : (ofList items).Sound := by
  induction items with
  | nil => exact nil
  | cons head tail ih =>
    obtain ⟨hhead, htail⟩ := List.forall_mem_cons.1 h
    exact cons hhead (ih htail)

end Sound

theorem hasDots_ofList {items : List (Tree c)} :
    (ofList items).hasDots = items.any (·.hasDots) := by
  induction items with
  | nil => rfl
  | cons head tail ih => exact congrArg (head.hasDots || ·) ih

namespace Plain

/-- A construct whose parts have no dots in front. -/
theorem of_parts (rule : t.Shaped) (noDots : t.hasDots = false)
    (h : ∀ part ∈ t.bareParts, part.2.Plain) :
    t.Plain := ⟨.of_plain rule h, noDots⟩

/-- A construct without parts. -/
theorem leaf (rule : t.Shaped) (noDots : t.hasDots = false) (hparts : t.bareParts = []) : t.Plain :=
  of_parts rule noDots (hparts ▸ List.forall_mem_nil _)

/-- A construct with one part. -/
theorem one (h₁ : t₁.Plain) (rule : t.Shaped) (noDots : t.hasDots = false)
    (hparts : t.bareParts = [⟨_, t₁⟩]) : t.Plain :=
  ⟨.behindDots h₁ rule hparts, noDots⟩

/-- A construct with two parts. -/
theorem two (h₁ : t₁.Plain) (h₂ : t₂.Plain) (rule : t.Shaped) (noDots : t.hasDots = false)
    (hparts : t.bareParts = [⟨_, t₁⟩, ⟨_, t₂⟩]) : t.Plain := by
  refine of_parts rule noDots ?_
  rw [hparts, List.forall_mem_cons, List.forall_mem_singleton]
  exact ⟨h₁, h₂⟩

/-- A construct with three parts. -/
theorem three (h₁ : t₁.Plain) (h₂ : t₂.Plain) (h₃ : t₃.Plain) (rule : t.Shaped)
    (noDots : t.hasDots = false) (hparts : t.bareParts = [⟨_, t₁⟩, ⟨_, t₂⟩, ⟨_, t₃⟩]) :
    t.Plain := by
  refine of_parts rule noDots ?_
  rw [hparts, List.forall_mem_cons, List.forall_mem_cons, List.forall_mem_singleton]
  exact ⟨h₁, h₂, h₃⟩

/-- A construct with four parts. -/
theorem four (h₁ : t₁.Plain) (h₂ : t₂.Plain) (h₃ : t₃.Plain) (h₄ : t₄.Plain) (rule : t.Shaped)
    (noDots : t.hasDots = false) (hparts : t.bareParts = [⟨_, t₁⟩, ⟨_, t₂⟩, ⟨_, t₃⟩, ⟨_, t₄⟩]) :
    t.Plain := by
  refine of_parts rule noDots ?_
  rw [hparts, List.forall_mem_cons, List.forall_mem_cons, List.forall_mem_cons,
    List.forall_mem_singleton]
  exact ⟨h₁, h₂, h₃, h₄⟩

theorem absent : (absent : Tree (.maybe c)).Plain := .leaf trivial rfl rfl

theorem present (h : t.Plain) : (present t).Plain := ⟨h.sound.present, h.noDots⟩

theorem ofList {items : List (Tree c)} (h : ∀ x ∈ items, x.Plain) : (ofList items).Plain := by
  refine ⟨.ofList fun x hx => (h x hx).sound, ?_⟩
  rw [hasDots_ofList, List.any_eq_false]
  exact fun x hx => Bool.eq_false_iff.1 (h x hx).noDots

end Plain

/-- In a list that was built from its items, dots stand last. -/
theorem DotsLast.ofList {items : List (Tree c)} {separators : List String}
    (front : ∀ x ∈ items.dropLast, x.hasDots = false)
    (final : items.length ≤ separators.length → ∀ x ∈ items, x.hasDots = false) :
    DotsLast (ofList items) separators := by
  refine ⟨by rwa [toList_ofList], fun h => Nat.not_le.1 fun hle => ?_⟩
  rw [toList_ofList] at hle
  rw [hasDots_ofList, List.any_eq_true] at h
  obtain ⟨x, hx, hdots⟩ := h
  exact absurd (final hle x hx) (Bool.not_eq_false _ ▸ hdots)

/-- The value of a shorthand property obeys the rules as the expression that it was read as. -/
theorem Sound.value {mods : Modifiers} {key : Tree .key} {value : Expr} {kind : PropertyKind}
    {isMethod isShorthand : Bool} {colonLead : String} {span : Span}
    (h : (property mods key value kind isMethod isShorthand colonLead span).Sound) :
    value.Plain := by
  have hparts : (property mods key value kind isMethod isShorthand colonLead span).bareParts =
    Part.whole ⟨{}, key⟩ :: (valueParts {} isShorthand value).map Part.whole := rfl
  rcases valueParts_cases {} isShorthand value with hwhole | ⟨id, opLead, inner, _, rfl, htwo⟩
  · exact h.plain rfl ⟨_, value⟩ (by simp [hparts, hwhole, Part.whole])
  · have hid : (namePattern id).Plain :=
      h.plain rfl ⟨_, namePattern id⟩ (by simp [hparts, htwo, Part.whole])
    have hinner : inner.Plain := h.plain rfl ⟨_, inner⟩ (by simp [hparts, htwo, Part.whole])
    exact .two hid hinner rfl rfl rfl

/-- A property is made of its key and its value, whatever its value is read as. -/
theorem Plain.property {mods : Modifiers} {key : Tree .key} {value : Expr} {kind : PropertyKind}
    {isMethod isShorthand : Bool} {colonLead : String} {span : Span} (hkey : key.Plain)
    (hvalue : value.Plain) :
    (Tree.property mods key value kind isMethod isShorthand colonLead span).Plain := by
  have hparts : (Tree.property mods key value kind isMethod isShorthand colonLead span).bareParts =
    Part.whole ⟨{}, key⟩ :: (valueParts {} isShorthand value).map Part.whole := rfl
  rcases valueParts_cases {} isShorthand value with hwhole | ⟨id, opLead, inner, span', rfl, htwo⟩
  · exact .two hkey hvalue trivial rfl (by rw [hparts, hwhole]; rfl)
  · have hid : (namePattern id).Plain := hvalue.sound.plain rfl _ (List.mem_cons_self ..)
    have hinner : inner.Plain :=
      hvalue.sound.plain rfl ⟨_, inner⟩ (List.mem_cons_of_mem _ (List.mem_singleton_self _))
    exact .three hkey hid hinner trivial rfl (by rw [hparts, htwo]; rfl)

/-! ## Conversion -/

/-- A tree that may be converted as a whole: the items of a literal, or a construct without dots in
front. -/
def Convertible (t : Tree c) : Prop :=
  (c.isSingle = true ∧ t.hasDots = false) ∨ ∃ b : Category, c = .many b ∧ b.isElement = true

theorem Convertible.noDots (h : t.Convertible) (hc : c.isSingle = true) : t.hasDots = false := by
  obtain ⟨-, hdots⟩ | ⟨b, rfl, -⟩ := h
  · exact hdots
  · cases hc

theorem convertible_of_isElement {items : Tree (.many c)} (hc : c.isElement = true) :
    items.Convertible := .inr ⟨c, rfl, hc⟩

/-- An item that is not spread has no dots. -/
theorem hasDots_of_isRest (hc : c.isElement = true) (h : t.isRest = false) : t.hasDots = false := by
  cases t
  case present part => cases part <;> first | rfl | contradiction
  all_goals first | rfl | contradiction

/-- What is known of what a tree is converted to. -/
structure Converted (use : TargetUse) (trailing : Bool) {c d : Category} (t : Tree c) (p : Tree d) :
    Prop where
  /-- It is well formed if the tree is. -/
  sound : t.Sound → t.Convertible → p.Sound
  /-- Where names are bound, it binds names only. -/
  binding : use = .binding → p.isBinding = true
  /-- Only in a list there are dots. -/
  noDots : c.isSingle = true → p.hasDots = false
  /-- In a list they stand in front of the last item only. -/
  front : ∀ (b e : Category), c = .many b → b.isElement = true → ∀ he : d = .many e,
    ∀ x ∈ (p.itemsOf he).dropLast, x.hasDots = false
  /-- Where a separator follows the last item, there are none. -/
  final : ∀ b : Category, c = .many b → b.isElement = true → trailing = true → p.hasDots = false
  /-- A list stays as long as it is. -/
  length : ∀ (b e : Category) (hb : c = .many b) (he : d = .many e),
    (p.itemsOf he).length = (t.itemsOf hb).length

namespace Converted

variable {use : TargetUse} {trailing : Bool} {d : Category}

/-- A construct that is no list. -/
theorem single {p : Tree d} (hc : c.isSingle = true) (sound : t.Sound → t.Convertible → p.Sound)
    (binding : use = .binding → p.isBinding = true) (noDots : p.hasDots = false) :
    Converted use trailing t p := by
  refine ⟨sound, binding, fun _ => noDots, ?_, fun _ _ _ _ => noDots, ?_⟩
  · rintro b e ⟨⟩
    cases hc
  · rintro b e ⟨⟩
    cases hc

/-- What the items of a literal become has dots in front of the last item only. -/
theorem dotsLast {b e : Category} {separators : List String} {items : Tree (.many b)}
    {items' : Tree (.many e)}
    (h : Converted use (separators.length ≥ items.toList.length) items items')
    (hb : b.isElement = true) : DotsLast items' separators := by
  refine ⟨h.front b e rfl hb rfl, fun hdots => Nat.not_le.1 fun hle => ?_⟩
  have hlength : items'.toList.length = items.toList.length := h.length b e rfl rfl
  have hnone := h.final b rfl hb (decide_eq_true (hlength ▸ hle))
  rw [hnone] at hdots
  cases hdots

theorem nil {b e : Category} :
    Converted use trailing (.nil : Tree (.many b)) (.nil : Tree (.many e)) := by
  refine ⟨fun _ _ => .nil, fun _ => rfl, fun _ => rfl, ?_, fun _ _ _ _ => rfl, ?_⟩
  · rintro _ _ ⟨⟩ - ⟨⟩
    exact List.forall_mem_nil _
  · rintro _ _ ⟨⟩ ⟨⟩
    rfl

theorem cons {b e : Category} {head : Tree b} {head' : Tree e} {tail : Tree (.many b)}
    {tail' : Tree (.many e)} (lone : head.isRest = false) (first : Converted use false head head')
    (rest : Converted use trailing tail tail') :
    Converted use trailing (.cons head tail) (.cons head' tail') := by
  have hfirst : b.isElement = true → head'.hasDots = false := fun hb =>
    first.noDots (Category.isSingle_of_isElement hb)
  refine ⟨fun h hconv => ?_, fun hu => ?_, nofun, ?_, ?_, ?_⟩
  · obtain ⟨hno, -⟩ | ⟨_, ⟨⟩, hb⟩ := hconv
    · cases hno
    have hhead := h.part ⟨_, head⟩ (List.mem_cons_self ..)
    have htail := h.part ⟨_, tail⟩ (List.mem_cons_of_mem _ (List.mem_singleton_self _))
    refine .cons (first.sound hhead (.inl ⟨?_, ?_⟩))
      (rest.sound htail (convertible_of_isElement hb))
    · exact Category.isSingle_of_isElement hb
    · exact hasDots_of_isRest hb lone
  · exact Bool.and_eq_true_iff.2 ⟨first.binding hu, rest.binding hu⟩
  · rintro _ _ ⟨⟩ hb ⟨⟩
    change ∀ x ∈ (head' :: tail'.toList).dropLast, x.hasDots = false
    cases htail : tail'.toList with
    | nil => exact List.forall_mem_nil _
    | cons next others =>
      rw [List.dropLast_cons_cons, ← htail]
      exact List.forall_mem_cons.2 ⟨hfirst hb, rest.front _ _ rfl hb rfl⟩
  · rintro _ ⟨⟩ hb ht
    exact Bool.or_eq_false_iff.2 ⟨hfirst hb, rest.final _ rfl hb ht⟩
  · rintro _ _ ⟨⟩ ⟨⟩
    exact congrArg (· + 1) (rest.length _ _ rfl rfl)

/-- The last item of a list, which alone is behind dots. -/
theorem last {b e : Category} {x : Tree b} {x' : Tree e} (sound : x.Sound → x'.Sound)
    (binding : use = .binding → x'.isBinding = true) :
    Converted use false (.cons x .nil) (.cons x' .nil) := by
  refine ⟨fun h _ => ?_, fun hu => ?_, nofun, ?_, nofun, ?_⟩
  · exact .cons (sound (h.part ⟨_, x⟩ (List.mem_cons_self ..))) .nil
  · exact Bool.and_eq_true_iff.2 ⟨binding hu, rfl⟩
  · rintro _ _ ⟨⟩ - ⟨⟩
    exact List.forall_mem_nil _
  · rintro _ _ ⟨⟩ ⟨⟩
    rfl

end Converted

/-- What is behind dots or has a default is a target of its own, or it has one of them, too. -/
theorem isTarget_of_noDots {p : Pattern} (hdots : p.hasDots = false)
    (hplain : p.isDefault = false) :
    p.isTarget = true := by
  cases p <;> first | rfl | contradiction

/-- What a tree becomes is well formed if the tree is. -/
theorem Becomes.converted {use : TargetUse} {trailing : Bool} {d : Category} {p : Tree d}
    (h : Becomes use trailing t p) : Converted use trailing t p := by
  induction h with
  | @identifier _ id =>
    have hid : (namePattern id).Plain := .leaf trivial rfl rfl
    exact .single rfl (fun _ _ => hid.sound) (fun _ => rfl) rfl
  | array parts ih =>
    refine .single rfl (fun h _ => ?_) (fun hu => ih.binding hu) rfl
    have helements := ih.sound (h.part _ (List.mem_singleton_self _)) (convertible_of_isElement rfl)
    exact .ofDots helements (ih.dotsLast rfl) rfl rfl
  | object parts ih =>
    refine .single rfl (fun h _ => ?_) (fun hu => ih.binding hu) rfl
    have hmembers := ih.sound (h.part _ (List.mem_singleton_self _)) (convertible_of_isElement rfl)
    exact .ofDots hmembers (ih.dotsLast rfl) rfl rfl
  | assignment binds =>
    refine .single rfl (fun h _ => ?_) binds rfl
    exact .of_plain h.rule.shape fun part hpart => h.plain rfl part hpart
  | other assigns unlike =>
    refine .single rfl (fun h hconv => ?_) (fun hu => by cases hu.symm.trans assigns) rfl
    exact .behindDots ⟨h, hconv.noDots rfl⟩ trivial rfl
  | @property trailing mods key value value' isShorthand colonLead span part ih =>
    refine .single rfl (fun h _ => ?_) (fun hu => ih.binding hu) rfl
    have hkey := h.plain rfl ⟨_, key⟩ (List.mem_cons_self ..)
    have hvalue : value'.Plain :=
      ⟨ih.sound h.value.sound (.inl ⟨rfl, h.value.noDots⟩), ih.noDots rfl⟩
    exact .of_plain trivial (List.forall_mem_cons.2 ⟨hkey, List.forall_mem_singleton.2 hvalue⟩)
  | nil => exact .nil
  | cons lone _ _ ih ih' => exact .cons lone ih ih'
  | restElement _ plain ih =>
    refine .last (fun h => .present ?_) fun hu => ih.binding hu
    have hspread := h.part _ (List.mem_singleton_self _)
    have hoperand := hspread.plain rfl _ (List.mem_singleton_self _)
    have htarget := ih.sound hoperand.sound (.inl ⟨rfl, hoperand.noDots⟩)
    exact .behindDots ⟨htarget, ih.noDots rfl⟩ (isTarget_of_noDots (ih.noDots rfl) plain) rfl
  | restMember _ _ place ih =>
    refine .last (fun h => ?_) fun hu => ih.binding hu
    have hoperand := h.plain rfl _ (List.mem_singleton_self _)
    have htarget := ih.sound hoperand.sound (.inl ⟨rfl, hoperand.noDots⟩)
    exact .behindDots ⟨htarget, ih.noDots rfl⟩ place rfl
  | absent =>
    exact ⟨fun _ _ => Plain.absent.sound, fun _ => rfl, fun _ => rfl, nofun, nofun, nofun⟩
  | present _ ih =>
    refine ⟨fun h hconv => ?_, fun hu => ih.binding hu, fun hc => ih.noDots hc, nofun, nofun, nofun⟩
    obtain ⟨hc, hdots⟩ | ⟨_, ⟨⟩, -⟩ := hconv
    exact .present (ih.sound (h.part _ (List.mem_singleton_self _)) (.inl ⟨hc, hdots⟩))

end Tree

end Verbatim
