import Mathlib.Data.List.Nodup
import Verbatim.Proofs.Edits
import Verbatim.Proofs.References
import Verbatim.Proofs.Stability

/-!
# Replaced texts in markup

A text in markup that is replaced is spelled in its encoded form, in which it can stand between any
neighbours. What an edited program prints is the source with some texts exchanged, and it is parsed
to the edited program. Edits tell texts apart by their numbers and a source by the places where they
start; a visit that keeps the texts it has seen brings both together.

## Main definitions

* `Verbatim.Wording.encoded` — a text in its encoded form.
* `Verbatim.Exchange.retext` — the exchange of some texts for one.
* `Verbatim.Retouch.recorder` — the visitor that retouches a tree and keeps the texts it has seen.

## Main results

* `Verbatim.Program.apply_retext` — an edit of texts is a retouch.
* `Verbatim.parse_retext` — a program with a replaced text is parsed again.
-/

namespace Verbatim

open Verbatim.Layout Verbatim.Retouch

/-! ## Visits that keep what they have seen -/

namespace Program

variable {m n : Type → Type} [Monad m] [Monad n]

/-- Visitors that do related things at leaves and extents do so at programs. -/
theorem traverse_related {R : (α : Type) → m α → n α → Prop} (hR : VisitRel R) {ρ : Retouch}
    {v : Visitor m} {w : Visitor n} (h : v.Related R ρ w) (p : Program) :
    R _ (p.traverse v) ((p.retouch ρ).traverse w) := by
  refine hR.bind (Visitor.Related.list hR (fun t => t.traverse_related hR h) _) fun body =>
    hR.bind (h.span _) fun span => ?_
  have hprogram : ({ p.retouch ρ with body, span } : Program) = { p with body, span } := by
    simp only [retouch, h.lead, id]
  rw [hprogram]
  exact hR.pure _

/-- A visit that does nothing leaves a program as it is. -/
theorem traverse_idle [LawfulMonad m] {v : Visitor m} (h : v.Idle) (p : Program) :
    p.traverse v = pure p := by
  rw [traverse, Visitor.Idle.list (Tree.traverse_idle h), pure_bind, h.span, pure_bind]

end Program

/-- The texts that stand in the places of some atoms. -/
def Atom.text? : Atom → Option MarkupText
  | .leaf (.text t) => some t
  | _ => none

/-- Retouches a leaf. -/
def Leaf.retouch (ρ : Retouch) : Leaf → Leaf
  | name id => .name (id.retouch ρ)
  | literal lit => .literal (ρ.literal lit)
  | text t => .text (ρ.text t)

/-- Retouches an atom. -/
def Atom.retouch (ρ : Retouch) : Atom → Atom
  | word text => .word text
  | leaf l => .leaf (l.retouch ρ)

namespace Retouch

variable (ρ : Retouch)

/-- The visitor that retouches a tree and keeps the texts that it has seen. -/
def recorder : Visitor (StateM (List MarkupText)) where
  ident id := return id.retouch ρ
  literal lit := return ρ.literal lit
  text t := do
    modify (· ++ [t])
    return ρ.text t
  separators := pure
  span s := return ρ.span s

variable {ρ}

/-- What the recorder makes of a program is what the retouch makes of it. -/
theorem traverse_recorder (h : ρ.lead = id) (p : Program) (seen : List MarkupText) :
    (p.traverse ρ.recorder seen).1 = p.retouch ρ := by
  have hR : VisitRel (m := StateM (List MarkupText)) (n := Id) fun _ x y => ∀ seen,
    (x seen).1 = y :=
    ⟨fun _ _ => rfl, fun {α β x y f g} hx hf seen => (hf _ _).trans (congrArg g (hx seen))⟩
  have hrelated : ρ.recorder.Related (fun _ x y => ∀ seen, (x seen).1 = y) ρ
      (Visitor.skip : Visitor Id) :=
    ⟨h, fun _ _ => rfl, fun _ _ => rfl, fun _ _ => rfl, fun _ _ => rfl, fun _ _ => rfl⟩
  exact (p.traverse_related hR hrelated seen).trans (Program.traverse_idle Visitor.idle_skip _)

/-- The recorder keeps the texts among some atoms. -/
theorem list_recorder (atoms : List Atom) (seen : List MarkupText) :
    Visitor.list (Atom.visit ρ.recorder.leaf) atoms seen =
      (atoms.map (·.retouch ρ), seen ++ atoms.filterMap Atom.text?) := by
  induction atoms generalizing seen with
  | nil => simp only [List.map_nil, List.filterMap_nil, List.append_nil]; rfl
  | cons atom atoms ih =>
    have hlist : Visitor.list (Atom.visit ρ.recorder.leaf) (atom :: atoms) seen =
        ((Atom.visit ρ.recorder.leaf atom seen).1 ::
          (Visitor.list (Atom.visit ρ.recorder.leaf) atoms
            (Atom.visit ρ.recorder.leaf atom seen).2).1,
        (Visitor.list (Atom.visit ρ.recorder.leaf) atoms
          (Atom.visit ρ.recorder.leaf atom seen).2).2) :=
      rfl
    have hatom : Atom.visit ρ.recorder.leaf atom seen =
        (atom.retouch ρ, seen ++ (Atom.text? atom).toList) := by
      rcases atom with text | (id | lit | t)
      · exact Prod.ext rfl (List.append_nil _).symm
      · exact Prod.ext rfl (List.append_nil _).symm
      · exact Prod.ext rfl (List.append_nil _).symm
      · rfl
    rw [hlist, hatom, ih]
    cases ht : Atom.text? atom with
    | none => simp [ht]
    | some t => simp [ht]

/-- A program that is retouched has retouched atoms, and the recorder has seen the texts among the
atoms of the program. -/
theorem recorder_flat (h : ρ.lead = id) {p : Program} {atoms : List Atom}
    (hp : Flat p.layout atoms) :
    Flat (p.retouch ρ).layout (atoms.map (·.retouch ρ)) ∧
      (p.traverse ρ.recorder []).2 = atoms.filterMap Atom.text? := by
  have hfollows : ρ.recorder.Follows id ρ.recorder.leaf :=
    ⟨fun _ _ => rfl, fun _ _ => ⟨rfl, rfl⟩, ρ.span, fun _ => rfl⟩
  obtain ⟨hflat, hstate⟩ := hp.visit hfollows []
  obtain ⟨hlayout, hseen⟩ := Program.layout_traverse hfollows.span p []
  rw [← hlayout, traverse_recorder h, list_recorder] at hflat
  rw [← hseen, list_recorder] at hstate
  exact ⟨hflat, hstate⟩

end Retouch

/-! ## Edits of texts -/

/-- What an edit makes of a text with the given number. -/
def Edit.retexted (index : Option Nat) (text : String) (number : Nat) (t : MarkupText) :
    MarkupText :=
  if index.all (· == number) then t.replace text else t

section

variable (ρ σ : Retouch) (index : Option Nat) (text : String)

/-- Whether a retouch `ρ` says of each text what an edit makes of it behind a retouch `σ`, if texts
are numbered as they were seen. -/
def Retouch.Tells (seen : List MarkupText) : Prop :=
  ∀ number t, seen[number]? = some t → Edit.retexted index text number (σ.text t) = ρ.text t

/-- What a recorder does and what an edit does is the same, if the retouch of the recorder tells
what the edit makes of the texts that are seen in the end. -/
structure Retouch.Foretells {α : Type} (x : StateM (List MarkupText) α)
    (y : StateM Edit.Progress α) :
    Prop where
  /-- The recorder keeps what was seen. -/
  keeps (seen : List MarkupText) : seen <+: (x seen).2
  /-- The edit has visited as many texts as were seen. -/
  same (seen : List MarkupText) (s : Edit.Progress) (hs : s.visited = seen.length)
    (h : ρ.Tells σ index text (x seen).2) : (y s).1 = (x seen).1 ∧
    (y s).2.visited = (x seen).2.length

variable {ρ σ index text}

theorem Retouch.Tells.front {seen more : List MarkupText} (h : ρ.Tells σ index text more)
    (hmore : seen <+: more) : ρ.Tells σ index text seen := by
  obtain ⟨rest, rfl⟩ := hmore
  intro number t ht
  obtain ⟨hlt, -⟩ := List.getElem?_eq_some_iff.1 ht
  exact h number t ((List.getElem?_append_left hlt).trans ht)

namespace Retouch.Foretells

/-- What does not look at texts. -/
theorem plain {α : Type} {a b : α} (h : b = a) :
    ρ.Foretells σ index text (pure a : StateM (List MarkupText) α)
      (pure b : StateM Edit.Progress α) :=
  ⟨fun seen => List.prefix_refl seen, fun _ _ hs _ => ⟨h, hs⟩⟩

theorem visitRel : VisitRel (m := StateM (List MarkupText)) (n := StateM Edit.Progress)
    fun _ x y => ρ.Foretells σ index text x y where
  pure a := plain rfl
  bind {α β x y f g} hx hf := by
    refine ⟨fun seen => (hx.keeps seen).trans ((hf _).keeps _), fun seen s hs h => ?_⟩
    obtain ⟨hvalue, hvisited⟩ := hx.same seen s hs (h.front ((hf _).keeps _))
    change (g (y s).1 (y s).2).1 = (f (x seen).1 (x seen).2).1 ∧
      (g (y s).1 (y s).2).2.visited = (f (x seen).1 (x seen).2).2.length
    rw [hvalue]
    exact (hf (x seen).1).same (x seen).2 (y s).2 hvisited h

end Retouch.Foretells

/-- An edit of texts is a retouch, if this says of each text what the edit makes of it. It makes no
difference that the edited program has other extents. -/
theorem Program.apply_retext (hρ : ρ.lead = id) (hσ : σ.lead = id) (hspan : σ.span = ρ.span)
    (hliteral : σ.literal = ρ.literal) {p : Program} {atoms : List Atom} (hp : Flat p.layout atoms)
    (h : ρ.Tells σ index text (atoms.filterMap Atom.text?)) :
    (Edit.apply ⟨index, .retext text⟩ (p.retouch σ)).1 = p.retouch ρ := by
  have hrelated : ρ.recorder.Related (fun _ x y => ρ.Foretells σ index text x y) σ
      (Edit.visitor ⟨index, .retext text⟩) := by
    refine ⟨hσ, fun id => .plain ?_, fun lit => .plain (congrFun hliteral lit), fun t => ?_,
      fun seps => .plain rfl, fun span => .plain (congrFun hspan span)⟩
    · simp only [Ident.retouch, hρ, hσ, hspan]
    · refine ⟨fun seen => List.prefix_append _ _, fun seen s hs h => ?_⟩
      have ht : Edit.retexted index text seen.length (σ.text t) = ρ.text t :=
        h seen.length t List.getElem?_concat_length
      change (Edit.visit index (·.replace text) (.spelling ·.raw) (σ.text t) s).1 = ρ.text t ∧
        (Edit.visit index (·.replace text) (.spelling ·.raw) (σ.text t) s).2.visited =
          (seen ++ [t]).length
      rw [Edit.visit_eq, ← ht, Edit.retexted, hs, List.length_append, List.length_singleton]
      split <;> exact ⟨rfl, rfl⟩
  obtain ⟨-, hseen⟩ := recorder_flat hρ hp
  have hboth := (p.traverse_related Foretells.visitRel hrelated).same [] {} rfl (hseen ▸ h)
  exact hboth.1.trans (traverse_recorder hρ p [])

end

/-! ## Exchanging texts -/

/-- A text in its encoded form, which markup can be read on behind. -/
def Wording.encoded (text : String) (h : text ≠ "") : Wording where
  raw := Entity.encode text
  value := text
  raw_ne hraw := by
    have hdecode := Entity.decode_encode text
    rw [hraw] at hdecode
    exact h (Except.ok.inj (hdecode.symm.trans rfl))
  plain c hc :=
    ⟨fun h => Entity.not_mem_encode text (by decide) (h ▸ hc),
      fun h => Entity.not_mem_encode text (by decide) (h ▸ hc)⟩
  decode_raw := Entity.decode_encode text

/-- Where a text starts. -/
def MarkupText.offset? (t : MarkupText) : Option Nat := t.span.range.map (·.1)

/-- What the companion has for a text, by the place where it starts. -/
theorem Exchange.exchanged_eq [Exchange] {t : MarkupText} {offset : Nat}
    (ho : t.offset? = some offset) :
    Exchange.exchanged t = match Exchange.text offset with
      | some wording => { raw := wording.raw, value := wording.value }
      | none => { t with span := {} } := by
  obtain ⟨range, hrange, rfl⟩ := Option.map_eq_some_iff.1 ho
  rw [Exchange.exchanged, hrange]
  rfl

/-- A token as the companion spells it, where it is printed as it is spelled. -/
def Token.respelled [Exchange] (t : Token) : String :=
  match t.exchange? with
  | some wording => t.lead ++ wording.raw
  | none => t.lead ++ t.raw

theorem Taken.restated_eq_respelled [Exchange] {x : Taken}
    (h : x.print = x.token.lead ++ x.token.raw) :
    x.restated = x.token.respelled := by
  unfold restated Token.respelled
  cases x.token.exchange? with
  | none => exact h
  | some wording => rfl

/-- The exchange of one of some texts, or of all of them, by the places where they start. -/
@[reducible]
def Exchange.retext (texts : List MarkupText) (index : Option Nat) (wording : Wording) :
    Exchange where
  text offset :=
    if texts.zipIdx.any fun (t, number) => t.offset? == some offset && index.all (· == number) then
      some wording
    else none

section

variable {texts : List MarkupText} {index : Option Nat} {wording : Wording}

/-- If no two texts start at the same place, a text is exchanged if its number is that of the
edit. -/
theorem Exchange.retext_text (hd : texts.Pairwise fun t u => t.offset? ≠ u.offset?) {number : Nat}
    {t : MarkupText} (ht : texts[number]? = some t) {offset : Nat} (ho : t.offset? = some offset) :
    (Exchange.retext texts index wording).text offset =
      if index.all (· == number) then some wording else none := by
  have hsame : ∀ {number' t'}, texts[number']? = some t' → t'.offset? = some offset →
      number' = number := by
    intro number' t' ht' ho'
    obtain ⟨hlt, rfl⟩ := List.getElem?_eq_some_iff.1 ht
    obtain ⟨hlt', rfl⟩ := List.getElem?_eq_some_iff.1 ht'
    rw [List.pairwise_iff_getElem] at hd
    rcases Nat.lt_trichotomy number' number with h | h | h
    · exact absurd (ho'.trans ho.symm) (hd _ _ hlt' hlt h)
    · exact h
    · exact absurd (ho.trans ho'.symm) (hd _ _ hlt hlt' h)
  have hany : (texts.zipIdx.any fun (t, number) => t.offset? == some offset && index.all
    (· == number)) =
      index.all (· == number) := by
    rw [Bool.eq_iff_iff, List.any_eq_true]
    constructor
    · rintro ⟨⟨t', number'⟩, hmem, h⟩
      obtain ⟨ho', hi⟩ := Bool.and_eq_true_iff.1 h
      obtain rfl := hsame (List.mem_zipIdx_iff_getElem?.1 hmem) (beq_iff_eq.1 ho')
      exact hi
    · exact fun hi => ⟨(t, number), List.mem_zipIdx_iff_getElem?.2 ht,
        Bool.and_eq_true_iff.2 ⟨beq_iff_eq.2 ho, hi⟩⟩
  change (if (texts.zipIdx.any fun (t, number) => _) = true then _ else _) = _
  rw [hany]

/-- Where none of the texts starts, nothing is exchanged. -/
theorem Exchange.retext_text_none {offset : Nat} (h : ∀ t ∈ texts, t.offset? ≠ some offset) :
    (Exchange.retext texts index wording).text offset = none := by
  refine if_neg fun hany => ?_
  obtain ⟨⟨t, number⟩, hmem, hboth⟩ := List.any_eq_true.1 hany
  obtain ⟨ho, -⟩ := Bool.and_eq_true_iff.1 hboth
  exact h t (List.mem_of_getElem? (List.mem_zipIdx_iff_getElem?.1 hmem)) (beq_iff_eq.1 ho)

end

/-! ## What a program prints that prints its source -/

/-- Every token that a walk takes is formed. -/
theorem Step.formed {s s₁ : Scanner} {t : Token} {after : Mode} (h : Step s t after s₁) :
    t.Formed := by
  cases h with
  | plain scanned => exact Scan.next_formed scanned
  | regex _ _ _ scanned =>
    have hk := Scan.nextRegex_kind scanned
    exact ⟨fun h => by simp [hk] at h, fun h => by simp [hk] at h, fun h => by simp [hk] at h⟩
  | markup _ _ _ scanned => exact Scan.next_formed scanned

theorem Walk.formed {s r : Scanner} {tokens : List (Token × Mode)} (h : Walk s tokens r) :
    ∀ x ∈ tokens, x.1.Formed := by
  induction tokens generalizing s with
  | nil => exact fun _ hx => absurd hx List.not_mem_nil
  | cons x tokens ih =>
    obtain ⟨s₁, hstep, hwalk⟩ := h
    exact List.forall_mem_cons.2 ⟨hstep.formed, ih hwalk⟩

/-- A token is printed no longer than it is spelled. -/
theorem Taken.print_length_le {x : Taken} (h : x.token.Formed) :
    x.print.length ≤ (x.token.lead ++ x.token.raw).length := by
  have hspelling : x.spelling.length ≤ x.token.raw.length := by
    unfold spelling
    split
    · rename_i hk
      obtain ⟨text, hvalue, hlt⟩ := h.privateName hk
      have htext : x.token.text = text := by
        unfold Token.text
        rw [hvalue]
      rw [htext, String.length_append]
      change 1 + text.length ≤ _
      omega
    · rename_i hk
      obtain ⟨cooked, isHead, isTail, inner, -, hraw⟩ := h.template hk
      split
      · have hdrop : (String.ofList (x.token.raw.toList.drop 1)).length =
          x.token.raw.length - 1 := by
          rw [String.length_ofList, List.length_drop, String.length_toList]
        have hpos : 1 ≤ x.token.raw.length := by
          rw [hraw, String.length_append, String.length_append]
          cases isHead
          · change 1 ≤ 1 + inner.length + _
            omega
          · change 1 ≤ 1 + inner.length + _
            omega
        rw [String.length_append, hdrop]
        change 1 + (x.token.raw.length - 1) ≤ _
        omega
      · exact Nat.le_refl _
    · exact Nat.le_refl _
  rw [print, String.length_append, String.length_append]
  omega

namespace Atom

theorem eq_of_text? {a : Atom} {x : MarkupText} (h : a.text? = some x) : a = .leaf (.text x) := by
  rcases a with text | (id | lit | t)
  · cases h
  · cases h
  · cases h
  · exact congrArg (fun t => Atom.leaf (.text t)) (Option.some.inj h)

/-- Where a text stands in the place of a token, this is a text and starts where the text does. -/
theorem Sits.of_text {a : Atom} {t : Token} {x : MarkupText} (h : a.Sits id t)
    (hx : a.text? = some x) : t.kind = .markupText ∧ x.offset? = some t.start.offset := by
  obtain rfl := eq_of_text? hx
  cases h with
  | leaf _ _ span kind =>
    refine ⟨kind rfl, ?_⟩
    rw [MarkupText.offset?, show x.span = _ from span]
    rfl

variable [Exchange]

/-- In the place of a text, the companion prints what it has for the text. -/
theorem Sits.print_retouch {a : Atom} {t : Token} {x : MarkupText} (h : a.Sits id t)
    (hx : a.text? = some x) : (a.retouch Exchange.there).print = t.respelled := by
  obtain ⟨hkind, ho⟩ := h.of_text hx
  obtain rfl := eq_of_text? hx
  cases h with
  | leaf lead raw =>
    have hexch : t.exchange? = Exchange.text t.start.offset := if_pos hkind
    change "" ++ (Exchange.exchanged x).raw = _
    rw [Exchange.exchanged_eq ho, Token.respelled, hexch, ← lead, ← raw]
    cases Exchange.text t.start.offset <;> rfl

/-- Any other atom is printed as it was. -/
theorem print_retouch_there {a : Atom} (hx : a.text? = none) :
    (a.retouch Exchange.there).print = a.print := by
  rcases a with text | (id | lit | t)
  · rfl
  · rfl
  · rfl
  · cases hx

end Atom

namespace Reading

variable {o : Options} {source : String} (r : Reading o source)

/-- The program has one atom in the place of each token. -/
theorem flatOver : FlatOver id r.program.layout ((consumed o source).map (·.1)) := by
  obtain ⟨first, last, hcourse⟩ := r.along
  obtain ⟨us, hmoves, hlaid⟩ := hcourse.body
  have htaken := hmoves.taken
  rw [hcourse.taken, List.nil_append, hcourse.all_taken] at htaken
  rw [htaken]
  exact hlaid.flat

/-- The tokens with their parts in templates are the tokens. -/
theorem token_consumedParts :
    (consumedParts o source).map (·.token) = (consumed o source).map (·.1) := by
  rw [consumedParts, roles, List.map_map]
  rfl

/-- Where a program prints its source, every token is printed as it is spelled. -/
theorem print_eq_of_print (hp : r.program.print = source) :
    ∀ x ∈ consumedParts o source, x.print = x.token.lead ++ x.token.raw := by
  have hprint := r.print_layout rfl hp
  rw [Program.print_layout, r.spells.text_eq.symm, Trace.text_of, ← token_consumedParts, textOf,
    List.map_map] at hprint
  refine eq_of_concat_eq (fun x hx => Taken.print_length_le ?_) hprint
  exact r.walk_parts.formed (x.token, x.after) (List.mem_map.2 ⟨x, hx, rfl⟩)

/-- An atom prints what its token spells, where the program prints its source. -/
theorem atom_print_eq (hp : r.program.print = source) {pairs : List (Token × Atom)}
    (htokens : pairs.map (·.1) = (consumed o source).map (·.1))
    (hflat : Flat r.program.layout (pairs.map (·.2))) (hsits : ∀ p ∈ pairs, p.2.Sits id p.1) :
    ∀ p ∈ pairs, p.2.print = p.1.lead ++ p.1.raw := by
  have hprint := r.print_layout rfl hp
  rw [hflat.print_eq, ← htokens, textOf, List.map_map, List.map_map] at hprint
  exact eq_of_concat_eq (fun p hmem => (hsits p hmem).print_length_le) hprint

end Reading

/-! ## The exchange of texts for a program -/

section

variable {pairs : List (Token × Atom)} {index : Option Nat} {wording : Wording}

/-- The tokens start at different places. -/
theorem Reading.nodup_start {o : Options} {source : String} (r : Reading o source)
    (htokens : pairs.map (·.1) = (consumed o source).map (·.1)) :
    (pairs.map fun p => p.1.start.offset).Nodup := by
  have hstarts := r.walk.divided.pairwise_start
  rw [← htokens, List.pairwise_map] at hstarts
  exact List.pairwise_map.2 (hstarts.imp Nat.ne_of_lt)

/-- The texts that stand in the places of tokens start at different places. -/
theorem Reading.pairwise_offset {o : Options} {source : String} (r : Reading o source)
    (htokens : pairs.map (·.1) = (consumed o source).map (·.1))
    (hsits : ∀ p ∈ pairs, p.2.Sits id p.1) :
    ((pairs.map (·.2)).filterMap Atom.text?).Pairwise fun t u => t.offset? ≠ u.offset? := by
  rw [List.pairwise_filterMap, List.pairwise_map]
  refine (List.pairwise_map.1 (r.nodup_start htokens)).imp_of_mem
    fun {p q} hp hq hne t ht u hu heq => ?_
  rw [((hsits p hp).of_text ht).2, ((hsits q hq).of_text hu).2] at heq
  exact hne (Option.some.inj heq)

/-- The companion prints each atom as it spells the token. -/
theorem Reading.print_retouch {o : Options} {source : String} (r : Reading o source)
    (hp : r.program.print = source) (htokens : pairs.map (·.1) = (consumed o source).map (·.1))
    (hflat : Flat r.program.layout (pairs.map (·.2))) (hsits : ∀ p ∈ pairs, p.2.Sits id p.1) :
    ∀ p ∈ pairs,
      letI := Exchange.retext ((pairs.map (·.2)).filterMap Atom.text?) index wording
      (p.2.retouch Exchange.there).print = p.1.respelled := by
  intro p hmem
  let _ := Exchange.retext ((pairs.map (·.2)).filterMap Atom.text?) index wording
  change (p.2.retouch Exchange.there).print = p.1.respelled
  cases ht : p.2.text? with
  | some t => exact (hsits p hmem).print_retouch ht
  | none =>
    have hnone : p.1.exchange? = none := by
      unfold Token.exchange?
      split
      · refine Exchange.retext_text_none fun t hmemt ho => ?_
        obtain ⟨a, ha, hat⟩ := List.mem_filterMap.1 hmemt
        obtain ⟨q, hq, rfl⟩ := List.mem_map.1 ha
        have hsame : q.1.start.offset = p.1.start.offset :=
          Option.some.inj (((hsits q hq).of_text hat).2.symm.trans ho)
        obtain rfl := List.inj_on_of_nodup_map (r.nodup_start htokens) hq hmem hsame
        cases ht.symm.trans hat
      · rfl
    rw [Atom.print_retouch_there ht, Token.respelled, hnone]
    exact r.atom_print_eq hp htokens hflat hsits p hmem

end

namespace Reading

variable {o : Options} {source : String} (r : Reading o source)

/-- What an edit of texts makes of a program that prints its source is read again, and as the edited
program. -/
theorem exists_retext (hp : r.program.print = source) (index : Option Nat) {text : String}
    (hne : text ≠ "") {edited : Program}
    (h : (Edit.apply ⟨index, .retext text⟩ (r.program.retouch .blank)).1 = edited) :
    ∃ r' : Reading o edited.print, r'.program.retouch .blank = edited := by
  obtain ⟨pairs, htokens, hflat, hsits⟩ := r.flatOver
  let _ := Exchange.retext ((pairs.map (·.2)).filterMap Atom.text?) index (.encoded text hne)
  have htells : Exchange.there.Tells .blank index text
    ((pairs.map (·.2)).filterMap Atom.text?) := by
    intro number t ht
    obtain ⟨a, ha, hat⟩ := List.mem_filterMap.1 (List.mem_of_getElem? ht)
    obtain ⟨q, hq, rfl⟩ := List.mem_map.1 ha
    have ho := ((hsits q hq).of_text hat).2
    change _ = Exchange.exchanged t
    rw [Exchange.exchanged_eq ho, Exchange.retext_text (r.pairwise_offset htokens hsits) ht ho,
      Edit.retexted]
    split <;> rfl
  have hedited : edited = r.program.retouch Exchange.there :=
    h.symm.trans (Program.apply_retext (ρ := Exchange.there)
      (σ := .blank) rfl rfl rfl rfl hflat htells)
  have hprint : edited.print = r.restated := by
    obtain ⟨hflat', -⟩ := recorder_flat (ρ := Exchange.there) rfl hflat
    have hatoms : ((pairs.map (·.2)).map (·.retouch Exchange.there)).map Atom.print =
        (consumedParts o source).map Taken.restated := by
      have hrestated : (consumedParts o source).map Taken.restated =
          ((consumedParts o source).map (·.token)).map Token.respelled := by
        rw [List.map_map]
        exact List.map_congr_left fun x hx =>
          Taken.restated_eq_respelled (r.print_eq_of_print hp x hx)
      rw [hrestated, token_consumedParts, ← htokens, List.map_map, List.map_map, List.map_map]
      exact List.map_congr_left (r.print_retouch hp htokens hflat hsits)
    rw [Program.print, ← Program.print_layout, hedited, hflat'.print_eq, hatoms]
    rfl
  obtain ⟨r', halike⟩ := r.exists_alike
  rw [hprint]
  exact ⟨r', (hedited.trans halike).symm⟩

end Reading

/-- A text that is encoded is decoded to itself and can stand anywhere in markup. If the program of
a source prints the source and was parsed without extents, what is printed when a text of it is
replaced by another that is not empty is parsed, and to the edited program. -/
theorem parse_retext :
    (∀ text, Entity.decode (Entity.encode text) = .ok text ∧
      ∀ c ∈ ['<', '>', '\x7b', '\x7d'], c ∉ (Entity.encode text).toList) ∧
    ∀ (o : Options) (source : String) (out : Parsed), o.range = false → o.location = false →
      parse o source = .ok out → out.program.print = source →
      ∀ (index : Option Nat) (text : String), text ≠ "" →
        ∃ out', parse o (Edit.apply ⟨index, .retext text⟩ out.program).1.print = .ok out' ∧
          out'.program = (Edit.apply ⟨index, .retext text⟩ out.program).1 := by
  refine ⟨fun text => ⟨Entity.decode_encode text, fun c hc => Entity.not_mem_encode text hc⟩, ?_⟩
  intro o source out hr hl h hp index text hne
  obtain ⟨r, rfl⟩ := Reading.of_parse h
  have hselect : Span.select o = fun _ => {} := by
    funext s
    simp [Span.select, hr, hl]
  have hblank : ∀ p : Program, p.mapSpans (·.select o) = p.retouch .blank := fun p => by
    rw [hselect, Program.mapSpans_eq_retouch]
    rfl
  have hprogram : (Parsed.select o r.program r.last).program = r.program.retouch .blank :=
    hblank r.program
  rw [hprogram] at hp ⊢
  have hprint : r.program.print = source :=
    ((Program.print_mapSpans _ _).symm.trans (congrArg Program.print (hblank r.program))).trans hp
  obtain ⟨r', hr'⟩ := r.exists_retext hprint index hne rfl
  exact ⟨_, r'.parse_eq, (hblank r'.program).trans hr'⟩

/-- A text between tags that is replaced by signs with a meaning in markup. -/
theorem parse_retext_signs :
    ∃ out out', parse {} "<a>b</a>" = .ok out ∧ out.program.print = "<a>b</a>" ∧
      (Edit.apply ⟨some 0, .retext "<&\x7b"⟩ out.program).1.print = "<a>&lt;&amp;&#123;</a>" ∧
      parse {} (Edit.apply ⟨some 0, .retext "<&\x7b"⟩ out.program).1.print = .ok out' ∧
      out'.program = (Edit.apply ⟨some 0, .retext "<&\x7b"⟩ out.program).1 := by
  obtain ⟨out, h⟩ : ∃ out, parse {} "<a>b</a>" = .ok out := exists_of_isOk (by decide +kernel)
  have hprints : (parse {} "<a>b</a>").toOption.map (fun out => (out.program.print,
      (Edit.apply ⟨some 0, .retext "<&\x7b"⟩ out.program).1.print)) =
      some ("<a>b</a>", "<a>&lt;&amp;&#123;</a>") := by decide +kernel
  rw [h] at hprints
  obtain ⟨hprint, hedited⟩ := Prod.ext_iff.1 (Option.some.inj hprints)
  obtain ⟨out', h', heq⟩ := parse_retext.2 {} _ out rfl rfl h hprint (some 0) "<&\x7b" (by decide)
  exact ⟨out, out', h, hprint, hedited, h', heq⟩

end Verbatim
