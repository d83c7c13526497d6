import Verbatim.Proofs.Formed.Tree
import Verbatim.Proofs.Sight

/-!
# Groups in front of arrows

A group in parentheses that is followed by an arrow is left undecided until the arrow is reached. If
it then turns out not to be what stands in front of an arrow (because an operator stands before it,
and the fault is tolerated), the parse goes on with the arrow ahead, which nothing takes and with
which nothing begins. So a tree that holds an undecided group is known by the arrow ahead: it is a
draft, and whatever takes a token behind it has a well-formed tree.

## Main definitions

* `Verbatim.Sight.AtArrow` — the lookahead is an arrow.
* `Verbatim.Tree.Draft` — trees that are well formed unless an arrow is ahead.
* `Verbatim.Listing` — what is known of a list with commas.
* `Verbatim.Productions.Forms` — what is known of the productions that others call.
-/

namespace Verbatim

open Grammar Parse

/-- The lookahead is an arrow. -/
def Sight.AtArrow (s : Sight) : Prop := s.token.isPunctuator "=>" = true

namespace Sight

variable {s : Sight}

/-- An arrow is a punctuator. -/
theorem AtArrow.kind (h : s.AtArrow) : s.token.kind = .punctuator :=
  of_decide_eq_true (Bool.and_eq_true_iff.1 h).1

theorem AtArrow.raw (h : s.AtArrow) : s.token.raw = "=>" := eq_of_beq (Bool.and_eq_true_iff.1 h).2

theorem not_atArrow_of_kind {kind : TokenKind} (h : s.token.kind = kind)
    (hne : kind ≠ .punctuator) : ¬ s.AtArrow := fun ha => hne (h.symm.trans ha.kind)

/-- No other punctuator is an arrow. -/
theorem not_atArrow_of_isPunctuator {spelling : String} (h : s.token.isPunctuator spelling = true)
    (hne : spelling ≠ "=>") : ¬ s.AtArrow :=
  fun ha => hne ((eq_of_beq (Bool.and_eq_true_iff.1 h).2).symm.trans ha.raw)

/-- No reserved word is one. -/
theorem not_atArrow_of_isKeyword {word : String} (h : s.token.isKeyword word = true) :
    ¬ s.AtArrow :=
  not_atArrow_of_kind (of_decide_eq_true (Bool.and_eq_true_iff.1 h).1) (by decide)

/-- No name is one. -/
theorem not_atArrow_of_isWord {word : String} (h : s.token.isWord word = true) : ¬ s.AtArrow :=
  not_atArrow_of_kind
    (of_decide_eq_true (Bool.and_eq_true_iff.1 (Bool.and_eq_true_iff.1 h).1).1) (by decide)

end Sight

namespace Tree

/-- The items of an undecided group. -/
def coverItems : {c : Category} → Tree c → List Expr
  | _, .cover _ _ items _ _ _ => items.toList
  | _, _ => []

/-- A tree without dots in front that is well formed, unless an arrow is ahead. The items of an
undecided group are well formed in any case. -/
structure Draft {c : Category} (t : Tree c) (s : Sight) : Prop where
  /-- No dots stand in front. -/
  noDots : t.hasDots = false
  /-- The items of an undecided group are well formed. -/
  items : ∀ item ∈ t.coverItems, item.Sound
  /-- The tree is well formed, unless an arrow is ahead. -/
  sound : t.Sound ∨ s.AtArrow

variable {c d : Category} {t : Tree c} {t' : Tree d} {s : Sight}

theorem Draft.plain (h : t.Draft s) (hs : ¬ s.AtArrow) : t.Plain :=
  ⟨h.sound.resolve_right hs, h.noDots⟩

theorem Draft.plain_or (h : t.Draft s) : t.Plain ∨ s.AtArrow :=
  h.sound.imp_left fun hsound => ⟨hsound, h.noDots⟩

theorem Draft.later {s' : Sight} (h : t.Draft s) (hs : s.AtArrow → s'.AtArrow) : t.Draft s' :=
  ⟨h.noDots, h.items, h.sound.imp_right hs⟩

theorem Plain.draft (h : t.Plain) : t.Draft s := by
  refine ⟨h.noDots, ?_, .inl h.sound⟩
  cases t
  case cover => exact h.sound.rule.shape.elim
  all_goals exact List.forall_mem_nil _

/-- A tree whose last part is a draft. -/
theorem Draft.wrap (h : t.Draft s) (hplain : t.Plain → t'.Plain) (noDots : t'.hasDots = false)
    (hitems : t'.coverItems = []) : t'.Draft s :=
  ⟨noDots, hitems ▸ List.forall_mem_nil _,
    h.sound.imp_left fun hsound => (hplain ⟨hsound, h.noDots⟩).sound⟩

/-- A list of drafts. -/
theorem Draft.ofList {items : List (Tree c)} (h : ∀ x ∈ items, x.Draft s) :
    (Tree.ofList items).Draft s := by
  have hnone : (Tree.ofList items).coverItems = [] := by cases items <;> rfl
  refine ⟨?_, hnone ▸ List.forall_mem_nil _, ?_⟩
  · rw [hasDots_ofList, List.any_eq_false]
    exact fun x hx => Bool.eq_false_iff.1 (h x hx).noDots
  · by_cases hs : s.AtArrow
    · exact .inr hs
    · exact .inl (.ofList fun x hx => ((h x hx).plain hs).sound)

end Tree

/-- What is known of an action that reads a construct: it does not begin at an arrow, and what it
reads is a draft. -/
def Parse.Drafts {c : Category} (action : Parse (Tree c)) : Prop :=
  ∀ s, action.Sees s fun v s' => ¬ s.AtArrow ∧ v.Draft s'

theorem Parse.Drafts.into {c : Category} {action : Parse (Tree c)} {s : Sight}
    {post : Tree c → Sight → Prop} (h : action.Drafts)
    (hp : ¬ s.AtArrow → ∀ v s', v.Draft s' → post v s') : action.Sees s post :=
  (h s).imp fun v s' hv => hp hv.1 v s' hv.2

/-! ## Steps -/

namespace Parse.Drafts

variable {α β : Type} {s : Sight} {ctx : Context}

theorem expect {spelling : String} {post : String → Sight → Prop} (hne : spelling ≠ "=>")
    (h : ¬ s.AtArrow → ∀ text s', post text s') :
    (Parse.expect ctx spelling).Sees s post := by
  simp only [Parse.expect, sees_bind, sees_sees, sees_ite, sees_unexpectedHere,
    implies_true, and_true]
  exact fun hs => Sees.any (h (Sight.not_atArrow_of_isPunctuator hs hne))

theorem separator {post : String → Sight → Prop} (h : ¬ s.AtArrow → ∀ text s', post text s') :
    (Parse.separator ctx).Sees s post := expect nofun fun hs _ => h hs _

theorem expectKeyword {word : String} {post : String → Sight → Prop}
    (h : ¬ s.AtArrow → ∀ text s', post text s') : (Parse.expectKeyword ctx word).Sees s post := by
  simp only [Parse.expectKeyword, sees_bind, sees_seesKeyword, sees_ite, sees_unexpectedHere,
    implies_true, and_true]
  exact fun hs => Sees.any (h (Sight.not_atArrow_of_isKeyword hs))

theorem expectWord {word : String} {post : String → Sight → Prop}
    (h : ¬ s.AtArrow → ∀ text s', post text s') : (Parse.expectWord ctx word).Sees s post := by
  simp only [Parse.expectWord, sees_bind, sees_seesWord, sees_ite, sees_unexpectedHere,
    implies_true, and_true]
  exact fun hs => Sees.any (h (Sight.not_atArrow_of_isWord hs))

/-- If the punctuator is not there, nothing is taken. -/
theorem accept {spelling : String} {post : Option String → Sight → Prop} (hne : spelling ≠ "=>")
    (hsome : ¬ s.AtArrow → ∀ text s', post (some text) s') (hnone : post none s) :
    (Parse.accept spelling).Sees s post := by
  simp only [Parse.accept, sees_bind, sees_sees, sees_ite, sees_pure]
  exact ⟨fun hs => Sees.any (hsome (Sight.not_atArrow_of_isPunctuator hs hne)), fun _ => hnone⟩

/-- The end of a statement is no arrow. -/
theorem terminator {post : Terminator → Sight → Prop}
    (h : ∀ ending s', (s.AtArrow → s'.AtArrow) → post ending s') :
    (Parse.terminator ctx).Sees s post := by
  simp only [Parse.terminator, sees_bind, sees_look, sees_ite, sees_unexpected, sees_pure,
    implies_true, and_true]
  refine ⟨fun hs => Sees.any fun _ s' => h _ _ fun ha => ?_, fun _ _ => h _ _ id⟩
  exact absurd ha (Sight.not_atArrow_of_isPunctuator hs (by decide))

theorem finishAt {kind : NodeKind} {start stop : Position} {post : Span → Sight → Prop}
    (h : ∀ span, post span s) : (Parse.finishAt kind start stop).Sees s post := h

theorem finish {kind : NodeKind} {start : Position} {post : Span → Sight → Prop}
    (h : ∀ span, post span s) : (Parse.finish kind start).Sees s post := fun _ => h

theorem extent {start : Position} {post : Span → Sight → Prop} (h : ∀ span, post span s) :
    (Parse.extent start).Sees s post := fun _ => h

/-! ## Loops -/

/-- Items up to a token that is no arrow. -/
theorem many {ends : Token → Bool} {item : Parse α} {rounds : Nat} {P : α → Prop}
    {post : List α → Sight → Prop} (hends : ∀ t : Token,
      ends t = true → t.isPunctuator "=>" = false)
    (hitem : ∀ s, item.Sees s fun v s' => ¬ s.AtArrow ∧ (P v ∨ s'.AtArrow))
    (h : ¬ s.AtArrow → ∀ vs s', (∀ v ∈ vs, P v) → post vs s') :
    (Parse.many ends item rounds).Sees s post := by
  induction rounds generalizing s post with
  | zero => trivial
  | succ rounds ih =>
    simp only [Parse.many, sees_bind, sees_look, sees_ite, sees_pure]
    refine ⟨fun hend => ?_, fun _ => (hitem s).imp fun v s' hv => ih fun hs vs s'' hvs => ?_⟩
    · exact h (Bool.eq_false_iff.1 (hends _ hend)) _ _ (List.forall_mem_nil _)
    · exact h hv.1 _ _ (List.forall_mem_cons.2 ⟨hv.2.resolve_right hs, hvs⟩)

end Parse.Drafts

/-- What is known of a list with commas: all items are such that `P`, or the last one is such that
`Q` and no comma follows it. -/
def Listing {α : Type} (P Q : α → Prop) (values : List α) (commas : List String) : Prop :=
  (∀ v ∈ values, P v) ∨ ∃ front last, values = front ++ [last] ∧ (∀ v ∈ front, P v) ∧ Q last ∧
    commas.length ≤ front.length

theorem Listing.cons {α : Type} {P Q : α → Prop} {values : List α} {commas : List String} {v : α}
    {comma : String} (h : Listing P Q values commas) (hv : P v) :
    Listing P Q (v :: values) (comma :: commas) := by
  obtain hall | ⟨front, last, rfl, hfront, hlast, hlength⟩ := h
  · exact .inl (List.forall_mem_cons.2 ⟨hv, hall⟩)
  · exact .inr ⟨v :: front, last, rfl, List.forall_mem_cons.2 ⟨hv, hfront⟩, hlast,
      Nat.succ_le_succ hlength⟩

/-- What is known of one round of reading a list with commas. -/
def Parse.Round.Lists {α : Type} (P Q : α → Prop) (s : Sight) : Round α → Prop
  | .item v => P v ∨ s.AtArrow
  | .hole v _ => P v
  | .last v => Q v

namespace Parse.Drafts

variable {α β : Type} {s : Sight} {ctx : Context} {P Q : α → Prop} {close : String}
  {round : Parse (Round α)} {rounds : Nat} {post : List α × List String → Sight → Prop}

/-- A list with commas up to a punctuator that is no arrow. -/
theorem listedDots (hne : close ≠ "=>") (hround : ∀ s, round.Sees s fun r s' => r.Lists P Q s')
    (h : ∀ r s', Listing P Q r.1 r.2 → post r s') :
    (Parse.listed ctx close round rounds).Sees s post := by
  induction rounds generalizing s post with
  | zero => trivial
  | succ rounds ih =>
    simp only [Parse.listed, sees_bind, sees_sees, sees_ite, sees_pure]
    refine ⟨fun _ => h _ _ (.inl (List.forall_mem_nil _)),
      fun _ => (hround s).imp fun r s' hr => ?_⟩
    cases r with
    | last v => exact h _ _ (.inr ⟨[], v, rfl, List.forall_mem_nil _, hr, Nat.le_refl _⟩)
    | hole v comma => exact ih fun r s'' hrest => h _ _ (hrest.cons hr)
    | item v =>
      simp only [sees_bind, sees_sees, sees_ite, sees_pure]
      refine ⟨fun hclose => ?_, fun _ => separator fun hs comma s'' => ih fun r s'' hrest => ?_⟩
      · have hv := hr.resolve_right (Sight.not_atArrow_of_isPunctuator hclose hne)
        exact h _ _ (.inl (List.forall_mem_singleton.2 hv))
      · exact h _ _ (hrest.cons (hr.resolve_right hs))

/-- The same, where no item is the last by itself. -/
theorem listed (hne : close ≠ "=>")
    (hround : ∀ s, round.Sees s fun r s' => r.Lists P (fun _ => False) s')
    (h : ∀ r s', (∀ v ∈ r.1, P v) → post r s') :
    (Parse.listed ctx close round rounds).Sees s post := by
  refine listedDots hne hround fun r s' hr => h r s' (hr.elim id ?_)
  rintro ⟨_, _, _, _, hfalse, _⟩
  exact hfalse.elim

/-- Items behind commas, which are drafts if what stands in front is. -/
theorem afterCommas {c : Category} {item : Parse (Tree c)}
    {post : List (Tree c) × List String → Sight → Prop}
    (hitem : ∀ s, item.Sees s fun v s' => v.Draft s')
    (hfirst : s.AtArrow → post ([], []) s)
    (h : ¬ s.AtArrow → ∀ r s', (∀ v ∈ r.1, v.Draft s') → post r s') :
    (Parse.afterCommas ctx item rounds).Sees s post := by
  induction rounds generalizing s post with
  | zero => trivial
  | succ rounds ih =>
    simp only [Parse.afterCommas, sees_bind, sees_sees, sees_ite, sees_pure]
    refine ⟨fun _ => ?_, fun _ => separator fun hs comma s' => (hitem s').imp fun v s'' hv => ?_⟩
    · by_cases hs : s.AtArrow
      · exact hfirst hs
      · exact h hs _ _ (List.forall_mem_nil _)
    · refine ih (fun hs' => ?_) fun hs' r s₃ hr => ?_
      · exact h hs _ _ (List.forall_mem_singleton.2 hv)
      · exact h hs _ _ (List.forall_mem_cons.2 ⟨(hv.plain hs').draft, hr⟩)

/-- Repeating a step on a draft. -/
theorem iterate {step : β → Parse (Option β)} {R : β → Sight → Prop} {v : β}
    {post : β → Sight → Prop}
    (hstep : ∀ v s, R v s → (step v).Sees s fun w s' => w.elim (R v s') (R · s')) (hv : R v s)
    (h : ∀ v s', R v s' → post v s') : (Parse.iterate step rounds v).Sees s post := by
  induction rounds generalizing s v with
  | zero => trivial
  | succ rounds ih =>
    simp only [Parse.iterate, sees_bind]
    refine (hstep v s hv).imp fun w s' hw => ?_
    cases w with
    | none => exact h v s' hw
    | some w => exact ih hw

end Parse.Drafts

/-! ## The productions that others call -/

/-- A pattern that binds names only, with neither dots nor a default. -/
structure Tree.Binds (p : Pattern) : Prop where
  /-- The pattern is well formed. -/
  sound : p.Sound
  /-- It has neither dots nor a default. -/
  target : p.isTarget = true
  /-- It binds names only. -/
  binding : p.isBinding = true

theorem Tree.Binds.namePattern {id : Ident} : (Tree.namePattern id).Binds :=
  ⟨.of_plain trivial (List.forall_mem_nil _), rfl, rfl⟩

/-- A pattern that binds names only is well formed, with no dots in front. -/
theorem Tree.Binds.plain {p : Pattern} (h : p.Binds) : p.Plain := by
  refine ⟨h.sound, ?_⟩
  have ht := h.target
  cases p <;> first | rfl | cases ht

/-- What is known of markup. -/
def Markup.Plain : Markup → Prop
  | .element e => Tree.Plain e
  | .fragment f => Tree.Plain f

/-- What is known of the productions that others call. -/
structure Productions.Forms (p : Productions) : Prop where
  expression : ∀ ctx, (p.expression ctx).Drafts
  assignment : ∀ ctx, (p.assignment ctx).Drafts
  cover : ∀ ctx, (p.cover ctx).Drafts
  binary : ∀ least ctx, (p.binary least ctx).Drafts
  exponentiation : ∀ ctx, (p.exponentiation ctx).Drafts
  unary : ∀ ctx, (p.unary ctx).Drafts
  chain : ∀ ctx, (p.chain ctx).Drafts
  callee : ∀ ctx, (p.callee ctx).Drafts
  binding : ∀ fault ctx s, (p.binding fault ctx).Sees s fun v _ => v.Binds
  statement : ∀ ctx, (p.statement ctx).Drafts
  item : ∀ ctx, (p.item ctx).Drafts
  markup : ∀ start lead after ctx s, (p.markup start lead after ctx).Sees s fun v _ => v.Plain

end Verbatim
