import Verbatim.Proofs.Course.Basic
import Verbatim.Proofs.Results

/-!
# The two tokens ahead

Some of what an action does is decided by the lookahead and by the token behind it. This contract
keeps track of the two until the first is taken: that the lookahead does not change when it is
looked at, and that the token behind it is the one that was looked at when it becomes the lookahead.

## Main definitions

* `Verbatim.Sight` — what is known of the two tokens.
* `Verbatim.sights` — the contract.
* `Verbatim.Parse.Sees` — actions that meet it.

## Main results

* `Verbatim.sights_holds` — the contract is true of parsers.
* `Verbatim.Parse.Sees.of_returns` — what is known of a value whatever the answers are is known
  here.
-/

namespace Verbatim

open Grammar Parse

/-! ## What is known of the tokens ahead -/

/-- The lookahead, and the token behind it if that was looked at. -/
structure Sight where
  /-- The lookahead. -/
  token : Token
  /-- The token behind it. -/
  after : Option Token := none

/-- The token behind the lookahead may be the given one. -/
def Sight.MayPrecede (s : Sight) (u : Token) : Prop := ∀ v ∈ s.after, v = u

/-- Looking at a token does not change it, and the token behind the lookahead becomes the lookahead
when that is taken. -/
def sights : Contract Sight where
  allows request s post :=
    match request, post with
    | .look, post => post s.token s
    | .next, post => ∀ u, s.MayPrecede u → post s.token { token := u }
    | .peek, post => ∀ u, s.MayPrecede u → post u { s with after := some u }
    | .rescan, post | .rescanRegex, post => ∀ u, post () { token := u }
    | .setMode _, post => post () { token := s.token }
    | .lastEnd, post => ∀ p, post p s
    | .span .., post => ∀ span, post span s
    | .pending, post => ∀ o, post o s
    | .setPending _, post | .finish .., post | .tolerate .., post => post () s
    | .fail _, _ => True
  mono := by
    intro request s post post' h ha
    cases request with
    | look | setMode | setPending | finish | tolerate => exact h _ _ ha
    | next | peek => exact fun u hu => h _ _ (ha u hu)
    | rescan | rescanRegex | lastEnd | span | pending => exact fun v => h _ _ (ha v)
    | fail => trivial

/-- What is known is true of a parser. -/
structure Parser.Has (s : Sight) (q : Parser) : Prop where
  /-- The lookahead. -/
  lookahead : q.lookahead = s.token
  /-- The token behind it. -/
  after : ∀ u ∈ s.after, ∃ sc, Scan.next q.scanner.quiet = .ok u sc

/-- If nothing was looked at, only the lookahead is known. -/
theorem Parser.Has.of_lookahead {t : Token} {q : Parser} (h : q.lookahead = t) :
    q.Has { token := t } :=
  ⟨h, fun u hu => by cases hu⟩

/-- What is scanned next is what was looked at. -/
theorem Parser.Has.mayPrecede {s : Sight} {q : Parser} {u : Token} {sc : Scanner} (h : q.Has s)
    (hu : Scan.next q.scanner = .ok u sc) : s.MayPrecede u := by
  intro v hv
  obtain ⟨sc', hv⟩ := h.after v hv
  rw [Scan.next_quiet_ok hu] at hv
  injection hv with huv
  exact huv.symm

/-- The contract is true of parsers. -/
theorem sights_holds : sights.Holds (fun s q => q.Has s) fun _ _ => True := by
  intro request s q post hq ha
  cases request with
  | look =>
    refine ⟨s, hq, ?_⟩
    rw [hq.lookahead]
    exact ha
  | next =>
    change EndsIn _ _ post (Parser.next q)
    rcases Parser.next_cases q with ⟨u, sc, hs, hr⟩ | ⟨e, r, hr, -⟩
    · rw [hr, hq.lookahead]
      exact ⟨{ token := u }, .of_lookahead rfl, ha u (hq.mayPrecede hs)⟩
    · rw [hr]
      trivial
  | peek =>
    change EndsIn _ _ post (Parser.peek q)
    rcases Parser.peek_cases q with ⟨u, sc, hs, hr⟩ | ⟨e, r, hr, -⟩
    · rw [hr]
      refine ⟨{ s with after := some u }, ⟨hq.lookahead, ?_⟩, ha u (hq.mayPrecede hs)⟩
      rintro v ⟨⟩
      refine ⟨sc.quiet, ?_⟩
      change Scan.next (sc.restore q.scanner.save).quiet = _
      rw [Tracks.quiet_goBack hs]
      exact Scan.next_quiet_ok hs
    · rw [hr]
      trivial
  | rescan =>
    change EndsIn _ _ post (Parser.rescanWith Scan.next q)
    rcases Parser.rescanWith_cases Scan.next q with ⟨u, sc, hs, hr⟩ | ⟨e, r, hr, -⟩
    · rw [hr]
      exact ⟨{ token := u }, .of_lookahead rfl, ha u⟩
    · rw [hr]
      trivial
  | rescanRegex =>
    change EndsIn _ _ post (Parser.rescanWith Scan.nextRegex q)
    rcases Parser.rescanWith_cases Scan.nextRegex q with ⟨u, sc, hs, hr⟩ | ⟨e, r, hr, -⟩
    · rw [hr]
      exact ⟨{ token := u }, .of_lookahead rfl, ha u⟩
    · rw [hr]
      trivial
  | setMode mode => exact ⟨{ token := s.token }, .of_lookahead hq.lookahead, ha⟩
  | lastEnd => exact ⟨s, hq, ha _⟩
  | span => exact ⟨s, hq, ha _⟩
  | pending => exact ⟨s, hq, ha _⟩
  | setPending o => exact ⟨s, ⟨hq.lookahead, hq.after⟩, ha⟩
  | finish kind span => exact ⟨s, ⟨hq.lookahead, hq.after⟩, ha⟩
  | tolerate finder fault site =>
    have htolerate : Parser.answer (.tolerate finder fault site) q =
        Parser.tolerate (Finder.recorded fault site) (finder.thrown fault site) q := rfl
    rw [htolerate]
    unfold Parser.tolerate
    split
    · exact ⟨s, ⟨hq.lookahead, hq.after⟩, ha⟩
    · trivial
  | fail e => trivial

/-! ## Actions that see the tokens ahead -/

/-- An action that begins in front of the given tokens, such that `post` holds behind it. -/
def Parse.Sees {α : Type} (action : Parse α) (s : Sight) (post : α → Sight → Prop) : Prop :=
  action.Meets sights s post

namespace Parse

variable {α β : Type} {s : Sight} {post : α → Sight → Prop}

@[simp]
theorem sees_pure {value : α} : (pure value : Parse α).Sees s post = post value s := rfl

@[simp]
theorem sees_bind {action : Parse β} {f : β → Parse α} :
    (action >>= f).Sees s post = action.Sees s fun v s' => (f v).Sees s' post := rfl

@[simp]
theorem sees_map {action : Parse β} {f : β → α} :
    (f <$> action).Sees s post = action.Sees s fun v s' => post (f v) s' := rfl

@[simp]
theorem sees_ite {b : Prop} [Decidable b] {yes no : Parse α} :
    (if b then yes else no).Sees s post = ((b → yes.Sees s post) ∧ (¬ b → no.Sees s post)) := by
  split <;> simp_all

@[simp]
theorem sees_look {post : Token → Sight → Prop} : look.Sees s post = post s.token s := rfl

@[simp]
theorem sees_next {post : Token → Sight → Prop} :
    next.Sees s post = ∀ u, s.MayPrecede u → post s.token { token := u } := rfl

@[simp]
theorem sees_peek {post : Token → Sight → Prop} :
    peek.Sees s post = ∀ u, s.MayPrecede u → post u { s with after := some u } := rfl

@[simp]
theorem sees_tolerate {fault : Fault} {site : Site} {post : Unit → Sight → Prop} :
    (tolerate fault site).Sees s post = post () s := rfl

@[simp]
theorem sees_reject {fault : Fault} {site : Site} :
    (reject fault site : Parse α).Sees s post = True := rfl

@[simp]
theorem sees_pending {post : Option Site → Sight → Prop} :
    pending.Sees s post = ∀ o : Option Site, post o s := rfl

@[simp]
theorem sees_setPending {o : Option Site} {post : Unit → Sight → Prop} :
    (setPending o).Sees s post = post () s := rfl

@[simp]
theorem sees_here {post : Position → Sight → Prop} :
    here.Sees s post = post s.token.start s := rfl

@[simp]
theorem sees_sees {spelling : String} {post : Bool → Sight → Prop} :
    (sees spelling).Sees s post = post (s.token.isPunctuator spelling) s := rfl

@[simp]
theorem sees_seesWord {word : String} {post : Bool → Sight → Prop} :
    (seesWord word).Sees s post = post (s.token.isWord word) s := rfl

@[simp]
theorem sees_seesKeyword {word : String} {post : Bool → Sight → Prop} :
    (seesKeyword word).Sees s post = post (s.token.isKeyword word) s := rfl

@[simp]
theorem sees_lead {post : String → Sight → Prop} :
    lead.Sees s post = ∀ u, s.MayPrecede u → post s.token.lead { token := u } := rfl

@[simp]
theorem sees_unexpected {ctx : Context} {u : Token} :
    (unexpected ctx u : Parse α).Sees s post = True := rfl

@[simp]
theorem sees_unexpectedHere {ctx : Context} :
    (unexpectedHere ctx : Parse α).Sees s post = True := rfl

namespace Sees

theorem imp {action : Parse α} {post' : α → Sight → Prop} (h : action.Sees s post)
    (hp : ∀ v s', post v s' → post' v s') : action.Sees s post' := Meets.imp h hp

/-- What is yielded whatever the answers are is yielded here. -/
theorem of_returns {action : Parse α} {P : α → Prop} (h : action.Returns P) :
    action.Sees s fun v _ => P v := by
  induction action generalizing s with
  | done value => exact h
  | ask request =>
    cases request with
    | look | setMode | setPending | finish | tolerate => exact h _
    | next | peek => exact fun u _ => h _
    | rescan | rescanRegex => exact fun u => h _
    | lastEnd | span | pending => exact fun v => h v
    | fail => trivial
  | andThen first resume ih ih' =>
    have hfirst : first.Returns fun v => (resume v).Returns P := h
    have hsees : first.Sees s fun v _ => (resume v).Returns P := ih hfirst
    exact sees_bind.mpr (imp hsees fun v s' hv => ih' v hv)

/-- Nothing need be known of an action of which nothing is used. -/
theorem any {action : Parse α} (h : ∀ v s', post v s') : action.Sees s post :=
  imp (of_returns (.triv action)) fun v s' _ => h v s'

/-- Behind an action of which nothing is used. -/
theorem bindAny {action : Parse β} {f : β → Parse α} (h : ∀ v s', (f v).Sees s' post) :
    (action >>= f).Sees s post := sees_bind.mpr (any h)

/-- What is yielded whatever the answers are is all that is used. -/
theorem yielding {action : Parse α} {P : α → Prop} (h : action.Returns P)
    (hp : ∀ v s', P v → post v s') : action.Sees s post := imp (of_returns h) fun v s' => hp v s'

end Sees

end Parse

end Verbatim
