import Verbatim.Proofs.Course.Basic
import Verbatim.Proofs.Static.Fits

/-!
# What stands ahead of the parser

Whether a construct obeys the rules depends on the tokens that it was read from: on the mark of a
literal, on the text of a name, and on the operator behind an operand. The contract keeps track of
the lookahead. What an action looks at is the token that is known, and behind a token that is taken
any other of the same mode may follow. Outside markup it is a token of the language, whose mark
tells of its spelling.

A fault that is tolerated is survived only where the parse need not be clean.

## Main definitions

* `Verbatim.Ahead` — what is known of the lookahead.
* `Verbatim.readings` — the contract.
* `Verbatim.Parse.Reads` — actions that meet it.

## Main results

* `Verbatim.readings_holds` — the contract is true of parsers.
-/

namespace Verbatim

open Verbatim.Grammar

/-! ## The contract -/

/-- A token of the language. -/
structure CodeToken where
  /-- The token. -/
  token : Token
  /-- Its mark tells of its spelling. -/
  plain : token.Plain

/-- What is known of the lookahead. -/
inductive Ahead where
  /-- It is a token of the language, and so will be the next one. -/
  | code (t : CodeToken)
  /-- It is any token, and the next one will be of the given mode. -/
  | markup (t : Token) (mode : Mode)

namespace Ahead

/-- The lookahead. -/
def token : Ahead → Token
  | .code t => t.token
  | .markup t _ => t

/-- The mode of the next token. -/
def mode : Ahead → Mode
  | .code _ => .normal
  | .markup _ mode => mode

@[simp]
theorem token_code (t : CodeToken) : (code t).token = t.token := rfl

@[simp]
theorem token_markup (t : Token) (mode : Mode) : (markup t mode).token = t := rfl

end Ahead

namespace Mode

/-- The lookahead was scanned in the mode. -/
def Ends : Mode → Ahead → Prop
  | .normal, s => ∃ t, s = .code t
  | mode, s => ∃ t, s = .markup t mode

/-- Whatever token is scanned in the mode, `post` holds of it. -/
def Scans : Mode → (Ahead → Prop) → Prop
  | .normal, post => ∀ t, post (.code t)
  | mode, post => ∀ t, post (.markup t mode)

variable {mode : Mode} {post : Ahead → Prop}

theorem scans_iff : mode.Scans post ↔ ∀ s, mode.Ends s → post s := by
  cases mode <;> exact ⟨fun h s ⟨t, ht⟩ => ht ▸ h t, fun h t => h _ ⟨t, rfl⟩⟩

theorem Scans.imp {post' : Ahead → Prop} (h : mode.Scans post) (hp : ∀ s, post s → post' s) :
    mode.Scans post' := scans_iff.2 fun s hs => hp s (scans_iff.1 h s hs)

end Mode

/-- What is known of the lookahead, and what is demanded of requests. -/
def readings (clean : Bool) : Contract Ahead where
  allows request s post :=
    match request, post with
    | .look, post => post s.token s
    | .next, post => s.mode.Scans (post s.token)
    | .peek, post => ∀ t : Token, post t s
    | .rescan, post => s.mode.Scans (post ())
    | .rescanRegex, post => Mode.normal.Ends s ∧ ∀ t, post () (.code t)
    | .setMode mode, post => post () (.markup s.token mode)
    | .lastEnd, post => ∀ p, post p s
    | .span .., post => ∀ span, post span s
    | .pending, post => ∀ o, post o s
    | .setPending _, post | .finish .., post => post () s
    | .tolerate .., post => clean = false → post () s
    | .fail _, _ => True
  mono := by
    intro request s post post' h ha
    cases request with
    | look | setMode | setPending | finish => exact h _ _ ha
    | next | rescan => exact Mode.Scans.imp ha fun s => h _ s
    | rescanRegex => exact ⟨ha.1, fun t => h _ _ (ha.2 t)⟩
    | peek | lastEnd | span | pending => exact fun v => h _ _ (ha v)
    | tolerate => exact fun hc => h _ _ (ha hc)
    | fail => trivial

/-- An action that reads on from the given lookahead, such that `post` holds behind it of its value
and of the lookahead. -/
def Parse.Reads (clean : Bool) {α : Type} (action : Parse α) (s : Ahead) (post : α → Ahead → Prop) :
    Prop := action.Meets (readings clean) s post

/-! ## The contract is true -/

/-- What is known of a parser. -/
structure Parser.StandsAt (clean : Bool) (s : Ahead) (q : Parser) : Prop where
  /-- A clean parse tolerates no faults. -/
  strict : clean = true → q.report.tolerant = false
  /-- The lookahead. -/
  lookahead : q.lookahead = s.token
  /-- The mode. -/
  mode : q.scanner.mode = s.mode

namespace Parser

/-- What is scanned in a mode is known. -/
theorem exists_ends {sc sc' : Scanner} {t : Token} {mode : Mode} (h : Scan.next sc = .ok t sc')
    (hm : sc.mode = mode) : ∃ s, mode.Ends s ∧ s.token = t ∧ s.mode = mode := by
  cases mode with
  | normal => exact ⟨.code ⟨t, Scan.next_plain h hm⟩, ⟨_, rfl⟩, rfl, rfl⟩
  | tag => exact ⟨.markup t .tag, ⟨_, rfl⟩, rfl, rfl⟩
  | text => exact ⟨.markup t .text, ⟨_, rfl⟩, rfl, rfl⟩

end Parser

/-- The contract is true of parsers, which tolerate no faults if the parse is to be clean. -/
theorem readings_holds (clean : Bool) :
    (readings clean).Holds (fun s q => q.StandsAt clean s) fun _ _ => True := by
  intro request s q post hq ha
  cases request with
  | look =>
    refine ⟨s, hq, ?_⟩
    rw [hq.lookahead]
    exact ha
  | next =>
    change EndsIn _ _ post (Parser.next q)
    rcases Parser.next_cases q with ⟨u, sc, hs, hr⟩ | ⟨e, r, hr, -⟩
    · rw [hr]
      obtain ⟨s', hends, hu, hm⟩ := Parser.exists_ends hs hq.mode
      refine ⟨s', ⟨hq.strict, hu.symm, ((Scan.next_mode hs).trans hq.mode).trans hm.symm⟩, ?_⟩
      rw [hq.lookahead]
      exact Mode.scans_iff.1 ha s' hends
    · rw [hr]
      trivial
  | peek =>
    change EndsIn _ _ post (Parser.peek q)
    rcases Parser.peek_cases q with ⟨u, sc, hs, hr⟩ | ⟨e, r, hr, -⟩
    · rw [hr]
      exact ⟨s, ⟨hq.strict, hq.lookahead, (Scan.next_mode hs).trans hq.mode⟩, ha u⟩
    · rw [hr]
      trivial
  | rescan =>
    change EndsIn _ _ post (Parser.rescanWith Scan.next q)
    rcases Parser.rescanWith_cases Scan.next q with ⟨u, sc, hs, hr⟩ | ⟨e, r, hr, -⟩
    · rw [hr]
      obtain ⟨s', hends, hu, hm⟩ := Parser.exists_ends hs (show _ = s.mode from hq.mode)
      exact ⟨s', ⟨hq.strict, hu.symm, ((Scan.next_mode hs).trans hq.mode).trans hm.symm⟩,
        Mode.scans_iff.1 ha s' hends⟩
    · rw [hr]
      trivial
  | rescanRegex =>
    obtain ⟨⟨t, rfl⟩, ha⟩ := ha
    change EndsIn _ _ post (Parser.rescanWith Scan.nextRegex q)
    rcases Parser.rescanWith_cases Scan.nextRegex q with ⟨u, sc, hs, hr⟩ | ⟨e, r, hr, -⟩
    · rw [hr]
      have hkind := Scan.nextRegex_kind hs
      have hplain : u.Plain := by constructor <;> simp [hkind]
      exact ⟨.code ⟨u, hplain⟩, ⟨hq.strict, rfl, (Scan.nextRegex_mode hs).trans hq.mode⟩, ha _⟩
    · rw [hr]
      trivial
  | setMode mode => exact ⟨.markup s.token mode, ⟨hq.strict, hq.lookahead, rfl⟩, ha⟩
  | lastEnd => exact ⟨s, hq, ha _⟩
  | span => exact ⟨s, hq, ha _⟩
  | pending => exact ⟨s, hq, ha _⟩
  | setPending o => exact ⟨s, ⟨hq.strict, hq.lookahead, hq.mode⟩, ha⟩
  | finish kind span => exact ⟨s, ⟨hq.strict, hq.lookahead, hq.mode⟩, ha⟩
  | tolerate finder fault site =>
    have htolerate : Parser.answer (.tolerate finder fault site) q =
        Parser.tolerate (Finder.recorded fault site) (finder.thrown fault site) q := rfl
    rw [htolerate]
    unfold Parser.tolerate Report.tolerate
    cases ht : q.report.tolerant with
    | false => trivial
    | true =>
      have hclean : clean = false := by
        cases clean with
        | false => rfl
        | true => exact absurd (ht.symm.trans (hq.strict rfl)) (by decide)
      refine ⟨s, ⟨fun hc => ?_, hq.lookahead, hq.mode⟩, ha hclean⟩
      rw [hclean] at hc
      cases hc
  | fail e => trivial

/-! ## Single steps -/

namespace Parse

variable {clean : Bool} {α β : Type} {s : Ahead} {t : CodeToken} {post : α → Ahead → Prop}

@[simp]
theorem reads_pure {value : α} : (pure value : Parse α).Reads clean s post = post value s := rfl

@[simp]
theorem reads_bind {action : Parse β} {f : β → Parse α} :
    (action >>= f).Reads clean s post =
      action.Reads clean s fun v s' => (f v).Reads clean s' post := rfl

@[simp]
theorem reads_map {action : Parse β} {f : β → α} :
    (f <$> action).Reads clean s post = action.Reads clean s fun v s' => post (f v) s' := rfl

@[simp]
theorem reads_ite {b : Prop} [Decidable b] {yes no : Parse α} :
    (if b then yes else no).Reads clean s post =
      ((b → yes.Reads clean s post) ∧ (¬ b → no.Reads clean s post)) := by
  split <;> simp_all

@[simp]
theorem reads_fail {stage : Stage} {fault : Fault} {site : Site} :
    (fail stage fault site : Parse α).Reads clean s post = True := rfl

@[simp]
theorem reads_reject {fault : Fault} {site : Site} :
    (reject fault site : Parse α).Reads clean s post = True := rfl

@[simp]
theorem reads_look {post : Token → Ahead → Prop} : look.Reads clean s post = post s.token s := rfl

@[simp]
theorem reads_next {post : Token → Ahead → Prop} :
    next.Reads clean (.code t) post = ∀ u, post t.token (.code u) := rfl

@[simp]
theorem reads_peek {post : Token → Ahead → Prop} :
    peek.Reads clean s post = ∀ u : Token, post u s := rfl

@[simp]
theorem reads_setMode {mode : Mode} {post : Unit → Ahead → Prop} :
    (setMode mode).Reads clean s post = post () (.markup s.token mode) := rfl

theorem reads_rescan {post : Unit → Ahead → Prop} :
    rescan.Reads clean s post = s.mode.Scans (post ()) := rfl

@[simp]
theorem reads_rescanRegex {post : Unit → Ahead → Prop} :
    rescanRegex.Reads clean (.code t) post = ∀ u, post () (.code u) :=
  propext ⟨fun h => h.2, fun h => ⟨⟨t, rfl⟩, h⟩⟩

@[simp]
theorem reads_lastEnd {post : Position → Ahead → Prop} :
    lastEnd.Reads clean s post = ∀ p, post p s := rfl

@[simp]
theorem reads_pending {post : Option Site → Ahead → Prop} :
    pending.Reads clean s post = ∀ o : Option Site, post o s := rfl

@[simp]
theorem reads_setPending {o : Option Site} {post : Unit → Ahead → Prop} :
    (setPending o).Reads clean s post = post () s := rfl

@[simp]
theorem reads_report {kind : NodeKind} {span : Span} {post : Unit → Ahead → Prop} :
    (report kind span).Reads clean s post = post () s := rfl

@[simp]
theorem reads_tolerate {fault : Fault} {site : Site} {post : Unit → Ahead → Prop} :
    (tolerate fault site).Reads clean s post = (clean = false → post () s) := rfl

@[simp]
theorem reads_here {post : Position → Ahead → Prop} :
    here.Reads clean s post = post s.token.start s := rfl

@[simp]
theorem reads_sees {spelling : String} {post : Bool → Ahead → Prop} :
    (sees spelling).Reads clean s post = post (s.token.isPunctuator spelling) s := rfl

@[simp]
theorem reads_seesKeyword {word : String} {post : Bool → Ahead → Prop} :
    (seesKeyword word).Reads clean s post = post (s.token.isKeyword word) s := rfl

@[simp]
theorem reads_seesWord {word : String} {post : Bool → Ahead → Prop} :
    (seesWord word).Reads clean s post = post (s.token.isWord word) s := rfl

@[simp]
theorem reads_lead {post : String → Ahead → Prop} :
    lead.Reads clean (.code t) post = ∀ u, post t.token.lead (.code u) := rfl

@[simp]
theorem reads_stalled : (stalled : Parse α).Reads clean s post = True := rfl

@[simp]
theorem reads_unexpected {ctx : Context} {u : Token} :
    (unexpected ctx u : Parse α).Reads clean s post = True := rfl

@[simp]
theorem reads_unexpectedHere {ctx : Context} :
    (unexpectedHere ctx : Parse α).Reads clean s post = True := rfl

/-! ## Steps -/

/-- A parse that need not be clean is not demanded to be. -/
theorem unclean {P : Prop} (hc : clean = false) (h : clean = true) : P :=
  absurd (hc.symm.trans h) Bool.false_ne_true

namespace Reads

variable {ctx : Context}

theorem imp {action : Parse α} {post' : α → Ahead → Prop} (h : action.Reads clean s post)
    (hp : ∀ v s', post v s' → post' v s') : action.Reads clean s post' := Meets.imp h hp

/-- A fault that is tolerated is none of a clean parse. -/
theorem ite_tolerate {b : Prop} [Decidable b] {fault : Fault} {site : Site} {rest : Parse α}
    (h : (clean = true → ¬ b) → rest.Reads clean s post) :
    (if b then (do tolerate fault site; rest) else rest).Reads clean s post := by
  split
  · exact fun hc => h (unclean hc)
  · exact h fun _ => ‹_›

/-- A fault that ends the parse is none of those that go on. -/
theorem ite_reject {b : Prop} [Decidable b] {fault : Fault} {site : Site} {rest : Parse α}
    (h : ¬ b → rest.Reads clean s post) :
    (if b then (do reject fault site; rest) else rest).Reads clean s post := by
  split
  · trivial
  · exact h ‹_›

/-- What is taken is followed by a token of the mode. -/
theorem leadIn {post : String → Ahead → Prop} (h : ∀ text, s.mode.Scans (post text)) :
    Parse.lead.Reads clean s post := h _

theorem expectIn {spelling : String} {post : String → Ahead → Prop}
    (h : ∀ text, s.mode.Scans (post text)) : (Parse.expect ctx spelling).Reads clean s post := by
  simp only [Parse.expect, reads_bind, reads_sees, reads_ite, reads_unexpectedHere, implies_true,
    and_true]
  exact fun _ => leadIn h

@[simp]
theorem expect {spelling : String} {post : String → Ahead → Prop}
    (h : ∀ text u, post text (.code u)) : (Parse.expect ctx spelling).Reads clean (.code t) post :=
  expectIn h

@[simp]
theorem expectKeyword {word : String} {post : String → Ahead → Prop}
    (h : ∀ text u, post text (.code u)) :
    (Parse.expectKeyword ctx word).Reads clean (.code t) post := by
  simp [Parse.expectKeyword, h]

@[simp]
theorem expectWord {word : String} {post : String → Ahead → Prop}
    (h : ∀ text u, post text (.code u)) :
    (Parse.expectWord ctx word).Reads clean (.code t) post := by
  simp [Parse.expectWord, h]

@[simp]
theorem separator {post : String → Ahead → Prop} (h : ∀ text u, post text (.code u)) :
    (Parse.separator ctx).Reads clean (.code t) post := by
  simp [Parse.separator, h]

@[simp]
theorem accept {spelling : String} {post : Option String → Ahead → Prop}
    (h : ∀ text u, post text (.code u)) : (Parse.accept spelling).Reads clean (.code t) post := by
  simp [Parse.accept, h]

@[simp]
theorem terminator {post : Terminator → Ahead → Prop} (h : ∀ ending u, post ending (.code u)) :
    (Parse.terminator ctx).Reads clean (.code t) post := by
  simp [Parse.terminator, h]

@[simp]
theorem finishAt {kind : NodeKind} {start stop : Position} {post : Span → Ahead → Prop}
    (h : ∀ span, post span s) : (Parse.finishAt kind start stop).Reads clean s post := h

@[simp]
theorem finish {kind : NodeKind} {start : Position} {post : Span → Ahead → Prop}
    (h : ∀ span, post span s) : (Parse.finish kind start).Reads clean s post := fun _ => h

@[simp]
theorem extent {start : Position} {post : Span → Ahead → Prop} (h : ∀ span, post span s) :
    (Parse.extent start).Reads clean s post := fun _ => h

/-- A name is called what its token is called. -/
@[simp]
theorem finishName {u : Token} {post : Ident → Ahead → Prop}
    (h : ∀ id, id.name = u.text → post id s) :
    (Parse.finishName u).Reads clean s post := fun _ _ => h _ rfl

@[simp]
theorem finishPrivateName {u : Token} {post : PrivateName → Ahead → Prop}
    (h : ∀ name, post name s) :
    (Parse.finishPrivateName u).Reads clean s post := fun _ _ => h _

@[simp]
theorem anyName {post : Ident → Ahead → Prop} (h : ∀ id u, post id (.code u)) :
    Parse.anyName.Reads clean (.code t) post := by
  simp [Parse.anyName, h]

end Reads

end Parse

/-- The value is such that `P`, and the lookahead is a token of the language. -/
def InCode {α : Type} (P : α → Prop) (v : α) (s : Ahead) : Prop := P v ∧ Mode.normal.Ends s

theorem InCode.intro {α : Type} {P : α → Prop} {v : α} {t : CodeToken} (h : P v) :
    InCode P v (.code t) := ⟨h, t, rfl⟩

namespace Parse.Reads

variable {clean : Bool} {α : Type} {s : Ahead} {t : CodeToken} {ctx : Context} {P : α → Prop}

theorem into {action : Parse α} {post : α → Ahead → Prop} (h : action.Reads clean s (InCode P))
    (hp : ∀ v u, P v → post v (.code u)) : action.Reads clean s post := by
  refine imp h fun v s' => ?_
  rintro ⟨hv, u, rfl⟩
  exact hp v u hv

/-! ## Loops -/

theorem of_meets {action : Parse α} {post : α → Ahead → Prop} :
    action.Meets (readings clean) s post ↔ action.Reads clean s post := Iff.rfl

/-- One more item such that `P`. -/
theorem all_append {l : List α} {v : α} (hl : ∀ w ∈ l, P w) (hv : P v) : ∀ w ∈ l ++ [v], P w :=
  List.forall_mem_append.2 ⟨hl, List.forall_mem_singleton.2 hv⟩

/-- Reading items in a mode, each of which is such that `P`. -/
theorem manyIn {mode : Mode} {ends : Token → Bool} {item : Parse α} {rounds : Nat}
    {post : List α → Ahead → Prop} (hs : mode.Ends s)
    (hitem : ∀ s, mode.Ends s → item.Reads clean s fun v s' => P v ∧ mode.Ends s')
    (h : ∀ vs s', (∀ v ∈ vs, P v) → mode.Ends s' → post vs s') :
    (Parse.many ends item rounds).Reads clean s post := by
  refine Meets.imp (Meets.many (c := readings clean)
    (R := fun vs s' => (∀ v ∈ vs, P v) ∧ mode.Ends s') (fun _ => of_meets.2 trivial)
    (fun {vs s'} hvs => ⟨hvs, fun _ => of_meets.2 ?_⟩) rounds (l := [])
    ⟨List.forall_mem_nil _, hs⟩) fun vs s' hvs => h vs s' hvs.1 hvs.2
  exact imp (hitem s' hvs.2) fun v s'' hv => ⟨all_append hvs.1 hv.1, hv.2⟩

/-- Reading items, each of which is such that `P`. -/
theorem many {ends : Token → Bool} {item : Parse α} {rounds : Nat} {post : List α → Ahead → Prop}
    (hitem : ∀ t, item.Reads clean (.code t) (InCode P))
    (h : ∀ vs u, (∀ v ∈ vs, P v) → post vs (.code u)) :
    (Parse.many ends item rounds).Reads clean (.code t) post := by
  refine manyIn (P := P) (show Mode.normal.Ends _ from ⟨t, rfl⟩) ?_ ?_
  · rintro _ ⟨t, rfl⟩
    exact hitem t
  · rintro vs _ hvs ⟨u, rfl⟩
    exact h vs u hvs

/-- Reading a list with commas, each item of which is such that `P`. -/
theorem listed {close : String} {round : Parse (Round α)} {rounds : Nat}
    {post : List α × List String → Ahead → Prop}
    (hround : ∀ t, round.Reads clean (.code t) (InCode (·.All P)))
    (h : ∀ r u, (∀ v ∈ r.1, P v) → post r (.code u)) :
    (Parse.listed ctx close round rounds).Reads clean (.code t) post := by
  have hcomma : ∀ {vs : List α} {s : Ahead}, ((∀ v ∈ vs, P v) ∧ Mode.normal.Ends s) →
      (Parse.separator ctx).Reads clean s fun _ s' => (∀ v ∈ vs, P v) ∧ Mode.normal.Ends s' := by
    rintro vs _ ⟨hvs, t, rfl⟩
    exact separator fun _ u => ⟨hvs, u, rfl⟩
  refine Meets.imp (Meets.listed (c := readings clean)
    (R := fun vs _ s' => (∀ v ∈ vs, P v) ∧ Mode.normal.Ends s')
    (S := fun vs _ s' => (∀ v ∈ vs, P v) ∧ Mode.normal.Ends s') (fun _ => of_meets.2 trivial)
    (fun {vs commas s'} hvs => of_meets.2 ?_) (fun {vs commas s'} hvs => of_meets.2 ?_) rounds
    (l := []) (k := []) ⟨List.forall_mem_nil _, t, rfl⟩) ?_
  · rw [reads_sees]
    cases s'.token.isPunctuator close with
    | true => exact hvs
    | false =>
      obtain ⟨hvs, t, rfl⟩ := hvs
      refine of_meets.2 (imp (hround t) fun r s'' hr => ?_)
      cases r <;> exact ⟨all_append hvs hr.1, hr.2⟩
  · rw [reads_sees]
    cases s'.token.isPunctuator close with
    | true => exact hvs
    | false => exact hcomma hvs
  · intro r s' hr
    obtain ⟨hall, u, rfl⟩ : (∀ v ∈ r.1, P v) ∧ Mode.normal.Ends s' := hr.elim id id
    exact h r u hall

/-- Reading items behind commas, each of which is such that `P`. -/
theorem afterCommas {item : Parse α} {rounds : Nat} {post : List α × List String → Ahead → Prop}
    (hitem : ∀ t, item.Reads clean (.code t) (InCode P))
    (h : ∀ r u, (∀ v ∈ r.1, P v) → post r (.code u)) :
    (Parse.afterCommas ctx item rounds).Reads clean (.code t) post := by
  refine Meets.imp (Meets.afterCommas (c := readings clean)
    (R := fun vs _ s' => (∀ v ∈ vs, P v) ∧ Mode.normal.Ends s') (fun _ => of_meets.2 trivial)
    (fun {vs commas s'} hvs => of_meets.2 ?_) rounds (l := []) (k := [])
    ⟨List.forall_mem_nil _, t, rfl⟩) ?_
  · rw [reads_sees]
    cases s'.token.isPunctuator "," with
    | false => exact hvs
    | true =>
      obtain ⟨hvs, t, rfl⟩ := hvs
      exact separator fun _ u => imp (hitem u) fun v s'' hv => ⟨all_append hvs hv.1, hv.2⟩
  · rintro r s' ⟨hr, u, rfl⟩
    exact h r u hr

/-- Repeating a step that keeps an invariant, and behind which `S` holds if it gives no new
value. -/
theorem iterate {step : α → Parse (Option α)} {rounds : Nat} {R S : α → Ahead → Prop} {v : α}
    {post : α → Ahead → Prop}
    (hstep : ∀ v s, R v s → (step v).Reads clean s fun w s' => w.elim (S v s') (R · s'))
    (hv : R v s) (h : ∀ v s, S v s → post v s) :
    (Parse.iterate step rounds v).Reads clean s post :=
  Meets.imp (Meets.iterate (c := readings clean) (R := R) (S := S) (fun _ => of_meets.2 trivial)
    (fun hv => hstep _ _ hv) rounds hv) h

/-- Repeating a step on a value that is such that `P`. -/
theorem iterateAll {step : α → Parse (Option α)} {rounds : Nat} {v : α} {post : α → Ahead → Prop}
    (hstep : ∀ v t, P v → (step v).Reads clean (.code t) (InCode fun w => ∀ v ∈ w, P v)) (hv : P v)
    (h : ∀ v u, P v → post v (.code u)) :
    (Parse.iterate step rounds v).Reads clean (.code t) post := by
  refine iterate (R := InCode P) (S := InCode P) ?_ (.intro hv) ?_
  · rintro v _ ⟨hv, t, rfl⟩
    refine into (hstep v t hv) fun w u hw => ?_
    cases w with
    | none => exact .intro hv
    | some w => exact .intro (hw w rfl)
  · rintro v _ ⟨hv, u, rfl⟩
    exact h v u hv

end Parse.Reads

end Verbatim
