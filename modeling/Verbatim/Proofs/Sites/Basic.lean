import Verbatim.Grammar.Language
import Verbatim.Proofs.Contract
import Verbatim.Proofs.Scan.Places

/-!
# Where errors are reported

Productions report errors at tokens that they have seen, and at places that they have kept for later
from such tokens. So if the tokens lie in a source, the errors do.

## Main definitions

* `Verbatim.sites` — the contract: tokens lie in the source, and errors have to.
* `Verbatim.Parse.Sited` — actions that meet it.
* `Verbatim.Parser.IsOf` — a parser all of whose places are of a source.

## Main results

* `Verbatim.sites_holds` — the contract is true of parsers in the source.
-/

namespace Verbatim

open Verbatim.Grammar

/-! ## The contract -/

/-- The tokens that are seen lie in a source, and what is pending or reported has to. -/
def sites (source : String) : Contract Unit where
  allows request _ post :=
    match request, post with
    | .look, post | .next, post | .peek, post => ∀ t : Token, t.IsOf source → post t ()
    | .lastEnd, post => ∀ p, post p ()
    | .span .., post => ∀ span, post span ()
    | .pending, post => ∀ o : Option Site, (∀ site ∈ o, site.IsOf source) → post o ()
    | .setPending o, post => (∀ site ∈ o, site.IsOf source) ∧ post () ()
    | .tolerate _ _ site, post => site.IsOf source ∧ post () ()
    | .fail e, _ => e.site.IsOf source
    | .rescan, post | .rescanRegex, post | .setMode _, post | .finish .., post => post () ()
  mono := by
    intro request s post post' h ha
    cases request with
    | look | next | peek => exact fun t ht => h _ _ (ha t ht)
    | lastEnd => exact fun p => h _ _ (ha p)
    | span => exact fun span => h _ _ (ha span)
    | pending => exact fun o ho => h _ _ (ha o ho)
    | setPending | tolerate => exact ⟨ha.1, h _ _ ha.2⟩
    | fail => exact ha
    | rescan | rescanRegex | setMode | finish => exact h _ _ ha

/-- An action that reports errors in the source only, and whose value is such that `Q`. -/
def Parse.Sited {α : Type} (source : String) (action : Parse α) (Q : α → Prop) : Prop :=
  action.Meets (sites source) () fun v _ => Q v

/-! ## Parsers in a source -/

/-- The label of the source says nothing of the place. -/
theorem SyntaxError.isOf_label {source : String} (e : SyntaxError) (h : e.site.IsOf source)
    (label : Option String) : (e.label label).site.IsOf source := by
  rwa [site_label]

/-- A parser all of whose places are of a source. -/
structure Parser.IsOf (source : String) (q : Parser) : Prop where
  /-- The scanner. -/
  scanner : q.scanner.IsOf source
  /-- The place in front of the lookahead. -/
  before : q.before.cursor.IsOf source
  /-- The lookahead. -/
  lookahead : q.lookahead.IsOf source
  /-- The pending property. -/
  pending : ∀ site ∈ q.pending, site.IsOf source
  /-- The tolerated errors. -/
  errors : ∀ e ∈ q.report.errors, e.site.IsOf source

namespace Parser

/-- An action on a parser in a source leaves it there, with a value such that `post`, or fails at a
place of the source. -/
def Keeps {α : Type} (source : String) (action : Run α) (post : α → Prop) : Prop :=
  ∀ q, q.IsOf source →
    match action q with
    | .ok value r => r.IsOf source ∧ post value
    | .error e _ => e.site.IsOf source

namespace Keeps

variable {α β : Type} {source : String} {action : Run α} {post : α → Prop}

theorem pure {value : α} (h : post value) : Keeps source (pure value) post := fun _ hq => ⟨hq, h⟩

/-- One action after the other, both within the source. -/
theorem bind {f : α → Run β} {post' : β → Prop} (h : Keeps source action post)
    (hf : ∀ value, post value → Keeps source (f value) post') :
    Keeps source (action >>= f) post' := by
  intro q hq
  have h := h q hq
  change match EStateM.bind action f q with
    | .ok value r => r.IsOf source ∧ post' value
    | .error e _ => e.site.IsOf source
  unfold EStateM.bind
  cases hrun : action q with
  | ok value r =>
    rw [hrun] at h
    exact hf value h.2 r h.1
  | error e r =>
    rw [hrun] at h
    exact h

theorem get : Keeps source (MonadState.get : Run Parser) (·.IsOf source) := fun _ hq => ⟨hq, hq⟩

theorem modify {f : Parser → Parser} (h : ∀ q, q.IsOf source → (f q).IsOf source) :
    Keeps source (modify f) fun _ => True := fun q hq => ⟨h q hq, trivial⟩

theorem scan {action : Scan α} (h : Scan.Keeps source action post) :
    Keeps source (Parser.scan action) post := by
  intro q hq
  have h := h q.scanner hq.scanner
  unfold Parser.scan
  cases hrun : action q.scanner with
  | ok value s =>
    rw [hrun] at h
    exact ⟨⟨h.1, hq.before, hq.lookahead, hq.pending, hq.errors⟩, h.2⟩
  | error e s =>
    rw [hrun] at h
    exact e.isOf_label h.2 _

/-- Taking a token saves a place of the source. -/
theorem next : Keeps source Parser.next (·.IsOf source) := by
  refine get.bind fun q hq => (scan (Scan.next_keeps source)).bind fun t ht => ?_
  refine (modify fun r hr => ?_).bind fun _ _ => pure hq.lookahead
  exact ⟨hr.scanner, hq.scanner.cursor, ht, hr.pending, hr.errors⟩

theorem peek : Keeps source Parser.peek (·.IsOf source) := by
  intro q hq
  have h := Scan.next_keeps source q.scanner hq.scanner
  unfold Parser.peek
  cases hrun : Scan.next q.scanner with
  | ok t s =>
    rw [hrun] at h
    exact ⟨⟨h.1.restore hq.scanner.cursor, hq.before, hq.lookahead, hq.pending, hq.errors⟩, h.2⟩
  | error e s =>
    rw [hrun] at h
    exact e.isOf_label h.2 _

theorem rescanWith {action : Scan Token} (h : Scan.Keeps source action (·.IsOf source)) :
    Keeps source (Parser.rescanWith action) fun _ => True := by
  refine (modify fun q hq => ?_).bind fun _ _ => (scan h).bind fun t ht => modify fun q hq => ?_
  · exact ⟨hq.scanner.restore hq.before, hq.before, hq.lookahead, hq.pending, hq.errors⟩
  · exact ⟨hq.scanner, hq.before, ht, hq.pending, hq.errors⟩

/-- Both errors of a request have places of the source, so what is recorded has one. -/
theorem tolerate {recorded thrown : SyntaxError} (hr : recorded.site.IsOf source)
    (ht : thrown.site.IsOf source) :
    Keeps source (Parser.tolerate recorded thrown) fun _ => True := by
  intro q hq
  unfold Parser.tolerate Report.tolerate
  by_cases htol : q.report.tolerant = true
  · rw [if_pos htol]
    refine ⟨⟨hq.scanner, hq.before, hq.lookahead, hq.pending, fun e he => ?_⟩, trivial⟩
    rcases Array.mem_push.1 he with he | rfl
    · exact hq.errors e he
    · exact recorded.isOf_label hr _
  · rw [if_neg htol]
    exact thrown.isOf_label ht _

end Keeps

end Parser

/-- What is known of a request that keeps to a source is what the contract says. -/
theorem Parser.Keeps.endsIn {source : String} {α : Type} {action : Parser.Run α} {post : α → Prop}
    {post' : α → Unit → Prop} {q : Parser} (h : Keeps source action post) (hq : q.IsOf source)
    (hp : ∀ v, post v → post' v ()) :
    EndsIn (fun _ q => q.IsOf source) (fun e _ => e.site.IsOf source) post' (action q) := by
  have h := h q hq
  cases hrun : action q with
  | ok value r =>
    rw [hrun] at h
    exact ⟨(), h.1, hp value h.2⟩
  | error e r =>
    rw [hrun] at h
    exact h

/-- The contract is true of parsers in the source. -/
theorem sites_holds (source : String) :
    (sites source).Holds (fun _ q => q.IsOf source) fun e _ => e.site.IsOf source := by
  intro request s q post hq ha
  cases request with
  | look => exact ⟨(), hq, ha _ hq.lookahead⟩
  | next => exact Parser.Keeps.next.endsIn hq ha
  | peek => exact Parser.Keeps.peek.endsIn hq ha
  | rescan => exact (Parser.Keeps.rescanWith (Scan.next_keeps source)).endsIn hq fun _ _ => ha
  | rescanRegex =>
    exact (Parser.Keeps.rescanWith (Scan.nextRegex_keeps source)).endsIn hq fun _ _ => ha
  | setMode mode => exact (Parser.Keeps.scan (.setMode mode)).endsIn hq fun _ _ => ha
  | lastEnd => exact ⟨(), hq, ha _⟩
  | span => exact ⟨(), hq, ha _⟩
  | pending => exact ⟨(), hq, ha _ hq.pending⟩
  | setPending o => exact ⟨(), ⟨hq.scanner, hq.before, hq.lookahead, ha.1, hq.errors⟩, ha.2⟩
  | finish kind span => exact ⟨(), ⟨hq.scanner, hq.before, hq.lookahead, hq.pending, hq.errors⟩, ha⟩
  | tolerate finder fault site =>
    have hthrown : (finder.thrown fault site).site.IsOf source := by cases finder <;> exact ha.1
    exact (Parser.Keeps.tolerate ha.1 hthrown).endsIn hq fun _ _ => ha.2
  | fail e => exact e.isOf_label ha _

/-! ## Single steps -/

namespace Parse

variable {source : String} {α β : Type}

section

variable {Q : α → Prop}

@[simp]
theorem sited_pure {value : α} : (pure value : Parse α).Sited source Q ↔ Q value := Iff.rfl

@[simp]
theorem sited_bind {action : Parse β} {f : β → Parse α} :
    (action >>= f).Sited source Q ↔ action.Sited source fun v => (f v).Sited source Q := Iff.rfl

@[simp]
theorem sited_map {action : Parse β} {f : β → α} :
    (f <$> action).Sited source Q ↔ action.Sited source fun v => Q (f v) := Iff.rfl

@[simp]
theorem sited_ite {b : Prop} [Decidable b] {yes no : Parse α} :
    (if b then yes else no).Sited source Q ↔
      (b → yes.Sited source Q) ∧ (¬ b → no.Sited source Q) := by
  split <;> simp_all

@[simp]
theorem sited_fail {stage : Stage} {fault : Fault} {site : Site} :
    (fail stage fault site : Parse α).Sited source Q ↔ site.IsOf source := Iff.rfl

theorem Sited.imp {action : Parse α} {Q' : α → Prop} (h : action.Sited source Q)
    (hq : ∀ v, Q v → Q' v) : action.Sited source Q' := Meets.imp h fun v _ => hq v

end

@[simp]
theorem sited_look {Q : Token → Prop} :
    look.Sited source Q ↔ ∀ t : Token, t.IsOf source → Q t := Iff.rfl

@[simp]
theorem sited_next {Q : Token → Prop} :
    next.Sited source Q ↔ ∀ t : Token, t.IsOf source → Q t := Iff.rfl

@[simp]
theorem sited_peek {Q : Token → Prop} :
    peek.Sited source Q ↔ ∀ t : Token, t.IsOf source → Q t := Iff.rfl

@[simp]
theorem sited_rescan {Q : Unit → Prop} : rescan.Sited source Q ↔ Q () := Iff.rfl

@[simp]
theorem sited_rescanRegex {Q : Unit → Prop} : rescanRegex.Sited source Q ↔ Q () := Iff.rfl

@[simp]
theorem sited_setMode {mode : Mode} {Q : Unit → Prop} : (setMode mode).Sited source Q ↔ Q () :=
  Iff.rfl

@[simp]
theorem sited_lastEnd {Q : Position → Prop} : lastEnd.Sited source Q ↔ ∀ p, Q p := Iff.rfl

@[simp]
theorem sited_pending {Q : Option Site → Prop} :
    pending.Sited source Q ↔ ∀ o : Option Site, (∀ site ∈ o, site.IsOf source) → Q o := Iff.rfl

@[simp]
theorem sited_setPending {o : Option Site} {Q : Unit → Prop} :
    (setPending o).Sited source Q ↔ (∀ site ∈ o, site.IsOf source) ∧ Q () := Iff.rfl

@[simp]
theorem sited_report {kind : NodeKind} {span : Span} {Q : Unit → Prop} :
    (report kind span).Sited source Q ↔ Q () := Iff.rfl

@[simp]
theorem sited_tolerate {fault : Fault} {site : Site} {Q : Unit → Prop} :
    (tolerate fault site).Sited source Q ↔ site.IsOf source ∧ Q () := Iff.rfl

/-! ## Steps

What these leave says nothing about places, unless stated. -/

end Parse

theorem Position.IsOf.site {p : Position} (h : p.IsOf source) : p.site.IsOf source := ⟨p, h, rfl⟩

@[simp]
theorem Token.IsOf.site {t : Token} (h : t.IsOf source) : t.site.IsOf source := ⟨_, h.start, rfl⟩

@[simp]
theorem Token.IsOf.site_start {t : Token} (h : t.IsOf source) : t.start.site.IsOf source := h.site

namespace Parse

namespace Sited

variable {source : String} {ctx : Context} {α : Type}

section

variable {Q : α → Prop}

@[simp]
theorem stalled : (Parse.stalled : Parse α).Sited source Q := fun _ ht => ht.site

@[simp]
theorem unexpected {t : Token} (ht : t.IsOf source) :
    (Parse.unexpected ctx t : Parse α).Sited source Q := ht.site

@[simp]
theorem unexpectedHere : (Parse.unexpectedHere ctx : Parse α).Sited source Q := fun _ ht => ht.site

@[simp]
theorem reject {fault : Fault} {site : Site} (h : site.IsOf source) :
    (Parse.reject fault site : Parse α).Sited source Q := h

end

@[simp]
theorem sees {spelling : String} {Q : Bool → Prop} (h : ∀ b, Q b) :
    (Parse.sees spelling).Sited source Q := fun _ _ => h _

@[simp]
theorem seesKeyword {word : String} {Q : Bool → Prop} (h : ∀ b, Q b) :
    (Parse.seesKeyword word).Sited source Q := fun _ _ => h _

@[simp]
theorem seesWord {word : String} {Q : Bool → Prop} (h : ∀ b, Q b) :
    (Parse.seesWord word).Sited source Q := fun _ _ => h _

@[simp]
theorem here {Q : Position → Prop} :
    Parse.here.Sited source Q ↔ ∀ t : Token, t.IsOf source → Q t.start := Iff.rfl

@[simp]
theorem lead {Q : String → Prop} (h : ∀ text, Q text) : Parse.lead.Sited source Q := fun _ _ => h _

@[simp]
theorem expect {spelling : String} {Q : String → Prop} (h : ∀ text, Q text) :
    (Parse.expect ctx spelling).Sited source Q := by
  simp [Parse.expect, h]

@[simp]
theorem expectKeyword {word : String} {Q : String → Prop} (h : ∀ text, Q text) :
    (Parse.expectKeyword ctx word).Sited source Q := by
  simp [Parse.expectKeyword, h]

@[simp]
theorem expectWord {word : String} {Q : String → Prop} (h : ∀ text, Q text) :
    (Parse.expectWord ctx word).Sited source Q := by
  simp [Parse.expectWord, h]

@[simp]
theorem separator {Q : String → Prop} (h : ∀ text, Q text) :
    (Parse.separator ctx).Sited source Q := by
  simp [Parse.separator, h]

@[simp]
theorem accept {spelling : String} {Q : Option String → Prop} (h : ∀ lead, Q lead) :
    (Parse.accept spelling).Sited source Q := by
  simp [Parse.accept, h]

@[simp]
theorem terminator {Q : Terminator → Prop} (h : ∀ ending, Q ending) :
    (Parse.terminator ctx).Sited source Q := by
  simp +contextual [Parse.terminator, h]

@[simp]
theorem finishAt {kind : NodeKind} {start stop : Position} {Q : Span → Prop} (h : ∀ span, Q span) :
    (Parse.finishAt kind start stop).Sited source Q := h

@[simp]
theorem finish {kind : NodeKind} {start : Position} {Q : Span → Prop} (h : ∀ span, Q span) :
    (Parse.finish kind start).Sited source Q := fun _ => h

@[simp]
theorem extent {start : Position} {Q : Span → Prop} (h : ∀ span, Q span) :
    (Parse.extent start).Sited source Q := fun _ => h

@[simp]
theorem finishName {t : Token} {Q : Ident → Prop} (h : ∀ id, Q id) :
    (Parse.finishName t).Sited source Q := fun _ _ => h _

@[simp]
theorem finishPrivateName {t : Token} {Q : PrivateName → Prop} (h : ∀ name, Q name) :
    (Parse.finishPrivateName t).Sited source Q := fun _ _ => h _

@[simp]
theorem anyName {Q : Ident → Prop} (h : ∀ id, Q id) : Parse.anyName.Sited source Q := by
  simp [Parse.anyName, h]

/-! ## Loops -/

/-- Nothing is known of the state of a parser but that it is in the source. -/
theorem of_meets {action : Parse α} {s : Unit} {post : α → Unit → Prop} :
    action.Meets (sites source) s post ↔ action.Sited source fun v => post v () := Iff.rfl

@[simp]
theorem many {ends : Token → Bool} {item : Parse α} {rounds : Nat} {Q : List α → Prop}
    (hitem : item.Sited source fun _ => True) (h : ∀ vs, Q vs) :
    (Parse.many ends item rounds).Sited source Q := by
  refine (Meets.many (c := sites source) (R := fun _ _ => True) (fun _ => of_meets.2 stalled)
    (fun _ => of_meets.2 ?_) rounds (l := []) trivial).imp fun vs _ _ => h vs
  exact fun _ _ => ⟨trivial, fun _ => hitem⟩

/-- Items such that `P` make a list of such items. -/
theorem listedAll {close : String} {round : Parse (Round α)} {rounds : Nat} {P : α → Prop}
    (hround : round.Sited source (·.All P)) :
    (Parse.listed ctx close round rounds).Sited source fun r => ∀ v ∈ r.1, P v := by
  have hadd : ∀ {vs : List α} {v : α}, (∀ v ∈ vs, P v) → P v → ∀ w ∈ vs ++ [v], P w := by
    intro vs v hvs hv w hw
    rcases List.mem_append.1 hw with hw | hw
    · exact hvs w hw
    · exact List.mem_singleton.1 hw ▸ hv
  refine (Meets.listed (c := sites source) (R := fun vs _ _ => ∀ v ∈ vs, P v)
    (S := fun vs _ _ => ∀ v ∈ vs, P v) (fun _ => of_meets.2 stalled)
    (fun {vs commas s} hvs => of_meets.2 (sees fun seen => ?_))
    (fun {vs commas s} hvs => of_meets.2 (sees fun seen => ?_)) rounds
    (l := []) (k := []) (fun _ h => absurd h List.not_mem_nil)).imp
      fun r _ h => h.elim id id
  · cases seen with
    | true => exact hvs
    | false =>
      refine of_meets.2 (Sited.imp hround fun r hr => ?_)
      cases r <;> exact hadd hvs hr
  · cases seen with
    | true => exact hvs
    | false => exact separator fun _ => hvs

@[simp]
theorem listed {close : String} {round : Parse (Round α)} {rounds : Nat}
    {Q : List α × List String → Prop} (hround : round.Sited source fun _ => True)
    (h : ∀ r, Q r) : (Parse.listed ctx close round rounds).Sited source Q := by
  refine Sited.imp (listedAll (P := fun _ => True) ?_) fun r _ => h r
  exact Sited.imp hround fun r _ => by cases r <;> trivial

@[simp]
theorem afterCommas {item : Parse α} {rounds : Nat} {Q : List α × List String → Prop}
    (hitem : item.Sited source fun _ => True) (h : ∀ r, Q r) :
    (Parse.afterCommas ctx item rounds).Sited source Q := by
  refine (Meets.afterCommas (c := sites source) (R := fun _ _ _ => True)
    (fun _ => of_meets.2 stalled) (fun _ => of_meets.2 (sees fun seen => ?_))
    rounds (l := []) (k := []) trivial).imp fun r _ _ => h r
  cases seen with
  | true => exact separator fun _ => hitem
  | false => trivial

@[simp]
theorem iterate {step : α → Parse (Option α)} {rounds : Nat} {v : α} {Q : α → Prop}
    (hstep : ∀ v, (step v).Sited source fun _ => True) (h : ∀ v, Q v) :
    (Parse.iterate step rounds v).Sited source Q := by
  refine Meets.iterate (c := sites source) (R := fun _ _ => True) (fun _ => of_meets.2 stalled)
    (fun {v s} _ => of_meets.2 (Sited.imp (hstep v) fun w _ => ?_)) rounds trivial
  cases w with
  | none => exact h _
  | some w => trivial

end Sited

end Parse

end Verbatim
