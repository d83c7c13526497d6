import Verbatim.Grammar.Language
import Verbatim.Proofs.Contract
import Verbatim.Proofs.Resolved.Tree

/-!
# What is pending

A shorthand property with a default is read with its place pending, and whoever finds that the
literal around it is no pattern fails if something is pending. So where nothing is pending, what was
read is resolved. The contract keeps track of whether something is pending, in a parse that does
not tolerate faults.

## Main definitions

* `Verbatim.pendings` — the contract: what is known of the pending property.
* `Verbatim.Parse.Resolves` — actions that meet it.
* `Verbatim.Standing` — expressions that may have an operator in front.

## Main results

* `Verbatim.pendings_holds` — the contract is true of parsers that do not tolerate faults.
-/

namespace Verbatim

open Verbatim.Grammar

/-! ## The contract -/

/-- What is known of the pending property: the state says whether there is one. What is tolerated
ends a parse that does not tolerate faults. -/
def pendings : Contract Bool where
  allows request s post :=
    match request, post with
    | .look, post | .next, post | .peek, post => ∀ t : Token, post t s
    | .lastEnd, post => ∀ p, post p s
    | .span .., post => ∀ span, post span s
    | .pending, post => ∀ o : Option Site, o.isSome = s → post o s
    | .setPending o, post => post () o.isSome
    | .tolerate .., _ | .fail _, _ => True
    | .rescan, post | .rescanRegex, post | .setMode _, post | .finish .., post => post () s
  mono := by
    intro request s post post' h ha
    cases request with
    | look | next | peek => exact fun t => h _ _ (ha t)
    | lastEnd => exact fun p => h _ _ (ha p)
    | span => exact fun span => h _ _ (ha span)
    | pending => exact fun o ho => h _ _ (ha o ho)
    | tolerate | fail => trivial
    | setPending | rescan | rescanRegex | setMode | finish => exact h _ _ ha

/-- An action such that `post` holds behind it of its value and of whether something is then
pending. -/
def Parse.Resolves {α : Type} (action : Parse α) (s : Bool) (post : α → Bool → Prop) : Prop :=
  action.Meets pendings s post

/-! ## The contract is true -/

/-- What is known of a parser that does not tolerate faults. -/
structure Parser.Pends (s : Bool) (q : Parser) : Prop where
  /-- It does not tolerate faults. -/
  strict : q.report.tolerant = false
  /-- The state says whether something is pending. -/
  pending : q.pending.isSome = s

namespace Parser

/-- An action that leaves alone what is pending and whether faults are tolerated. -/
def KeepsPending {α : Type} (action : Run α) : Prop :=
  ∀ q v r, action q = .ok v r → r.report = q.report ∧ r.pending = q.pending

namespace KeepsPending

variable {α β : Type}

theorem pure {v : α} : KeepsPending (pure v) := fun _ _ _ h => by cases h; exact ⟨rfl, rfl⟩

theorem bind {action : Run α} {f : α → Run β} (h : KeepsPending action)
    (hf : ∀ v, KeepsPending (f v)) : KeepsPending (action >>= f) := by
  intro q v r hrun
  obtain ⟨a, q', ha, hrun⟩ := Run.bind_eq_ok.1 hrun
  obtain ⟨hreport, hpending⟩ := h q a q' ha
  obtain ⟨hreport', hpending'⟩ := hf a q' v r hrun
  exact ⟨hreport'.trans hreport, hpending'.trans hpending⟩

theorem get : KeepsPending (MonadState.get : Run Parser) :=
  fun _ _ _ h => by cases h; exact ⟨rfl, rfl⟩

theorem modify {f : Parser → Parser} (h : ∀ q, (f q).report = q.report ∧
    (f q).pending = q.pending) :
    KeepsPending (modify f) := fun q _ _ hrun => by cases hrun; exact h q

theorem scan (action : Scan α) : KeepsPending (Parser.scan action) := by
  intro q v r h
  unfold Parser.scan at h
  split at h
  · cases h; exact ⟨rfl, rfl⟩
  · cases h

theorem next : KeepsPending Parser.next := by
  refine get.bind fun _ => (scan _).bind fun _ => bind (modify fun _ => ?_) fun _ => pure
  exact ⟨rfl, rfl⟩

theorem peek : KeepsPending Parser.peek := by
  intro q v r h
  unfold Parser.peek at h
  split at h
  · cases h; exact ⟨rfl, rfl⟩
  · cases h

theorem rescanWith (action : Scan Token) : KeepsPending (Parser.rescanWith action) := by
  refine bind (modify fun _ => ?_) fun _ => (scan _).bind fun _ => modify fun _ => ?_
  · exact ⟨rfl, rfl⟩
  · exact ⟨rfl, rfl⟩

/-- What is known of a parser is known behind an action that leaves it alone. -/
theorem endsIn {action : Run α} {s : Bool} {q : Parser} {post : α → Bool → Prop}
    (h : KeepsPending action) (hq : q.Pends s) (hp : ∀ v, post v s) :
    EndsIn (fun s q => q.Pends s) (fun _ _ => True) post (action q) := by
  cases hrun : action q with
  | ok v r =>
    obtain ⟨hreport, hpending⟩ := h q v r hrun
    exact ⟨s, ⟨by rw [hreport, hq.strict], by rw [hpending, hq.pending]⟩, hp v⟩
  | error e r => trivial

end KeepsPending

end Parser

/-- The contract is true of parsers that do not tolerate faults. -/
theorem pendings_holds : pendings.Holds (fun s q => q.Pends s) fun _ _ => True := by
  intro request s q post hq ha
  cases request with
  | look => exact ⟨s, hq, ha _⟩
  | next => exact Parser.KeepsPending.next.endsIn hq ha
  | peek => exact Parser.KeepsPending.peek.endsIn hq ha
  | rescan => exact (Parser.KeepsPending.rescanWith _).endsIn hq fun _ => ha
  | rescanRegex => exact (Parser.KeepsPending.rescanWith _).endsIn hq fun _ => ha
  | setMode mode =>
    have hkeeps := Parser.KeepsPending.scan (Scan.setMode mode)
    exact @Parser.KeepsPending.endsIn _ _ s q post hkeeps hq fun _ => ha
  | lastEnd => exact ⟨s, hq, ha _⟩
  | span => exact ⟨s, hq, ha _⟩
  | pending => exact ⟨s, hq, ha _ hq.pending⟩
  | setPending o => exact ⟨o.isSome, ⟨hq.strict, rfl⟩, ha⟩
  | finish kind span => exact ⟨s, ⟨hq.strict, hq.pending⟩, ha⟩
  | tolerate finder fault site =>
    have hthrown : Parser.answer (.tolerate finder fault site) q =
        .error ((finder.thrown fault site).label q.report.source) q := by
      change Parser.tolerate _ _ q = _
      unfold Parser.tolerate Report.tolerate
      rw [hq.strict]
      rfl
    rw [hthrown]
    trivial
  | fail e => trivial

/-! ## Single steps -/

namespace Parse

variable {α β : Type} {s : Bool} {post : α → Bool → Prop}

@[simp]
theorem resolves_pure {value : α} : (pure value : Parse α).Resolves s post = post value s := rfl

@[simp]
theorem resolves_bind {action : Parse β} {f : β → Parse α} :
    (action >>= f).Resolves s post = action.Resolves s fun v s' => (f v).Resolves s' post := rfl

@[simp]
theorem resolves_map {action : Parse β} {f : β → α} :
    (f <$> action).Resolves s post = action.Resolves s fun v s' => post (f v) s' := rfl

@[simp]
theorem resolves_ite {b : Prop} [Decidable b] {yes no : Parse α} :
    (if b then yes else no).Resolves s post =
      ((b → yes.Resolves s post) ∧ (¬ b → no.Resolves s post)) := by
  split <;> simp_all

@[simp]
theorem resolves_fail {stage : Stage} {fault : Fault} {site : Site} :
    (fail stage fault site : Parse α).Resolves s post = True := rfl

@[simp]
theorem resolves_reject {fault : Fault} {site : Site} :
    (reject fault site : Parse α).Resolves s post = True := rfl

@[simp]
theorem resolves_look {post : Token → Bool → Prop} :
    look.Resolves s post = ∀ t : Token, post t s := rfl

@[simp]
theorem resolves_next {post : Token → Bool → Prop} :
    next.Resolves s post = ∀ t : Token, post t s := rfl

@[simp]
theorem resolves_peek {post : Token → Bool → Prop} :
    peek.Resolves s post = ∀ t : Token, post t s := rfl

@[simp]
theorem resolves_rescan {post : Unit → Bool → Prop} : rescan.Resolves s post = post () s := rfl

@[simp]
theorem resolves_rescanRegex {post : Unit → Bool → Prop} :
    rescanRegex.Resolves s post = post () s := rfl

@[simp]
theorem resolves_setMode {mode : Mode} {post : Unit → Bool → Prop} :
    (setMode mode).Resolves s post = post () s := rfl

@[simp]
theorem resolves_lastEnd {post : Position → Bool → Prop} :
    lastEnd.Resolves s post = ∀ p, post p s := rfl

@[simp]
theorem resolves_pending {post : Option Site → Bool → Prop} :
    pending.Resolves s post = ∀ o : Option Site, o.isSome = s → post o s := rfl

@[simp]
theorem resolves_report {kind : NodeKind} {span : Span} {post : Unit → Bool → Prop} :
    (report kind span).Resolves s post = post () s := rfl

@[simp]
theorem resolves_tolerate {fault : Fault} {site : Site} {post : Unit → Bool → Prop} :
    (tolerate fault site).Resolves s post = True := rfl

/-! ## Steps -/

namespace Resolves

variable {ctx : Context}

theorem imp {action : Parse α} {post' : α → Bool → Prop} (h : action.Resolves s post)
    (hp : ∀ v s', post v s' → post' v s') : action.Resolves s post' := Meets.imp h hp

/-- What is pending is set aside. -/
theorem clear {post : Unit → Bool → Prop} (h : post () false) :
    (setPending none).Resolves s post := h

/-- What was set aside is pending again. -/
theorem restore {before : Bool} {o : Option Site} {post : Unit → Bool → Prop}
    (ho : o.isSome = before) (h : post () before) : (setPending o).Resolves s post :=
  show post () o.isSome from ho ▸ h

@[simp]
theorem stalled : (Parse.stalled : Parse α).Resolves s post := fun _ => trivial

@[simp]
theorem unexpected {t : Token} : (Parse.unexpected ctx t : Parse α).Resolves s post := trivial

@[simp]
theorem unexpectedHere : (Parse.unexpectedHere ctx : Parse α).Resolves s post := fun _ => trivial

@[simp]
theorem sees {spelling : String} {post : Bool → Bool → Prop} (h : ∀ b, post b s) :
    (Parse.sees spelling).Resolves s post := fun _ => h _

@[simp]
theorem seesKeyword {word : String} {post : Bool → Bool → Prop} (h : ∀ b, post b s) :
    (Parse.seesKeyword word).Resolves s post := fun _ => h _

@[simp]
theorem seesWord {word : String} {post : Bool → Bool → Prop} (h : ∀ b, post b s) :
    (Parse.seesWord word).Resolves s post := fun _ => h _

@[simp]
theorem here {post : Position → Bool → Prop} (h : ∀ p, post p s) :
    Parse.here.Resolves s post := fun _ => h _

@[simp]
theorem lead {post : String → Bool → Prop} (h : ∀ text, post text s) :
    Parse.lead.Resolves s post := fun _ => h _

@[simp]
theorem expect {spelling : String} {post : String → Bool → Prop} (h : ∀ text, post text s) :
    (Parse.expect ctx spelling).Resolves s post := by
  simp [Parse.expect, h]

@[simp]
theorem expectKeyword {word : String} {post : String → Bool → Prop} (h : ∀ text, post text s) :
    (Parse.expectKeyword ctx word).Resolves s post := by
  simp [Parse.expectKeyword, h]

@[simp]
theorem expectWord {word : String} {post : String → Bool → Prop} (h : ∀ text, post text s) :
    (Parse.expectWord ctx word).Resolves s post := by
  simp [Parse.expectWord, h]

@[simp]
theorem separator {post : String → Bool → Prop} (h : ∀ text, post text s) :
    (Parse.separator ctx).Resolves s post := by
  simp [Parse.separator, h]

@[simp]
theorem accept {spelling : String} {post : Option String → Bool → Prop} (h : ∀ text, post text s) :
    (Parse.accept spelling).Resolves s post := by
  simp [Parse.accept, h]

@[simp]
theorem terminator {post : Terminator → Bool → Prop} (h : ∀ ending, post ending s) :
    (Parse.terminator ctx).Resolves s post := by
  simp [Parse.terminator, h]

@[simp]
theorem finishAt {kind : NodeKind} {start stop : Position} {post : Span → Bool → Prop}
    (h : ∀ span, post span s) : (Parse.finishAt kind start stop).Resolves s post := h

@[simp]
theorem finish {kind : NodeKind} {start : Position} {post : Span → Bool → Prop}
    (h : ∀ span, post span s) : (Parse.finish kind start).Resolves s post := fun _ => h

@[simp]
theorem extent {start : Position} {post : Span → Bool → Prop} (h : ∀ span, post span s) :
    (Parse.extent start).Resolves s post := fun _ => h

@[simp]
theorem finishName {t : Token} {post : Ident → Bool → Prop} (h : ∀ id, post id s) :
    (Parse.finishName t).Resolves s post := fun _ _ => h _

@[simp]
theorem finishPrivateName {t : Token} {post : PrivateName → Bool → Prop} (h : ∀ name, post name s) :
    (Parse.finishPrivateName t).Resolves s post := fun _ _ => h _

@[simp]
theorem anyName {post : Ident → Bool → Prop} (h : ∀ id, post id s) :
    Parse.anyName.Resolves s post := by
  simp [Parse.anyName, h]

/-! ## Loops -/

theorem of_meets {action : Parse α} :
    action.Meets pendings s post ↔ action.Resolves s post := Iff.rfl

/-- Reading items, each of which is such that `P`, and behind which the same is pending. -/
theorem many {ends : Token → Bool} {item : Parse α} {rounds : Nat} {P : α → Prop}
    {post : List α → Bool → Prop} (hitem : item.Resolves s fun v s' => s' = s ∧ P v)
    (h : ∀ vs, (∀ v ∈ vs, P v) → post vs s) : (Parse.many ends item rounds).Resolves s post := by
  refine Meets.imp (Meets.many (c := pendings) (R := fun vs s' => s' = s ∧ ∀ v ∈ vs, P v)
    (fun _ => of_meets.2 stalled) (fun {vs s'} hvs => of_meets.2 fun t => ⟨hvs, fun _ => ?_⟩) rounds
    (l := []) ⟨rfl, fun _ hv => absurd hv List.not_mem_nil⟩) ?_
  · obtain ⟨rfl, hvs⟩ := hvs
    exact imp hitem fun v s' hv => ⟨hv.1, by simp_all [or_imp]⟩
  · rintro vs s' ⟨rfl, hvs⟩
    exact h vs hvs

/-- Reading items, each of which is such that `P`, whatever is pending. -/
theorem manyAny {ends : Token → Bool} {item : Parse α} {rounds : Nat} {P : α → Prop}
    {post : List α → Bool → Prop} (hitem : ∀ s, item.Resolves s fun v _ => P v)
    (h : ∀ vs s', (∀ v ∈ vs, P v) → post vs s') :
    (Parse.many ends item rounds).Resolves s post := by
  refine Meets.imp (Meets.many (c := pendings) (R := fun vs _ => ∀ v ∈ vs, P v)
    (fun _ => of_meets.2 stalled) (fun {vs s'} hvs => of_meets.2 fun t => ⟨hvs, fun _ => ?_⟩) rounds
    (l := []) fun _ hv => absurd hv List.not_mem_nil) ?_
  · exact imp (hitem s') fun v s' hv => by simp_all [or_imp]
  · exact fun vs s' hvs => h vs s' hvs

/-- Reading a list with commas. Whether an item is such that `P` depends on what is pending, and
more is pending behind an item than in front of it. -/
theorem listed {close : String} {round : Parse (Round α)} {rounds : Nat} {P : Bool → α → Prop}
    {post : List α × List String → Bool → Prop}
    (hmono : ∀ {s s' v}, (s = true → s' = true) → P s v → P s' v)
    (hround : ∀ s, round.Resolves s fun r s' => (s = true → s' = true) ∧ r.All (P s'))
    (h : ∀ r s', (s = true → s' = true) → (∀ v ∈ r.1, P s' v) → post r s') :
    (Parse.listed ctx close round rounds).Resolves s post := by
  have hadd : ∀ {s' s'' : Bool} {vs : List α} {v : α},
      ((s = true → s' = true) ∧ ∀ v ∈ vs, P s' v) → (s' = true → s'' = true) ∧ P s'' v →
      (s = true → s'' = true) ∧ ∀ w ∈ vs ++ [v], P s'' w := by
    intro s' s'' vs v hvs hv
    refine ⟨hv.1 ∘ hvs.1, fun w hw => ?_⟩
    rcases List.mem_append.1 hw with hw | hw
    · exact hmono hv.1 (hvs.2 w hw)
    · exact List.mem_singleton.1 hw ▸ hv.2
  refine Meets.imp (Meets.listed (c := pendings)
    (R := fun vs _ s' => (s = true → s' = true) ∧ ∀ v ∈ vs, P s' v)
    (S := fun vs _ s' => (s = true → s' = true) ∧ ∀ v ∈ vs, P s' v)
    (fun _ => of_meets.2 stalled) (fun {vs commas s'} hvs => of_meets.2 (sees fun seen => ?_))
    (fun {vs commas s'} hvs => of_meets.2 (sees fun seen => ?_)) rounds (l := []) (k := [])
    ⟨id, fun _ hv => absurd hv List.not_mem_nil⟩) ?_
  · cases seen with
    | true => exact hvs
    | false =>
      refine of_meets.2 (imp (hround s') fun r s'' hr => ?_)
      cases r <;> exact hadd hvs hr
  · cases seen with
    | true => exact hvs
    | false => exact separator fun _ => hvs
  · exact fun r s' hr => h r s' (hr.elim (·.1) (·.1)) (hr.elim (·.2) (·.2))

/-- Reading a list with commas, each item of which is such that `P`. -/
theorem listedAll {close : String} {round : Parse (Round α)} {rounds : Nat} {P : α → Prop}
    {post : List α × List String → Bool → Prop}
    (hround : round.Resolves s fun r s' => s' = s ∧ r.All P)
    (h : ∀ r, (∀ v ∈ r.1, P v) → post r s) :
    (Parse.listed ctx close round rounds).Resolves s post := by
  refine Meets.imp (Meets.listed (c := pendings)
    (R := fun vs _ s' => s' = s ∧ ∀ v ∈ vs, P v) (S := fun vs _ s' => s' = s ∧ ∀ v ∈ vs, P v)
    (fun _ => of_meets.2 stalled) (fun {vs commas s'} hvs => of_meets.2 (sees fun seen => ?_))
    (fun {vs commas s'} hvs => of_meets.2 (sees fun seen => ?_)) rounds (l := []) (k := [])
    ⟨rfl, fun _ hv => absurd hv List.not_mem_nil⟩) ?_
  · obtain ⟨rfl, hvs⟩ := hvs
    cases seen with
    | true => exact ⟨rfl, hvs⟩
    | false =>
      refine of_meets.2 (imp hround fun r s'' hr => ?_)
      cases r <;> exact ⟨hr.1, by simp_all [or_imp, Round.All]⟩
  · cases seen with
    | true => exact hvs
    | false => exact separator fun _ => hvs
  · rintro r s' (⟨rfl, hr⟩ | ⟨rfl, hr⟩) <;> exact h r hr

/-- Reading items behind commas, each of which is such that `P`. -/
theorem afterCommas {item : Parse α} {rounds : Nat} {P : α → Prop}
    {post : List α × List String → Bool → Prop} (hitem : item.Resolves s fun v s' => s' = s ∧ P v)
    (h : ∀ r, (∀ v ∈ r.1, P v) → post r s) :
    (Parse.afterCommas ctx item rounds).Resolves s post := by
  refine Meets.imp (Meets.afterCommas (c := pendings) (R := fun vs _ s' => s' = s ∧ ∀ v ∈ vs, P v)
    (fun _ => of_meets.2 stalled) (fun {vs commas s'} hvs => of_meets.2 (sees fun seen => ?_))
    rounds (l := []) (k := []) ⟨rfl, fun _ hv => absurd hv List.not_mem_nil⟩) ?_
  · obtain ⟨rfl, hvs⟩ := hvs
    cases seen with
    | true =>
      exact separator fun _ => imp hitem fun v s'' hv => ⟨hv.1, by simp_all [or_imp]⟩
    | false => exact ⟨rfl, hvs⟩
  · rintro r s' ⟨rfl, hr⟩
    exact h r hr

/-- Repeating a step on a value that is such that `P`. -/
theorem iterate {step : α → Parse (Option α)} {rounds : Nat} {v : α} {P : Bool → α → Prop}
    (hstep : ∀ v s, P s v → (step v).Resolves s fun w s' => (s = true → s' = true) ∧
      w.elim (P s' v) (P s')) (hv : P s v)
    (h : ∀ v s', (s = true → s' = true) → P s' v → post v s') :
    (Parse.iterate step rounds v).Resolves s post := by
  refine Meets.iterate (c := pendings) (R := fun v s' => (s = true → s' = true) ∧ P s' v)
    (fun _ => of_meets.2 stalled) (fun {v s'} hvs => of_meets.2 ?_) rounds ⟨id, hv⟩
  refine imp (hstep v s' hvs.2) fun w s'' hw => ?_
  cases w with
  | none => exact h v s'' (hw.1 ∘ hvs.1) hw.2
  | some w => exact ⟨hw.1 ∘ hvs.1, hw.2⟩

/-- Repeating a step that leaves alone what is pending. -/
theorem iterateStill {step : α → Parse (Option α)} {rounds : Nat} {v : α} {P : α → Prop}
    (hstep : ∀ v, P v → (step v).Resolves s fun w s' => s' = s ∧ ∀ v ∈ w, P v) (hv : P v)
    (h : ∀ v, P v → post v s) : (Parse.iterate step rounds v).Resolves s post := by
  refine Meets.iterate (c := pendings) (R := fun v s' => s' = s ∧ P v)
    (fun _ => of_meets.2 stalled) (fun {v s'} hvs => of_meets.2 ?_) rounds ⟨rfl, hv⟩
  obtain ⟨rfl, hv⟩ := hvs
  refine imp (hstep v hv) fun w s'' hw => ?_
  obtain ⟨rfl, hw⟩ := hw
  cases w with
  | none => exact h v hv
  | some w => exact ⟨rfl, hw w rfl⟩

end Resolves

end Parse

/-- Whether the markup is resolved. -/
def Markup.Resolved : Markup → Prop
  | .element e => e.Resolved false
  | .fragment f => f.Resolved false

/-! ## Expressions with operators -/

/-- What may be a front of an expression that is converted or assigned to: a literal, a property or
a group that is still to be resolved. -/
def Tree.isFront (e : Expr) : Bool := Grammar.isLiteralPattern e || e.isSimpleTarget || e.isCover

/-- An expression that may be an operation: if nothing is pending, it is resolved. If something is,
what is pending stands at its front, unless it is an operation; and then it will be refused. -/
structure Standing (s : Bool) (e : Expr) : Prop where
  /-- Where nothing is pending, it is resolved. -/
  resolved : s = false → e.Resolved false
  /-- A literal, a property or a group is resolved as a front. -/
  front : e.isFront = true → e.Resolved true

namespace Standing

variable {s : Bool} {e : Expr}

/-- What is resolved as a front if something is pending. -/
theorem of_resolved (h : e.Resolved s) : Standing s e :=
  ⟨fun hs => hs ▸ h, fun _ => h.mono fun _ => rfl⟩

/-- Operations, whose parts are resolved if nothing is pending. -/
theorem of_operation (he : e.isFront = false) (h : s = false → e.Resolved false) : Standing s e :=
  ⟨h, fun hf => absurd (he.symm.trans hf) (by simp)⟩

theorem mono {s' : Bool} (h : Standing s e) (hle : s = true → s' = true) : Standing s' e := by
  refine ⟨fun hs => h.resolved ?_, h.front⟩
  cases s with
  | false => rfl
  | true => exact absurd (hle rfl) (by simp [hs])

end Standing

end Verbatim
