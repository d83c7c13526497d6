import Verbatim.Proofs.Grammar.Target

/-!
# What the scanner and the conversions complain about

A parse that runs out of rounds fails with a fault of its own. Neither scanning nor a conversion
fails with that fault, or notes it.

## Main definitions

* `Verbatim.Spares` — stateful actions without the fault of a bound that was too small.

## Main results

* `Verbatim.Scan.Spares.next`, `Verbatim.Scan.Spares.nextRegex` — scanning.
* `Verbatim.Tree.asTarget_spares` — the conversion of expressions to targets.
-/

namespace Verbatim

/-- An action whose errors are such that `E`, and that keeps its state such that `I`. -/
def Spares {ε σ α : Type} (E : ε → Prop) (I : σ → Prop) (action : EStateM ε σ α) : Prop :=
  ∀ s, I s → match action s with
    | .ok _ s' => I s'
    | .error e s' => E e ∧ I s'

namespace Spares

variable {ε σ α β : Type} {E : ε → Prop} {I : σ → Prop}

theorem pure {v : α} : Spares E I (Pure.pure v : EStateM ε σ α) := fun _ h => h

theorem throw {e : ε} (h : E e) :
    Spares E I (MonadExcept.throw e : EStateM ε σ α) := fun _ hs => ⟨h, hs⟩

/-- One action after the other. -/
theorem bind {action : EStateM ε σ α} {f : α → EStateM ε σ β} (h : Spares E I action)
    (hf : ∀ v, Spares E I (f v)) : Spares E I (action >>= f) := by
  intro s hs
  have hfirst := h s hs
  change match EStateM.bind action f s with
    | .ok _ s' => I s'
    | .error e s' => E e ∧ I s'
  unfold EStateM.bind
  cases hrun : action s with
  | ok v s' =>
    rw [hrun] at hfirst
    exact hf v s' hfirst
  | error e s' =>
    rw [hrun] at hfirst
    exact hfirst

theorem ite {c : Prop} [Decidable c] {a b : EStateM ε σ α} (ha : Spares E I a)
    (hb : Spares E I b) : Spares E I (if c then a else b) := by
  split
  · exact ha
  · exact hb

/-- An action that keeps no state in particular and does not fail. -/
theorem total {action : EStateM ε σ α} (h : ∀ s, ∃ v s', action s = .ok v s') :
    Spares E (fun _ => True) action := by
  intro s _
  obtain ⟨v, s', hr⟩ := h s
  rw [hr]
  trivial

/-- What an action fails with. -/
theorem error {action : EStateM ε σ α} (h : Spares E (fun _ => True) action) {s s' : σ} {e : ε}
    (hr : action s = .error e s') : E e := by
  have hs := h s trivial
  rw [hr] at hs
  exact hs.1

end Spares

/-! ## Scanning -/

namespace Scan

/-- A scanning action that never fails because a bound was too small. -/
abbrev Spares {α : Type} (action : Scan α) : Prop :=
  Verbatim.Spares (·.fault ≠ .stalled) (fun _ => True) action

namespace Spares

theorem fail {α : Type} {stage : Stage} {fault : Fault} (h : fault ≠ .stalled) :
    (Scan.fail stage fault : Scan α).Spares :=
  .bind (.total fun _ => ⟨_, _, rfl⟩) fun _ => .throw h

theorem read {α : Type} {stage : Stage} {reader : ReadOn Cursor α} {reader' : Read α}
    (h : ∀ l, Read.Along l reader reader') : (Scan.read stage reader).Spares := by
  refine .bind (.total fun _ => ⟨_, _, rfl⟩) fun s => ?_
  split
  · exact .bind (.total fun _ => ⟨_, _, rfl⟩) fun _ => .pure
  · rename_i fault cursor hrun
    exact .bind (.total fun _ => ⟨_, _, rfl⟩) fun _ => fail ((h _).ne_stalled rfl hrun)

theorem token {lead : String} {newline : Bool} {lexeme : Scan Lexeme} (h : lexeme.Spares) :
    (Scan.token lead newline lexeme).Spares :=
  .bind (.total fun _ => ⟨_, _, rfl⟩) fun _ => .bind h fun _ =>
    .bind (.total fun _ => ⟨_, _, rfl⟩) fun _ => .pure

theorem trivia : Scan.trivia.Spares := by
  refine .bind (.total fun _ => ⟨_, _, rfl⟩) fun _ => .bind
    (.total fun _ => ⟨_, _, rfl⟩) fun _ => ?_
  refine .ite (.bind (.total fun _ => ⟨_, _, rfl⟩) fun _ => .bind (fail nofun) fun _ => ?_) ?_
  all_goals exact .bind (.total fun _ => ⟨_, _, rfl⟩) fun _ => .pure

/-- Scanning a token never fails because a bound was too small. -/
theorem next : Scan.next.Spares := by
  have hlexeme : Scan.lexeme.Spares :=
    .bind (.total fun _ => ⟨_, _, rfl⟩) fun _ => .bind (read fun _ => .reader _) fun _ =>
      .bind (.total fun _ => ⟨_, _, rfl⟩) fun _ => .pure
  exact .bind (.total fun _ => ⟨_, _, rfl⟩) fun _ =>
    .ite (token hlexeme) (.bind trivia fun _ => token hlexeme)

/-- Neither does scanning a regular expression. -/
theorem nextRegex : Scan.nextRegex.Spares := .bind trivia fun _ => token (read fun _ => .regex)

end Spares

end Scan

/-! ## Conversions -/

/-- A conversion that neither notes nor fails with the fault of a bound that was too small. -/
abbrev Conversion.Spares {α : Type} (conversion : Conversion α) : Prop :=
  Verbatim.Spares (· ≠ .stalled) (∀ fault ∈ ·, fault ≠ .stalled) conversion

namespace Conversion.Spares

theorem note {fault : Fault} (h : fault ≠ .stalled) : (Conversion.note fault).Spares :=
  fun _ hs _ hf => (List.mem_append.1 hf).elim (hs _) fun hf => List.mem_singleton.1 hf ▸ h

end Conversion.Spares

namespace Tree

variable {use : TargetUse} {strict : Bool}

theorem checkRest_spares (target : Pattern) : (checkRest target).Spares := by
  cases target
  case defaultPattern => exact .throw nofun
  all_goals exact .pure

theorem invalid_ne_stalled (use : TargetUse) : use.invalid ≠ .stalled := by cases use <;> nofun

theorem checkMemberRest_spares (target : Pattern) : (checkMemberRest use target).Spares := by
  cases target
  case namePattern | exprPattern => exact .pure
  all_goals exact .throw (invalid_ne_stalled use)

theorem checkName_spares (id : Ident) : (use.checkName strict id).Spares :=
  .ite (Conversion.Spares.note (by cases use <;> nofun)) .pure

theorem checkDefault_spares (target : Pattern) : (checkDefault use strict target).Spares := by
  unfold checkDefault
  refine .ite (.bind (.throw (invalid_ne_stalled use)) fun _ => ?_) ?_
  all_goals
    split
    · exact checkName_spares _
    · exact .pure

variable (use strict) in
/-- The conversion of a tree spares the fault. -/
def Sparing {c : Category} (t : Tree c) : Prop :=
  ∀ trailing, (t.asTarget use strict trailing).Spares

theorem Sparing.of_other {e : Expr} (he : e.isPatternLike = false) : e.Sparing use strict := by
  intro trailing
  rw [asTarget_other _ _ _ _ he]
  cases use with
  | binding => exact .throw nofun
  | assignment => exact .ite (.bind (Conversion.Spares.note nofun) fun _ => .pure) .pure

theorem Sparing.of_unfit {c : Category} {t : Tree c} (hc : c.isFit = false) :
    t.Sparing use strict := by
  intro trailing
  rw [asTarget_unfit _ _ _ _ hc]
  exact .throw (invalid_ne_stalled use)

/-- The conversion of a list is sparing if that of its items is. -/
theorem Sparing.cons {c : Category} {head : Tree c} {tail : Tree (.many c)}
    (hh : head.Sparing use strict) (ho : ∀ o, head.operand? = some o → o.Sparing use strict)
    (ht : tail.Sparing use strict) : (cons head tail).Sparing use strict := by
  intro trailing
  cases hr : head.isRest with
  | false =>
    rw [asTarget_cons _ _ _ _ _ hr]
    exact .bind (hh _) fun _ => .bind (ht _) fun _ => .pure
  | true =>
    cases head
    case present part =>
      cases part
      case spread lead operand span =>
        rw [asTarget_spread]
        exact .ite (.throw nofun) (.bind (ho _ rfl _) fun _ =>
          .bind (checkRest_spares _) fun _ => .pure)
      all_goals cases hr
    case spreadMember lead operand span =>
      rw [asTarget_spreadMember]
      exact .ite (.throw nofun) (.bind (ho _ rfl _) fun _ => .bind (checkRest_spares _) fun _ =>
        .bind (checkMemberRest_spares _) fun _ => .pure)
    all_goals cases hr

/-- The conversion of an expression and that of its operand are sparing. -/
theorem sparing {c : Category} (t : Tree c) :
    t.Sparing use strict ∧ ∀ o, t.operand? = some o → o.Sparing use strict := by
  induction t
  case identifier id => exact ⟨fun _ => .bind (checkName_spares id) fun _ => .pure, nofun⟩
  case array ih => exact ⟨fun _ => .bind (ih.1 _) fun _ => .pure, nofun⟩
  case object ih => exact ⟨fun _ => .bind (ih.1 _) fun _ => .pure, nofun⟩
  case assignment target opLead op value span ihTarget ihValue =>
    refine ⟨?_, nofun⟩
    cases op
    case assign => exact fun _ => .bind (checkDefault_spares target) fun _ => .pure
    all_goals exact .of_other rfl
  case property mods key value kind isMethod isShorthand colonLead span ihKey ih =>
    refine ⟨fun trailing => ?_, nofun⟩
    rw [asTarget_property]
    exact .ite (.throw (invalid_ne_stalled use)) (.bind (ih.1 _) fun _ => .pure)
  case nil => exact ⟨fun _ => .pure, nofun⟩
  case cons head tail ihHead ih => exact ⟨.cons ihHead.1 ihHead.2 ih.1, nofun⟩
  case absent => exact ⟨fun _ => .pure, nofun⟩
  case present part ih => exact ⟨fun _ => .bind (ih.1 _) fun _ => .pure, ih.2⟩
  case spread lead operand span ih => exact ⟨.of_other rfl, fun o ho => by cases ho; exact ih.1⟩
  case spreadMember lead operand span ih =>
    exact ⟨fun _ => .throw (invalid_ne_stalled use), fun o ho => by cases ho; exact ih.1⟩
  all_goals
    refine ⟨?_, nofun⟩
    first
    | exact .of_unfit rfl
    | exact .of_other rfl

/-- The conversion of expressions to targets neither notes nor fails with the fault of a bound that
was too small. -/
theorem asTarget_spares {c : Category} (trailing : Bool) (t : Tree c) :
    (t.asTarget use strict trailing).Spares := t.sparing.1 trailing

end Tree

end Verbatim
