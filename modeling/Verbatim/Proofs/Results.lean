import Verbatim.Proofs.Contract

/-!
# What actions yield

Some of what is known of the value of a parsing action does not depend on where the action is run:
it follows from how the value is built from the answers, whatever these are. This is the contract
that demands nothing and promises nothing of the answers.

## Main definitions

* `Verbatim.anyAnswer` — the contract under which a request may have any answer.
* `Verbatim.Parse.Returns` — what is known of the value of an action, wherever it is run.

## Main results

* `Verbatim.Parse.Returns.of_run` — it is true of the runs that end well.
-/

namespace Verbatim

/-- Any request may be made, and it may have any answer. -/
def anyAnswer : Contract Unit where
  allows _ _ post := ∀ v, post v ()
  mono h hp v := h _ _ (hp v)

/-- Whatever a request is answered by, it may be answered by. -/
theorem anyAnswer_holds : anyAnswer.Holds (fun _ _ => True) (fun _ _ => True) := by
  intro request s q post _ h
  cases hrun : Parser.answer request q with
  | ok v r => exact ⟨(), trivial, h v⟩
  | error e r => trivial

namespace Parse

variable {α β : Type}

/-- Wherever the action is run, it fails or its value is such that `P`. -/
def Returns (action : Parse α) (P : α → Prop) : Prop := action.Meets anyAnswer () fun v _ => P v

variable {P : β → Prop}

@[simp]
theorem returns_pure {value : β} : (pure value : Parse β).Returns P ↔ P value := Iff.rfl

@[simp]
theorem returns_bind {action : Parse α} {f : α → Parse β} :
    (action >>= f).Returns P ↔ action.Returns fun v => (f v).Returns P := Iff.rfl

@[simp]
theorem returns_map {action : Parse α} {f : α → β} :
    (f <$> action).Returns P ↔ action.Returns fun v => P (f v) := Iff.rfl

namespace Returns

/-- What an action yields is true of its runs that end well. -/
theorem of_run {action : Parse β} (h : action.Returns P) {q r : Parser} {value : β}
    (hrun : action.run q = .ok value r) : P value := by
  have hend := Meets.run anyAnswer_holds h (q := q) trivial
  rw [hrun] at hend
  obtain ⟨_, -, hvalue⟩ := hend
  exact hvalue

theorem imp {action : Parse β} {Q : β → Prop} (h : action.Returns P) (hp : ∀ v, P v → Q v) :
    action.Returns Q := Meets.imp h fun v _ => hp v

/-- Of any action it is known that it has a value. -/
theorem triv (action : Parse α) : action.Returns fun _ => True := by
  induction action with
  | done value => exact trivial
  | ask request => exact fun _ => trivial
  | andThen first resume ih ih' => exact ih.imp fun v _ => ih' v

/-- Behind an action of whose value nothing is known. -/
theorem bind {action : Parse α} {f : α → Parse β} (h : ∀ v, (f v).Returns P) :
    (action >>= f).Returns P := (triv action).imp fun v _ => h v

theorem ite {c : Prop} [Decidable c] {yes no : Parse β} (hyes : c → yes.Returns P)
    (hno : ¬ c → no.Returns P) : (if c then yes else no).Returns P := Meets.ite hyes hno

/-- An action that fails has no value, and neither has what follows it. -/
theorem of_fails {action : Parse α} (h : action.Returns fun _ => False) {f : α → Parse β} :
    (action >>= f).Returns P := returns_bind.2 (h.imp fun _ hfalse => hfalse.elim)

theorem fail (stage : Stage) (fault : Fault) (site : Site) :
    (fail stage fault site : Parse β).Returns P := nofun

theorem reject (fault : Fault) (site : Site) : (reject fault site : Parse β).Returns P :=
  fail _ _ _

theorem unexpectedHere (ctx : Context) : (unexpectedHere ctx : Parse β).Returns P :=
  bind fun _ => fail _ _ _

theorem stalled : (stalled : Parse β).Returns P := bind fun _ => fail _ _ _

/-- Repeating a step on a value. -/
theorem iterate {step : β → Parse (Option β)} {R : β → Prop}
    (hstep : ∀ v, R v → (step v).Returns fun w => w.elim (P v) R) (rounds : Nat) {v : β}
    (h : R v) : (iterate step rounds v).Returns P := by
  refine Meets.iterate (c := anyAnswer) (R := fun v _ => R v) ?_ (fun hv => hstep _ hv) rounds h
  intro v s post _ t
  exact nofun

/-- A conversion yields what it is run to. -/
theorem convertAs {finder : Finder} {site : Site} {conversion : Conversion β}
    (h : ∀ v faults, conversion [] = .ok v faults → P v) :
    (convertAs finder site conversion).Returns P := by
  unfold Parse.convertAs
  split
  · rename_i value faults hrun
    exact bind fun _ => h value faults hrun
  · exact bind fun _ => nofun

/-- An arrow function keeps its parameters as they are. -/
theorem arrow {p : Productions} {ctx : Context} {start : Position} {asyncLead : Option String}
    {params : Tree .arrowParams} {site : Site} :
    (Grammar.arrow p ctx start asyncLead params site).Returns fun e => ∃ arrowLead body span,
      e = .arrow asyncLead.isSome (asyncLead.getD "") params arrowLead body span := by
  unfold Grammar.arrow
  refine bind fun arrowLead => bind fun _ => bind fun _ => bind fun (body, strict) => ?_
  refine bind fun _ => ite (fun _ => of_fails (reject _ _)) fun _ => bind fun _ => ?_
  exact bind fun span => ⟨arrowLead, body, span, rfl⟩

end Returns

end Parse

end Verbatim
