import Verbatim.Proofs.Walk

/-!
# Contracts of parsing actions

A contract says what is known of the answers to requests and what a request may depend on, in terms
of some knowledge about the parser. That an action meets a contract is computed from the action, one
request after the other, so a production is gone through once and no parser is run. If the contract
is true of parsers, then so is what was found of the action.

## Main definitions

* `Verbatim.Contract` — what is known of answers, and demanded of requests.
* `Verbatim.Parse.Meets` — an action that meets a contract.
* `Verbatim.Contract.Holds` — a contract that is true of parsers.

## Main results

* `Verbatim.Parse.Meets.runWith`, `Verbatim.Parse.Meets.run` — what is known of an action that meets
  a contract is true of its runs.
* `Verbatim.Parse.Meets.many`, `Verbatim.Parse.Meets.listed`, `Verbatim.Parse.Meets.afterCommas`,
  `Verbatim.Parse.Meets.iterate` — loops meet a contract if one round keeps an invariant.
* `Verbatim.Parse.Meets.groupParameters`, `Verbatim.Parse.Meets.checkLoopVariables` — the same for
  the recursions over the items of a group and over the variables of a loop.
-/

namespace Verbatim

/-- What is known of the answers to requests and demanded of requests, where `σ` is what is known
of a parser. -/
structure Contract (σ : Type) where
  /-- Whether a request may be made, and the given postcondition holds whatever the answer is. -/
  allows : (request : Request) → σ → (request.Answer → σ → Prop) → Prop
  /-- A weaker postcondition holds, too. -/
  mono : ∀ {request : Request} {s : σ} {post post' : request.Answer → σ → Prop},
    (∀ v s, post v s → post' v s) → allows request s post → allows request s post'

/-- An action that meets a contract: all its requests may be made, and the postcondition holds
behind it. -/
def Parse.Meets {σ : Type} (c : Contract σ) : {α : Type} → Parse α → σ → (α → σ → Prop) → Prop
  | _, .done value, s, post => post value s
  | _, .ask request, s, post => c.allows request s post
  | _, .andThen first resume, s, post =>
    first.Meets c s fun value s' => (resume value).Meets c s' post

/-- What is known of the end of a run: `knows` says it of the parser and `post` of the value, or
`fails` of the error and the parser. -/
def EndsIn {σ α : Type} (knows : σ → Parser → Prop) (fails : SyntaxError → Parser → Prop)
    (post : α → σ → Prop) : EStateM.Result SyntaxError Parser α → Prop
  | .ok value r => ∃ s, knows s r ∧ post value s
  | .error e r => fails e r

/-- A contract that is true of parsers: `knows` says what is known of a parser, and `fails` of the
errors that end a parse and of the parsers that they leave. -/
def Contract.Holds {σ : Type} (c : Contract σ) (knows : σ → Parser → Prop)
    (fails : SyntaxError → Parser → Prop) : Prop :=
  ∀ {request : Request} {s : σ} {q : Parser} {post : request.Answer → σ → Prop}, knows s q →
    c.allows request s post → EndsIn knows fails post (Parser.answer request q)

namespace Parse

/-- Whether what one round of reading a list has read is such that `P`. -/
def Round.All {α : Type} (P : α → Prop) : Round α → Prop
  | .item value | .hole value _ | .last value => P value

variable {σ α β : Type} {c : Contract σ} {s : σ} {post : β → σ → Prop}

@[simp]
theorem meets_pure {value : β} : (pure value : Parse β).Meets c s post ↔ post value s := Iff.rfl

@[simp]
theorem meets_bind {action : Parse α} {f : α → Parse β} :
    (action >>= f).Meets c s post ↔
      action.Meets c s fun value s' => (f value).Meets c s' post := Iff.rfl

@[simp]
theorem meets_map {action : Parse α} {f : α → β} :
    (f <$> action).Meets c s post ↔ action.Meets c s fun value s' => post (f value) s' := Iff.rfl

namespace Meets

theorem imp {action : Parse α} {post post' : α → σ → Prop} (h : action.Meets c s post)
    (hp : ∀ v s', post v s' → post' v s') : action.Meets c s post' := by
  induction action generalizing s with
  | done value => exact hp value s h
  | ask request => exact c.mono hp h
  | andThen first resume ih ih' => exact ih h fun v s' h' => ih' v h' hp

/-- One action after the other. -/
theorem bind {action : Parse α} {f : α → Parse β} {mid : α → σ → Prop}
    (h : action.Meets c s mid) (hf : ∀ v s', mid v s' → (f v).Meets c s' post) :
    (action >>= f).Meets c s post := h.imp hf

/-- What is known of an action that meets a contract is true of its runs. What is known of a parser
may depend on the tokens that were taken so far. -/
theorem runWith {knows : List (Token × Mode) → σ → Parser → Prop}
    {fails : SyntaxError → Parser → Prop}
    (hc : ∀ {past : List (Token × Mode)} {request : Request} {s : σ} {q : Parser}
      {post : request.Answer → σ → Prop}, knows past s q → c.allows request s post →
      EndsIn (knows (past ++ (ask request).takes q)) fails post (Parser.answer request q))
    {action : Parse α} {post : α → σ → Prop} (h : action.Meets c s post)
    {past : List (Token × Mode)} {q : Parser} (hq : knows past s q) :
    EndsIn (knows (past ++ action.takes q)) fails post (action.run q) := by
  induction action generalizing s q past with
  | done value => exact ⟨s, (List.append_nil past).symm ▸ hq, h⟩
  | ask request => exact hc hq h
  | andThen first resume ih ih' =>
    have hfirst := ih h hq
    change EndsIn _ fails post ((first >>= resume).run q)
    rw [run_bind, takes, ← List.append_assoc]
    cases hrun : first.run q with
    | ok v r =>
      rw [hrun] at hfirst
      obtain ⟨s', hr, hv⟩ := hfirst
      exact ih' v hv hr
    | error e r =>
      rw [hrun] at hfirst
      exact hfirst

/-- What is known of an action that meets a contract is true of its runs. -/
theorem run {knows : σ → Parser → Prop} {fails : SyntaxError → Parser → Prop}
    (hc : c.Holds knows fails)
    {action : Parse α} {post : α → σ → Prop} (h : action.Meets c s post) {q : Parser}
    (hq : knows s q) : EndsIn knows fails post (action.run q) :=
  @runWith _ _ c s (fun _ => knows) fails (fun {_} => hc) action post h [] q hq

/-! ## Branches -/

theorem ite {b : Prop} [Decidable b] {yes no : Parse β} (hyes : b → yes.Meets c s post)
    (hno : ¬ b → no.Meets c s post) : (if b then yes else no).Meets c s post := by
  split
  · exact hyes ‹_›
  · exact hno ‹_›

/-! ## Loops

Each of the loops keeps an invariant, which speaks of what was read so far, if a round keeps it. A
loop that runs out of rounds fails, and a contract has to allow that. -/

/-- Reading items one after the other. -/
theorem many {ends : Token → Bool} {item : Parse α} {R : List α → σ → Prop}
    (hstalled : ∀ {vs s post}, R vs s → (stalled : Parse (List α)).Meets c s post)
    (hitem : ∀ {vs s}, R vs s → look.Meets c s fun t s' => R vs s' ∧
      (ends t = false → item.Meets c s' fun v s'' => R (vs ++ [v]) s''))
    (rounds : Nat) {l : List α} (h : R l s) :
    (Parse.many ends item rounds).Meets c s fun vs s' => R (l ++ vs) s' := by
  induction rounds generalizing l s with
  | zero => exact hstalled h
  | succ rounds ih =>
    unfold Parse.many
    refine (hitem h).bind fun t s' ⟨hs', hnext⟩ => ite (fun _ => ?_) fun hends => ?_
    · rw [meets_pure, List.append_nil]
      exact hs'
    · refine (hnext (Bool.eq_false_iff.2 hends)).bind fun v s'' hv => ?_
      refine (ih hv).imp fun vs s₃ hvs => ?_
      rw [List.append_assoc] at hvs
      exact hvs

/-- Reading a list with commas. `R` holds where an item may follow, and `S` where an item was read
that has no comma yet. -/
theorem listed {ctx : Context} {close : String} {round : Parse (Round α)}
    {R S : List α → List String → σ → Prop}
    (hstalled : ∀ {vs commas s post}, R vs commas s →
      (stalled : Parse (List α × List String)).Meets c s post)
    (hround : ∀ {vs commas s}, R vs commas s → (sees close).Meets c s fun seen s' =>
      if seen then R vs commas s' else round.Meets c s' fun
        | .item v, s'' => S (vs ++ [v]) commas s''
        | .hole v comma, s'' => R (vs ++ [v]) (commas ++ [comma]) s''
        | .last v, s'' => S (vs ++ [v]) commas s'')
    (hcomma : ∀ {vs commas s}, S vs commas s → (sees close).Meets c s fun seen s' =>
      if seen then S vs commas s' else (separator ctx).Meets c s' fun comma s'' =>
        R vs (commas ++ [comma]) s'')
    (rounds : Nat) {l : List α} {k : List String} (h : R l k s) :
    (Parse.listed ctx close round rounds).Meets c s fun (vs, more) s' =>
      R (l ++ vs) (k ++ more) s' ∨ S (l ++ vs) (k ++ more) s' := by
  induction rounds generalizing l k s with
  | zero => exact hstalled h
  | succ rounds ih =>
    unfold Parse.listed
    refine (hround h).bind fun seen s' hseen => ?_
    cases seen with
    | true => exact .inl (by simpa using hseen)
    | false =>
      refine bind (show round.Meets c s' _ from hseen) fun r s₁ hr => ?_
      cases r with
      | last v => exact .inr (by simpa using hr)
      | hole v comma =>
        refine (ih hr).imp fun (vs, more) s₂ h₂ => ?_
        simp only [List.append_assoc] at h₂
        exact h₂
      | item v =>
        refine (hcomma hr).bind fun seen s₂ hseen₂ => ?_
        cases seen with
        | true => exact .inr (by simpa using hseen₂)
        | false =>
          refine bind (show (separator ctx).Meets c s₂ _ from hseen₂) fun comma s₃ h₃ => ?_
          refine (ih h₃).imp fun (vs, more) s₄ h₄ => ?_
          simp only [List.append_assoc] at h₄
          exact h₄

/-- Reading items behind commas. -/
theorem afterCommas {ctx : Context} {item : Parse α} {R : List α → List String → σ → Prop}
    (hstalled : ∀ {vs commas s post}, R vs commas s →
      (stalled : Parse (List α × List String)).Meets c s post)
    (hitem : ∀ {vs commas s}, R vs commas s → (sees ",").Meets c s fun seen s' =>
      if seen then (separator ctx).Meets c s' fun comma s'' => item.Meets c s'' fun v s₃ =>
        R (vs ++ [v]) (commas ++ [comma]) s₃
      else R vs commas s')
    (rounds : Nat) {l : List α} {k : List String} (h : R l k s) :
    (Parse.afterCommas ctx item rounds).Meets c s fun (vs, more) s' =>
      R (l ++ vs) (k ++ more) s' := by
  induction rounds generalizing l k s with
  | zero => exact hstalled h
  | succ rounds ih =>
    unfold Parse.afterCommas
    refine (hitem h).bind fun seen s' hseen => ?_
    cases seen with
    | false => simpa using hseen
    | true =>
      refine bind (show (separator ctx).Meets c s' _ from hseen) fun comma s₁ h₁ => ?_
      refine bind h₁ fun v s₂ h₂ => ?_
      refine (ih h₂).imp fun (vs, more) s₃ h₃ => ?_
      simp only [List.append_assoc] at h₃
      exact h₃

/-- Repeating a step on a value. -/
theorem iterate {step : α → Parse (Option α)} {R S : α → σ → Prop}
    (hstalled : ∀ {v s post}, R v s → (stalled : Parse α).Meets c s post)
    (hstep : ∀ {v s}, R v s → (step v).Meets c s fun w s' => w.elim (S v s') (R · s'))
    (rounds : Nat) {v : α} (h : R v s) :
    (Parse.iterate step rounds v).Meets c s S := by
  induction rounds generalizing v s with
  | zero => exact hstalled h
  | succ rounds ih =>
    unfold Parse.iterate
    refine (hstep h).bind fun w s' hw => ?_
    cases w with
    | none => exact hw
    | some w => exact ih hw

/-! ## Groups and declarations -/

/-- Making parameters of the items of a group, if each conversion leaves what is known of the parser
as it is and gives a pattern such that `P`. -/
theorem groupParameters {ctx : Context} {site : Site} {trailing : Bool} {items : List Expr}
    {P : Pattern → Prop} {post : List Pattern → σ → Prop}
    (hreject : ∀ {γ : Type} fault post, (reject fault site : Parse γ).Meets c s post)
    (hrest : ∀ lead operand span, .spread lead operand span ∈ items →
      (convert site do
        let target ← operand.asTarget .binding ctx.strict false
        Tree.checkRest target
        return target).Meets c s fun target s' => s' = s ∧ P (.restPattern lead target span))
    (hitem : ∀ item ∈ items,
      (convertAs .parameters site (item.asTarget .binding ctx.strict false)).Meets c s
        fun v s' => s' = s ∧ P v)
    (h : ∀ vs, (∀ v ∈ vs, P v) → post vs s) :
    (Grammar.groupParameters ctx site trailing items).Meets c s post := by
  fun_induction Grammar.groupParameters ctx site trailing items generalizing post with
  | case1 => exact h _ nofun
  | case2 => exact meets_bind.2 (hreject _ _)
  | case3 =>
    refine (hrest _ _ _ List.mem_cons_self).bind fun target s' => ?_
    rintro ⟨rfl, htarget⟩
    exact h _ (List.forall_mem_singleton.2 htarget)
  | case4 => exact hreject _ _
  | case5 => exact hreject _ _
  | case6 item rest _ _ _ ih =>
    refine (hitem item List.mem_cons_self).bind fun v s' => ?_
    rintro ⟨rfl, hv⟩
    refine ih (fun _ _ _ hmem => hrest _ _ _ (List.mem_cons_of_mem _ hmem))
      (fun _ hmem => hitem _ (List.mem_cons_of_mem _ hmem)) fun vs hvs => ?_
    exact h _ (List.forall_mem_cons.2 ⟨hv, hvs⟩)

/-- The check of the variables of a loop fails or leaves what is known as it is. -/
theorem checkLoopVariables {kind : VariableKind} {t : Token} {items : List (Tree .declarator)}
    {post : Unit → σ → Prop}
    (hreject : ∀ {γ : Type} fault post, (reject fault t.site : Parse γ).Meets c s post)
    (h : post () s) :
    (Grammar.checkLoopVariables kind t items).Meets c s post := by
  fun_induction Grammar.checkLoopVariables kind t items with
  | case1 => exact h
  | case2 => exact meets_bind.2 (hreject _ _)
  | case3 _ _ _ _ _ ih => exact ih
  | case4 _ _ _ ih => exact ih

end Meets

end Parse

end Verbatim
