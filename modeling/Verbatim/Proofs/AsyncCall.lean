import Verbatim.Parsed
import Verbatim.Proofs.Results
import Verbatim.Proofs.Taking

/-!
# Calls of a function named `async`

Behind the name `async` an argument list may turn out to be the parameters of an arrow function. So
it is read as a group, by a production of its own, and a loop of its own reads what follows it.
Where no arrow follows, the group is read as the arguments of any other call are, and the loop
builds what the loop for all other chains builds, as long as only accesses by a dot or a bracket and
calls follow. At an optional link and at a template it ends.

## Main definitions

* `Verbatim.Parse.Guards` — an action that does what another one does while nothing is pending.
* `Verbatim.Tree.isPlainChain` — chains of accesses and calls that begin with a name.

## Main results

* `Verbatim.Grammar.asyncCall_of_chain` — a plain chain behind `async` is read as behind any name.
* `Verbatim.Grammar.asyncCall_returns` — no other chain is read there.
* `Verbatim.parse_async_optional` — an optional link behind a call of `async` is a fault.
-/

namespace Verbatim

open Grammar Parse

/-! ## Reading while nothing is pending -/

/-- The same parser with no shorthand property pending. -/
def Parser.settled (q : Parser) : Parser := { q with pending := none }

/-- A parser in which nothing is pending is settled. -/
theorem Parser.settled_eq {q : Parser} (h : q.pending = none) : q.settled = q := by
  cases q
  cases h
  rfl

/-- The check that nothing is pending changes nothing. -/
theorem rejectPending_eq_ok {q r : Parser} {v : Unit} :
    rejectPending.run q = .ok v r ↔ q.pending = none ∧ q = r := by
  have hpending : pending.run q = .ok q.pending q := rfl
  rw [rejectPending, run_bind, hpending]
  dsimp only
  cases q.pending with
  | none => exact ⟨fun h => by cases h; exact ⟨rfl, rfl⟩, fun h => by rw [← h.2]; rfl⟩
  | some site => exact ⟨fun h => (by cases h), fun h => (by cases h.1)⟩

/-- Whenever the first action ends well, it leaves what is pending as it is, and the second action
ends well while nothing is pending, in the same state and with a value from which that of the first
one is made. -/
def Parse.Guards {α β : Type} (f : β → α) (action : Parse α) (other : Parse β) : Prop :=
  ∀ q v r, action.run q = .ok v r →
    r.pending = q.pending ∧ ∃ w, other.run q.settled = .ok w r.settled ∧ f w = v

namespace Parse.Guards

variable {α β γ δ : Type} {f : β → α} {g : δ → γ}

theorem pure {v : α} {w : β} (h : f w = v) : Guards f (pure v) (pure w) := by
  intro q u r hrun
  cases hrun
  exact ⟨rfl, w, rfl, h⟩

/-- One action after the other. -/
theorem bind {action : Parse α} {other : Parse β} {next : α → Parse γ} {next' : β → Parse δ}
    (h : Guards f action other) (hnext : ∀ w, Guards g (next (f w)) (next' w)) :
    Guards g (action >>= next) (other >>= next') := by
  intro q v r hrun
  rw [run_bind] at hrun
  split at hrun
  · rename_i u r₁ hfirst
    obtain ⟨hpending, w, hw, rfl⟩ := h q u r₁ hfirst
    obtain ⟨hpending', x, hx, hv⟩ := hnext w r₁ v r hrun
    refine ⟨hpending'.trans hpending, x, ?_, hv⟩
    rw [run_bind, hw]
    exact hx
  · cases hrun

/-- The second action may ask where it is, in front and behind. -/
theorem located {action : Parse α} {other : Parse β} {g : δ → α}
    {make : Position → β → Position → δ}
    (h : Guards f action other) (hmake : ∀ start w stop, g (make start w stop) = f w) :
    Guards g action (here >>= fun start => other >>= fun w => lastEnd >>= fun stop =>
      Pure.pure (make start w stop)) := by
  intro q v r hrun
  obtain ⟨hpending, w, hw, rfl⟩ := h q v r hrun
  refine ⟨hpending, make q.lookahead.start w r.lastEnd, ?_, hmake _ w _⟩
  change (other >>= fun w => lastEnd >>= fun stop =>
    Pure.pure (make q.lookahead.start w stop)).run q.settled = _
  rw [run_bind, hw]
  rfl

/-- An action that fails guards any other. -/
theorem of_fails {action : Parse α} {other : Parse β} (h : action.Fails) :
    Guards f action other := fun q v r hrun => absurd hrun (h q v r)

theorem ite {c : Prop} [Decidable c] {yes no : Parse α} {yes' no' : Parse β}
    (hyes : Guards f yes yes') (hno : Guards f no no') :
    Guards f (if c then yes else no) (if c then yes' else no') := by
  split
  · exact hyes
  · exact hno

/-! ### Steps that do not look at what is pending -/

theorem look : Guards id look look := by
  intro q v r hrun
  cases hrun
  exact ⟨rfl, _, rfl, rfl⟩

theorem next : Guards id next next := by
  intro q v r hrun
  obtain ⟨u, sc, hscan, rfl, rfl⟩ := Tracks.next_eq_ok hrun
  exact ⟨rfl, _, Tracks.next_of_scan (q := q.settled) hscan, rfl⟩

theorem finish (kind : NodeKind) (start : Position) : Guards id (finish kind start)
    (finish kind start) := by
  intro q v r hrun
  cases hrun
  exact ⟨rfl, _, rfl, rfl⟩

theorem sees (spelling : String) : Guards id (sees spelling) (sees spelling) :=
  look.bind fun _ => pure rfl

theorem lead : Guards id lead lead := next.bind fun _ => pure rfl

theorem expect (ctx : Context) (spelling : String) :
    Guards id (expect ctx spelling) (expect ctx spelling) :=
  (sees spelling).bind fun _ => ite lead (of_fails (by simp))

theorem separator (ctx : Context) : Guards id (separator ctx) (separator ctx) :=
  (expect ctx ",").bind fun _ => pure rfl

/-! ### Lists -/

/-- An action whose value is changed, and another one after it. -/
theorem bindMap {α' β' : Type} {action : Parse α} {other : Parse β} {m : α → α'} {m' : β → β'}
    {next : α' → Parse γ} {next' : β' → Parse δ} (h : Guards f action other)
    (hnext : ∀ w, Guards g (next (m (f w))) (next' (m' w))) :
    Guards g (m <$> action >>= next) (m' <$> other >>= next') := by
  -- A change of the value is an action after which nothing is asked.
  have hmap : ∀ {α α' γ : Type} (a : Parse α) (m : α → α') (k : α' → Parse γ) (q : Parser),
      (m <$> a >>= k).run q = (a >>= fun v => k (m v)).run q := by
    intro α α' γ a m k q
    change ((a >>= fun v => Pure.pure (m v)) >>= k).run q = _
    simp only [run_bind]
    cases a.run q <;> rfl
  intro q v r hrun
  rw [hmap] at hrun ⊢
  exact h.bind hnext q v r hrun

/-- Items in a list with commas. -/
theorem listed {ctx : Context} {close : String} {item : Parse α} {item' : Parse β}
    (h : Guards f item item') (rounds : Nat) :
    Guards (fun w => (w.1.map f, w.2)) (listed ctx close (.item <$> item) rounds)
      (listed ctx close (.item <$> item') rounds) := by
  induction rounds with
  | zero => exact of_fails fails_stalled
  | succ rounds ih =>
    refine (sees close).bind fun _ => ite (pure rfl) (h.bindMap fun w => ?_)
    refine (sees close).bind fun _ => ite (pure rfl) ?_
    exact (separator ctx).bind fun _ => ih.bind fun _ => pure rfl

/-! ### Expressions -/

/-- An expression that is read in its own right is read as one that may yet turn out to be a
pattern, if it does not. -/
theorem assignment (depth : Nat) (ctx : Context) :
    Guards id ((Productions.ofDepth depth).assignment ctx)
      ((Productions.ofDepth depth).cover ctx) := by
  cases depth with
  | zero => exact of_fails fails_stalled
  | succ depth =>
    intro q v r hrun
    replace hrun : (Grammar.cover (.ofDepth depth) ctx >>= fun value => rejectPending >>= fun _ =>
      setPending q.pending >>= fun _ => Pure.pure value).run q.settled = .ok v r := hrun
    rw [run_bind] at hrun
    split at hrun
    · rename_i w _ hcover
      rw [run_bind] at hrun
      split at hrun
      · rename_i hreject
        obtain ⟨hpending, rfl⟩ := rejectPending_eq_ok.1 hreject
        cases hrun
        rw [← Parser.settled_eq hpending] at hcover
        exact ⟨rfl, v, hcover, rfl⟩
      · cases hrun
    · cases hrun

theorem spreadOr {value other : Parse Expr} (h : Guards id value other) :
    Guards id (spreadOr value) (spreadOr other) :=
  look.bind fun _ => ite (lead.bind fun _ => h.bind fun _ => (finish _ _).bind fun _ => pure rfl) h

/-- The arguments of a call are read as the items of a group. -/
theorem argumentList (depth : Nat) (ctx : Context) :
    Guards (fun g => .argumentList g.openLead (.ofList g.values) g.separators g.closeLead)
      (argumentList (.ofDepth depth) ctx) (readGroup (.ofDepth depth) ctx) := by
  have hitem : Guards GroupItem.value (Grammar.spreadOr
    ((Productions.ofDepth depth).assignment ctx.inside))
      (groupItem (.ofDepth depth) ctx.inside) :=
    (spreadOr (assignment depth ctx.inside)).located fun _ _ _ => rfl
  refine (expect ctx "(").bind fun _ => (listed hitem _).bind fun (items, separators) => ?_
  exact (expect ctx ")").bind fun _ => pure rfl

end Parse.Guards

/-! ## Plain chains -/

/-- Whether an expression is a name, or an access or a call behind such an expression, without
optional links. -/
def Tree.isPlainChain : {c : Category} → Tree c → Bool
  | _, .identifier _ => true
  | _, .memberAccess base isOptional _ _ _ => !isOptional && base.isPlainChain
  | _, .call callee isOptional _ _ _ => !isOptional && callee.isPlainChain
  | _, _ => false

namespace Grammar

variable {p : Productions} {ctx : Context} {start : Position}

theorem finishAccess_returns {base : Expr} {isOptional : Bool} {dotLead : String}
    {prop : Tree .access} : (finishAccess start base isOptional dotLead prop).Returns
      (·.isPlainChain = (!isOptional && base.isPlainChain)) := .bind fun _ => rfl

theorem finishCall_returns {base : Expr} {isOptional : Bool} {optionalLead : String}
    {args : Tree .arguments} : (finishCall start base isOptional optionalLead args).Returns
      (·.isPlainChain = (!isOptional && base.isPlainChain)) := .bind fun _ => rfl

/-- What one link makes of a plain chain is a plain chain, and of another chain another one. -/
theorem plainLink_returns {base : Expr} : (plainLink p ctx start base).Returns
    (∀ e ∈ ·, e.isPlainChain = base.isPlainChain) := by
  refine .bind fun t => .ite (fun _ => .bind fun _ => .bind fun _ => ?_) fun _ => ?_
  · exact finishAccess_returns.imp fun e he _ hmem => Option.some.inj hmem ▸ he
  refine .ite (fun _ => .bind fun _ => ?_) fun _ => ?_
  · exact finishAccess_returns.imp fun e he _ hmem => Option.some.inj hmem ▸ he
  refine .ite (fun _ => .bind fun _ => ?_) fun _ => nofun
  exact finishCall_returns.imp fun e he _ hmem => Option.some.inj hmem ▸ he

theorem optionalLink_returns {base : Expr} :
    (optionalLink p ctx start base).Returns (·.isPlainChain = false) := by
  refine .bind fun _ => .bind fun t => .ite (fun _ => .bind fun _ => finishCall_returns) fun _ => ?_
  refine .ite (fun _ => .bind fun _ => finishAccess_returns) fun _ => ?_
  exact .ite (fun _ => .reject _ _) fun _ => .bind fun _ => finishAccess_returns

theorem taggedTemplate_returns {tag : Expr} :
    (taggedTemplate p ctx start tag).Returns (·.isPlainChain = false) :=
  .bind fun _ => .bind fun _ => rfl

/-- An optional link or a template makes a chain that is not plain. Anything else is read by plain
links. -/
theorem chainLink_cases {c : Chain} {w : Option Chain} {q r : Parser}
    (h : (chainLink p ctx start c).run q = .ok w r) :
    (∃ c' ∈ w, c'.value.isPlainChain = false) ∨
      (plainLink p ctx start c.value).run q = .ok (w.map (·.value)) r := by
  replace h : (if q.lookahead.isPunctuator "?." then (do
        return some { value := ← optionalLink p ctx start c.value, isOptional := true })
      else if q.lookahead.isTemplateHead then (do
        if c.isOptional then reject .optionalChainTemplate q.lookahead.site
        return some { c with value := ← taggedTemplate p ctx start c.value })
      else (do
        return (← plainLink p ctx start c.value).map ({ c with value := · })) :
      Parse (Option Chain)).run q = .ok w r := h
  split at h
  · refine .inl (Returns.of_run (P := (∃ c' ∈ ·, c'.value.isPlainChain = false)) ?_ h)
    exact returns_bind.2 (optionalLink_returns.imp fun e he => ⟨_, rfl, he⟩)
  split at h
  · refine .inl (Returns.of_run (P := (∃ c' ∈ ·, c'.value.isPlainChain = false)) ?_ h)
    refine .ite (fun _ => .of_fails (.reject _ _)) fun _ => ?_
    exact returns_bind.2 (taggedTemplate_returns.imp fun e he => ⟨_, rfl, he⟩)
  · right
    rw [run_bind] at h
    split at h
    · rename_i e _ hlink
      cases h
      cases e <;> exact hlink
    · cases h

/-- A plain chain begins with plain chains only. -/
theorem isPlainChain_of_iterate {rounds : Nat} {c c' : Chain} {q r : Parser}
    (h : (iterate (chainLink p ctx start) rounds c).run q = .ok c' r)
    (hplain : c'.value.isPlainChain = true) : c.value.isPlainChain = true := by
  induction rounds generalizing c q with
  | zero => exact absurd h (fails_stalled _ _ _)
  | succ rounds ih =>
    unfold iterate at h
    rw [run_bind] at h
    split at h
    · rename_i w r₁ hlink
      cases w with
      | none =>
        cases h
        exact hplain
      | some c₁ =>
        have hc₁ := ih h
        rcases chainLink_cases hlink with ⟨_, ⟨⟩, hno⟩ | hlink
        · exact absurd hc₁ (by simp [hno])
        · rwa [← plainLink_returns.of_run hlink _ rfl]
    · cases h

/-- A plain chain is read by plain links only. -/
theorem iterate_plainLink {rounds rounds' : Nat} {c c' : Chain} {q r : Parser}
    (hr : rounds ≤ rounds')
    (h : (iterate (chainLink p ctx start) rounds c).run q = .ok c' r)
    (hplain : c'.value.isPlainChain = true) :
    (iterate (plainLink p ctx start) rounds' c.value).run q = .ok c'.value r := by
  induction rounds generalizing c q rounds' with
  | zero => exact absurd h (fails_stalled _ _ _)
  | succ rounds ih =>
    obtain ⟨rounds', rfl⟩ : ∃ n, rounds' = n + 1 := ⟨rounds' - 1, by omega⟩
    unfold iterate at h ⊢
    rw [run_bind] at h ⊢
    split at h
    · rename_i w r₁ hlink
      cases w with
      | none =>
        cases h
        rcases chainLink_cases hlink with ⟨_, ⟨⟩, -⟩ | hlink
        rw [hlink]
        rfl
      | some c₁ =>
        rcases chainLink_cases hlink with ⟨_, ⟨⟩, hno⟩ | hlink
        · exact absurd (isPlainChain_of_iterate h hplain) (by simp [hno])
        · rw [hlink]
          exact ih (by omega) h
    · cases h

/-! ## Calls of `async` -/

/-- Behind `async` and arguments that no arrow follows, what follows any call by plain links is
read. -/
theorem asyncCall_of_arguments {depth : Nat} {name : Ident} {args : Tree .arguments} {q r : Parser}
    (h : (argumentList (.ofDepth depth) ctx).run q = .ok args r)
    (harrow : (r.lookahead.isPunctuator "=>" && !r.lookahead.newlineBefore) = false) :
    (asyncCall (.ofDepth depth) ctx start name).run q =
      (finishCall start (.identifier name) false "" args >>=
        iterate (plainLink (.ofDepth depth) ctx start)
          (Productions.ofDepth depth).rounds).run r := by
  obtain ⟨hpending, g, hgroup, rfl⟩ := Guards.argumentList depth ctx q args r h
  have hread : (asyncCall (.ofDepth depth) ctx start name).run q =
      (readGroup (.ofDepth depth) ctx >>= fun g => look >>= fun t => _).run q.settled := rfl
  rw [hread, run_bind, hgroup]
  dsimp only
  have hlook : look.run r.settled = .ok r.lookahead r.settled := rfl
  have hreject : rejectPending.run r.settled = .ok () r.settled := rejectPending_eq_ok.2 ⟨rfl, rfl⟩
  -- What was pending in front of the arguments is pending behind them.
  have hrestore : (setPending q.pending).run r.settled = .ok () r := by
    rw [← hpending]
    rfl
  rw [run_bind, hlook]
  dsimp only
  rw [if_neg (by rw [harrow]; decide), run_bind, hreject]
  dsimp only
  rw [run_bind, hrestore]

/-- In front of an argument list a plain link is a call. -/
theorem call_of_plainLink {base : Expr} {w : Option Expr} {q r : Parser}
    (hopen : q.lookahead.isPunctuator "(" = true)
    (h : (plainLink p ctx start base).run q = .ok w r) :
    ∃ args r₁ e, (argumentList p ctx).run q = .ok args r₁ ∧
      (finishCall start base false "" args).run r₁ = .ok e r ∧ w = some e := by
  have hother : ∀ spelling, "(" ≠ spelling → q.lookahead.isPunctuator spelling = false := by
    intro spelling hne
    simp_all [Token.isPunctuator]
  replace h : (if q.lookahead.isPunctuator "." then (do
        let dotLead ← lead
        some <$> finishAccess start base false dotLead (← accessName ctx))
      else if q.lookahead.isPunctuator "[" then (do
        some <$> finishAccess start base false "" (← accessIndex p ctx))
      else if q.lookahead.isPunctuator "(" then (do
        some <$> finishCall start base false "" (← argumentList p ctx))
      else pure none : Parse (Option Expr)).run q = .ok w r := h
  rw [if_neg (by simp [hother]), if_neg (by simp [hother]), if_pos hopen, run_bind] at h
  split at h
  · rename_i args r₁ hargs
    cases h
    exact ⟨args, r₁, _, hargs, rfl, rfl⟩
  · cases h

/-- A chain ends in front of an arrow. -/
theorem iterate_chainLink_arrow {rounds : Nat} {c c' : Chain} {q r : Parser}
    (harrow : q.lookahead.isPunctuator "=>" = true)
    (h : (iterate (chainLink p ctx start) rounds c).run q = .ok c' r) : r = q := by
  have hother : ∀ spelling, "=>" ≠ spelling → q.lookahead.isPunctuator spelling = false := by
    intro spelling hne
    simp_all [Token.isPunctuator]
  have hhead : q.lookahead.isTemplateHead = false := by
    cases hh : q.lookahead.isTemplateHead
    · rfl
    · have hkind := Token.kind_of_isTemplateHead hh
      simp [Token.isPunctuator, hkind] at harrow
  have hplain : (plainLink p ctx start c.value).run q = .ok none q := by
    change (if q.lookahead.isPunctuator "." then _ else if q.lookahead.isPunctuator "[" then _
      else if q.lookahead.isPunctuator "(" then _ else _ : Parse (Option Expr)).run q = _
    rw [if_neg (by simp [hother]), if_neg (by simp [hother]), if_neg (by simp [hother])]
    rfl
  have hlink : (chainLink p ctx start c).run q = .ok none q := by
    change (if q.lookahead.isPunctuator "?." then _ else if q.lookahead.isTemplateHead
      then _ else _ :
      Parse (Option Chain)).run q = _
    rw [if_neg (by simp [hother]), if_neg (by simp [hhead]), run_bind, hplain]
    rfl
  cases rounds with
  | zero => exact absurd h (fails_stalled _ _ _)
  | succ rounds =>
    unfold iterate at h
    rw [run_bind, hlink] at h
    cases h
    rfl

/-- A plain chain behind the name `async` is read as behind any other name, if no arrow follows:
where the loop for chains, in front of an argument list, reads accesses by a dot or a bracket and
calls, so does the production for `async`, and both end in the same state with the same tree. -/
theorem asyncCall_of_chain {depth : Nat} {name : Ident} {c : Chain} {q r : Parser}
    (hopen : q.lookahead.isPunctuator "(" = true)
    (h : (iterate (chainLink (.ofDepth depth) ctx start) (Productions.ofDepth depth).rounds
      { value := .identifier name }).run q = .ok c r)
    (hplain : c.value.isPlainChain = true)
    (harrow : (r.lookahead.isPunctuator "=>" && !r.lookahead.newlineBefore) = false) :
    (asyncCall (.ofDepth depth) ctx start name).run q = .ok c.value r := by
  cases hrounds : (Productions.ofDepth depth).rounds with
  | zero =>
    rw [hrounds] at h
    exact absurd h (fails_stalled _ _ _)
  | succ rounds =>
    rw [hrounds] at h
    unfold iterate at h
    rw [run_bind] at h
    split at h
    · rename_i w r₂ hlink
      rcases chainLink_cases hlink with ⟨c₁, hmem, hno⟩ | hlink
      · cases hmem
        exact absurd (isPlainChain_of_iterate h hplain) (by simp [hno])
      obtain ⟨args, r₁, e, hargs, hcall, hw⟩ := call_of_plainLink hopen hlink
      obtain ⟨c₁, rfl, rfl⟩ := Option.map_eq_some_iff.1 hw
      -- Closing the call takes nothing.
      have hlookahead : r₂.lookahead = r₁.lookahead := by
        rw [← (EStateM.Result.ok.inj (show EStateM.Result.ok _ _ = _ from hcall)).2]
      have hnoArrow : (r₁.lookahead.isPunctuator "=>" && !r₁.lookahead.newlineBefore) = false := by
        cases hseen : r₁.lookahead.isPunctuator "=>" with
        | false => rfl
        | true =>
          rw [← hlookahead] at hseen ⊢
          rw [iterate_chainLink_arrow hseen h, hseen] at harrow
          exact harrow
      rw [asyncCall_of_arguments hargs hnoArrow, run_bind, hcall, hrounds]
      exact iterate_plainLink (Nat.le_succ _) h hplain
    · cases h

/-- Behind `async` and a parenthesis, parameters of an arrow function are read or a plain chain. -/
theorem asyncCall_returns {name : Ident} :
    (asyncCall p ctx start name).Returns fun e => e.isCover = true ∨ e.isPlainChain = true := by
  refine .bind fun _ => .bind fun _ => .bind fun g => .bind fun t => .ite (fun _ => ?_) fun _ => ?_
  · exact .bind fun _ => .bind fun _ => .inl rfl
  refine .bind fun _ => .bind fun _ => returns_bind.2
    (finishCall_returns.imp fun value hvalue => ?_)
  refine Returns.iterate (R := (Tree.isPlainChain · = true))
    (fun e he => plainLink_returns.imp fun w hw => ?_) _ hvalue
  cases w with
  | none => exact .inr he
  | some e' => exact (hw e' rfl).trans he

end Grammar

/-- An optional link behind a call of `async` is a fault, and so is a template; behind a call of any
other function they are not. -/
theorem parse_async_optional :
    (match parse {} "async()?.a" with
      | .ok _ => none
      | .error e => some e) = some ⟨.grammar, .unexpectedToken "?.", ⟨7, 1, 8⟩, none⟩ ∧
    (parse {} "f()?.a").toOption.isSome = true ∧
    (parse {} "async()`b`").toOption.isSome = false ∧
    (parse {} "f()`b`").toOption.isSome = true := by
  decide +kernel

end Verbatim
