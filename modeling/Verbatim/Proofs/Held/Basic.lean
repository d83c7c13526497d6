import Verbatim.Grammar.Language

/-!
# A parser that holds the context

The productions take what surrounds a construct as an argument. A parser may as well hold it: then
each production reads the context that is held, changes the fields that are different inside, and
has to put them back. The grammar is written down once more in this way, with every change and every
restoration at its place, and each production is shown to do what the one with an argument does and
to leave the context as it was.

## Main definitions

* `Verbatim.Surroundings` — what is held.
* `Verbatim.Held` — actions that hold it.
* `Verbatim.Held.within`, `Verbatim.Held.allowingIn` — actions in another context.
* `Verbatim.Held.Does`, `Verbatim.Held.Follows` — what an action with a context that is held does,
  in terms of one that gets it as an argument.
* `Verbatim.Held.Productions` — the productions that others call.

## Main results

* `Verbatim.Held.Does.bind`, `Verbatim.Held.Does.change` — one action after the other, and a change
  of the context between them.
* `Verbatim.Held.Follows.within` — a context that is put back.

## Implementation notes

Some productions change a field and put it back, one replaces the whole context, one puts a label on
a stack and takes it off, and one changes whether code is strict for good. `Does` is about all of
them, since it says which context is left; `Follows` is the case in which it is the one before.
-/

namespace Verbatim

/-! ## Single fields -/

namespace Context

variable (ctx : Context)

/-- The context with the given strictness. -/
def withStrict (strict : Bool) : Context := { ctx with strict }

/-- The context in which `in` is an operator or is none, as given. -/
def withIn (allowsIn : Bool) : Context := { ctx with allowsIn }

/-- The context in which `yield` and `await` are operators or are none, as given. -/
def withOperators (allowsYield allowsAwait : Bool) : Context :=
    { ctx with allowsYield, allowsAwait }

/-- The context inside a loop or outside, as given. -/
def withLoop (inLoop : Bool) : Context := { ctx with inLoop }

/-- The context inside a switch or outside, as given. -/
def withSwitch (inSwitch : Bool) : Context := { ctx with inSwitch }

/-- The context inside a parameter list or outside, as given. -/
def withParameters (inParameters : Bool) : Context := { ctx with inParameters }

/-- The context with one more label. -/
def pushLabel (label : String) : Context := { ctx with labels := label :: ctx.labels }

/-- The context without its innermost label. -/
def popLabel : Context := { ctx with labels := ctx.labels.tail }

end Context

/-! ## What is held -/

/-- What a parser holds besides the tokens. -/
structure Surroundings where
  /-- The context of the construct that is read. -/
  context : Context
  /-- How many elements and fragments are open. -/
  markupDepth : Nat := 0

/-- What is held, with the code strict or not, as given. -/
def Surroundings.withStrict (s : Surroundings) (strict : Bool) : Surroundings :=
  { s with context := s.context.withStrict strict }

/-- Actions of a parser that holds the context. -/
abbrev Held := StateT Surroundings Parse

namespace Held

open Verbatim.Parse

variable {α β γ δ : Type}

/-! ## The context -/

/-- The context that is held. -/
def context : Held Context := return (← get).context

/-- Changes the context that is held. -/
def change (f : Context → Context) : Held Unit :=
  modify fun s => { s with context := f s.context }

/-- An action that only reads the context. -/
def reading (action : Context → Parse α) : Held α := do action (← context)

/-- An action in a context of its own, behind which the old one is put back as a whole. -/
def within (inner : Context → Context) (action : Held α) : Held α := do
  let saved ← context
  change fun _ => inner saved
  let value ← action
  change fun _ => saved
  return value

/-- An action in which `in` is an operator or is none, as given. -/
def allowingIn (allowsIn : Bool) (action : Held α) : Held α := do
  let saved ← context
  change (·.withIn allowsIn)
  let value ← action
  change (·.withIn saved.allowsIn)
  return value

/-- An action between the angle brackets of one more element or fragment. -/
def deeper (action : Held α) : Held α := do
  modify fun s => { s with markupDepth := s.markupDepth + 1 }
  let value ← action
  modify fun s => { s with markupDepth := s.markupDepth - 1 }
  return value

/-! ## Steps that read the context -/

/-- Fails at a token that may not stand where it does. -/
def unexpected (t : Token) : Held α := reading (Parse.unexpected · t)

/-- Fails at the lookahead. -/
def unexpectedHere : Held α := reading Parse.unexpectedHere

/-- Takes the given punctuator and keeps its trivia. -/
def expect (spelling : String) : Held String := reading (Parse.expect · spelling)

/-- Takes the given reserved word and keeps its trivia. -/
def expectKeyword (word : String) : Held String := reading (Parse.expectKeyword · word)

/-- Takes the given name and keeps its trivia. -/
def expectWord (word : String) : Held String := reading (Parse.expectWord · word)

/-- Takes a comma; its trivia and itself are kept. -/
def separator : Held String := reading Parse.separator

/-- The end of a statement. -/
def terminator : Held Terminator := reading Parse.terminator

/-! ## Loops -/

/-- Reads items until the lookahead is such that the list ends. -/
def many (ends : Token → Bool) (item : Held α) : Nat → Held (List α)
  | 0 => stalled
  | rounds + 1 => do
    if ends (← look) then return []
    let head ← item
    let tail ← many ends item rounds
    return head :: tail

/-- Reads a list with commas up to the given closing punctuator: the items and the commas. -/
def listed (close : String) (round : Held (Round α)) : Nat → Held (List α × List String)
  | 0 => stalled
  | rounds + 1 => do
    if ← sees close then return ([], [])
    match ← round with
    | .item value =>
      if ← sees close then return ([value], [])
      let comma ← separator
      let (values, commas) ← listed close round rounds
      return (value :: values, comma :: commas)
    | .hole value comma =>
      let (values, commas) ← listed close round rounds
      return (value :: values, comma :: commas)
    | .last value => return ([value], [])

/-- Reads further items as long as commas follow: the items and the commas. -/
def afterCommas (item : Held α) : Nat → Held (List α × List String)
  | 0 => stalled
  | rounds + 1 => do
    if !(← sees ",") then return ([], [])
    let comma ← separator
    let value ← item
    let (values, commas) ← afterCommas item rounds
    return (value :: values, comma :: commas)

/-- Repeats a step on a value as long as it gives a new value. -/
def iterate (step : α → Held (Option α)) : Nat → α → Held α
  | 0, _ => stalled
  | rounds + 1, value => do
    match ← step value with
    | some value => iterate step rounds value
    | none => return value

/-! ## What an action does -/

/-- In the given context, an action does what another one does that gets the context as an argument:
`post` holds of the value of that one, and of the value of the action and the context that it
leaves. The number of open elements is left as it was. -/
def Does (action : Held α) (ctx : Context) (b : Parse β) (post : β → α → Context → Prop) : Prop :=
  ∀ depth q, match b.run q with
    | .ok v r => ∃ v' ctx', (action ⟨ctx, depth⟩).run q = .ok (v', ⟨ctx', depth⟩) r ∧ post v v' ctx'
    | .error e r => (action ⟨ctx, depth⟩).run q = .error e r

/-- In the given context, an action does what another one does, and leaves the context as it was. -/
def Follows (action : Held α) (ctx : Context) (b : Parse α) : Prop :=
  Does action ctx b fun v v' ctx' => v' = v ∧ ctx' = ctx

variable {ctx : Context}

namespace Does

variable {action : Held α} {b : Parse β} {post : β → α → Context → Prop}

/-- One action after the other. -/
theorem bind {f : α → Held γ} {g : β → Parse δ} {last : δ → γ → Context → Prop}
    (h : Does action ctx b post)
    (hf : ∀ v v' ctx', post v v' ctx' → Does (f v') ctx' (g v) last) :
    Does (action >>= f) ctx (b >>= g) last := by
  intro depth q
  have ha := h depth q
  have hrun : ((action >>= f) ⟨ctx, depth⟩).run q =
      (action ⟨ctx, depth⟩ >>= fun p => f p.1 p.2).run q := rfl
  rw [hrun, run_bind, run_bind]
  cases hb : b.run q with
  | ok v r =>
    rw [hb] at ha
    obtain ⟨v', ctx', ha, hpost⟩ := ha
    rw [ha]
    exact hf v v' ctx' hpost depth r
  | error e r =>
    rw [hb] at ha
    rw [ha]

theorem imp {post' : β → α → Context → Prop} (h : Does action ctx b post)
    (hp : ∀ v v' ctx', post v v' ctx' → post' v v' ctx') : Does action ctx b post' := by
  intro depth q
  have ha := h depth q
  cases hb : b.run q with
  | ok v r =>
    rw [hb] at ha
    obtain ⟨v', ctx', ha, hpost⟩ := ha
    exact ⟨v', ctx', ha, hp _ _ _ hpost⟩
  | error e r =>
    rw [hb] at ha
    exact ha

theorem pure {value : α} {v : β} (h : post v value ctx) :
    Does (Pure.pure value) ctx (Pure.pure v) post := fun _ _ => ⟨value, ctx, rfl, h⟩

/-- An action that begins by reading the context. -/
theorem read {f : Context → Held α} (h : Does (f ctx) ctx b post) :
    Does (context >>= f) ctx b post := h

/-- An action that begins with a change of the context. -/
theorem change {f : Context → Context} {rest : Unit → Held α}
    (h : Does (rest ()) (f ctx) b post) : Does (Held.change f >>= rest) ctx b post := h

/-- An action that ends with a change of the context. -/
theorem restoring {f : Context → Context}
    (h : Does action ctx b fun v v' ctx' => post v v' (f ctx')) :
    Does (do let value ← action; Held.change f; return value) ctx b post := by
  intro depth q
  have ha := h depth q
  have hrun : ((do let value ← action; Held.change f; return value : Held α) ⟨ctx, depth⟩).run q =
      (action ⟨ctx, depth⟩ >>= fun p => (Held.change f >>= fun _ => Pure.pure p.1) p.2).run q := rfl
  rw [hrun, run_bind]
  cases hb : b.run q with
  | ok v r =>
    rw [hb] at ha
    obtain ⟨v', ctx', ha, hpost⟩ := ha
    rw [ha]
    exact ⟨v', f ctx', rfl, hpost⟩
  | error e r =>
    rw [hb] at ha
    rw [ha]

theorem branch {c : Prop} [Decidable c] {f f' : Held α} {b b' : Parse β}
    (h : c → Does f ctx b post) (h' : ¬ c → Does f' ctx b' post) :
    Does (if c then f else f') ctx (if c then b else b') post := by
  split
  · exact h ‹_›
  · exact h' ‹_›

end Does

namespace Follows

variable {action : Held α} {b : Parse α}

/-- What does not touch the context. -/
theorem lift : Follows (liftM b) ctx b := by
  intro depth q
  have hrun : ((liftM b : Held α) ⟨ctx, depth⟩).run q =
      (b >>= fun v => Pure.pure (v, Surroundings.mk ctx depth)).run q := rfl
  rw [hrun, run_bind]
  cases b.run q with
  | ok v r => exact ⟨v, ctx, rfl, rfl, rfl⟩
  | error e r => rfl

/-- What only reads the context. -/
theorem reading {f : Context → Parse α} : Follows (reading f) ctx (f ctx) := Does.read lift

theorem pure {value : α} : Follows (Pure.pure value) ctx (Pure.pure value) := Does.pure ⟨rfl, rfl⟩

/-- An action that leaves the context as it was, and another one after it. -/
theorem thenDoes {f : α → Held γ} {g : α → Parse δ} {post : δ → γ → Context → Prop}
    (h : Follows action ctx b) (hf : ∀ v, Does (f v) ctx (g v) post) :
    Does (action >>= f) ctx (b >>= g) post := by
  refine Does.bind h ?_
  rintro v _ _ ⟨rfl, rfl⟩
  exact hf _

/-- One action after the other. -/
theorem bind {f : α → Held β} {g : α → Parse β} (h : Follows action ctx b)
    (hf : ∀ v, Follows (f v) ctx (g v)) : Follows (action >>= f) ctx (b >>= g) := thenDoes h hf

theorem map {f : α → β} (h : Follows action ctx b) : Follows (f <$> action) ctx (f <$> b) :=
  bind h fun _ => pure

theorem read {f : Context → Held α} (h : Follows (f ctx) ctx b) : Follows (context >>= f) ctx b := h

theorem branch {c : Prop} [Decidable c] {f f' : Held α} {b b' : Parse α} (h : Follows f ctx b)
    (h' : Follows f' ctx b') : Follows (if c then f else f') ctx (if c then b else b') :=
  Does.branch (fun _ => h) fun _ => h'

/-- One of two actions, and another one after it. -/
theorem choice {c : Prop} [Decidable c] {a a' : Held α} {b b' : Parse α} {f : α → Held β}
    {g : α → Parse β} (hf : ∀ v, Follows (f v) ctx (g v)) (h : Follows a ctx b)
    (h' : Follows a' ctx b') :
    Follows (if c then a >>= f else a' >>= f) ctx (if c then b >>= g else b' >>= g) :=
  branch (bind h hf) (bind h' hf)

/-- An action that may be left out, and another one after it. -/
theorem check {c : Prop} [Decidable c] {a : Held Unit} {b : Parse Unit} {f : Unit → Held β}
    {g : Unit → Parse β} (hf : Follows (f ()) ctx (g ())) (h : Follows a ctx b) :
    Follows (if c then a >>= f else f ()) ctx (if c then b >>= g else g ()) :=
  branch (bind h fun _ => hf) hf

/-! ## Contexts that are put back -/

/-- The old context is put back, whatever the action leaves. -/
theorem within {inner : Context → Context} (h : Does action (inner ctx) b fun v v' _ => v' = v) :
    Follows (within inner action) ctx b :=
  Does.read (.change (.restoring (h.imp fun _ _ _ hv => ⟨hv, rfl⟩)))

/-- A single field that was changed is put back. -/
theorem restoring {inner : Context} {f : Context → Context} (h : Follows action inner b)
    (hf : f inner = ctx) :
    Does (do let value ← action; Held.change f; return value) inner b fun v v' ctx' =>
      v' = v ∧ ctx' = ctx :=
  Does.restoring (Does.imp h fun _ _ _ hv => ⟨hv.1, hv.2 ▸ hf⟩)

theorem inside (h : Follows action ctx.inside b) : Follows (allowingIn true action) ctx b :=
  Does.read (.change (h.restoring rfl))

theorem loopHead (h : Follows action ctx.loopHead b) : Follows (allowingIn false action) ctx b :=
  Does.read (.change (h.restoring rfl))

/-- What is read one element deeper leaves the context as it was, too. -/
theorem deeper (h : Follows action ctx b) : Follows (deeper action) ctx b := by
  intro depth q
  have ha := h (depth + 1) q
  let down (s : Surroundings) : Surroundings := { s with markupDepth := s.markupDepth - 1 }
  have hrun : ((Held.deeper action) ⟨ctx, depth⟩).run q = (action ⟨ctx, depth + 1⟩ >>= fun p =>
      ((modify down : Held Unit) >>= fun _ => Pure.pure p.1) p.2).run q := rfl
  rw [hrun, run_bind]
  cases hb : b.run q with
  | ok v r =>
    rw [hb] at ha
    obtain ⟨v', ctx', ha, hv, hctx⟩ := ha
    rw [ha]
    exact ⟨v', ctx', rfl, hv, hctx⟩
  | error e r =>
    rw [hb] at ha
    rw [ha]

/-! ## Loops -/

theorem many {ends : Token → Bool} {rounds rounds' : Nat} (h : Follows action ctx b)
    (hr : rounds = rounds') :
    Follows (many ends action rounds) ctx (Parse.many ends b rounds') := by
  subst hr
  induction rounds with
  | zero => exact lift
  | succ rounds ih =>
    exact bind lift fun _ => branch pure (bind h fun _ => bind ih fun _ => pure)

/-- Of the context, a comma needs to know only whether the code is strict. -/
theorem separator {ctx' : Context} (hs : ctx'.strict = ctx.strict) :
    Follows separator ctx (Parse.separator ctx') := by
  have h : Parse.separator ctx' = Parse.separator ctx := by
    unfold Parse.separator Parse.expect Parse.unexpectedHere Parse.unexpected
    rw [hs]
  rw [h]
  exact reading

/-- A list follows the faithful one if its rounds do. -/
theorem listed {close : String} {round : Held (Round α)} {round' : Parse (Round α)} {ctx' : Context}
    {rounds rounds' : Nat} (h : Follows round ctx round') (hr : rounds = rounds')
    (hs : ctx'.strict = ctx.strict) :
    Follows (listed close round rounds) ctx (Parse.listed ctx' close round' rounds') := by
  subst hr
  induction rounds with
  | zero => exact lift
  | succ rounds ih =>
    refine bind lift fun _ => branch pure (bind h fun v => ?_)
    cases v with
    | item =>
      exact bind lift fun _ => branch pure (bind (separator hs) fun _ => bind ih fun _ => pure)
    | hole => exact bind ih fun _ => pure
    | last => exact pure

theorem afterCommas {rounds rounds' : Nat} (h : Follows action ctx b) (hr : rounds = rounds') :
    Follows (afterCommas action rounds) ctx (Parse.afterCommas ctx b rounds') := by
  subst hr
  induction rounds with
  | zero => exact lift
  | succ rounds ih =>
    exact bind lift fun _ => branch pure
      (bind reading fun _ => bind h fun _ => bind ih fun _ => pure)

theorem iterate {step : α → Held (Option α)} {step' : α → Parse (Option α)} {rounds rounds' : Nat}
    {v : α} (h : ∀ v, Follows (step v) ctx (step' v)) (hr : rounds = rounds') :
    Follows (iterate step rounds v) ctx (Parse.iterate step' rounds' v) := by
  subst hr
  induction rounds generalizing v with
  | zero => exact lift
  | succ rounds ih =>
    refine bind (h v) fun w => ?_
    cases w with
    | none => exact pure
    | some w => exact ih

end Follows

/-! ## Productions -/

/-- The productions that others call, of a parser that holds the context. -/
structure Productions where
  /-- The bound on the rounds of each loop. -/
  rounds : Nat
  /-- Expressions, with commas. -/
  expression : Held Expr
  /-- Expressions without commas. -/
  assignment : Held Expr
  /-- Expressions without commas that may yet turn out to be patterns. -/
  cover : Held Expr
  /-- Operands of binary operators, with all operators of at least the given precedence. -/
  binary : Nat → Held Expr
  /-- Operands of multiplication. -/
  exponentiation : Held Expr
  /-- Operands of unary operators. -/
  unary : Held Expr
  /-- Operands without operators, with calls. -/
  chain : Held Expr
  /-- Operands without operators and calls. -/
  callee : Held Expr
  /-- Targets of bindings. -/
  binding : Fault → Held Pattern
  /-- Statements. -/
  statement : Held Stmt
  /-- Statements and declarations. -/
  item : Held Stmt
  /-- Markup behind its first angle bracket. -/
  markup : Position → String → Mode → Held Markup

/-- The productions that are never reached. -/
def Productions.exhausted : Productions where
  rounds := 0
  expression := stalled
  assignment := stalled
  cover := stalled
  binary _ := stalled
  exponentiation := stalled
  unary := stalled
  chain := stalled
  callee := stalled
  binding _ := stalled
  statement := stalled
  item := stalled
  markup _ _ _ := stalled

/-- Productions that do what those with an argument do, and leave the context as it was. -/
structure Productions.Follow (p : Productions) (p' : Verbatim.Productions) : Prop where
  /-- The bounds of the loops are the same. -/
  rounds : p.rounds = p'.rounds
  expression (ctx : Context) : Follows p.expression ctx (p'.expression ctx)
  assignment (ctx : Context) : Follows p.assignment ctx (p'.assignment ctx)
  cover (ctx : Context) : Follows p.cover ctx (p'.cover ctx)
  binary (least : Nat) (ctx : Context) : Follows (p.binary least) ctx (p'.binary least ctx)
  exponentiation (ctx : Context) : Follows p.exponentiation ctx (p'.exponentiation ctx)
  unary (ctx : Context) : Follows p.unary ctx (p'.unary ctx)
  chain (ctx : Context) : Follows p.chain ctx (p'.chain ctx)
  callee (ctx : Context) : Follows p.callee ctx (p'.callee ctx)
  binding (restricted : Fault) (ctx : Context) :
    Follows (p.binding restricted) ctx (p'.binding restricted ctx)
  statement (ctx : Context) : Follows p.statement ctx (p'.statement ctx)
  item (ctx : Context) : Follows p.item ctx (p'.item ctx)
  markup (start : Position) (lead : String) (after : Mode) (ctx : Context) :
    Follows (p.markup start lead after) ctx (p'.markup start lead after ctx)

end Held

end Verbatim
