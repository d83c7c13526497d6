import Verbatim.Proofs.Course.Basic
import Verbatim.Proofs.Tracks

/-!
# Code leaves the mode as it is

One token of lookahead has been scanned already when the parser gets to a new region of a source,
so the mode is changed one token early. Statements and expressions leave the mode in which they are
read, and markup leaves the one that its caller asks for, with the token behind it scanned in that
mode.

The rules are instances of a class, so that most productions follow from their definitions.

## Main definitions

* `Verbatim.Parser.ScannedIn`, `Verbatim.Parser.In` — the mode in which the lookahead was scanned.
* `Verbatim.Parse.Steady` — actions that leave the mode as it is.
* `Verbatim.Parse.Leaves` — actions that leave a mode, whatever they start in.

## Main results

* `Verbatim.Productions.Steady.ofDepth` — productions leave code in code.
* `Verbatim.Grammar.markup_leaves` — markup leaves the mode that its caller asks for.
-/

namespace Verbatim

/-! ## The mode of the lookahead -/

namespace Parser

/-- The lookahead was scanned in the given mode, perhaps as a regular expression. -/
def ScannedIn (mode : Mode) (q : Parser) : Prop :=
  ∃ s s' : Scanner, s.mode = mode ∧ s.cursor = q.before.cursor ∧ s.braces = q.before.braces ∧
    (Scan.next s = .ok q.lookahead s' ∨ Scan.nextRegex s = .ok q.lookahead s')

/-- The parser is in the given mode, and has scanned its lookahead in it. -/
structure In (m : Mode) (q : Parser) : Prop where
  /-- The mode that holds behind the lookahead. -/
  mode : q.scanner.mode = m
  /-- The mode of the lookahead. -/
  scanned : q.ScannedIn m

variable {q r : Parser}

/-- Another lookahead is scanned in the mode that holds. -/
theorem in_of_next {t : Token} (h : next q = .ok t r) : r.In q.scanner.mode ∧ t = q.lookahead := by
  rcases next_cases q with ⟨u, sc, hs, hr⟩ | ⟨e, r', hr, -⟩
  · obtain ⟨rfl, rfl⟩ := EStateM.Result.ok.inj (hr.symm.trans h)
    exact ⟨⟨Scan.next_mode hs, _, _, rfl, rfl, rfl, .inl hs⟩, rfl⟩
  · cases hr.symm.trans h

/-- What is scanned again is scanned in the mode that holds. -/
theorem in_of_rescan (h : rescanWith Scan.next q = .ok () r) : r.In q.scanner.mode := by
  rcases rescanWith_cases Scan.next q with ⟨u, sc, hs, hr⟩ | ⟨e, r', hr, -⟩
  · obtain ⟨-, rfl⟩ := EStateM.Result.ok.inj (hr.symm.trans h)
    have hm := Scan.next_mode hs
    exact ⟨hm, q.scanner.restore q.before, _, rfl, rfl, rfl, .inl hs⟩
  · cases hr.symm.trans h

theorem in_of_rescanRegex (h : rescanWith Scan.nextRegex q = .ok () r) : r.In q.scanner.mode := by
  rcases rescanWith_cases Scan.nextRegex q with ⟨u, sc, hs, hr⟩ | ⟨e, r', hr, -⟩
  · obtain ⟨-, rfl⟩ := EStateM.Result.ok.inj (hr.symm.trans h)
    have hm := Scan.nextRegex_mode hs
    exact ⟨hm, q.scanner.restore q.before, _, rfl, rfl, rfl, .inr hs⟩
  · cases hr.symm.trans h

/-- Looking one token further changes nothing that counts. -/
theorem in_of_peek {t : Token} (h : peek q = .ok t r) :
    r.scanner.mode = q.scanner.mode ∧ ∀ m, q.In m → r.In m := by
  rcases peek_cases q with ⟨u, sc, hs, hr⟩ | ⟨e, r', hr, -⟩
  · obtain ⟨-, rfl⟩ := EStateM.Result.ok.inj (hr.symm.trans h)
    have hm := Scan.next_mode hs
    exact ⟨hm, fun _ hq => ⟨hm.trans hq.mode, hq.scanned⟩⟩
  · cases hr.symm.trans h

end Parser

namespace Parse

variable {α β : Type} {action : Parse α} {f : α → Parse β} {ctx : Context} {m : Mode}

/-! ## Actions that leave the mode as it is -/

/-- Where a parser is in the given mode, the action leaves it there. If the lookahead was scanned in
the mode, then so was the one that is left. -/
class Steady (action : Parse α) (m : Mode) : Prop where
  /-- The mode is left. -/
  mode {q v r} : action.run q = .ok v r → q.scanner.mode = m → r.scanner.mode = m
  /-- The lookahead that is left was scanned in it. -/
  isIn {q v r} : action.run q = .ok v r → q.In m → r.In m

/-- Behind the action, the given mode holds, and the lookahead was scanned in it. -/
def Leaves (action : Parse α) (m : Mode) : Prop :=
  ∀ q v r, action.run q = .ok v r → r.In m

/-- The two parts of a run of a sequence. -/
theorem exists_of_run_bind {q r : Parser} {v : β} (h : (action >>= f).run q = .ok v r) :
    ∃ u q', action.run q = .ok u q' ∧ (f u).run q' = .ok v r := by
  rw [run_bind] at h
  split at h
  · exact ⟨_, _, ‹_›, h⟩
  · cases h

namespace Leaves

theorem behind (h : ∀ v, (f v).Leaves m) : (action >>= f).Leaves m := by
  intro q v r hrun
  obtain ⟨u, q', -, hf⟩ := exists_of_run_bind hrun
  exact h u _ _ _ hf

theorem before (h : action.Leaves m) (hf : ∀ v, (f v).Steady m) : (action >>= f).Leaves m := by
  intro q v r hrun
  obtain ⟨u, q', ha, hf'⟩ := exists_of_run_bind hrun
  exact (hf u).isIn hf' (h _ _ _ ha)

theorem failing (h : action.Fails) : action.Leaves m := fun _ _ _ hrun => absurd hrun (h _ _ _)

theorem branch {c : Prop} [Decidable c] {yes no : Parse α} (h : yes.Leaves m)
    (h' : no.Leaves m) : (if c then yes else no).Leaves m := by
  split
  · exact h
  · exact h'

theorem expectThen {spelling : String} : (Grammar.expectThen ctx spelling m).Leaves m := by
  intro q v r hrun
  change (Parse.expect ctx spelling).run { q with scanner := { q.scanner with mode := m } } = _
    at hrun
  obtain ⟨seen, q', hsees, hrun⟩ := exists_of_run_bind hrun
  cases hsees
  split at hrun
  · obtain ⟨t, q', hnext, hpure⟩ := exists_of_run_bind hrun
    cases hpure
    exact (Parser.in_of_next hnext).1
  · exact absurd hrun (fails_unexpectedHere _ _ _ _)

end Leaves

namespace Steady

theorem of_same (h : ∀ {q v r}, action.run q = .ok v r →
    r.scanner.mode = q.scanner.mode ∧ r.before = q.before ∧ r.lookahead = q.lookahead) :
    action.Steady m where
  mode hrun hq := (h hrun).1.trans hq
  isIn {q _ r} hrun hq := by
    obtain ⟨hm, hb, ht⟩ := h hrun
    obtain ⟨s, s', hmode, hc, hbraces, hscan⟩ := hq.scanned
    exact ⟨hm.trans hq.mode, s, s', hmode, hb ▸ hc, hb ▸ hbraces, ht ▸ hscan⟩

theorem of_fails (h : action.Fails) : action.Steady m :=
  ⟨fun hrun => absurd hrun (h _ _ _), fun hrun => absurd hrun (h _ _ _)⟩

theorem of_leaves (h : action.Leaves m) : action.Steady m :=
  ⟨fun hrun _ => (h _ _ _ hrun).mode, fun hrun _ => h _ _ _ hrun⟩

end Steady

section

variable {c : Prop} [Decidable c] {yes no : Parse α} {g : α → β} {value : α} {t : Token}
  {spelling : String} {kind : NodeKind} {start stop : Position} {span : Span} {fault : Fault}
  {site : Site} {stage : Stage} {pending? : Option Site} {rounds : Nat}

instance [action.Steady m] [∀ v, (f v).Steady m] : (action >>= f).Steady m where
  mode hrun hq := by
    obtain ⟨u, q', ha, hf⟩ := exists_of_run_bind hrun
    exact Steady.mode hf (Steady.mode ha hq)
  isIn hrun hq := by
    obtain ⟨u, q', ha, hf⟩ := exists_of_run_bind hrun
    exact Steady.isIn hf (Steady.isIn ha hq)

theorem Steady.behind [action.Steady m] (h : ∀ v, (f v).Steady m) : (action >>= f).Steady m :=
  inferInstance

theorem Steady.branch (h : yes.Steady m) (h' : no.Steady m) : (if c then yes else no).Steady m := by
  split
  · exact h
  · exact h'

instance : (pure value : Parse α).Steady m := .of_same fun hrun => by cases hrun; simp

instance [action.Steady m] : (g <$> action).Steady m :=
  inferInstanceAs ((action >>= fun v => pure (g v)).Steady m)

instance [yes.Steady m] [no.Steady m] : (if c then yes else no).Steady m := by
  split <;> infer_instance

/-! ### Single steps -/

instance : look.Steady m := .of_same fun hrun => by cases hrun; simp
instance : lastEnd.Steady m := .of_same fun hrun => by cases hrun; simp
instance : (spanBetween start stop).Steady m := .of_same fun hrun => by cases hrun; simp
instance : pending.Steady m := .of_same fun hrun => by cases hrun; simp
instance : (setPending pending?).Steady m := .of_same fun hrun => by cases hrun; simp
instance : (report kind span).Steady m := .of_same fun hrun => by cases hrun; simp

instance {finder : Finder} : (Parse.ask (.tolerate finder fault site)).Steady m :=
  .of_same fun {q v r} hrun => by
    change Parser.tolerate _ _ q = _ at hrun
    unfold Parser.tolerate at hrun
    split at hrun <;> cases hrun
    simp

instance : next.Steady m where
  mode hrun hq := (Parser.in_of_next hrun).1.mode.trans hq
  isIn hrun hq := hq.mode ▸ (Parser.in_of_next hrun).1

instance : peek.Steady m where
  mode hrun hq := (Parser.in_of_peek hrun).1.trans hq
  isIn hrun hq := (Parser.in_of_peek hrun).2 _ hq

instance : rescanRegex.Steady m where
  mode hrun hq := (Parser.in_of_rescanRegex hrun).mode.trans hq
  isIn hrun hq := hq.mode ▸ Parser.in_of_rescanRegex hrun

instance : (fail stage fault site : Parse α).Steady m := .of_fails (fails_fail _ _ _)
instance : (stalled : Parse α).Steady m := .of_fails fails_stalled
instance : (unexpected ctx t : Parse α).Steady m := .of_fails (fails_unexpected _ _)
instance : (unexpectedHere ctx : Parse α).Steady m := .of_fails (fails_unexpectedHere _)
instance : (reject fault site : Parse α).Steady m := .of_fails (fails_reject _ _)

instance : (tolerate fault site).Steady m := by unfold tolerate; infer_instance
instance : (sees spelling).Steady m := by unfold sees; infer_instance
instance : (seesKeyword spelling).Steady m := by unfold seesKeyword; infer_instance
instance : (seesWord spelling).Steady m := by unfold seesWord; infer_instance
instance : here.Steady m := by unfold here; infer_instance
instance : lead.Steady m := by unfold lead; infer_instance
instance : (expect ctx spelling).Steady m := by unfold expect; infer_instance
instance : (expectKeyword ctx spelling).Steady m := by unfold expectKeyword; infer_instance
instance : (expectWord ctx spelling).Steady m := by unfold expectWord; infer_instance
instance : (separator ctx).Steady m := by unfold separator; infer_instance
instance : (accept spelling).Steady m := by unfold accept; infer_instance
instance : (terminator ctx).Steady m := by unfold terminator; infer_instance
instance : (finishAt kind start stop).Steady m := by unfold finishAt; infer_instance
instance : (finish kind start).Steady m := by unfold finish; infer_instance
instance : (extent start).Steady m := by unfold extent; infer_instance
instance : (finishName t).Steady m := by unfold finishName; infer_instance
instance : (finishPrivateName t).Steady m := by unfold finishPrivateName; infer_instance
instance : anyName.Steady m := by unfold anyName; infer_instance

/-! ### Loops and conversions -/

instance {ends : Token → Bool} [action.Steady m] : (many ends action rounds).Steady m := by
  induction rounds <;> unfold many <;> infer_instance

instance {round : Parse (Round α)} [round.Steady m] :
    (listed ctx spelling round rounds).Steady m := by
  induction rounds with
  | zero => exact .of_fails fails_stalled
  | succ rounds ih =>
    unfold listed
    refine .behind fun _ => .branch inferInstance (.behind fun r => ?_)
    cases r <;> infer_instance

instance [action.Steady m] : (afterCommas ctx action rounds).Steady m := by
  induction rounds <;> unfold afterCommas <;> infer_instance

instance {step : α → Parse (Option α)} [∀ v, (step v).Steady m] :
    (iterate step rounds value).Steady m := by
  induction rounds generalizing value with
  | zero => exact .of_fails fails_stalled
  | succ rounds ih =>
    unfold iterate
    refine .behind fun o => ?_
    cases o <;> infer_instance

instance {finder : Finder} {faults : List Fault} : (tolerateAll finder site faults).Steady m := by
  induction faults <;> unfold tolerateAll <;> infer_instance

instance {finder : Finder} {conversion : Conversion α} :
    (convertAs finder site conversion).Steady m := by
  unfold convertAs
  split
  · infer_instance
  · exact .behind fun _ => .of_fails fun _ _ _ h => nomatch h

instance {conversion : Conversion α} : (convert site conversion).Steady m := by
  unfold convert; infer_instance

end

end Parse

/-! ## Productions of code -/

/-- Productions that leave code in code, and markup that leaves the mode that is asked for. -/
class Productions.Steady (p : Productions) : Prop where
  expression (ctx : Context) : (p.expression ctx).Steady .normal
  assignment (ctx : Context) : (p.assignment ctx).Steady .normal
  cover (ctx : Context) : (p.cover ctx).Steady .normal
  binary (least : Nat) (ctx : Context) : (p.binary least ctx).Steady .normal
  exponentiation (ctx : Context) : (p.exponentiation ctx).Steady .normal
  unary (ctx : Context) : (p.unary ctx).Steady .normal
  chain (ctx : Context) : (p.chain ctx).Steady .normal
  callee (ctx : Context) : (p.callee ctx).Steady .normal
  binding (restricted : Fault) (ctx : Context) : (p.binding restricted ctx).Steady .normal
  statement (ctx : Context) : (p.statement ctx).Steady .normal
  item (ctx : Context) : (p.item ctx).Steady .normal
  markup (start : Position) (lead : String) (after : Mode) (ctx : Context) :
    (p.markup start lead after ctx).Leaves after

attribute [instance] Productions.Steady.expression Productions.Steady.assignment
  Productions.Steady.cover Productions.Steady.binary Productions.Steady.exponentiation
  Productions.Steady.unary Productions.Steady.chain Productions.Steady.callee
  Productions.Steady.binding Productions.Steady.statement Productions.Steady.item

namespace Grammar

open Parse

set_option synthInstance.maxSize 1000

variable {p : Productions} [p.Steady] {ctx : Context} {t first : Token} {start : Position}
  {restricted misplaced fault : Fault} {close word : String} {target : Pattern} {base e : Expr}
  {tagged b b' b'' : Bool} {rounds least : Nat} {site : Site} {name? : Option Ident}
  {kind : PropertyKind} {mods : Modifiers} {octal : Option Token} {check : Parse Unit}
  {asyncLead? word? : Option String} {lead : String} {params : List Pattern} {id : Ident}
  {name : Tree .key} {g : Group} {before : Option Site} {head : ForHead} {items : List Expr}
  {separators : List String}


/-! ### Literals, names and keys -/

instance {m : Mode} : (literalValue ctx t).Steady m := by
  unfold literalValue
  split
  case h_2 => split <;> infer_instance
  all_goals infer_instance

instance : (literal ctx).Steady .normal := by unfold literal; infer_instance
instance : (checkOperatorWord ctx t).Steady .normal := by unfold checkOperatorWord; infer_instance
instance : (checkReference ctx t).Steady .normal := by unfold checkReference; infer_instance
instance : (bindingName restricted ctx).Steady .normal := by
  unfold bindingName; dsimp only; infer_instance
instance : (templatePiece ctx tagged).Steady .normal := by
  unfold templatePiece
  refine .behind fun _ => .branch (.behind fun _ => .behind fun t => ?_) (.behind fun t => ?_)
  all_goals cases t.value <;> dsimp only <;> infer_instance

instance : (templateParts p ctx tagged rounds).Steady .normal := by
  induction rounds <;> unfold templateParts <;> infer_instance

instance : (template p ctx tagged).Steady .normal := by unfold template; infer_instance
instance : (key p ctx b).Steady .normal := by
  unfold key
  refine .behind fun t => .branch inferInstance ?_
  split <;> infer_instance

instance : (isModifier b).Steady .normal := by unfold isModifier; infer_instance

/-! ### Patterns -/

instance : (withDefault p ctx start target).Steady .normal := by
  unfold withDefault
  refine .behind fun eqLead => ?_
  cases eqLead <;> infer_instance

instance : (bindingElement p restricted ctx).Steady .normal := by
  unfold bindingElement; infer_instance
instance : (bindingRest p restricted ctx close misplaced).Steady .normal := by
  unfold bindingRest; infer_instance
instance : (arrayBindingRound p restricted ctx).Steady .normal := by
  unfold arrayBindingRound; infer_instance
instance : (arrayBinding p restricted ctx).Steady .normal := by unfold arrayBinding; infer_instance
instance : (bindingProperty p restricted ctx).Steady .normal := by
  unfold bindingProperty; dsimp only; infer_instance
instance : (bindingMemberRest restricted ctx).Steady .normal := by
  unfold bindingMemberRest; infer_instance
instance : (objectBindingRound p restricted ctx).Steady .normal := by
  unfold objectBindingRound; infer_instance
instance : (objectBinding p restricted ctx).Steady .normal := by
  unfold objectBinding; infer_instance
instance : (binding p restricted ctx).Steady .normal := by unfold binding; infer_instance
instance {seen : List String} {ids : List Ident} :
    (checkParameterNames b b' site seen ids).Steady .normal := by
  induction ids generalizing seen <;> unfold checkParameterNames <;> infer_instance

instance : (checkParameters b b' site params).Steady .normal := by
  unfold checkParameters; infer_instance

/-! ### Functions and classes -/

instance : (prologueFrom p ctx octal rounds).Steady .normal := by
  induction rounds generalizing ctx octal with
  | zero => exact .of_fails fails_stalled
  | succ rounds ih =>
    unfold prologueFrom
    cases octal <;> infer_instance

instance : (prologue p ctx).Steady .normal := by unfold prologue; infer_instance
instance : (Grammar.items p ctx).Steady .normal := by unfold Grammar.items; infer_instance
instance : (functionBody p ctx).Steady .normal := by unfold functionBody; infer_instance
instance : (parameterRound p ctx).Steady .normal := by unfold parameterRound; infer_instance
instance : (parameterList p ctx).Steady .normal := by unfold parameterList; infer_instance
instance : (checkFunctionName site name?).Steady .normal := by
  cases name? <;> unfold checkFunctionName <;> infer_instance

instance : (paramsAndBody p ctx b b' name? site b'').Steady .normal := by
  unfold paramsAndBody; dsimp only; infer_instance
instance : (functionName ctx b b' b'' tagged).Steady .normal := by
  unfold functionName; infer_instance
instance : (function p ctx b b').Steady .normal := by unfold function; infer_instance
instance : (functionDeclaration p ctx).Steady .normal := by
  unfold functionDeclaration; infer_instance
instance : (functionExpression p ctx).Steady .normal := by unfold functionExpression; infer_instance
instance : (checkAccessor kind site params).Steady .normal := by
  unfold checkAccessor
  split <;> infer_instance

instance : (methodFunction p ctx b b' kind).Steady .normal := by
  unfold methodFunction; infer_instance
instance : modifiers.Steady .normal := by unfold modifiers; infer_instance
instance : (staticBlock p ctx start lead).Steady .normal := by unfold staticBlock; infer_instance
instance : (fieldInitializer p ctx).Steady .normal := by
  unfold fieldInitializer
  refine .behind fun eqLead => ?_
  cases eqLead <;> infer_instance

instance : (field p ctx start mods name).Steady .normal := by unfold field; infer_instance
instance : (methodKind mods kind word? b site).Steady .normal := by
  unfold methodKind; infer_instance
instance : (keyedMember p ctx start mods kind b).Steady .normal := by
  unfold keyedMember; dsimp only; infer_instance
instance : (classMember p ctx b).Steady .normal := by
  unfold classMember
  dsimp only
  refine .behind fun t => .branch inferInstance
    (.branch (.behind fun _ => ?_) (.behind fun _ => ?_))
  all_goals
    refine .branch (.behind fun staticLead => ?_) (.behind fun staticLead => ?_)
    all_goals cases staticLead <;> infer_instance

instance : (classMembers p ctx b rounds).Steady .normal := by
  induction rounds generalizing b <;> unfold classMembers <;> infer_instance

instance : (heritage p ctx).Steady .normal := by unfold heritage; infer_instance
instance : (classDefinition p ctx b b').Steady .normal := by
  unfold classDefinition; dsimp only; infer_instance

/-! ### Operands -/

instance {value : Parse Expr} [value.Steady .normal] : (spreadOr value).Steady .normal := by
  unfold spreadOr; infer_instance

instance : (arrayRound p ctx).Steady .normal := by unfold arrayRound; infer_instance
instance : (arrayLiteral p ctx).Steady .normal := by unfold arrayLiteral; infer_instance
instance : (markPending site).Steady .normal := by unfold markPending; infer_instance
instance : (shorthandValue p ctx start id).Steady .normal := by
  unfold shorthandValue; infer_instance
instance : (shorthandName ctx first name).Steady .normal := by
  unfold shorthandName
  split <;> infer_instance

instance : (property p ctx).Steady .normal := by unfold property; infer_instance
instance : (objectMember p ctx).Steady .normal := by unfold objectMember; infer_instance
instance : (objectLiteral p ctx).Steady .normal := by unfold objectLiteral; infer_instance
instance : (argumentList p ctx).Steady .normal := by unfold argumentList; infer_instance
instance : (groupItem p ctx).Steady .normal := by unfold groupItem; infer_instance
instance : (readGroup p ctx).Steady .normal := by unfold readGroup; infer_instance
instance : rejectPending.Steady .normal := by
  unfold rejectPending
  refine .behind fun o => ?_
  cases o <;> infer_instance

instance : (groupValue g).Steady .normal := by
  unfold groupValue
  split <;> infer_instance

instance : (parenthesized ctx start g).Steady .normal := by
  unfold parenthesized
  cases g.spreadSite? <;> dsimp only <;> infer_instance

instance : (group p ctx).Steady .normal := by unfold group; infer_instance
instance : (nameOperand p ctx).Steady .normal := by
  unfold nameOperand; dsimp only; infer_instance

/-- Markup as an operand leaves the mode of code, and gets to the other modes in between. -/
instance : (markupRoot p ctx).Steady .normal :=
  .of_leaves <| Leaves.behind fun _ => Leaves.behind fun _ => Leaves.behind fun _ =>
    Leaves.behind fun lead q v r hrun => by
    obtain ⟨m, q', hm, hrun⟩ := exists_of_run_bind hrun
    have hin := Productions.Steady.markup _ _ _ _ _ _ _ hm
    cases m <;> cases hrun <;> exact hin

instance : (punctuatedOperand p ctx t).Steady .normal := by
  unfold punctuatedOperand
  split <;> infer_instance

instance : (keywordOperand p ctx t).Steady .normal := by
  unfold keywordOperand
  split <;> infer_instance

instance : (operand p ctx).Steady .normal := by
  unfold operand
  refine .behind fun t => ?_
  split <;> infer_instance

/-! ### Chains -/

instance : (accessName ctx).Steady .normal := by unfold accessName; infer_instance
instance : (accessIndex p ctx).Steady .normal := by unfold accessIndex; infer_instance
instance {dotLead : String} {prop : Tree .access} :
    (finishAccess start base b dotLead prop).Steady .normal := by
  unfold finishAccess; infer_instance

instance {optionalLead : String} {args : Tree .arguments} :
    (finishCall start base b optionalLead args).Steady .normal := by
  unfold finishCall; infer_instance

instance : (taggedTemplate p ctx start base).Steady .normal := by
  unfold taggedTemplate; infer_instance
instance : (optionalLink p ctx start base).Steady .normal := by unfold optionalLink; infer_instance
instance : (plainLink p ctx start base).Steady .normal := by unfold plainLink; infer_instance
instance {c : Chain} : (chainLink p ctx start c).Steady .normal := by
  unfold chainLink; infer_instance
instance : (superclass ctx).Steady .normal := by unfold superclass; infer_instance
instance [check.Steady .normal] : (metaProperty ctx t word check).Steady .normal := by
  unfold metaProperty; infer_instance

instance : (construct p ctx).Steady .normal := by
  unfold construct
  dsimp only
  refine .behind fun t => .behind fun isMeta => .branch inferInstance (.behind fun isImport => ?_)
  refine .branch inferInstance ?_
  infer_instance

instance : (importExpression p ctx).Steady .normal := by unfold importExpression; infer_instance
instance : (asyncCall p ctx start id).Steady .normal := by
  unfold asyncCall; dsimp only; infer_instance
instance : (chainHead p ctx).Steady .normal := by unfold chainHead; infer_instance
instance : (asyncCallee t e).Steady .normal := by
  unfold asyncCallee
  refine .behind fun u => ?_
  split <;> infer_instance

instance : (chain p ctx).Steady .normal := by
  unfold chain
  refine .behind fun first => .behind fun value => .behind fun name => ?_
  cases name <;> infer_instance

instance : (calleeLink p ctx start base).Steady .normal := by unfold calleeLink; infer_instance
instance : (callee p ctx).Steady .normal := by unfold callee; infer_instance

/-! ### Operators -/

instance : (rejectCover ctx e).Steady .normal := by unfold rejectCover; infer_instance
instance : (checkUpdateTarget ctx e t fault).Steady .normal := by
  unfold checkUpdateTarget
  split <;> infer_instance

instance {op : UnaryOp} : (unaryOperation p ctx op).Steady .normal := by
  unfold unaryOperation
  refine .behind fun t => .behind fun e => .behind fun _ => ?_
  dsimp only
  split <;> infer_instance

instance : (awaitOperation p ctx).Steady .normal := by unfold awaitOperation; infer_instance
instance {op : UpdateOp} : (updateBefore p ctx op).Steady .normal := by
  unfold updateBefore; infer_instance
instance : (updateAfter p ctx).Steady .normal := by
  unfold updateAfter
  refine .behind fun first => .behind fun value => .behind fun t => ?_
  cases updateOp? t <;> infer_instance

instance : (unary p ctx).Steady .normal := by
  unfold unary
  refine .behind fun t => ?_
  cases unaryOp? t
  case some => infer_instance
  refine .branch inferInstance ?_
  cases updateOp? t <;> infer_instance

instance : (exponentiation p ctx).Steady .normal := by
  unfold exponentiation; dsimp only; infer_instance
instance : (binaryStep p ctx start least e).Steady .normal := by
  unfold binaryStep
  refine .behind fun t => ?_
  cases binaryOp? ctx t <;> infer_instance

instance : (binary p least ctx).Steady .normal := by unfold binary; infer_instance
instance : (conditional p ctx).Steady .normal := by unfold conditional; infer_instance

/-! ### Arrow functions and assignments -/

instance : (arrowBody p ctx).Steady .normal := by unfold arrowBody; infer_instance
instance {params : Tree .arrowParams} :
    (arrow p ctx start asyncLead? params site).Steady .normal := by
  unfold arrow; infer_instance

instance : (bareArrow p ctx start asyncLead? id t).Steady .normal := by
  unfold bareArrow; infer_instance
instance : (groupParameters ctx site b items).Steady .normal := by
  fun_induction groupParameters ctx site b items <;> infer_instance

instance : (groupArrow p ctx start asyncLead? lead items separators close).Steady .normal := by
  unfold groupArrow; infer_instance
instance : (asyncBareArrow p ctx).Steady .normal := by unfold asyncBareArrow; infer_instance
instance : seesAsyncBareArrow.Steady .normal := by unfold seesAsyncBareArrow; infer_instance
instance : (yieldExpression p ctx).Steady .normal := by
  unfold yieldExpression; dsimp only; infer_instance
instance : (simpleTarget ctx e t fault).Steady .normal := by
  unfold simpleTarget
  split <;> infer_instance

instance : (assignmentTarget ctx e t fault).Steady .normal := by
  unfold assignmentTarget
  split <;> infer_instance

instance {op : AssignOp} : (assignTo p ctx t e op before).Steady .normal := by
  unfold assignTo; infer_instance

instance : (settle e before).Steady .normal := by
  unfold settle
  refine .behind fun now => ?_
  cases now <;> infer_instance

instance : (arrowAfter? p ctx t e before).Steady .normal := by
  unfold arrowAfter?
  refine .behind fun t => .branch inferInstance ?_
  split <;> infer_instance

instance : (plainCover p ctx).Steady .normal := by
  unfold plainCover
  refine .behind fun t => .behind fun _ => .behind fun _ => .behind fun e => .behind fun o => ?_
  cases o
  case some => infer_instance
  refine .behind fun u => ?_
  cases assignOp? u <;> infer_instance

instance : (cover p ctx).Steady .normal := by unfold cover; infer_instance
instance : (assignment p ctx).Steady .normal := by unfold assignment; infer_instance
instance : (sequenceFrom p ctx start e).Steady .normal := by unfold sequenceFrom; infer_instance
instance : (expression p ctx).Steady .normal := by unfold expression; infer_instance

/-! ### Declarations and loops -/

instance {kind : VariableKind} : (variableValue p ctx b kind target).Steady .normal := by
  unfold variableValue
  refine .behind fun t => .branch inferInstance (.branch ?_ inferInstance)
  split <;> infer_instance

instance {kind : VariableKind} : (declarator p ctx b kind).Steady .normal := by
  unfold declarator; infer_instance
instance : (variableList p ctx b).Steady .normal := by unfold variableList; infer_instance
instance : (variableStatement p ctx).Steady .normal := by unfold variableStatement; infer_instance
instance : isLexicalDeclaration.Steady .normal := by unfold isLexicalDeclaration; infer_instance
instance : isAsyncFunction.Steady .normal := by unfold isAsyncFunction; infer_instance
instance : (inParentheses p ctx).Steady .normal := by unfold inParentheses; infer_instance
instance : (loopBody p ctx).Steady .normal := by unfold loopBody; infer_instance
instance : (optionalBefore p ctx close).Steady .normal := by unfold optionalBefore; infer_instance
instance {init : Tree (.maybe .forInit)} : (finishFor p ctx head init).Steady .normal := by
  unfold finishFor; infer_instance

instance {left : Tree .forTarget} : (finishForIn p ctx head left).Steady .normal := by
  unfold finishForIn; infer_instance

instance {left : Tree .forTarget} : (finishForOf p ctx head left).Steady .normal := by
  unfold finishForOf; infer_instance

instance {left : Tree .forTarget} : (finishForEach p ctx head left).Steady .normal := by
  unfold finishForEach; infer_instance

instance {kind : VariableKind} {items : List (Tree .declarator)} :
    (checkLoopVariables kind t items).Steady .normal := by
  fun_induction checkLoopVariables kind t items <;> infer_instance

instance : (forVariables p ctx head).Steady .normal := by
  unfold forVariables
  refine .behind fun _ => .behind fun v => .behind fun _ => .behind fun t => ?_
  dsimp only
  split <;> infer_instance

instance : (forExpression p ctx head).Steady .normal := by
  unfold forExpression; dsimp only; infer_instance
instance : (forAwait ctx).Steady .normal := by unfold forAwait; infer_instance
instance : (forLoop p ctx).Steady .normal := by unfold forLoop; infer_instance
instance : (whileLoop p ctx).Steady .normal := by unfold whileLoop; infer_instance
instance : (doWhileLoop p ctx).Steady .normal := by unfold doWhileLoop; infer_instance

/-! ### Statements -/

instance : (block p ctx).Steady .normal := by unfold block; infer_instance
instance : emptyStatement.Steady .normal := by unfold emptyStatement; infer_instance
instance : (elseClause p ctx).Steady .normal := by unfold elseClause; infer_instance
instance : (ifStatement p ctx).Steady .normal := by unfold ifStatement; infer_instance
instance : (withStatement p ctx).Steady .normal := by unfold withStatement; infer_instance
instance : (nestedFunction p ctx).Steady .normal := by unfold nestedFunction; infer_instance
instance : (jumpLabel ctx).Steady .normal := by unfold jumpLabel; infer_instance
instance : (breakStatement ctx).Steady .normal := by unfold breakStatement; infer_instance
instance : (continueStatement ctx).Steady .normal := by unfold continueStatement; infer_instance
instance : (returnStatement p ctx).Steady .normal := by
  unfold returnStatement; dsimp only; infer_instance
instance : (throwStatement p ctx).Steady .normal := by unfold throwStatement; infer_instance
instance : (debuggerStatement ctx).Steady .normal := by unfold debuggerStatement; infer_instance
instance : (catchParameter p ctx).Steady .normal := by
  unfold catchParameter
  refine .behind fun o => ?_
  cases o <;> infer_instance

instance : (catchClause p ctx).Steady .normal := by unfold catchClause; infer_instance
instance : (finallyClause p ctx).Steady .normal := by unfold finallyClause; infer_instance
instance : (tryStatement p ctx).Steady .normal := by unfold tryStatement; infer_instance
instance : (clauseHead p ctx b).Steady .normal := by unfold clauseHead; infer_instance
instance : (switchCases p ctx b rounds).Steady .normal := by
  induction rounds generalizing b <;> unfold switchCases <;> infer_instance

instance : (switchStatement p ctx).Steady .normal := by unfold switchStatement; infer_instance
instance : (labelledStatement p ctx start id).Steady .normal := by
  unfold labelledStatement; infer_instance
instance : (expressionStatement p ctx).Steady .normal := by
  unfold expressionStatement
  refine .behind fun first => .behind fun value => .behind fun t => ?_
  cases labelOf? first t value <;> infer_instance

instance : (keywordStatement p ctx word).Steady .normal := by
  unfold keywordStatement
  split <;> infer_instance

instance : (statement p ctx).Steady .normal := by unfold statement; infer_instance
instance : isImportExpression.Steady .normal := by unfold isImportExpression; infer_instance
instance : (keywordItem p ctx t).Steady .normal := by
  unfold keywordItem
  split <;> infer_instance

instance : (item p ctx).Steady .normal := by unfold item; infer_instance

/-! ### Modules -/

instance : (moduleSource ctx).Steady .normal := by unfold moduleSource; infer_instance
instance : (exportName ctx).Steady .normal := by unfold exportName; infer_instance
instance : expectFrom.Steady .normal := by unfold expectFrom; infer_instance
instance : (exportAlias ctx).Steady .normal := by unfold exportAlias; infer_instance
instance : (importAlias ctx t).Steady .normal := by unfold importAlias; infer_instance
instance : (importSpecifier ctx).Steady .normal := by unfold importSpecifier; infer_instance
instance : (namedImports ctx rounds).Steady .normal := by unfold namedImports; infer_instance
instance : (namespaceImport ctx).Steady .normal := by unfold namespaceImport; infer_instance
instance {main : Option Ident} : (importParts ctx rounds main close).Steady .normal := by
  unfold importParts; infer_instance

instance : (importClause ctx rounds).Steady .normal := by
  unfold importClause
  refine .behind fun t => .branch (.behind fun main => .behind fun o => ?_) inferInstance
  cases o <;> infer_instance

instance : (importDeclaration ctx rounds).Steady .normal := by
  unfold importDeclaration; infer_instance
instance : (exportValue p ctx).Steady .normal := by
  unfold exportValue; dsimp only; infer_instance
instance : (exportDefault p ctx t).Steady .normal := by unfold exportDefault; infer_instance
instance : (exportAll ctx t).Steady .normal := by unfold exportAll; infer_instance
instance : (exportSpecifier ctx).Steady .normal := by unfold exportSpecifier; infer_instance
instance {ts : List Token} : (checkLocalNames ctx ts).Steady .normal := by
  induction ts <;> unfold checkLocalNames <;> infer_instance

instance {ts : List Token} : (exportOrigin ctx ts).Steady .normal := by
  unfold exportOrigin; infer_instance
instance : (exportNames ctx rounds t).Steady .normal := by unfold exportNames; infer_instance
instance : seesDeclaration.Steady .normal := by unfold seesDeclaration; infer_instance
instance : (exportedDeclaration p ctx t).Steady .normal := by
  unfold exportedDeclaration; infer_instance
instance : (exportDeclaration p ctx).Steady .normal := by unfold exportDeclaration; infer_instance
instance : (moduleItem p ctx).Steady .normal := by unfold moduleItem; infer_instance

/-! ### Markup -/

/-- Markup leaves the mode that its caller asks for, whatever productions it calls. -/
theorem markup_leaves {p : Productions} {start : Position} {openLead : String} {after : Mode}
    {ctx : Context} : (markup p start openLead after ctx).Leaves after := by
  have closing {opened : String} {start : Position} {openLead : String} :
      (closingTag p ctx start openLead opened after).Leaves after := by
    unfold closingTag
    dsimp only
    refine .behind fun _ => .behind fun _ => .behind fun _ => .branch (.behind fun _ => ?_) ?_
    all_goals exact .before .expectThen inferInstance
  have fragment : (fragment p ctx start openLead after).Leaves after := by
    unfold fragment
    dsimp only
    refine .behind fun _ => .behind fun _ => .behind fun _ => .behind fun _ => ?_
    refine .branch (.behind fun _ => ?_) ?_
    all_goals exact .before .expectThen inferInstance
  have element : (element p ctx start openLead after).Leaves after := by
    unfold element
    dsimp only
    refine .behind fun _ => .behind fun _ => .behind fun _ => .branch (.behind fun _ =>
      .behind fun _ => .branch (.behind fun _ => ?_) ?_) ?_
    · exact .before .expectThen inferInstance
    · exact .before .expectThen inferInstance
    · exact .behind fun _ => .behind fun _ => .behind fun _ => .before closing inferInstance
  have made {α : Type} (f : α → Markup) (v : α) : ((pure (f v) : Parse Markup).Steady after) :=
    inferInstance
  exact .behind fun _ => .branch (.before fragment (made _)) (.before element (made _))

end Grammar

/-- Productions that call others are steady if these are. -/
instance Productions.Steady.deepen {p : Productions} [p.Steady] : p.deepen.Steady where
  expression _ := inferInstanceAs ((Grammar.expression p _).Steady _)
  assignment _ := inferInstanceAs ((Grammar.assignment p _).Steady _)
  cover _ := inferInstanceAs ((Grammar.cover p _).Steady _)
  binary _ _ := inferInstanceAs ((Grammar.binary p _ _).Steady _)
  exponentiation _ := inferInstanceAs ((Grammar.exponentiation p _).Steady _)
  unary _ := inferInstanceAs ((Grammar.unary p _).Steady _)
  chain _ := inferInstanceAs ((Grammar.chain p _).Steady _)
  callee _ := inferInstanceAs ((Grammar.callee p _).Steady _)
  binding _ _ := inferInstanceAs ((Grammar.binding p _ _).Steady _)
  statement _ := inferInstanceAs ((Grammar.statement p _).Steady _)
  item _ := inferInstanceAs ((Grammar.item p _).Steady _)
  markup _ _ _ _ := Grammar.markup_leaves

instance Productions.Steady.ofDepth {n : Nat} : (Productions.ofDepth n).Steady := by
  induction n with
  | zero =>
    constructor <;> intros
    case markup => exact .failing Parse.fails_stalled
    all_goals exact .of_fails Parse.fails_stalled
  | succ n ih => exact .deepen

end Verbatim
