import Verbatim.Proofs.Static.Expression

/-!
# Operands, operators and assignments

An operator obeys the rules because of what was read in front of it and of the token behind its
right operand: an operator that binds as tightly would have been taken into the operand. What turns
out to be a target obeys the rules because conversion keeps it so.
-/

namespace Verbatim

open Verbatim.Grammar

namespace Parse.Reads

variable {p : Productions} {clean : Bool} {ctx : Context} {s : Ahead} {t : CodeToken}

/-! ## Operands -/

theorem spreadOr {value : Parse Expr} {post : Expr → Ahead → Prop}
    (hvalue : ∀ t, value.Reads clean (.code t) (InCode (Tree.Fits clean ctx)))
    (h : ∀ v u, v.Fits clean ctx → post v (.code u)) :
    (Grammar.spreadOr value).Reads clean (.code t) post := by
  simp only [Grammar.spreadOr, reads_bind, reads_look, reads_ite]
  refine ⟨fun _ u => (hvalue u).into fun v u hv => finish fun _ => h _ u (.one hv trivial rfl),
    fun _ => ?_⟩
  exact (hvalue t).into h

theorem arrayRound (hp : p.Reads clean) : (Grammar.arrayRound p ctx).Reads clean (.code t)
    (InCode (·.All (Tree.Fits clean ctx))) := by
  simp only [Grammar.arrayRound, reads_bind, reads_sees, reads_ite]
  exact ⟨fun _ => separator fun _ _ => .intro .absent, fun _ =>
    spreadOr (hp.cover ctx) fun _ _ hv => .intro hv.present⟩

section

variable {post : Expr → Ahead → Prop}

theorem arrayLiteral (hp : p.Reads clean)
    (h : ∀ v u, v.Whole clean ctx → post v (.code u)) :
    (Grammar.arrayLiteral p ctx).Reads clean (.code t) post :=
  expect fun _ _ => listed (fun _ => arrayRound hp) fun _ _ hr => expect fun _ u => finish fun _ =>
    h (.array ..) u ⟨.one (.ofList hr) trivial rfl, Nat.le_refl _⟩

/-- The value of a shorthand property has the parts of the pattern that it is meant for. -/
theorem shorthandValue (hp : p.Reads clean) {start : Position} {id : Ident}
    (h : ∀ v u, (∀ part ∈ Tree.valueParts ctx.inside true v,
      part.tree.Everywhere (Tree.Allowed clean) part.surroundings) → post v (.code u)) :
    (Grammar.shorthandValue p ctx start id).Reads clean (.code t) post := by
  have hname : (Tree.namePattern id).Fits clean ctx := .leaf trivial rfl
  have hident : (Tree.identifier id).Fits clean ctx := .leaf trivial rfl
  simp only [Grammar.shorthandValue, Grammar.markPending, reads_bind, reads_look, reads_ite,
    reads_pending, reads_setPending, reads_lead]
  refine ⟨fun _ _ _ => hp.ofAssignment fun _ u hv => finish fun _ => h _ u ?_, fun _ => h _ t ?_⟩
  · exact List.forall_mem_cons.2 ⟨hname, List.forall_mem_singleton.2 hv⟩
  · exact List.forall_mem_singleton.2 hident

theorem shorthandName {first : Token} {name : Tree .key} {post : Ident → Ahead → Prop}
    (h : ∀ v, post v s) : (Grammar.shorthandName ctx first name).Reads clean s post := by
  unfold Grammar.shorthandName
  split <;> simp [h]

/-- A property of an object obeys the rules. -/
theorem property (hp : p.Reads clean) {post : Tree .member → Ahead → Prop}
    (h : ∀ v u, v.Fits clean ctx → post v (.code u)) :
    (Grammar.property p ctx).Reads clean (.code t) post := by
  simp only [Grammar.property, reads_bind, reads_here, reads_look, reads_ite]
  refine modifiers fun r first hr => key hp fun name u hname => ⟨fun _ => ?_, fun hplain => ?_⟩
  · refine methodFunction hp fun f u hv hdistinct => finish fun _ => ?_
    have hf : (Tree.functionExpr f).Fits clean ctx := .one hv trivial rfl
    exact h _ u (.two hname hf (fun hc _ => hdistinct hc) rfl)
  · have hkind : (false || r.2 != .plain) = true → False := by
      intro hk
      simp_all
    refine ⟨fun _ _ => hp.ofCover fun _ u hv => finish fun _ => ?_, fun _ => shorthandName fun id =>
      checkReference (shorthandValue hp fun v u hv => finish fun _ => ?_)⟩
    · exact h _ u (.two hname hv (fun _ hk => (hkind hk).elim) rfl)
    · exact h _ u (.of_parts (fun _ hk => (hkind hk).elim) (List.forall_mem_cons.2 ⟨hname, hv⟩))

theorem objectMember (hp : p.Reads clean) {post : Tree .member → Ahead → Prop}
    (h : ∀ v u, v.Fits clean ctx → post v (.code u)) :
    (Grammar.objectMember p ctx).Reads clean (.code t) post := by
  simp only [Grammar.objectMember, reads_bind, reads_look, reads_ite]
  exact ⟨fun _ _ => hp.ofCover fun _ u hv => finish fun _ => h _ u (.one hv trivial rfl),
    fun _ => property hp h⟩

theorem objectLiteral (hp : p.Reads clean)
    (h : ∀ v u, v.Whole clean ctx → post v (.code u)) :
    (Grammar.objectLiteral p ctx).Reads clean (.code t) post :=
  expect fun _ _ => listed (P := Tree.Fits clean ctx)
    (fun _ => objectMember hp fun _ _ hv => .intro hv)
    fun _ _ hr => expect fun _ u => finish fun _ =>
      h (.object ..) u ⟨.one (.ofList hr) trivial rfl, Nat.le_refl _⟩

theorem argumentList (hp : p.Reads clean) {post : Tree .arguments → Ahead → Prop}
    (h : ∀ v u, v.Fits clean ctx → post v (.code u)) :
    (Grammar.argumentList p ctx).Reads clean (.code t) post :=
  expect fun _ _ => listed (P := Tree.Fits clean ctx)
    (fun _ => spreadOr (hp.assignment ctx.inside) fun _ _ hv => .intro hv) fun _ _ hr =>
      expect fun _ u => h _ u (.one (.ofList hr) trivial rfl)

/-! ## Groups -/

theorem readGroup (hp : p.Reads clean) {post : Group → Ahead → Prop}
    (h : ∀ g u, (∀ v ∈ g.values, v.Fits clean ctx) → post g (.code u)) :
    (Grammar.readGroup p ctx).Reads clean (.code t) post := by
  have hitem : ∀ t, (Grammar.groupItem p ctx.inside).Reads clean (.code t)
      (InCode fun item => item.value.Fits clean ctx) := fun _ =>
    spreadOr (hp.cover ctx.inside) fun _ _ hv _ => .intro hv
  exact expect fun _ _ => listed hitem fun _ _ hr => expect fun _ u =>
    h _ u (List.forall_mem_map.2 hr)

theorem rejectPending {post : Unit → Ahead → Prop} (h : post () s) :
    Grammar.rejectPending.Reads clean s post := by
  intro o
  cases o with
  | none => exact h
  | some site => trivial

theorem groupValue {g : Group} (hg : ∀ v ∈ g.values, v.Fits clean ctx)
    (h : ∀ v, v.Fits clean ctx → post v s) : (Grammar.groupValue g).Reads clean s post := by
  unfold Grammar.groupValue
  split
  · rename_i hvalues
    exact h _ (hg _ (hvalues ▸ List.mem_singleton_self _))
  · exact finishAt fun _ => h _ (.one (.ofList hg) trivial rfl)
  · trivial

theorem parenthesized {start : Position} {g : Group} (hg : ∀ v ∈ g.values, v.Fits clean ctx)
    (h : ∀ v, v.Whole clean ctx → post v s) :
    (Grammar.parenthesized ctx start g).Reads clean s post := by
  simp only [Grammar.parenthesized, reads_ite, reads_bind, reads_unexpectedHere, implies_true,
    true_and]
  intro _
  cases hs : g.spreadSite? with
  | some site => trivial
  | none =>
    exact rejectPending (groupValue hg fun _ hv => finish fun _ =>
      h (.parenthesized ..) ⟨.one hv trivial rfl, Nat.le_refl _⟩)

theorem group (hp : p.Reads clean)
    (h : ∀ v u, v.Whole clean ctx → post v (.code u)) :
    (Grammar.group p ctx).Reads clean (.code t) post := by
  simp only [Grammar.group, reads_bind, reads_here, reads_ite, reads_sees]
  refine readGroup hp fun g u hg => ⟨fun _ => extent fun _ => ?_, fun _ => ?_⟩
  · exact h _ u ⟨.one (.ofList hg) trivial rfl, Nat.le_refl _⟩
  · exact parenthesized hg fun v hv => h v u hv

theorem nameOperand (hp : p.Reads clean)
    (h : ∀ v u, v.Whole clean ctx → post v (.code u)) :
    (Grammar.nameOperand p ctx).Reads clean (.code t) post := by
  have hname : next.Reads clean (.code t) fun t s =>
      (Grammar.checkReference ctx t).Reads clean s fun _ s =>
        (Parse.finishName t).Reads clean s fun id s => post (.identifier id) s :=
    fun u => checkReference (finishName fun _ _ => h _ u ⟨.leaf trivial rfl, Nat.le_refl _⟩)
  simp only [Grammar.nameOperand, reads_bind, reads_seesWord, reads_ite, reads_peek, reads_pure]
  exact ⟨fun _ _ => ⟨fun _ => functionExpression hp h, fun _ => hname⟩,
    fun _ => ⟨fun _ => functionExpression hp h, fun _ => hname⟩⟩

/-- An operand that starts with a punctuator obeys the rules. -/
theorem punctuatedOperand (hp : p.Reads clean) {u : Token}
    (h : ∀ v u, v.Whole clean ctx → post v (.code u)) :
    (Grammar.punctuatedOperand p ctx u).Reads clean (.code t) post := by
  have hregex : rescanRegex.Reads clean (.code t) fun _ s =>
      (Grammar.literal ctx).Reads clean s fun lit s => post (.literal lit) s :=
    reads_rescanRegex.mpr fun _ => literal fun _ u hlit => h _ u ⟨.leaf hlit rfl, Nat.le_refl _⟩
  unfold Grammar.punctuatedOperand
  split
  · exact group hp h
  · exact arrayLiteral hp h
  · exact objectLiteral hp h
  · exact hregex
  · exact hregex
  · exact reads_ite.mpr ⟨fun _ => markupRoot hp h, fun _ => trivial⟩
  · trivial

theorem keywordOperand (hp : p.Reads clean) {u : Token}
    (h : ∀ v u, v.Whole clean ctx → post v (.code u)) :
    (Grammar.keywordOperand p ctx u).Reads clean (.code t) post := by
  unfold Grammar.keywordOperand
  split
  · exact fun u => finish fun _ => h (.receiver ..) u ⟨.leaf trivial rfl, Nat.le_refl _⟩
  · exact functionExpression hp h
  · exact classDefinition hp fun _ u hv => h _ u ⟨.one hv trivial rfl, Nat.le_refl _⟩
  · trivial

/-- An operand obeys the rules, and binds tightest. -/
theorem operand (hp : p.Reads clean)
    (h : ∀ v u, v.Whole clean ctx → post v (.code u)) :
    (Grammar.operand p ctx).Reads clean (.code t) post := by
  have hliteral : (Grammar.literal ctx).Reads clean (.code t) fun lit s => post (.literal lit) s :=
    literal fun _ u hlit => h _ u ⟨.leaf hlit rfl, Nat.le_refl _⟩
  simp only [Grammar.operand, reads_bind, reads_look]
  split
  · exact nameOperand hp h
  all_goals try exact hliteral
  · refine reads_ite.mpr ⟨fun _ => template hp fun v u hv => ?_, fun _ => trivial⟩
    exact h (.template v) u ⟨.one hv trivial rfl, Nat.le_refl _⟩
  · exact punctuatedOperand hp h
  · exact keywordOperand hp h
  · trivial

end

/-! ## Chains -/

theorem accessName {post : Tree .access → Ahead → Prop}
    (h : ∀ v u, v.Fits clean ctx → post v (.code u)) :
    (Grammar.accessName ctx).Reads clean (.code t) post := by
  simp only [Grammar.accessName, reads_bind, reads_look, reads_ite, reads_pure, reads_unexpected,
    implies_true, and_true]
  exact ⟨fun _ => anyName fun _ u => h _ u (.leaf trivial rfl),
    fun _ _ u => finishPrivateName fun _ => h _ u (.leaf trivial rfl)⟩

theorem accessIndex (hp : p.Reads clean) {post : Tree .access → Ahead → Prop}
    (h : ∀ v u, v.Fits clean ctx → post v (.code u)) :
    (Grammar.accessIndex p ctx).Reads clean (.code t) post :=
  expect fun _ _ => hp.ofExpression fun _ _ hv => expect fun _ u => h _ u (.one hv trivial rfl)

theorem taggedTemplate (hp : p.Reads clean) {start : Position} {tag : Expr}
    {post : Expr → Ahead → Prop} (htag : tag.Fits clean ctx)
    (h : ∀ v u, v.Whole clean ctx → post v (.code u)) :
    (Grammar.taggedTemplate p ctx start tag).Reads clean (.code t) post :=
  template hp fun _ u hv => finish fun _ => h (.tagged ..) u
    ⟨.two htag hv trivial rfl, Nat.le_refl _⟩

/-- An optional link obeys the rules if what it extends does. -/
theorem optionalLink (hp : p.Reads clean) {start : Position} {base : Expr}
    {post : Expr → Ahead → Prop} (hbase : base.Fits clean ctx)
    (h : ∀ v u, v.Whole clean ctx → post v (.code u)) :
    (Grammar.optionalLink p ctx start base).Reads clean (.code t) post := by
  simp only [Grammar.optionalLink, reads_bind, reads_lead, reads_look, reads_ite, reads_reject,
    implies_true, true_and]
  refine fun _ => ⟨fun _ => ?_, fun _ => ⟨fun _ => ?_, fun _ _ => ?_⟩⟩
  · exact argumentList hp fun _ u hv => finish fun _ =>
      h (.call ..) u ⟨.two hbase hv trivial rfl, Nat.le_refl _⟩
  · exact accessIndex hp fun _ u hv => finish fun _ =>
      h (.memberAccess ..) u ⟨.two hbase hv trivial rfl, Nat.le_refl _⟩
  · exact accessName fun _ u hv => finish fun _ =>
      h (.memberAccess ..) u ⟨.two hbase hv trivial rfl, Nat.le_refl _⟩

/-- A link of a chain obeys the rules if what it extends does. -/
theorem plainLink (hp : p.Reads clean) {start : Position} {base : Expr}
    (hbase : base.Fits clean ctx) : (Grammar.plainLink p ctx start base).Reads clean (.code t)
      (InCode fun w => ∀ v ∈ w, Tree.Whole clean ctx v) := by
  have hsome : ∀ v u, Tree.Whole clean ctx v →
      InCode (fun w => ∀ v ∈ w, Tree.Whole clean ctx v) (some v) (.code u) :=
    fun _ _ hv => .intro fun _ hm => Option.some.inj hm ▸ hv
  simp only [Grammar.plainLink, reads_bind, reads_look, reads_ite, reads_map,
    reads_pure, reads_lead]
  refine ⟨fun _ _ => ?_, fun _ => ⟨fun _ => ?_, fun _ => ⟨fun _ => ?_, fun _ => .intro ?_⟩⟩⟩
  · exact accessName fun _ u hv => finish fun _ =>
      hsome (.memberAccess ..) u ⟨.two hbase hv trivial rfl, Nat.le_refl _⟩
  · exact accessIndex hp fun _ u hv => finish fun _ =>
      hsome (.memberAccess ..) u ⟨.two hbase hv trivial rfl, Nat.le_refl _⟩
  · exact argumentList hp fun _ u hv => finish fun _ =>
      hsome (.call ..) u ⟨.two hbase hv trivial rfl, Nat.le_refl _⟩
  · exact fun _ hm => by cases hm

/-- A link of a chain obeys the rules if what it extends does. -/
theorem chainLink (hp : p.Reads clean) {start : Position} {c : Chain}
    (hc : c.value.Whole clean ctx) : (Grammar.chainLink p ctx start c).Reads clean (.code t)
      (InCode fun w => ∀ c ∈ w, c.value.Whole clean ctx) := by
  simp only [Grammar.chainLink, reads_bind, reads_look, reads_ite, reads_reject, implies_true,
    true_and, reads_pure]
  refine ⟨fun _ => optionalLink hp hc.fits fun _ _ hv => .intro fun _ hm => ?_, fun _ =>
    ⟨fun _ _ => taggedTemplate hp hc.fits fun _ _ hv => .intro fun _ hm => ?_, fun _ => ?_⟩⟩
  · exact Option.some.inj hm ▸ hv
  · exact Option.some.inj hm ▸ hv
  · refine (plainLink hp hc.fits).into fun w u hw => .intro fun c' hm => ?_
    obtain ⟨v, hv, rfl⟩ := Option.map_eq_some_iff.1 hm
    exact hw v hv

section

variable {post : Expr → Ahead → Prop}

theorem superclass (h : ∀ v u, v.Whole clean ctx → post v (.code u)) :
    (Grammar.superclass ctx).Reads clean (.code t) post := by
  simp only [Grammar.superclass, reads_bind, reads_next, reads_look, reads_ite, reads_unexpected,
    implies_true, true_and]
  exact fun u _ => finish fun _ => h (.superclass ..) u ⟨.leaf trivial rfl, Nat.le_refl _⟩

theorem metaProperty {first : Token} {word : String} {check : Parse Unit}
    (hcheck : ∀ {s : Ahead} {post : Unit → Ahead → Prop}, post () s → check.Reads clean s post)
    (h : ∀ v u, v.Whole clean ctx → post v (.code u)) :
    (Grammar.metaProperty ctx first word check).Reads clean (.code t) post := by
  simp only [Grammar.metaProperty, reads_bind, reads_seesWord, reads_ite, reads_unexpectedHere,
    implies_true, true_and]
  exact finish fun _ _ _ => anyName fun _ u => hcheck (finish fun _ =>
    h (.metaProperty ..) u ⟨.leaf trivial rfl, Nat.le_refl _⟩)

theorem construct (hp : p.Reads clean) (h : ∀ v u, v.Whole clean ctx → post v (.code u)) :
    (Grammar.construct p ctx).Reads clean (.code t) post := by
  simp only [Grammar.construct, reads_bind, reads_next, reads_sees, reads_seesKeyword, reads_ite,
    reads_unexpectedHere, implies_true, true_and, reads_map, reads_pure]
  refine fun u => ⟨fun _ => metaProperty (fun hpost => ?_) h, fun _ _ => ?_⟩
  · exact reads_ite.mpr ⟨fun _ _ => hpost, fun _ => hpost⟩
  · refine (hp.callee ctx u).into fun base u hbase _ => ⟨fun _ => ?_, fun _ => finish fun _ => ?_⟩
    · exact argumentList hp fun _ u hargs => finish fun _ =>
        h (.construct ..) u ⟨.two hbase.fits hargs.present trivial rfl, Nat.le_refl _⟩
    · have hnone : (Tree.absent : Tree (.maybe .arguments)).Fits clean ctx := .absent
      exact h (.construct ..) u ⟨.two hbase.fits hnone trivial rfl, Nat.le_refl _⟩

theorem importExpression (hp : p.Reads clean) (h : ∀ v u, v.Whole clean ctx → post v (.code u)) :
    (Grammar.importExpression p ctx).Reads clean (.code t) post := by
  simp only [Grammar.importExpression, reads_bind, reads_next, reads_sees, reads_ite]
  refine fun u => ⟨fun _ => metaProperty (fun hpost => ?_) h, fun _ => ?_⟩
  · exact reads_ite.mpr ⟨fun _ => trivial, fun _ => hpost⟩
  · exact expect fun _ _ => hp.ofAssignment fun _ _ hv => expect fun _ u => finish fun _ =>
      h (.importCall ..) u ⟨.one hv trivial rfl, Nat.le_refl _⟩

/-- What follows `async` obeys the rules, be it a call or an arrow function. -/
theorem asyncCall (hp : p.Reads clean) {start : Position} {name : Ident}
    (h : ∀ v u, v.Whole clean ctx → post v (.code u)) :
    (Grammar.asyncCall p ctx start name).Reads clean (.code t) post := by
  have hname : (Tree.identifier name).Fits clean ctx := .leaf trivial rfl
  simp only [Grammar.asyncCall, reads_bind, reads_pending, reads_setPending, reads_look, reads_ite,
    reads_pure]
  refine fun _ => readGroup hp fun g u hg =>
    ⟨fun _ => extent fun _ => ?_, fun _ => rejectPending ?_⟩
  · exact h (.cover ..) u ⟨.one (.ofList hg) trivial rfl, Nat.le_refl _⟩
  · have hargs : (Tree.argumentList g.openLead (.ofList g.values) g.separators
        g.closeLead).Fits clean ctx := .one (.ofList hg) trivial rfl
    exact finish fun _ => iterateAll (fun v t hv => plainLink hp hv.fits)
      ⟨.two hname hargs trivial rfl, Nat.le_refl _⟩ h

theorem chainHead (hp : p.Reads clean) (h : ∀ v u, v.Whole clean ctx → post v (.code u)) :
    (Grammar.chainHead p ctx).Reads clean (.code t) post := by
  simp only [Grammar.chainHead, reads_bind, reads_look, reads_ite]
  exact ⟨fun _ => superclass h, fun _ => ⟨fun _ => construct hp h, fun _ =>
    ⟨fun _ => importExpression hp h, fun _ => operand hp h⟩⟩⟩

theorem asyncCallee {first : Token} {value : Expr} {post : Option Ident → Ahead → Prop}
    (h : ∀ v, post v s) : (Grammar.asyncCallee first value).Reads clean s post := by
  simp only [Grammar.asyncCallee, reads_bind, reads_look]
  split <;> simp [h]

theorem chain (hp : p.Reads clean) (h : ∀ v u, v.Whole clean ctx → post v (.code u)) :
    (Grammar.chain p ctx).Reads clean (.code t) post := by
  refine chainHead hp fun value u hvalue => asyncCallee fun name => ?_
  cases name with
  | some name => exact asyncCall hp h
  | none =>
    exact iterateAll (P := fun c => c.value.Whole clean ctx) (fun c t hc => chainLink hp hc) hvalue
      fun c u hc => h c.value u hc

theorem calleeLink (hp : p.Reads clean) {start : Position} {base : Expr}
    (hbase : base.Whole clean ctx) : (Grammar.calleeLink p ctx start base).Reads clean (.code t)
      (InCode fun w => ∀ v ∈ w, Tree.Whole clean ctx v) := by
  simp only [Grammar.calleeLink, reads_bind, reads_look, reads_ite, reads_map, reads_pure,
    reads_unexpected, implies_true, true_and]
  refine fun _ =>
    ⟨fun _ => taggedTemplate hp hbase.fits fun _ _ hv => .intro fun _ hm => ?_, fun _ =>
    ⟨fun _ => .intro (fun _ hm => by cases hm), fun _ => plainLink hp hbase.fits⟩⟩
  exact Option.some.inj hm ▸ hv

theorem callee (hp : p.Reads clean) (h : ∀ v u, v.Whole clean ctx → post v (.code u)) :
    (Grammar.callee p ctx).Reads clean (.code t) post := by
  have hlinks : ∀ {start : Position} {v : Expr} {u : CodeToken}, v.Whole clean ctx →
      (Parse.iterate (Grammar.calleeLink p ctx start) p.rounds v).Reads clean (.code u) post :=
    fun hv => iterateAll (fun _ _ hv => calleeLink hp hv) hv h
  simp only [Grammar.callee, reads_bind, reads_look, reads_ite]
  exact ⟨fun _ => construct hp fun _ _ => hlinks, fun _ => ⟨fun _ => superclass fun _ _ => hlinks,
    fun _ => operand hp fun _ _ => hlinks⟩⟩

end

/-! ## Operators -/

/-- A group that is still to be resolved is no operand. -/
theorem rejectCover {e : Expr} {post : Unit → Ahead → Prop} (h : e.isCover = false → post () s) :
    (Grammar.rejectCover ctx e).Reads clean s post := by
  unfold Grammar.rejectCover
  exact reads_ite.mpr ⟨fun _ => trivial, fun hc => h (Bool.eq_false_iff.2 hc)⟩

/-- Strict code may take a step at a target in a clean parse. -/
theorem checkUpdateTarget {target : Expr} {first : Token} {fault : Fault}
    {post : Unit → Ahead → Prop} (h : (clean = true →
      target.isSimpleTarget = true ∧ ctx.MayAssign (target.ident?.toList.map (·.name))) →
        post () s) :
    (Grammar.checkUpdateTarget ctx target first fault).Reads clean s post := by
  unfold Grammar.checkUpdateTarget
  split
  · refine reads_ite.mpr ⟨fun _ hc => h (unclean hc), fun hfree => h fun _ => ⟨rfl, fun hs => ?_⟩⟩
    refine List.forall_mem_singleton.2 (Bool.eq_false_iff.2 fun hr => hfree ?_)
    exact Bool.and_eq_true_iff.2 ⟨hs, hr⟩
  · rename_i hname
    have hnone : target.ident? = none := by
      cases target <;> first | rfl | exact absurd rfl (hname _)
    refine reads_ite.mpr ⟨fun _ hc => h (unclean hc), fun hsimple => h fun _ => ⟨?_, ?_⟩⟩
    · simpa using hsimple
    · rw [hnone]
      exact .nil

section

variable {post : Expr → Ahead → Prop}

theorem unaryOperation (hp : p.Reads clean) {op : UnaryOp}
    (h : ∀ v u, v.Fits clean ctx → v.tightness = 13 → post v (.code u)) :
    (Grammar.unaryOperation p ctx op).Reads clean (.code t) post := by
  simp only [Grammar.unaryOperation, reads_bind, reads_next]
  refine fun u => (hp.unary ctx u).into fun operand u' hv => rejectCover fun hcover => ?_
  have hpost : ∀ {span}, post (.unary t.token.lead op operand span) (.code u') :=
    h _ u' (.one hv.1 (.of_tightness hv.2.1 hcover) rfl) rfl
  split <;> simp [hpost]

theorem awaitOperation (hp : p.Reads clean) (hawait : ctx.allowsAwait = true)
    (h : ∀ v u, v.Fits clean ctx → v.tightness = 13 → post v (.code u)) :
    (Grammar.awaitOperation p ctx).Reads clean (.code t) post := by
  simp only [Grammar.awaitOperation, reads_bind, reads_look, reads_reject, reads_ite, reads_next,
    implies_true, true_and]
  refine fun hplace u => (hp.unary ctx u).into fun operand u' hv => rejectCover fun hcover =>
    finish fun _ => h _ u' (.one hv.1 ?_ rfl) rfl
  exact ⟨.of_tightness hv.2.1 hcover, hawait, Bool.eq_false_iff.2 hplace⟩

theorem updateBefore (hp : p.Reads clean) {op : UpdateOp}
    (h : ∀ v u, v.Whole clean ctx → post v (.code u)) :
    (Grammar.updateBefore p ctx op).Reads clean (.code t) post :=
  fun u => (hp.unary ctx u).into fun _ u' hv => checkUpdateTarget fun hrule => finish fun _ =>
    h (.update ..) u' ⟨.one hv.1 hrule rfl, Nat.le_refl _⟩

theorem updateAfter (hp : p.Reads clean) (h : ∀ v u, v.Whole clean ctx → post v (.code u)) :
    (Grammar.updateAfter p ctx).Reads clean (.code t) post := by
  simp only [Grammar.updateAfter, reads_bind, reads_look]
  refine chain hp fun value u hvalue => ?_
  split
  · exact h _ u hvalue
  · refine reads_ite.mpr ⟨fun _ => h _ u hvalue, fun _ => checkUpdateTarget fun hrule u' => ?_⟩
    exact finish fun _ => h (.update ..) u' ⟨.one hvalue.fits hrule rfl, Nat.le_refl _⟩

/-- Only behind an operator is there an operation. -/
theorem unary (hp : p.Reads clean) (h : ∀ v u, v.Fits clean ctx → 13 ≤ v.tightness →
      (v.tightness = 13 → ctx.startsPrefix t.token = true) → post v (.code u)) :
    (Grammar.unary p ctx).Reads clean (.code t) post := by
  have hwhole : ∀ v u, v.Whole clean ctx → post v (.code u) := fun v u hv =>
    h v u hv.fits (Nat.le_of_succ_le hv.binds) fun heq => by
      have hbinds := hv.binds
      omega
  simp only [Grammar.unary, reads_bind, reads_look, Ahead.token_code]
  cases hop : unaryOp? t.token with
  | some op =>
    refine unaryOperation hp fun v u hv heq => h v u hv (Nat.le_of_eq heq.symm) fun _ => ?_
    simp [Context.startsPrefix, hop]
  | none =>
    refine reads_ite.mpr ⟨fun hawait => ?_, fun _ => ?_⟩
    · refine awaitOperation hp (Bool.and_eq_true_iff.1 hawait).1 fun v u hv heq =>
        h v u hv (Nat.le_of_eq heq.symm) fun _ => ?_
      simp [Context.startsPrefix, hawait]
    · cases updateOp? t.token with
      | some op => exact updateBefore hp hwhole
      | none => exact updateAfter hp hwhole

/-- The base of a power is no operation. -/
theorem exponentiation (hp : p.Reads clean)
    (h : ∀ v u, v.Fits clean ctx → 12 ≤ v.tightness → post v (.code u)) :
    (Grammar.exponentiation p ctx).Reads clean (.code t) post := by
  simp only [Grammar.exponentiation, reads_bind, reads_look, reads_ite, reads_pure, reads_reject,
    implies_true, true_and]
  refine unary hp fun base u hbase htight hfront =>
    ⟨fun _ => h base u hbase (by omega), fun _ hplain => ?_⟩
  have hbinds : 14 ≤ base.tightness :=
    Nat.lt_of_le_of_ne htight fun heq => hplain (hfront heq.symm)
  refine rejectCover fun hcover u => (hp.exponentiation ctx u).into fun power u' hpower =>
    rejectCover fun hcover' => finish fun _ => h (.binary ..) u' ?_ (Nat.le_refl _)
  exact .two hbase hpower.1 (.of_power hbinds hpower.2 hcover hcover') rfl

end

/-- The operators that group to the left are all but exponentiation. -/
theorem ne_exponent_of_binaryOp? {u : Token} {op : BinaryOp} (h : binaryOp? ctx u = some op) :
    op ≠ .exponent := by
  unfold binaryOp? at h
  split at h
  · have hop := (Option.filter_eq_some_iff.1 h).2
    simpa using hop
  · split at h
    · cases h
      exact fun hf => by cases hf
    · split at h
      · cases h
        exact fun hf => by cases hf
      · cases h
  · cases h

/-- Operators that are not mixed do not clash. -/
theorem clashes_of_mixesCoalescing {op : BinaryOp} {left right : Expr}
    (h : mixesCoalescing op left right = false) :
    (∀ op' ∈ left.operator?, op.clashes op' = false) ∧
      ∀ op' ∈ right.operator?, op.clashes op' = false := by
  have hside : ∀ (ops : List BinaryOp) (e : Expr), isOperationOf ops e = false →
      (∀ op', op.clashes op' = true → op' ∈ ops) → ∀ op' ∈ e.operator?, op.clashes op' = false := by
    intro ops e he hops op' hop'
    refine Bool.eq_false_iff.2 fun hclash => ?_
    cases e <;> cases hop'
    exact absurd (List.contains_iff_mem.2 (hops _ hclash)) (Bool.eq_false_iff.1 he)
  unfold mixesCoalescing at h
  obtain ⟨hleft, hright⟩ := Bool.or_eq_false_iff.1 h
  refine ⟨hside _ left hleft fun op' hclash => ?_, hside _ right hright fun op' hclash => ?_⟩
  all_goals
    unfold BinaryOp.clashes at hclash
    split at hclash
    case h_5 => cases hclash
    all_goals simp

section

variable {post : Expr → Ahead → Prop} {least : Nat}

/-- What was read so far binds at least as tightly as an operator that may follow. -/
theorem binaryStep (hp : p.Reads clean) {start : Position} {left : Expr}
    (hleft : left.Fits clean ctx) (hbinds : least ≤ left.tightness) (hone : 1 ≤ left.tightness)
    (hstops : ctx.StopsAt (left.tightness + 1) t.token) :
    (Grammar.binaryStep p ctx start least left).Reads clean (.code t) fun w s => w.elim
      (InCode (fun v => v.Fits clean ctx ∧ least ≤ v.tightness ∧ 1 ≤ v.tightness) left s ∧
        ctx.StopsAt least s.token)
      fun v => InCode (fun v => v.Fits clean ctx ∧ least ≤ v.tightness ∧ 1 ≤ v.tightness) v s ∧
        ctx.StopsAt (v.tightness + 1) s.token := by
  simp only [Grammar.binaryStep, reads_bind, reads_look, Ahead.token_code]
  cases hop : binaryOp? ctx t.token with
  | none =>
    refine ⟨.intro ⟨hleft, hbinds, hone⟩, fun op hop' => ?_⟩
    exact absurd (hop.symm.trans hop') (by simp)
  | some op =>
    have hexponent := ne_exponent_of_binaryOp? hop
    have hlt : op.precedence + 1 ≤ 12 := BinaryOp.precedence_lt hexponent
    refine reads_ite.mpr ⟨fun hless => ⟨.intro ⟨hleft, hbinds, hone⟩, fun op' hop' => ?_⟩,
      fun hmore => ?_⟩
    · cases hop.symm.trans hop'
      exact hless
    · refine rejectCover fun hcover u => (hp.binary _ ctx u hlt).imp ?_
      rintro right _ ⟨⟨hright, u', rfl⟩, hnext⟩
      refine rejectCover fun hcover' => ite_reject fun hmix => finish fun _ => ⟨.intro ?_, hnext⟩
      have hclash := clashes_of_mixesCoalescing (Bool.eq_false_iff.2 hmix)
      refine ⟨.two hleft hright.1 (.of_tightness hexponent ?_ hright.2.1 hcover hcover' hclash.1
        hclash.2) rfl, Nat.le_of_not_lt hmore, op.one_le_precedence⟩
      exact Nat.le_of_lt_succ (hstops op hop)

/-- A binary expression obeys the rules, binds as tightly as was asked, and stops where it must. -/
theorem binary (hp : p.Reads clean) (hleast : least ≤ 12)
    (h : ∀ v u, v.Fits clean ctx → least ≤ v.tightness → 1 ≤ v.tightness →
      ctx.StopsAt least u.token → post v (.code u)) :
    (Grammar.binary p least ctx).Reads clean (.code t) post := by
  refine exponentiation hp fun first u hfirst htight => iterate (R := fun v s =>
      InCode (fun v => v.Fits clean ctx ∧ least ≤ v.tightness ∧ 1 ≤ v.tightness) v s ∧
        ctx.StopsAt (v.tightness + 1) s.token)
    (S := fun v s =>
      InCode (fun v => v.Fits clean ctx ∧ least ≤ v.tightness ∧ 1 ≤ v.tightness) v s ∧
        ctx.StopsAt least s.token) ?_ ?_ ?_
  · rintro v _ ⟨⟨hv, u, rfl⟩, hstops⟩
    exact binaryStep hp hv.1 hv.2.1 hv.2.2 hstops
  · refine ⟨.intro ⟨hfirst, by omega, by omega⟩, fun op hop => ?_⟩
    have hlt := BinaryOp.precedence_lt (ne_exponent_of_binaryOp? hop)
    omega
  · rintro v _ ⟨⟨hv, u, rfl⟩, hstops⟩
    exact h v u hv.1 hv.2.1 hv.2.2 hstops

theorem conditional (hp : p.Reads clean) (h : ∀ v u, v.Fits clean ctx → post v (.code u)) :
    (Grammar.conditional p ctx).Reads clean (.code t) post := by
  simp only [Grammar.conditional, reads_bind, reads_here, reads_sees, reads_ite, reads_pure]
  refine binary hp (Nat.zero_le _) fun test u htest _ _ _ => ⟨fun _ => h test u htest, fun _ =>
    rejectCover fun _ _ => hp.ofAssignment fun _ _ hthen => expect fun _ _ =>
      hp.ofAssignment fun _ u helse => finish fun _ => h _ u (.three htest hthen helse trivial rfl)⟩

end

/-! ## Targets -/

/-- A conversion whose faults are tolerated; in a clean parse there are none. -/
theorem convertAs {α : Type} {finder : Finder} {site : Site} {conversion : Conversion α}
    {post : α → Ahead → Prop} (h : ∀ v faults, conversion.run [] = .ok v faults →
      (clean = true → faults = []) → post v s) :
    (Parse.convertAs finder site conversion).Reads clean s post := by
  have htolerated : ∀ faults {β : Type} {f : Unit → Parse β} {post : β → Ahead → Prop},
      ((clean = true → faults = []) → (f ()).Reads clean s post) →
      (Parse.tolerateAll finder site faults >>= f).Reads clean s post := by
    intro faults β f post hf
    cases faults with
    | nil => exact hf fun _ => rfl
    | cons fault faults =>
      have hall : ∀ faults, clean = false → (Parse.tolerateAll finder site faults).Reads clean s
          fun v s => (f v).Reads clean s post := by
        intro faults hc
        induction faults with
        | nil => exact hf (unclean hc)
        | cons fault faults ih => exact fun _ => ih
      exact fun hc => hall faults hc
  unfold Parse.convertAs
  split
  · exact htolerated _ fun hc => h _ _ ‹_› hc
  · exact htolerated _ fun _ => trivial

/-- What turns out to be a target obeys the rules. -/
theorem asTarget {use : TargetUse} {finder : Finder} {site : Site} {e : Expr}
    {post : Pattern → Ahead → Prop} (he : e.Fits clean ctx)
    (h : ∀ v, v.Fits clean ctx → (clean = true → ctx.MayAssign v.names) → post v s) :
    (Parse.convertAs finder site (e.asTarget use ctx.strict false)).Reads clean s post := by
  refine convertAs fun v faults hv hfaults => ?_
  obtain ⟨hfits, hnames⟩ := he.of_asTarget hv hfaults
  exact h v hfits hnames

section

variable {first : Token} {fault : Fault} {post : Pattern → Ahead → Prop}

theorem simpleTarget {e : Expr} (he : e.Fits clean ctx) (h : ∀ v, v.Fits clean ctx →
      v.isPlace = true → (clean = true → ctx.MayAssign v.names) → post v s) :
    (Parse.simpleTarget ctx e first fault).Reads clean s post := by
  unfold Parse.simpleTarget
  split
  · refine ite_tolerate fun hfree => h _ (.leaf trivial rfl) rfl fun hc hs => ?_
    refine List.forall_mem_singleton.2 (Bool.eq_false_iff.2 fun hr => hfree hc ?_)
    exact Bool.and_eq_true_iff.2 ⟨hs, hr⟩
  · refine ite_tolerate fun hsimple => h _ (.one he (fun hc => ?_) rfl) rfl fun _ => .nil
    simpa using hsimple hc

theorem assignmentTarget {e : Expr} (he : e.Fits clean ctx)
    (h : ∀ v, v.Fits clean ctx → (clean = true → ctx.MayAssign v.names) → post v s) :
    (Parse.assignmentTarget ctx e first fault).Reads clean s post := by
  unfold Parse.assignmentTarget
  split
  · exact asTarget he h
  · exact asTarget he h
  · exact simpleTarget he fun v hv _ => h v hv

end

/-! ## Arrow functions -/

theorem arrowBody (hp : p.Reads clean) {post : Tree .arrowBody × Bool → Ahead → Prop}
    (h : ∀ r u, r.2 = (ctx.strict || arrowHasUseStrict r.1) →
      r.1.Fits clean { ctx with strict := ctx.strict || arrowHasUseStrict r.1 } →
        post r (.code u)) :
    (Grammar.arrowBody p ctx).Reads clean (.code t) post := by
  simp only [Grammar.arrowBody, reads_bind, reads_sees, reads_ite, reads_pure]
  refine ⟨fun _ => functionBody hp fun r u hstrict hbody => ?_,
    fun _ => hp.ofAssignment fun value u hv => ?_⟩
  · exact h (.blockBody r.1, r.2) u hstrict (.one hbody trivial rfl)
  · refine h (.exprBody value, ctx.strict) u (Bool.or_false _).symm ?_
    have hbody : (Tree.exprBody value).Fits clean ctx := .one hv trivial rfl
    exact .ofDirective hbody fun hf => by cases hf

section

variable {post : Expr → Ahead → Prop}

/-- The parameters in front of a body obey the rules of its code. -/
theorem arrow (hp : p.Reads clean) {start : Position} {asyncLead : Option String}
    {params : Tree .arrowParams} {site : Site} (hparams : params.Fits clean ctx)
    (h : ∀ v u, v.Fits clean ctx → post v (.code u)) :
    (Grammar.arrow p ctx start asyncLead params site).Reads clean (.code t) post := by
  refine expect fun arrowLead _ _ => arrowBody hp fun r u hstrict hbody => ?_
  obtain ⟨body, strict⟩ := r
  obtain rfl : strict = (ctx.strict || arrowHasUseStrict body) := hstrict
  refine ite_reject fun hplain => checkParameters (fun hdirective => ?_) fun hrule =>
    finish fun _ =>
    h _ u (.arrow hparams hbody hrule)
  simpa [hdirective] using hplain

theorem bareArrow (hp : p.Reads clean) {start : Position} {asyncLead : Option String} {id : Ident}
    {first : Token} (h : ∀ v u, v.Fits clean ctx → post v (.code u)) :
    (Grammar.bareArrow p ctx start asyncLead id first).Reads clean (.code t) post := by
  have harrow : (Grammar.arrow p ctx start asyncLead (.bareParam id) first.site).Reads clean
      (.code t) post := arrow hp (.leaf trivial rfl) h
  simp [Grammar.bareArrow, harrow]

/-- The items of a group that obey the rules are converted to parameters that do. -/
theorem groupParameters {site : Site} {trailing : Bool} {items : List Expr}
    {post : List Pattern → Ahead → Prop} (hitems : ∀ item ∈ items, item.Fits clean ctx)
    (h : ∀ vs, (∀ v ∈ vs, v.Fits clean ctx) → post vs s) :
    (Grammar.groupParameters ctx site trailing items).Reads clean s post := by
  refine Meets.groupParameters (P := Tree.Fits clean ctx) (fun _ _ => trivial)
    (fun lead operand span hmem => ?_) (fun item hmem => ?_) h
  · have hoperand : operand.Fits clean ctx := (hitems _ hmem).part (List.mem_singleton_self _)
    refine convertAs fun target faults htarget hfaults => ?_
    obtain ⟨v, s₁, hv, hcheck⟩ := Run.bind_eq_ok.1 htarget
    obtain ⟨_, s₂, hrest, hreturn⟩ := Run.bind_eq_ok.1 hcheck
    obtain ⟨rfl, rfl⟩ := Run.pure_eq_ok.1 hreturn
    obtain rfl := Tree.same_of_checkRest hrest
    have hfits : v.Fits clean ctx := (hoperand.of_asTarget hv hfaults).1
    exact ⟨rfl, .one hfits trivial rfl⟩
  · exact asTarget (hitems item hmem) fun _ hv _ => ⟨rfl, hv⟩

theorem groupArrow (hp : p.Reads clean) {start : Position} {asyncLead : Option String}
    {openLead closeLead : String} {items : List Expr} {separators : List String}
    (hitems : ∀ item ∈ items, item.Fits clean ctx)
    (h : ∀ v u, v.Fits clean ctx → post v (.code u)) :
    (Grammar.groupArrow p ctx start asyncLead openLead items separators closeLead).Reads clean
      (.code t) post := by
  refine groupParameters hitems fun vs hvs => ite_reject fun _ => arrow hp ?_ h
  have hparams : (Tree.paramList openLead (.ofList vs) separators closeLead).Fits clean ctx :=
    .one (.ofList hvs) trivial rfl
  exact .one hparams trivial rfl

theorem asyncBareArrow (hp : p.Reads clean) (h : ∀ v u, v.Fits clean ctx → post v (.code u)) :
    (Grammar.asyncBareArrow p ctx).Reads clean (.code t) post := by
  simp only [Grammar.asyncBareArrow, reads_bind, reads_here, reads_lead, reads_next, reads_look,
    reads_ite, reads_unexpected, implies_true, true_and]
  exact fun _ _ => finishName fun _ _ _ => bareArrow hp h

/-! ## Assignments -/

/-- A yield expression obeys the rules where the context allows it. -/
theorem yieldExpression (hp : p.Reads clean) (hyield : ctx.allowsYield = true)
    (h : ∀ v u, v.Fits clean ctx → post v (.code u)) :
    (Grammar.yieldExpression p ctx).Reads clean (.code t) post := by
  simp only [Grammar.yieldExpression, reads_bind, reads_look, reads_ite, reads_reject, reads_next,
    reads_pure, reads_lead, implies_true, true_and]
  intro hplace u
  have hrule : ctx.allowsYield = true ∧ ctx.inParameters = false :=
    ⟨hyield, Bool.eq_false_iff.2 hplace⟩
  have hpresent : ∀ {u : CodeToken} {starLead : Option String},
      (p.assignment ctx).Reads clean (.code u) fun v s =>
        (Parse.finish .yield t.token.start).Reads clean s fun span s =>
          post (.yield t.token.lead starLead (.present v) span) s :=
    hp.ofAssignment fun _ u hv => finish fun _ => h _ u (.one hv.present hrule rfl)
  have habsent : (Parse.finish .yield t.token.start).Reads clean (.code u) fun span s =>
      post (.yield t.token.lead none .absent span) s := by
    have hnone : (Tree.absent : Tree (.maybe .expr)).Fits clean ctx := .absent
    exact finish fun _ => h _ u (.one hnone hrule rfl)
  exact ⟨fun _ => habsent, fun _ => ⟨fun _ _ => hpresent, fun _ =>
    ⟨fun _ => hpresent, fun _ => habsent⟩⟩⟩

/-- An assignment obeys the rules if what stands to its left does. -/
theorem assignTo (hp : p.Reads clean) {first : Token} {left : Expr} {op : AssignOp}
    {before : Option Site} (hleft : left.Fits clean ctx)
    (h : ∀ v u, v.Fits clean ctx → post v (.code u)) :
    (Grammar.assignTo p ctx first left op before).Reads clean (.code t) post := by
  have hrest : ∀ {target : Pattern}, target.Fits clean ctx →
    (op ≠ .assign → target.isPlace = true) →
      (clean = true → ctx.MayAssign target.names) →
      (setPending before).Reads clean (.code t) fun _ s => Parse.lead.Reads clean s fun opLead s =>
        (p.assignment ctx).Reads clean s fun value s =>
          (Parse.finish .assignment first.start).Reads clean s fun span s =>
            post (.assignment target opLead op value span) s :=
    fun ht hplace hnames _ => hp.ofAssignment fun _ u hv => finish fun _ =>
      h _ u (.two ht hv ⟨hplace, hnames⟩ rfl)
  simp only [Grammar.assignTo, reads_bind, reads_ite]
  refine ⟨fun hop => assignmentTarget hleft fun _ hv => ?_, fun _ =>
    simpleTarget hleft fun _ hv hplace => hrest hv fun _ => hplace⟩
  exact hrest hv fun hne => absurd hop hne

theorem settle {value : Expr} {before : Option Site} (h : post value s) :
    (Grammar.settle value before).Reads clean s post := by
  intro now
  cases now with
  | none => exact h
  | some site => exact ite_reject fun _ => h

/-- An arrow function obeys the rules if what stands in front of its arrow does. -/
theorem arrowAfter? (hp : p.Reads clean) {first : Token} {value : Expr} {before : Option Site}
    {post : Option Expr → Ahead → Prop} (hvalue : value.Fits clean ctx)
    (hnone : post none (.code t))
    (h : ∀ v u, v.Fits clean ctx → post (some v) (.code u)) :
    (Grammar.arrowAfter? p ctx first value before).Reads clean (.code t) post := by
  simp only [Grammar.arrowAfter?, reads_bind, reads_look]
  refine reads_ite.mpr ⟨fun _ => hnone, fun _ => ?_⟩
  split
  · simp only [reads_ite, reads_bind, reads_unexpected, reads_setPending, reads_map, implies_true,
      true_and]
    exact fun _ => groupArrow hp
      (Tree.Fits.toList (hvalue.part (List.mem_singleton_self _))) h
  · simp only [reads_ite, reads_bind, reads_unexpected, reads_setPending, reads_map, implies_true,
      true_and]
    exact fun _ => bareArrow hp h
  · exact hnone

theorem plainCover (hp : p.Reads clean) (h : ∀ v u, v.Fits clean ctx → post v (.code u)) :
    (Grammar.plainCover p ctx).Reads clean (.code t) post := by
  refine fun before => conditional hp fun value u hvalue => arrowAfter? hp hvalue ?_ h
  simp only [of_meets, reads_bind, reads_look, Ahead.token_code]
  cases assignOp? u.token with
  | some op => exact assignTo hp hvalue h
  | none => exact settle (h value u hvalue)

theorem cover (hp : p.Reads clean) (h : ∀ v u, v.Fits clean ctx → post v (.code u)) :
    (Grammar.cover p ctx).Reads clean (.code t) post := by
  simp only [Grammar.cover, Grammar.seesAsyncBareArrow, reads_bind, reads_look, reads_ite,
    reads_seesWord, reads_peek, reads_pure]
  exact ⟨fun hyield => yieldExpression hp (Bool.and_eq_true_iff.1 hyield).1 h, fun _ =>
    ⟨fun _ _ => ⟨fun _ => asyncBareArrow hp h, fun _ => plainCover hp h⟩,
      fun _ => ⟨fun _ => asyncBareArrow hp h, fun _ => plainCover hp h⟩⟩⟩

theorem assignment (hp : p.Reads clean) (h : ∀ v u, v.Fits clean ctx → post v (.code u)) :
    (Grammar.assignment p ctx).Reads clean (.code t) post :=
  fun _ => cover hp fun v u hv => rejectPending (h v u hv)

theorem sequenceFrom (hp : p.Reads clean) {start : Position} {first : Expr}
    (hfirst : first.Fits clean ctx) (h : ∀ v u, v.Fits clean ctx → post v (.code u)) :
    (Grammar.sequenceFrom p ctx start first).Reads clean (.code t) post := by
  simp only [Grammar.sequenceFrom, reads_bind, reads_sees, reads_ite, reads_pure]
  refine ⟨fun _ => h _ t hfirst, fun _ => afterCommas (hp.assignment ctx) fun r u hr =>
    finish fun _ => h _ u (.one (.ofList ?_) trivial rfl)⟩
  exact List.forall_mem_cons.2 ⟨hfirst, hr⟩

theorem expression (hp : p.Reads clean) (h : ∀ v u, v.Fits clean ctx → post v (.code u)) :
    (Grammar.expression p ctx).Reads clean (.code t) post :=
  assignment hp fun _ _ hv => sequenceFrom hp hv h

end

end Parse.Reads

end Verbatim
