import Verbatim.Proofs.Resolved.Expression

/-!
# Operands, operators and assignments

A literal may hand what is pending on to what stands around it, and so may the accesses and calls
behind it and every operator. In the end an assignment makes the literal a pattern, an arrow makes
the group around it parameters, or somebody fails because something is pending.
-/

namespace Verbatim

open Verbatim.Grammar

namespace Parse.Resolves

variable {p : Productions} {ctx : Context} {t : Token} {s : Bool}

/-! ## Operands -/

/-- An item behind dots is resolved where the item is. -/
theorem spreadOr {value : Parse Expr} {R : Bool → Prop} {f : Bool → Bool}
    (hvalue : value.Resolves s fun v s' => R s' ∧ v.Resolved (f s')) :
    (Grammar.spreadOr value).Resolves s fun v s' => R s' ∧ v.Resolved (f s') := by
  simp only [Grammar.spreadOr, resolves_bind, resolves_look, resolves_ite]
  refine fun _ => ⟨fun _ => lead fun _ => hvalue.imp fun v s' hv => finish fun _ => ?_,
    fun _ => hvalue⟩
  exact ⟨hv.1, .spread hv.2⟩

theorem arrayRound (hp : p.Resolves) :
    (Grammar.arrayRound p ctx).Resolves s fun r s' => (s = true → s' = true) ∧
      r.All (Tree.Resolved s') := by
  simp only [Grammar.arrayRound, resolves_bind, resolves_ite]
  refine sees fun _ => ⟨fun _ => separator fun _ => ⟨id, .absent⟩, fun _ => ?_⟩
  exact (spreadOr (hp.cover ctx s)).imp fun _ _ hv => ⟨hv.1, .present hv.2⟩

theorem arrayLiteral (hp : p.Resolves) {post : Expr → Bool → Prop}
    (h : ∀ v s', (s = true → s' = true) → v.Resolved s' → post v s') :
    (Grammar.arrayLiteral p ctx).Resolves s post :=
  here fun _ => expect fun _ => listed (fun hle hv => hv.mono hle) (fun _ => arrayRound hp)
    fun _ s' hs hr => expect fun _ => finish fun _ =>
      h _ s' hs (.array (Tree.Resolved.ofList_iff.2 hr))

theorem markPending {site : Site} {post : Unit → Bool → Prop} (h : post () true) :
    (Grammar.markPending site).Resolves s post :=
  fun o _ => restore (by cases o <;> rfl) h

/-- A shorthand property with a default is pending. -/
theorem shorthandValue (hp : p.Resolves) {start : Position} {id : Ident} {post : Expr → Bool → Prop}
    (h : ∀ v s', (s = true → s' = true) → v.Resolved s' → (v.isAssignment = true → s' = true) →
      post v s') :
    (Grammar.shorthandValue p ctx start id).Resolves s post := by
  simp only [Grammar.shorthandValue, resolves_bind, resolves_look, resolves_ite]
  refine fun _ =>
    ⟨fun _ => lead fun _ => markPending (hp.ofAssignment fun _ hv => finish fun _ => ?_),
    fun _ => h _ s (fun hs => hs) .identifier fun hf => by cases hf⟩
  exact h _ true (fun _ => rfl) (.assignment .namePattern hv) fun _ => rfl

@[simp]
theorem shorthandName {name : Tree .key} {post : Ident → Bool → Prop} (h : ∀ v, post v s) :
    (Grammar.shorthandName ctx t name).Resolves s post := by
  unfold Grammar.shorthandName
  split <;> simp [h]

theorem property (hp : p.Resolves) {post : Tree .member → Bool → Prop}
    (h : ∀ v s', (s = true → s' = true) → v.Resolved s' → post v s') :
    (Grammar.property p ctx).Resolves s post := by
  simp only [Grammar.property, resolves_bind, resolves_look, resolves_ite]
  refine here fun _ => modifiers fun _ first => key hp fun _ hkey t => ⟨fun _ => ?_, fun _ =>
    ⟨fun _ => lead fun _ => hp.ofCover fun _ s' hs hv => finish fun _ => ?_, fun _ => ?_⟩⟩
  · exact methodFunction hp fun _ hv => finish fun _ =>
      h _ s id (.property hkey (.functionExpr hv) (by simp))
  · exact h _ s' hs (.property hkey hv (by simp))
  · exact shorthandName fun _ => checkReference (shorthandValue hp fun _ s' hs hv hpends =>
      finish fun _ => h _ s' hs (.property hkey hv hpends))

theorem objectMember (hp : p.Resolves) {post : Tree .member → Bool → Prop}
    (h : ∀ v s', (s = true → s' = true) → v.Resolved s' → post v s') :
    (Grammar.objectMember p ctx).Resolves s post := by
  simp only [Grammar.objectMember, resolves_bind, resolves_look, resolves_ite]
  refine fun _ => ⟨fun _ => lead fun _ => hp.ofCover fun _ s' hs hv => finish fun _ => ?_,
    fun _ => ?_⟩
  · exact h _ s' hs (.spreadMember hv)
  · exact property hp h

theorem objectLiteral (hp : p.Resolves) {post : Expr → Bool → Prop}
    (h : ∀ v s', (s = true → s' = true) → v.Resolved s' → post v s') :
    (Grammar.objectLiteral p ctx).Resolves s post :=
  here fun _ => expect fun _ => listed (fun hle hv => hv.mono hle)
    (fun _ => objectMember hp fun _ _ hs hv => ⟨hs, hv⟩)
    fun _ s' hs hr => expect fun _ => finish fun _ =>
      h _ s' hs (.object (Tree.Resolved.ofList_iff.2 hr))

theorem argumentList (hp : p.Resolves) {post : Tree .arguments → Bool → Prop}
    (h : ∀ v, v.Resolved false → post v s) : (Grammar.argumentList p ctx).Resolves s post :=
  expect fun _ => listedAll (P := Tree.Resolved false) (spreadOr (hp.assignment ctx.inside s))
    fun _ hr => expect fun _ => h _ (.argumentList (Tree.Resolved.ofList_iff.2 hr))

/-! ## Groups -/

theorem readGroup (hp : p.Resolves) {post : Group → Bool → Prop}
    (h : ∀ g s', (s = true → s' = true) → (∀ v ∈ g.values, v.Resolved s') → post g s') :
    (Grammar.readGroup p ctx).Resolves s post := by
  have hitem : ∀ s, (Grammar.groupItem p ctx.inside).Resolves s fun item s' =>
      (s = true → s' = true) ∧ item.value.Resolved s' := fun s =>
    here fun _ => (spreadOr (hp.cover ctx.inside s)).imp fun _ _ hv _ => hv
  refine expect fun _ => listed (fun hle hv => hv.mono hle) hitem fun _ s' hs hr =>
    expect fun _ => ?_
  exact h _ s' hs (List.forall_mem_map.2 hr)

/-- Behind this, nothing is pending. -/
theorem rejectPending {post : Unit → Bool → Prop} (h : s = false → post () s) :
    Grammar.rejectPending.Resolves s post := by
  intro o ho
  cases o with
  | none => exact h ho.symm
  | some site => trivial

theorem groupValue {g : Group} {post : Expr → Bool → Prop} (hg : ∀ v ∈ g.values, v.Resolved false)
    (h : ∀ v, v.Resolved false → post v s) : (Grammar.groupValue g).Resolves s post := by
  unfold Grammar.groupValue
  split
  · rename_i hvalues
    exact h _ (hg _ (hvalues ▸ List.mem_singleton_self _))
  · exact finishAt fun _ => h _ (.sequence (Tree.Resolved.ofList_iff.2 hg))
  · exact stalled

theorem parenthesized {start : Position} {g : Group} {post : Expr → Bool → Prop}
    (hg : ∀ v ∈ g.values, v.Resolved s) (h : ∀ v, v.Resolved false → post v s) :
    (Grammar.parenthesized ctx start g).Resolves s post := by
  simp only [Grammar.parenthesized, resolves_ite, resolves_bind, unexpectedHere, implies_true,
    true_and]
  intro _
  cases hs : g.spreadSite? with
  | some site => trivial
  | none =>
    refine rejectPending fun hs => groupValue (hs ▸ hg) fun _ hv => finish fun _ => ?_
    exact h _ (.parenthesized hv)

theorem group (hp : p.Resolves) {post : Expr → Bool → Prop}
    (h : ∀ v s', (s = true → s' = true) → v.Resolved s' → post v s') :
    (Grammar.group p ctx).Resolves s post := by
  simp only [Grammar.group, resolves_bind, resolves_ite]
  refine here fun _ => readGroup hp fun g s' hs hg => sees fun _ => ⟨fun _ => extent fun _ => ?_,
    fun _ => parenthesized hg fun _ hv => h _ s' hs (hv.mono (by simp))⟩
  exact h _ s' hs (.cover (Tree.Resolved.ofList_iff.2 fun v hv => (hg v hv).mono fun _ => rfl))

theorem nameOperand (hp : p.Resolves) {post : Expr → Bool → Prop}
    (h : ∀ v, v.Resolved false → post v s) : (Grammar.nameOperand p ctx).Resolves s post := by
  have hname : next.Resolves s fun t s' => (Grammar.checkReference ctx t).Resolves s' fun _ s' =>
      (Parse.finishName t).Resolves s' fun id s' => post (.identifier id) s' :=
    fun _ => checkReference (finishName fun _ => h _ .identifier)
  simp only [Grammar.nameOperand, resolves_bind, resolves_ite, resolves_peek, resolves_pure]
  exact seesWord fun _ => ⟨fun _ _ => ⟨fun _ => functionExpression hp h, fun _ => hname⟩,
    fun _ => ⟨fun hf => absurd hf Bool.false_ne_true, fun _ => hname⟩⟩

section

variable {post : Expr → Bool → Prop}

/-- An operand that starts with a punctuator is resolved but for what is pending. -/
theorem punctuatedOperand (hp : p.Resolves)
    (h : ∀ v s', (s = true → s' = true) → v.Resolved s' → post v s') :
    (Grammar.punctuatedOperand p ctx t).Resolves s post := by
  unfold Grammar.punctuatedOperand
  split
  · exact group hp h
  · exact arrayLiteral hp h
  · exact objectLiteral hp h
  · exact literal fun _ => h _ s id .literal
  · exact literal fun _ => h _ s id .literal
  · exact resolves_ite.mpr ⟨fun _ => markupRoot hp fun _ hv => h _ s id (hv.mono (by simp)),
      fun _ => trivial⟩
  · trivial

theorem keywordOperand (hp : p.Resolves)
    (h : ∀ v s', (s = true → s' = true) → v.Resolved s' → post v s') :
    (Grammar.keywordOperand p ctx t).Resolves s post := by
  unfold Grammar.keywordOperand
  split
  · exact lead fun _ => finish fun _ => h _ s id .receiver
  · exact functionExpression hp fun _ hv => h _ s id (hv.mono (by simp))
  · exact classDefinition hp fun _ s' hs hv => h _ s' hs (.classExpr hv)
  · trivial

/-- An operand is resolved but for what is pending. -/
theorem operand (hp : p.Resolves)
    (h : ∀ v s', (s = true → s' = true) → v.Resolved s' → post v s') :
    (Grammar.operand p ctx).Resolves s post := by
  have hliteral : (Grammar.literal ctx).Resolves s fun lit s' => post (.literal lit) s' :=
    literal fun _ => h _ s id .literal
  simp only [Grammar.operand, resolves_bind, resolves_look]
  intro t
  split
  · exact nameOperand hp fun _ hv => h _ s id (hv.mono (by simp))
  all_goals try exact hliteral
  · exact resolves_ite.mpr ⟨fun _ => template hp fun _ hv => h _ s id (.template hv),
      fun _ => trivial⟩
  · exact punctuatedOperand hp h
  · exact keywordOperand hp h
  · trivial

end

/-! ## Chains -/

theorem accessName {post : Tree .access → Bool → Prop} (h : ∀ v, v.Resolved false → post v s) :
    (Grammar.accessName ctx).Resolves s post := by
  simp [Grammar.accessName, h]

theorem accessIndex (hp : p.Resolves) {post : Tree .access → Bool → Prop}
    (h : ∀ v, v.Resolved false → post v s) : (Grammar.accessIndex p ctx).Resolves s post :=
  expect fun _ => hp.ofExpression fun _ hv => expect fun _ => h _ (.computedAccess hv)

theorem taggedTemplate (hp : p.Resolves) {start : Position} {tag : Expr} {post : Expr → Bool → Prop}
    (htag : tag.Resolved s) (h : ∀ v, v.Resolved s → post v s) :
    (Grammar.taggedTemplate p ctx start tag).Resolves s post :=
  template hp fun _ hv => finish fun _ => h _ (.tagged htag hv)

theorem optionalLink (hp : p.Resolves) {start : Position} {base : Expr} {post : Expr → Bool → Prop}
    (hbase : base.Resolved s) (h : ∀ v, v.Resolved s → post v s) :
    (Grammar.optionalLink p ctx start base).Resolves s post := by
  simp only [Grammar.optionalLink, resolves_bind, resolves_look, resolves_ite, resolves_reject,
    implies_true, true_and]
  refine lead fun _ _ => ⟨fun _ => ?_, fun _ => ⟨fun _ => ?_, fun _ _ => ?_⟩⟩
  · exact argumentList hp fun _ hv => finish fun _ => h _ (.call hbase hv)
  · exact accessIndex hp fun _ hv => finish fun _ => h _ (.memberAccess hbase hv)
  · exact accessName fun _ hv => finish fun _ => h _ (.memberAccess hbase hv)

theorem plainLink (hp : p.Resolves) {start : Position} {base : Expr} {front : Bool}
    {post : Option Expr → Bool → Prop} (hbase : base.Resolved front)
    (h : ∀ w, (∀ v ∈ w, v.Resolved front) → post w s) :
    (Grammar.plainLink p ctx start base).Resolves s post := by
  have hsome : ∀ {v : Expr}, v.Resolved front → post (some v) s :=
    fun hv => h _ fun _ hm => Option.some.inj hm ▸ hv
  simp only [Grammar.plainLink, resolves_bind, resolves_look, resolves_ite, resolves_map]
  refine fun _ =>
    ⟨fun _ => ?_, fun _ => ⟨fun _ => ?_, fun _ => ⟨fun _ => ?_, fun _ => h _ (by simp)⟩⟩⟩
  · exact lead fun _ => accessName fun _ hv => finish fun _ => hsome (.memberAccess hbase hv)
  · exact accessIndex hp fun _ hv => finish fun _ => hsome (.memberAccess hbase hv)
  · exact argumentList hp fun _ hv => finish fun _ => hsome (.call hbase hv)

/-- A link of a chain settles nothing of what is pending in front of it. -/
theorem chainLink (hp : p.Resolves) {start : Position} {c : Chain}
    {post : Option Chain → Bool → Prop} (hc : c.value.Resolved s)
    (h : ∀ w, (∀ c ∈ w, c.value.Resolved s) → post w s) :
    (Grammar.chainLink p ctx start c).Resolves s post := by
  simp only [Grammar.chainLink, resolves_bind, resolves_look, resolves_ite, resolves_reject,
    implies_true, true_and]
  refine fun _ => ⟨fun _ => optionalLink hp hc fun _ hv => h _ fun _ hm => ?_, fun _ =>
    ⟨fun _ _ => taggedTemplate hp hc fun _ hv => h _ fun _ hm => ?_, fun _ => ?_⟩⟩
  · exact Option.some.inj hm ▸ hv
  · exact Option.some.inj hm ▸ hv
  · refine plainLink hp hc fun w hw => h _ fun c' hm => ?_
    obtain ⟨v, hv, rfl⟩ := Option.map_eq_some_iff.1 hm
    exact hw v hv

theorem superclass {post : Expr → Bool → Prop} (h : ∀ v, v.Resolved false → post v s) :
    (Grammar.superclass ctx).Resolves s post := by
  simp [Grammar.superclass, h]

theorem metaProperty {word : String} {check : Parse Unit} {post : Expr → Bool → Prop}
    (hcheck : ∀ {post : Unit → Bool → Prop}, post () s → check.Resolves s post)
    (h : ∀ v, v.Resolved false → post v s) :
    (Grammar.metaProperty ctx t word check).Resolves s post := by
  simp only [Grammar.metaProperty, resolves_bind, resolves_ite, unexpectedHere, implies_true,
    true_and]
  exact finish fun _ => lead fun _ => seesWord fun _ _ => anyName fun _ => hcheck (finish fun _ =>
    h _ .metaProperty)

/-- What is constructed is resolved but for what is pending. -/
theorem construct (hp : p.Resolves) {post : Expr → Bool → Prop}
    (h : ∀ v s', (s = true → s' = true) → v.Resolved s' → post v s') :
    (Grammar.construct p ctx).Resolves s post := by
  simp only [Grammar.construct, resolves_bind, resolves_next, resolves_ite, unexpectedHere,
    implies_true, true_and, resolves_map, resolves_pure]
  refine fun _ => sees fun _ => ⟨fun _ => ?_, fun _ => seesKeyword fun _ _ => ?_⟩
  · exact metaProperty (fun hpost => by simp [hpost]) fun _ hv => h _ s id (hv.mono (by simp))
  · refine hp.ofCallee fun _ s' hs hbase _ => sees fun _ =>
      ⟨fun _ => ?_, fun _ => finish fun _ => ?_⟩
    · exact argumentList hp fun _ hargs => finish fun _ =>
        h _ s' hs (.construct hbase (.present hargs))
    · exact h _ s' hs (.construct hbase .absent)

theorem importExpression (hp : p.Resolves) {post : Expr → Bool → Prop}
    (h : ∀ v, v.Resolved false → post v s) : (Grammar.importExpression p ctx).Resolves s post := by
  simp only [Grammar.importExpression, resolves_bind, resolves_next, resolves_ite]
  refine fun _ => sees fun _ => ⟨fun _ => metaProperty (fun hpost => by simp [hpost]) h,
    fun _ => ?_⟩
  exact expect fun _ => hp.ofAssignment fun _ hv => expect fun _ => finish fun _ =>
    h _ (.importCall hv)

/-- Where no arrow follows, nothing is pending in the arguments. -/
theorem asyncCall (hp : p.Resolves) {start : Position} {name : Ident} {post : Expr → Bool → Prop}
    (h : ∀ v, v.Resolved false → post v s) :
    (Grammar.asyncCall p ctx start name).Resolves s post := by
  simp only [Grammar.asyncCall, resolves_bind, resolves_look, resolves_ite, resolves_pure]
  refine fun before hbefore => clear (readGroup hp fun g s' _ hg t => ⟨fun _ => ?_, fun _ => ?_⟩)
  · refine restore hbefore (extent fun _ => h _ (.cover ?_))
    exact Tree.Resolved.ofList_iff.2 fun v hv => (hg v hv).mono fun _ => rfl
  · refine rejectPending fun hs' => restore hbefore (finish fun _ => ?_)
    refine iterateStill (P := Tree.Resolved false)
      (fun _ hv => plainLink hp hv fun w hw => ⟨rfl, hw⟩) (.call .identifier (.argumentList ?_)) h
    exact Tree.Resolved.ofList_iff.2 (hs' ▸ hg)

theorem chainHead (hp : p.Resolves) {post : Expr → Bool → Prop}
    (h : ∀ v s', (s = true → s' = true) → v.Resolved s' → post v s') :
    (Grammar.chainHead p ctx).Resolves s post := by
  have hstill : ∀ {v : Expr}, v.Resolved false → post v s := fun hv => h _ s id (hv.mono (by simp))
  simp only [Grammar.chainHead, resolves_bind, resolves_look, resolves_ite]
  exact fun _ => ⟨fun _ => superclass fun _ => hstill, fun _ => ⟨fun _ => construct hp h, fun _ =>
    ⟨fun _ => importExpression hp fun _ => hstill, fun _ => operand hp h⟩⟩⟩

@[simp]
theorem asyncCallee {value : Expr} {post : Option Ident → Bool → Prop} (h : ∀ v, post v s) :
    (Grammar.asyncCallee t value).Resolves s post := by
  simp only [Grammar.asyncCallee, resolves_bind, resolves_look]
  intro _
  split <;> simp [h]

/-- A chain is resolved but for what is pending. -/
theorem chain (hp : p.Resolves) {post : Expr → Bool → Prop}
    (h : ∀ v s', (s = true → s' = true) → v.Resolved s' → post v s') :
    (Grammar.chain p ctx).Resolves s post := by
  refine fun first => chainHead hp fun value s' hs hvalue => asyncCallee fun name => ?_
  cases name with
  | some name => exact asyncCall hp fun _ hv => h _ s' hs (hv.mono (by simp))
  | none =>
    refine iterate (P := fun s c => c.value.Resolved s)
      (fun c s hc => chainLink hp hc fun w hw => ?_)
      hvalue fun c s'' hs' hc => h _ s'' (hs' ∘ hs) hc
    cases w with
    | none => exact ⟨id, hc⟩
    | some c => exact ⟨id, hw c rfl⟩

theorem calleeLink (hp : p.Resolves) {start : Position} {base : Expr}
    {post : Option Expr → Bool → Prop} (hbase : base.Resolved s)
    (h : ∀ w, (∀ v ∈ w, v.Resolved s) → post w s) :
    (Grammar.calleeLink p ctx start base).Resolves s post := by
  simp only [Grammar.calleeLink, resolves_bind, resolves_look, resolves_ite, resolves_map,
    unexpected, implies_true, true_and]
  refine fun _ _ => ⟨fun _ => taggedTemplate hp hbase fun _ hv => h _ fun _ hm => ?_, fun _ =>
    ⟨fun _ => h _ (by simp), fun _ => plainLink hp hbase h⟩⟩
  exact Option.some.inj hm ▸ hv

/-- What is called is resolved but for what is pending. -/
theorem callee (hp : p.Resolves) {post : Expr → Bool → Prop}
    (h : ∀ v s', (s = true → s' = true) → v.Resolved s' → post v s') :
    (Grammar.callee p ctx).Resolves s post := by
  have hlinks : ∀ {start : Position} {v : Expr} {s' : Bool}, (s = true → s' = true) →
      v.Resolved s' → (Parse.iterate (Grammar.calleeLink p ctx start) p.rounds v).Resolves
        s' post := by
    intro start v s' hs hv
    refine iterate (P := fun s v => v.Resolved s) (fun v s hv => calleeLink hp hv fun w hw => ?_)
      hv fun v s'' hs' hv => h _ s'' (hs' ∘ hs) hv
    cases w with
    | none => exact ⟨id, hv⟩
    | some v => exact ⟨id, hw v rfl⟩
  simp only [Grammar.callee, resolves_bind, resolves_look, resolves_ite]
  exact fun _ => ⟨fun _ => construct hp fun _ _ hs hv => hlinks hs hv, fun _ =>
    ⟨fun _ => superclass fun _ hv => hlinks id (hv.mono (by simp)),
      fun _ => operand hp fun _ _ hs hv => hlinks hs hv⟩⟩

/-! ## Operators -/

/-- A group that is still to be resolved is no operand. -/
@[simp]
theorem rejectCover {e : Expr} {post : Unit → Bool → Prop} (h : post () s) :
    (Grammar.rejectCover ctx e).Resolves s post := by
  simp [Grammar.rejectCover, h]

@[simp]
theorem checkUpdateTarget {target : Expr} {fault : Fault} {post : Unit → Bool → Prop}
    (h : post () s) : (Grammar.checkUpdateTarget ctx target t fault).Resolves s post := by
  unfold Grammar.checkUpdateTarget
  split <;> simp [h]

section

variable {post : Expr → Bool → Prop}

theorem unaryOperation (hp : p.Resolves) {op : UnaryOp}
    (h : ∀ v s', (s = true → s' = true) → Standing s' v → post v s') :
    (Grammar.unaryOperation p ctx op).Resolves s post := by
  simp only [Grammar.unaryOperation, resolves_bind, resolves_next]
  refine fun t => hp.ofUnary fun operand s' hs hv => rejectCover ?_
  have hpost : ∀ {span}, post (.unary t.lead op operand span) s' :=
    h _ s' hs (.of_operation rfl fun hs' => .unary (hv.resolved hs'))
  split <;> simp [hpost]

theorem awaitOperation (hp : p.Resolves)
    (h : ∀ v s', (s = true → s' = true) → Standing s' v → post v s') :
    (Grammar.awaitOperation p ctx).Resolves s post := by
  simp only [Grammar.awaitOperation, resolves_bind, resolves_next, resolves_ite, resolves_look,
    resolves_reject, implies_true, true_and]
  exact fun _ _ => hp.ofUnary fun operand s' hs hv => rejectCover (finish fun _ =>
    h _ s' hs (.of_operation rfl fun hs' => .await (hv.resolved hs')))

theorem updateBefore (hp : p.Resolves) {op : UpdateOp}
    (h : ∀ v s', (s = true → s' = true) → Standing s' v → post v s') :
    (Grammar.updateBefore p ctx op).Resolves s post :=
  fun _ _ => hp.ofUnary fun _ s' hs hv => checkUpdateTarget (finish fun _ =>
    h _ s' hs (.of_operation rfl fun hs' => .update (hv.resolved hs')))

theorem updateAfter (hp : p.Resolves)
    (h : ∀ v s', (s = true → s' = true) → Standing s' v → post v s') :
    (Grammar.updateAfter p ctx).Resolves s post := by
  simp only [Grammar.updateAfter, resolves_bind, resolves_look]
  refine fun first => chain hp fun value s' hs hvalue t => ?_
  cases updateOp? t with
  | none => exact h _ s' hs (.of_resolved hvalue)
  | some op =>
    refine resolves_ite.mpr ⟨fun _ => h _ s' hs (.of_resolved hvalue),
      fun _ => checkUpdateTarget ?_⟩
    exact lead fun _ => finish fun _ => h _ s' hs
      (.of_operation rfl fun hs' => .update (hs' ▸ hvalue))

/-- A unary expression is resolved, or what is pending stands at its front. -/
theorem unary (hp : p.Resolves)
    (h : ∀ v s', (s = true → s' = true) → Standing s' v → post v s') :
    (Grammar.unary p ctx).Resolves s post := by
  simp only [Grammar.unary, resolves_bind, resolves_look]
  intro t
  cases unaryOp? t with
  | some op => exact unaryOperation hp h
  | none =>
    refine resolves_ite.mpr ⟨fun _ => awaitOperation hp h, fun _ => ?_⟩
    cases updateOp? t with
    | some op => exact updateBefore hp h
    | none => exact updateAfter hp h

theorem exponentiation (hp : p.Resolves)
    (h : ∀ v s', (s = true → s' = true) → Standing s' v → post v s') :
    (Grammar.exponentiation p ctx).Resolves s post := by
  simp only [Grammar.exponentiation, resolves_bind, resolves_look, resolves_ite, resolves_reject,
    implies_true, true_and]
  refine fun _ => unary hp fun base s' hs hbase _ => ⟨fun _ => h _ s' hs hbase, fun _ _ => ?_⟩
  refine rejectCover (lead fun _ => hp.ofExponentiation fun power s'' hs' hpower => ?_)
  refine rejectCover (finish fun _ => h _ s'' (hs' ∘ hs) (.of_operation rfl fun hs'' => ?_))
  exact .binary ((hbase.mono hs').resolved hs'') (hpower.resolved hs'')

/-- A binary expression is resolved, or what is pending stands at its front. -/
theorem binary (hp : p.Resolves) {least : Nat}
    (h : ∀ v s', (s = true → s' = true) → Standing s' v → post v s') :
    (Grammar.binary p least ctx).Resolves s post := by
  refine here fun start => exponentiation hp fun first s' hs hfirst => ?_
  refine iterate (P := Standing) (fun left s hleft => ?_) hfirst fun v s'' hs' hv =>
    h v s'' (hs' ∘ hs) hv
  simp only [Grammar.binaryStep, resolves_bind, resolves_look]
  intro t
  cases Grammar.binaryOp? ctx t with
  | none => exact ⟨id, hleft⟩
  | some op =>
    simp only [resolves_ite, resolves_bind, resolves_pure, resolves_reject, implies_true, true_and]
    refine ⟨fun _ => ⟨id, hleft⟩, fun _ => rejectCover (lead fun _ => hp.ofBinary
      fun right s'' hs' hright => rejectCover fun _ => finish fun _ => ⟨hs', ?_⟩)⟩
    exact .of_operation rfl fun hs'' =>
      .binary ((hleft.mono hs').resolved hs'') (hright.resolved hs'')

theorem conditional (hp : p.Resolves)
    (h : ∀ v s', (s = true → s' = true) → Standing s' v → post v s') :
    (Grammar.conditional p ctx).Resolves s post := by
  simp only [Grammar.conditional, resolves_bind, resolves_ite, resolves_pure]
  refine here fun _ => binary hp fun test s' hs htest => sees fun _ => ⟨fun _ => h _ s' hs htest,
    fun _ => rejectCover (lead fun _ => hp.ofAssignment fun _ hthen => expect fun _ =>
      hp.ofAssignment fun _ helse => finish fun _ => h _ s' hs (.of_operation rfl fun hs' => ?_))⟩
  exact .conditional (htest.resolved hs') hthen helse

end

/-! ## Targets -/

/-- A conversion that tolerates nothing. -/
theorem convertAs {α : Type} {finder : Finder} {site : Site} {conversion : Conversion α}
    {post : α → Bool → Prop} (h : ∀ v faults, conversion.run [] = .ok v faults → post v s) :
    (Parse.convertAs finder site conversion).Resolves s post := by
  have htolerated : ∀ faults {β : Type} {f : Unit → Parse β} {post : β → Bool → Prop},
      (faults = [] → (f ()).Resolves s post) →
      (Parse.tolerateAll finder site faults >>= f).Resolves s post := by
    intro faults β f post hf
    cases faults with
    | nil => exact hf rfl
    | cons => trivial
  unfold Parse.convertAs
  split
  · exact htolerated _ fun _ => h _ _ ‹_›
  · exact htolerated _ fun _ => trivial

/-- The front of an expression that is converted to a target may have something pending. -/
theorem asTarget {use : TargetUse} {strict : Bool} {finder : Finder} {site : Site} {e : Expr}
    {post : Pattern → Bool → Prop} (he : e.Resolved true) (h : ∀ v, v.Resolved false → post v s) :
    (Parse.convertAs finder site (e.asTarget use strict false)).Resolves s post :=
  convertAs fun _ _ hv => h _ (he.of_becomes (Tree.becomes_of_asTarget hv))

theorem simpleTarget {e : Expr} {fault : Fault} {post : Pattern → Bool → Prop}
    (he : Standing s e) (h : ∀ v, v.Resolved false → post v s) :
    (Parse.simpleTarget ctx e t fault).Resolves s post := by
  unfold Parse.simpleTarget
  split
  · simp [h]
  · simp only [resolves_ite, resolves_bind, resolves_tolerate, implies_true, true_and,
      Bool.not_eq_true', Bool.not_eq_false]
    intro hsimple
    exact h _ (.exprPattern (he.front (by simp [Tree.isFront, hsimple])))

theorem assignmentTarget {e : Expr} {fault : Fault} {post : Pattern → Bool → Prop}
    (he : Standing s e) (h : ∀ v, v.Resolved false → post v s) :
    (Parse.assignmentTarget ctx e t fault).Resolves s post := by
  unfold Parse.assignmentTarget
  split
  · exact asTarget (he.front rfl) h
  · exact asTarget (he.front rfl) h
  · exact simpleTarget he h

/-! ## Arrow functions -/

theorem arrowBody (hp : p.Resolves) {post : Tree .arrowBody × Bool → Bool → Prop}
    (h : ∀ r s', r.1.Resolved false → post r s') : (Grammar.arrowBody p ctx).Resolves s post := by
  simp only [Grammar.arrowBody, resolves_bind, resolves_ite]
  refine sees fun _ => ⟨fun _ => functionBody hp fun _ s' hr => h _ s' (.blockBody hr), fun _ => ?_⟩
  exact hp.ofAssignment fun _ hv => h _ s (.exprBody hv)

section

variable {post : Expr → Bool → Prop}

theorem arrow (hp : p.Resolves) {start : Position} {asyncLead : Option String}
    {params : Tree .arrowParams} {site : Site} (hparams : params.Resolved false)
    (h : ∀ v, v.Resolved false → post v s) :
    (Grammar.arrow p ctx start asyncLead params site).Resolves s post := by
  simp only [Grammar.arrow, resolves_bind, resolves_pending, resolves_ite, resolves_reject,
    implies_true, true_and]
  exact expect fun _ _ hbefore => clear (arrowBody hp fun _ _ hbody => restore hbefore fun _ =>
    checkParameters (finish fun _ => h _ (.arrow hparams hbody)))

theorem bareArrow (hp : p.Resolves) {start : Position} {asyncLead : Option String} {id : Ident}
    (h : ∀ v, v.Resolved false → post v s) :
    (Grammar.bareArrow p ctx start asyncLead id t).Resolves s post := by
  have harrow : (Grammar.arrow p ctx start asyncLead (.bareParam id) t.site).Resolves s post :=
    arrow hp .bareParam h
  simp [Grammar.bareArrow, harrow]

/-- The items of a group become parameters, and what was pending in them is a default. -/
theorem groupParameters {site : Site} {trailing : Bool} {items : List Expr}
    {post : List Pattern → Bool → Prop} (hitems : ∀ item ∈ items, item.Resolved true)
    (h : ∀ vs, (∀ v ∈ vs, v.Resolved false) → post vs s) :
    (Grammar.groupParameters ctx site trailing items).Resolves s post := by
  refine Meets.groupParameters (P := fun v => v.Resolved false) (fun _ _ => trivial)
    (fun lead operand span hmem => ?_) (fun item hmem => ?_) h
  · cases hitems _ hmem with
    | spread hOperand =>
      refine convertAs fun target _ htarget => ⟨rfl, .restPattern ?_⟩
      obtain ⟨v, _, hv, hcheck⟩ := Run.bind_eq_ok.1 htarget
      obtain ⟨_, _, _, hreturn⟩ := Run.bind_eq_ok.1 hcheck
      cases hreturn
      exact hOperand.of_becomes (Tree.becomes_of_asTarget hv)
  · exact asTarget (hitems item hmem) fun _ hv => ⟨rfl, hv⟩

theorem groupArrow (hp : p.Resolves) {start : Position} {asyncLead : Option String}
    {openLead closeLead : String} {items : List Expr} {separators : List String}
    (hitems : ∀ item ∈ items, item.Resolved true) (h : ∀ v, v.Resolved false → post v s) :
    (Grammar.groupArrow p ctx start asyncLead openLead items separators closeLead).Resolves s
      post := by
  simp only [Grammar.groupArrow, resolves_bind, resolves_ite, resolves_reject, implies_true,
    true_and]
  exact groupParameters hitems fun _ hvs _ =>
    arrow hp (.listedParams (.paramList (Tree.Resolved.ofList_iff.2 hvs))) h

theorem asyncBareArrow (hp : p.Resolves) (h : ∀ v, v.Resolved false → post v s) :
    (Grammar.asyncBareArrow p ctx).Resolves s post := by
  simp only [Grammar.asyncBareArrow, resolves_bind, resolves_next, resolves_look, resolves_ite,
    unexpected, implies_true, true_and]
  exact here fun _ => lead fun _ _ => finishName fun _ _ _ => bareArrow hp h

@[simp]
theorem seesAsyncBareArrow {post : Bool → Bool → Prop} (h : ∀ v, post v s) :
    Grammar.seesAsyncBareArrow.Resolves s post := by
  simp [Grammar.seesAsyncBareArrow, h]

/-! ## Assignments -/

/-- A yield expression is resolved. -/
theorem yieldExpression (hp : p.Resolves) (h : ∀ v, v.Resolved false → post v s) :
    (Grammar.yieldExpression p ctx).Resolves s post := by
  have hpresent : ∀ {t : Token} {starLead : Option String},
      (p.assignment ctx).Resolves s fun v s' => (Parse.finish .yield t.start).Resolves s'
        fun span s' => post (.yield t.lead starLead (.present v) span) s' :=
    hp.ofAssignment fun _ hv => finish fun _ => h _ (.yield (.present hv))
  have habsent : ∀ {t : Token}, (Parse.finish .yield t.start).Resolves s fun span s' =>
      post (.yield t.lead none .absent span) s' := finish fun _ => h _ (.yield .absent)
  simp only [Grammar.yieldExpression, resolves_bind, resolves_next, resolves_look, resolves_ite,
    resolves_reject, resolves_pure, implies_true, true_and]
  exact fun _ _ _ => ⟨fun _ => habsent, fun _ => ⟨fun _ => lead fun _ => hpresent, fun _ =>
    ⟨fun _ => hpresent, fun _ => habsent⟩⟩⟩

/-- The left side becomes a target, and what was pending in it is a default. -/
theorem assignTo (hp : p.Resolves) {left : Expr} {op : AssignOp} {before : Option Site} {s₀ : Bool}
    (hleft : Standing s left) (hb : before.isSome = s₀) (h : ∀ v, v.Resolved false → post v s₀) :
    (Grammar.assignTo p ctx t left op before).Resolves s post := by
  have hrest : ∀ {target : Pattern}, target.Resolved false →
      (setPending before).Resolves s fun _ s' => Parse.lead.Resolves s' fun opLead s' =>
        (p.assignment ctx).Resolves s' fun value s' =>
          (Parse.finish .assignment t.start).Resolves s' fun span s' =>
            post (.assignment target opLead op value span) s' :=
    fun ht => restore hb (lead fun _ => hp.ofAssignment fun _ hv => finish fun _ =>
      h _ (.assignment ht hv))
  simp only [Grammar.assignTo, resolves_bind, resolves_ite]
  exact ⟨fun _ => assignmentTarget hleft fun _ => hrest, fun _ => simpleTarget hleft fun _ => hrest⟩

/-- Only a literal hands on what is pending. -/
theorem settle {value : Expr} {before : Option Site} {s₀ : Bool} (hvalue : Standing s value)
    (hb : before.isSome = s₀)
    (h : ∀ v s', (s₀ = true → s' = true) → v.Resolved s' → post v s') :
    (Grammar.settle value before).Resolves s post := by
  intro now hnow
  cases now with
  | none =>
    refine restore (by rw [Option.or_none, hb]) (h _ s₀ id ?_)
    exact (hvalue.resolved hnow.symm).mono (by simp)
  | some site =>
    simp only [of_meets, resolves_bind, resolves_ite, resolves_reject, implies_true, true_and,
      Bool.not_eq_true', Bool.not_eq_false]
    intro hliteral
    refine restore (by cases before <;> rfl) (h _ true (fun _ => rfl) ?_)
    exact hvalue.front (by simp [Tree.isFront, hliteral])

/-- An arrow settles what was pending in front of it. -/
theorem arrowAfter? (hp : p.Resolves) {value : Expr} {before : Option Site} {s₀ : Bool}
    {post : Option Expr → Bool → Prop} (hvalue : Standing s value) (hb : before.isSome = s₀)
    (hnone : post none s) (h : ∀ v, v.Resolved false → post (some v) s₀) :
    (Grammar.arrowAfter? p ctx t value before).Resolves s post := by
  simp only [Grammar.arrowAfter?, resolves_bind, resolves_look]
  intro arrow
  refine resolves_ite.mpr ⟨fun _ => hnone, fun _ => ?_⟩
  split
  · simp only [resolves_ite, resolves_bind, unexpected, implies_true, true_and, resolves_map]
    cases hvalue.front rfl with
    | cover hItems => exact fun _ => restore hb (groupArrow hp hItems.toList h)
  · simp only [resolves_ite, resolves_bind, unexpected, implies_true, true_and, resolves_map]
    exact fun _ => restore hb (bareArrow hp h)
  · exact hnone

theorem plainCover (hp : p.Resolves)
    (h : ∀ v s', (s = true → s' = true) → v.Resolved s' → post v s') :
    (Grammar.plainCover p ctx).Resolves s post := by
  have hstill : ∀ {v : Expr}, v.Resolved false → post v s := fun hv => h _ s id (hv.mono (by simp))
  refine fun first before hb => clear (conditional hp fun value s' _ hvalue => ?_)
  refine arrowAfter? hp hvalue hb (fun t => ?_) fun _ => hstill
  dsimp only
  cases Grammar.assignOp? t with
  | some op => exact assignTo hp hvalue hb fun _ => hstill
  | none => exact settle hvalue hb h

theorem cover (hp : p.Resolves)
    (h : ∀ v s', (s = true → s' = true) → v.Resolved s' → post v s') :
    (Grammar.cover p ctx).Resolves s post := by
  have hstill : ∀ v : Expr, v.Resolved false → post v s := fun _ hv => h _ s id (hv.mono (by simp))
  simp only [Grammar.cover, resolves_bind, resolves_look, resolves_ite]
  exact fun _ => ⟨fun _ => yieldExpression hp hstill, fun _ => seesAsyncBareArrow fun _ =>
    ⟨fun _ => asyncBareArrow hp hstill, fun _ => plainCover hp h⟩⟩

/-- Behind an expression that cannot become a pattern, nothing is pending. -/
theorem assignment (hp : p.Resolves) (h : ∀ v, v.Resolved false → post v s) :
    (Grammar.assignment p ctx).Resolves s post :=
  fun _ hb => clear (cover hp fun v _ _ hv => rejectPending fun hs => restore hb (h v (hs ▸ hv)))

theorem sequenceFrom (hp : p.Resolves) {start : Position} {first : Expr}
    (hfirst : first.Resolved false) (h : ∀ v, v.Resolved false → post v s) :
    (Grammar.sequenceFrom p ctx start first).Resolves s post := by
  simp only [Grammar.sequenceFrom, resolves_bind, resolves_ite]
  refine sees fun _ => ⟨fun _ => h _ hfirst, fun _ => ?_⟩
  refine afterCommas (hp.assignment ctx s) fun r hr => finish fun _ => h _ (.sequence ?_)
  exact Tree.Resolved.ofList_iff.2 (List.forall_mem_cons.2 ⟨hfirst, hr⟩)

theorem expression (hp : p.Resolves) (h : ∀ v, v.Resolved false → post v s) :
    (Grammar.expression p ctx).Resolves s post :=
  here fun _ => assignment hp fun _ hv => sequenceFrom hp hv h

end

end Parse.Resolves

end Verbatim
