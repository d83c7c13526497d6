import Verbatim.Proofs.Sites.Expression

/-!
# Where errors in operations and assignments are reported

Operands, chains, operators and assignments. A group keeps where its items start, and a shorthand
property with a default stays pending with its place; errors about them are reported there.
-/

namespace Verbatim

open Verbatim.Grammar

namespace Parse.Sited

variable {source : String} {p : Productions} {ctx : Context} {t : Token}

/-! ## Operands -/

@[simp]
theorem spreadOr {value : Parse Expr} {Q : Expr → Prop} (hvalue : value.Sited source fun _ => True)
    (h : ∀ v, Q v) : (Grammar.spreadOr value).Sited source Q := by
  have hvalue' : ∀ {Q : Expr → Prop}, (∀ v, Q v) → value.Sited source Q :=
    fun h => hvalue.imp fun v _ => h v
  simp [Grammar.spreadOr, hvalue', h]

@[simp]
theorem arrayRound (hp : p.Sited source) {Q : Round (Tree (.maybe .expr)) → Prop}
    (h : ∀ v, Q v) : (Grammar.arrayRound p ctx).Sited source Q := by
  simp [Grammar.arrayRound, hp, h]

@[simp]
theorem arrayLiteral (hp : p.Sited source) {Q : Expr → Prop} (h : ∀ v, Q v) :
    (Grammar.arrayLiteral p ctx).Sited source Q := by
  simp [Grammar.arrayLiteral, hp, h]

@[simp]
theorem markPending {site : Site} {Q : Unit → Prop} (hs : site.IsOf source) (h : Q ()) :
    (Grammar.markPending site).Sited source Q := by
  refine fun o ho => ⟨fun s hm => ?_, h⟩
  cases o with
  | none => exact Option.some.inj hm ▸ hs
  | some first => exact ho s hm

@[simp]
theorem shorthandValue (hp : p.Sited source) {start : Position} {id : Ident} {Q : Expr → Prop}
    (h : ∀ v, Q v) : (Grammar.shorthandValue p ctx start id).Sited source Q := by
  simp +contextual [Grammar.shorthandValue, hp, h]

@[simp]
theorem shorthandName {name : Tree .key} {Q : Ident → Prop} (h : ∀ v, Q v) :
    (Grammar.shorthandName ctx t name).Sited source Q := by
  unfold Grammar.shorthandName
  split <;> simp [h]

@[simp]
theorem property (hp : p.Sited source) {Q : Tree .member → Prop} (h : ∀ v, Q v) :
    (Grammar.property p ctx).Sited source Q := by
  simp only [Grammar.property, sited_bind, sited_look]
  refine here.2 fun _ _ => modifiers fun mods first hfirst => key hp fun name t _ => ?_
  refine sited_ite.2 ⟨fun _ => by simp [hp, h], fun _ => sited_ite.2 ⟨fun _ => ?_, fun _ => ?_⟩⟩
  · simp [hp, h]
  · simp [hp, h, hfirst]

@[simp]
theorem objectMember (hp : p.Sited source) {Q : Tree .member → Prop} (h : ∀ v, Q v) :
    (Grammar.objectMember p ctx).Sited source Q := by
  simp [Grammar.objectMember, hp, h]

@[simp]
theorem objectLiteral (hp : p.Sited source) {Q : Expr → Prop} (h : ∀ v, Q v) :
    (Grammar.objectLiteral p ctx).Sited source Q := by
  simp [Grammar.objectLiteral, hp, h]

@[simp]
theorem argumentList (hp : p.Sited source) {Q : Tree .arguments → Prop} (h : ∀ v, Q v) :
    (Grammar.argumentList p ctx).Sited source Q := by
  have hitem := spreadOr (hp.assignment ctx.inside) fun _ => trivial
  simp [Grammar.argumentList, hitem, h]

theorem groupItem (hp : p.Sited source) :
    (Grammar.groupItem p ctx).Sited source fun item => item.start.IsOf source := by
  simp +contextual [Grammar.groupItem, hp, Token.IsOf.start]

/-- The items of a group start in the source. -/
theorem readGroup (hp : p.Sited source) {Q : Group → Prop}
    (h : ∀ g : Group, (∀ item ∈ g.items, item.start.IsOf source) → Q g) :
    (Grammar.readGroup p ctx).Sited source Q := by
  simp only [Grammar.readGroup, sited_bind]
  refine expect fun openLead => (listedAll (groupItem hp)).imp fun read hread => ?_
  exact expect fun closeLead => h _ hread

theorem spreadSite_isOf {g : Group}
    (hg : ∀ item ∈ g.items, item.start.IsOf source) : ∀ site ∈ g.spreadSite?, site.IsOf source := by
  intro site hs
  obtain ⟨item, hfound, rfl⟩ := Option.map_eq_some_iff.1 hs
  exact (hg item (List.mem_of_find?_eq_some hfound)).site

@[simp]
theorem rejectPending {Q : Unit → Prop} (h : Q ()) : Grammar.rejectPending.Sited source Q := by
  refine fun o ho => ?_
  cases o with
  | none => exact h
  | some site => exact ho site rfl

@[simp]
theorem groupValue {g : Group} {Q : Expr → Prop} (h : ∀ v, Q v) :
    (Grammar.groupValue g).Sited source Q := by
  unfold Grammar.groupValue
  split <;> simp [h]

theorem parenthesized {start : Position} {g : Group}
    (hg : ∀ item ∈ g.items, item.start.IsOf source) {Q : Expr → Prop} (h : ∀ v, Q v) :
    (Grammar.parenthesized ctx start g).Sited source Q := by
  have hspread := spreadSite_isOf hg
  simp only [Grammar.parenthesized, sited_ite, sited_bind, unexpectedHere, implies_true, true_and]
  intro _
  cases hs : g.spreadSite? with
  | none => simp [h]
  | some site => exact hspread site hs

@[simp]
theorem group (hp : p.Sited source) {Q : Expr → Prop} (h : ∀ v, Q v) :
    (Grammar.group p ctx).Sited source Q := by
  simp only [Grammar.group, sited_bind, here, sited_ite]
  refine fun _ _ => readGroup hp fun g hg => sees fun _ =>
    ⟨fun _ => extent fun _ => h _, fun _ => ?_⟩
  exact parenthesized hg h

@[simp]
theorem nameOperand (hp : p.Sited source) {Q : Expr → Prop} (h : ∀ v, Q v) :
    (Grammar.nameOperand p ctx).Sited source Q := by
  simp +contextual [Grammar.nameOperand, hp, h]

@[simp]
theorem punctuatedOperand (hp : p.Sited source) (ht : t.IsOf source) {Q : Expr → Prop}
    (h : ∀ v, Q v) : (Grammar.punctuatedOperand p ctx t).Sited source Q := by
  unfold Grammar.punctuatedOperand
  split <;> simp [hp, ht, h]

@[simp]
theorem keywordOperand (hp : p.Sited source) (ht : t.IsOf source) {Q : Expr → Prop}
    (h : ∀ v, Q v) : (Grammar.keywordOperand p ctx t).Sited source Q := by
  unfold Grammar.keywordOperand
  split <;> simp [hp, ht, h]

@[simp]
theorem operand (hp : p.Sited source) {Q : Expr → Prop} (h : ∀ v, Q v) :
    (Grammar.operand p ctx).Sited source Q := by
  simp only [Grammar.operand, sited_bind, sited_look]
  intro t ht
  split <;> simp [hp, ht, h]

/-! ## Chains -/

@[simp]
theorem accessName {Q : Tree .access → Prop} (h : ∀ v, Q v) :
    (Grammar.accessName ctx).Sited source Q := by
  simp +contextual [Grammar.accessName, h]

@[simp]
theorem accessIndex (hp : p.Sited source) {Q : Tree .access → Prop} (h : ∀ v, Q v) :
    (Grammar.accessIndex p ctx).Sited source Q := by
  simp [Grammar.accessIndex, hp, h]

@[simp]
theorem finishAccess {start : Position} {base : Expr} {isOptional : Bool} {dotLead : String}
    {prop : Tree .access} {Q : Expr → Prop} (h : ∀ v, Q v) :
    (Grammar.finishAccess start base isOptional dotLead prop).Sited source Q := by
  simp [Grammar.finishAccess, h]

@[simp]
theorem finishCall {start : Position} {base : Expr} {isOptional : Bool} {optionalLead : String}
    {args : Tree .arguments} {Q : Expr → Prop} (h : ∀ v, Q v) :
    (Grammar.finishCall start base isOptional optionalLead args).Sited source Q := by
  simp [Grammar.finishCall, h]

@[simp]
theorem taggedTemplate (hp : p.Sited source) {start : Position} {tag : Expr} {Q : Expr → Prop}
    (h : ∀ v, Q v) : (Grammar.taggedTemplate p ctx start tag).Sited source Q := by
  simp [Grammar.taggedTemplate, hp, h]

@[simp]
theorem optionalLink (hp : p.Sited source) {start : Position} {base : Expr} {Q : Expr → Prop}
    (h : ∀ v, Q v) : (Grammar.optionalLink p ctx start base).Sited source Q := by
  simp +contextual [Grammar.optionalLink, hp, h]

@[simp]
theorem plainLink (hp : p.Sited source) {start : Position} {base : Expr}
    {Q : Option Expr → Prop} (h : ∀ v, Q v) :
    (Grammar.plainLink p ctx start base).Sited source Q := by
  simp [Grammar.plainLink, hp, h]

@[simp]
theorem chainLink (hp : p.Sited source) {start : Position} {c : Chain}
    {Q : Option Chain → Prop} (h : ∀ v, Q v) :
    (Grammar.chainLink p ctx start c).Sited source Q := by
  simp +contextual [Grammar.chainLink, hp, h]

@[simp]
theorem superclass {Q : Expr → Prop} (h : ∀ v, Q v) :
    (Grammar.superclass ctx).Sited source Q := by
  simp +contextual [Grammar.superclass, h]

@[simp]
theorem metaProperty {word : String} {check : Parse Unit} {Q : Expr → Prop}
    (hcheck : check.Sited source fun _ => True) (h : ∀ v, Q v) :
    (Grammar.metaProperty ctx t word check).Sited source Q := by
  have hcheck' : ∀ {Q : Unit → Prop}, Q () → check.Sited source Q :=
    fun h => hcheck.imp fun _ _ => h
  simp [Grammar.metaProperty, hcheck', h]

@[simp]
theorem construct (hp : p.Sited source) {Q : Expr → Prop} (h : ∀ v, Q v) :
    (Grammar.construct p ctx).Sited source Q := by
  simp only [Grammar.construct, sited_bind, sited_next, sited_ite, unexpectedHere, implies_true,
    true_and]
  refine fun t ht => sees fun _ => ⟨fun _ => metaProperty (by simp [ht]) h, fun _ => ?_⟩
  refine seesKeyword fun _ _ => hp.ofCallee fun base _ => sees fun _ => ?_
  simp [hp, h]

@[simp]
theorem importExpression (hp : p.Sited source) {Q : Expr → Prop} (h : ∀ v, Q v) :
    (Grammar.importExpression p ctx).Sited source Q := by
  simp only [Grammar.importExpression, sited_bind, sited_next, sited_ite]
  refine fun t ht => sees fun _ => ⟨fun _ => metaProperty (by simp [ht]) h, fun _ => ?_⟩
  simp [hp, h]

@[simp]
theorem asyncCall (hp : p.Sited source) {start : Position} {name : Ident} {Q : Expr → Prop}
    (h : ∀ v, Q v) : (Grammar.asyncCall p ctx start name).Sited source Q := by
  simp only [Grammar.asyncCall, sited_bind, sited_pending]
  refine fun before hbefore => sited_setPending.2 ⟨fun _ h => absurd h (Option.not_mem_none _), ?_⟩
  refine readGroup hp fun g _ => sited_look.2 fun t _ => sited_ite.2 ⟨fun _ => ?_, fun _ => ?_⟩
  · exact ⟨hbefore, extent fun _ => h _⟩
  · exact rejectPending ⟨hbefore, finishCall fun _ =>
      iterate (fun _ => plainLink hp fun _ => trivial) fun _ => h _⟩

@[simp]
theorem chainHead (hp : p.Sited source) {Q : Expr → Prop} (h : ∀ v, Q v) :
    (Grammar.chainHead p ctx).Sited source Q := by
  simp [Grammar.chainHead, hp, h]

@[simp]
theorem asyncCallee {value : Expr} {Q : Option Ident → Prop} (h : ∀ v, Q v) :
    (Grammar.asyncCallee t value).Sited source Q := by
  simp only [Grammar.asyncCallee, sited_bind, sited_look]
  intro _ _
  split <;> simp [h]

@[simp]
theorem chain (hp : p.Sited source) {Q : Expr → Prop} (h : ∀ v, Q v) :
    (Grammar.chain p ctx).Sited source Q := by
  simp only [Grammar.chain, sited_bind, sited_look]
  refine fun first _ => chainHead hp fun value => asyncCallee fun name => ?_
  cases name <;> simp [hp, h]

@[simp]
theorem calleeLink (hp : p.Sited source) {start : Position} {base : Expr}
    {Q : Option Expr → Prop} (h : ∀ v, Q v) :
    (Grammar.calleeLink p ctx start base).Sited source Q := by
  simp +contextual [Grammar.calleeLink, hp, h]

theorem callee (hp : p.Sited source) {Q : Expr → Prop} (h : ∀ v, Q v) :
    (Grammar.callee p ctx).Sited source Q := by
  simp [Grammar.callee, hp, h]

/-! ## Operators -/

@[simp]
theorem rejectCover {e : Expr} {Q : Unit → Prop} (h : Q ()) :
    (Grammar.rejectCover ctx e).Sited source Q := by
  simp [Grammar.rejectCover, h]

@[simp]
theorem checkUpdateTarget {target : Expr} {fault : Fault} {Q : Unit → Prop} (ht : t.IsOf source)
    (h : Q ()) : (Grammar.checkUpdateTarget ctx target t fault).Sited source Q := by
  unfold Grammar.checkUpdateTarget
  split <;> simp [ht, h]

@[simp]
theorem unaryOperation (hp : p.Sited source) {op : UnaryOp} {Q : Expr → Prop} (h : ∀ v, Q v) :
    (Grammar.unaryOperation p ctx op).Sited source Q := by
  simp only [Grammar.unaryOperation, sited_bind, sited_next]
  refine fun t ht => hp.ofUnary fun operand => rejectCover ?_
  split <;> simp [ht, h]

@[simp]
theorem awaitOperation (hp : p.Sited source) {Q : Expr → Prop} (h : ∀ v, Q v) :
    (Grammar.awaitOperation p ctx).Sited source Q := by
  simp +contextual [Grammar.awaitOperation, hp, h]

@[simp]
theorem updateBefore (hp : p.Sited source) {op : UpdateOp} {Q : Expr → Prop} (h : ∀ v, Q v) :
    (Grammar.updateBefore p ctx op).Sited source Q := by
  simp +contextual [Grammar.updateBefore, hp, h]

@[simp]
theorem updateAfter (hp : p.Sited source) {Q : Expr → Prop} (h : ∀ v, Q v) :
    (Grammar.updateAfter p ctx).Sited source Q := by
  simp only [Grammar.updateAfter, sited_bind, sited_look]
  refine fun first hfirst => chain hp fun value t _ => ?_
  cases updateOp? t <;> simp [hfirst, h]

@[simp]
theorem unary (hp : p.Sited source) {Q : Expr → Prop} (h : ∀ v, Q v) :
    (Grammar.unary p ctx).Sited source Q := by
  simp only [Grammar.unary, sited_bind, sited_look]
  intro t _
  cases unaryOp? t with
  | some op => exact unaryOperation hp h
  | none =>
    refine sited_ite.2 ⟨fun _ => awaitOperation hp h, fun _ => ?_⟩
    cases updateOp? t with
    | some op => exact updateBefore hp h
    | none => exact updateAfter hp h

@[simp]
theorem exponentiation (hp : p.Sited source) {Q : Expr → Prop} (h : ∀ v, Q v) :
    (Grammar.exponentiation p ctx).Sited source Q := by
  simp +contextual [Grammar.exponentiation, hp, h]

@[simp]
theorem binaryStep (hp : p.Sited source) {start : Position} {least : Nat} {left : Expr}
    {Q : Option Expr → Prop} (h : ∀ v, Q v) :
    (Grammar.binaryStep p ctx start least left).Sited source Q := by
  simp only [Grammar.binaryStep, sited_bind, sited_look]
  intro t ht
  cases binaryOp? ctx t <;> simp [hp, ht, h]

@[simp]
theorem binary (hp : p.Sited source) {least : Nat} {Q : Expr → Prop} (h : ∀ v, Q v) :
    (Grammar.binary p least ctx).Sited source Q := by
  simp [Grammar.binary, hp, h]

@[simp]
theorem conditional (hp : p.Sited source) {Q : Expr → Prop} (h : ∀ v, Q v) :
    (Grammar.conditional p ctx).Sited source Q := by
  simp [Grammar.conditional, hp, h]

/-! ## Assignments -/

@[simp]
theorem arrowBody (hp : p.Sited source) {Q : Tree .arrowBody × Bool → Prop} (h : ∀ v, Q v) :
    (Grammar.arrowBody p ctx).Sited source Q := by
  simp [Grammar.arrowBody, hp, h]

@[simp]
theorem arrow (hp : p.Sited source) {start : Position} {asyncLead : Option String}
    {params : Tree .arrowParams} {site : Site} {Q : Expr → Prop} (hs : site.IsOf source)
    (h : ∀ v, Q v) : (Grammar.arrow p ctx start asyncLead params site).Sited source Q := by
  simp +contextual [Grammar.arrow, hp, hs, h]

@[simp]
theorem bareArrow (hp : p.Sited source) {start : Position} {asyncLead : Option String}
    {id : Ident} {Q : Expr → Prop} (ht : t.IsOf source) (h : ∀ v, Q v) :
    (Grammar.bareArrow p ctx start asyncLead id t).Sited source Q := by
  simp [Grammar.bareArrow, hp, ht, h]

@[simp]
theorem groupParameters {site : Site} {trailing : Bool} {items : List Expr}
    {Q : List Pattern → Prop} (hs : site.IsOf source) (h : ∀ v, Q v) :
    (Grammar.groupParameters ctx site trailing items).Sited source Q := by
  refine Meets.groupParameters (P := fun _ => True) (fun _ _ => hs) (fun _ _ _ _ => ?_)
    (fun _ _ => ?_) fun vs _ => h vs
  · exact Meets.imp (convert (Q := fun _ => True) hs fun _ => trivial) fun _ _ _ => ⟨rfl, trivial⟩
  · exact Meets.imp (convertAs (Q := fun _ => True) hs fun _ => trivial) fun _ _ _ => ⟨rfl, trivial⟩

@[simp]
theorem groupArrow (hp : p.Sited source) {start : Position} {asyncLead : Option String}
    {openLead closeLead : String} {items : List Expr} {separators : List String} {Q : Expr → Prop}
    (hs : start.site.IsOf source) (h : ∀ v, Q v) :
    (Grammar.groupArrow p ctx start asyncLead openLead items separators closeLead).Sited source
      Q := by
  simp [Grammar.groupArrow, hp, hs, h]

@[simp]
theorem asyncBareArrow (hp : p.Sited source) {Q : Expr → Prop} (h : ∀ v, Q v) :
    (Grammar.asyncBareArrow p ctx).Sited source Q := by
  simp +contextual [Grammar.asyncBareArrow, hp, h]

@[simp]
theorem seesAsyncBareArrow {Q : Bool → Prop} (h : ∀ v, Q v) :
    Grammar.seesAsyncBareArrow.Sited source Q := by
  simp [Grammar.seesAsyncBareArrow, h]

@[simp]
theorem yieldExpression (hp : p.Sited source) {Q : Expr → Prop} (h : ∀ v, Q v) :
    (Grammar.yieldExpression p ctx).Sited source Q := by
  simp only [Grammar.yieldExpression]
  refine sited_ite.2 ⟨fun _ t ht => reject ht.site, fun _ => ?_⟩
  refine fun t _ first _ => sited_ite.2 ⟨fun _ => by simp [h],
    fun _ => sited_ite.2 ⟨?_, fun _ => ?_⟩⟩
  · simp [hp, h]
  · split <;> simp [hp, h]

@[simp]
theorem assignTo (hp : p.Sited source) {left : Expr} {op : AssignOp} {before : Option Site}
    {Q : Expr → Prop} (ht : t.IsOf source) (hb : ∀ site ∈ before, site.IsOf source)
    (h : ∀ v, Q v) : (Grammar.assignTo p ctx t left op before).Sited source Q := by
  simp +contextual [Grammar.assignTo, hp, ht, hb, h]

/-- A pending default that was not settled is reported at its own place. -/
@[simp]
theorem settle {value : Expr} {before : Option Site} {Q : Expr → Prop}
    (hb : ∀ site ∈ before, site.IsOf source) (h : ∀ v, Q v) :
    (Grammar.settle value before).Sited source Q := by
  simp only [Grammar.settle, sited_bind, sited_pending]
  intro now hnow
  have hor : ∀ site ∈ before.or now, site.IsOf source := by
    intro site hs
    cases before with
    | none => exact hnow site hs
    | some first => exact hb site hs
  cases now with
  | none => exact ⟨hor, h _⟩
  | some site => exact sited_ite.2 ⟨fun _ => hnow site rfl, fun _ => ⟨hor, h _⟩⟩

@[simp]
theorem arrowAfter? (hp : p.Sited source) {value : Expr} {before : Option Site}
    {Q : Option Expr → Prop} (ht : t.IsOf source) (hb : ∀ site ∈ before, site.IsOf source)
    (h : ∀ v, Q v) : (Grammar.arrowAfter? p ctx t value before).Sited source Q := by
  simp only [Grammar.arrowAfter?, sited_bind, sited_look]
  intro arrow ha
  refine sited_ite.2 ⟨fun _ => h _, fun _ => ?_⟩
  split <;> simp +contextual [hp, ht, ha, hb, h]

/-- Errors in a conditional expression have places of the source, that of a pending default
included. -/
@[simp]
theorem plainCover (hp : p.Sited source) {Q : Expr → Prop} (h : ∀ v, Q v) :
    (Grammar.plainCover p ctx).Sited source Q := by
  simp only [Grammar.plainCover, sited_bind, sited_look, sited_pending]
  refine fun first hfirst before hb => sited_setPending.2
    ⟨fun _ h => absurd h (Option.not_mem_none _), conditional hp fun value => ?_⟩
  refine arrowAfter? hp hfirst hb fun arrow => ?_
  cases arrow with
  | some value => exact h _
  | none =>
    refine sited_look.2 fun t _ => ?_
    dsimp only
    cases Grammar.assignOp? t with
    | some op => exact assignTo hp hfirst hb h
    | none => exact settle hb h

@[simp]
theorem cover (hp : p.Sited source) {Q : Expr → Prop} (h : ∀ v, Q v) :
    (Grammar.cover p ctx).Sited source Q := by
  simp [Grammar.cover, hp, h]

@[simp]
theorem assignment (hp : p.Sited source) {Q : Expr → Prop} (h : ∀ v, Q v) :
    (Grammar.assignment p ctx).Sited source Q := by
  simp +contextual [Grammar.assignment, hp, h]

@[simp]
theorem sequenceFrom (hp : p.Sited source) {start : Position} {first : Expr} {Q : Expr → Prop}
    (h : ∀ v, Q v) : (Grammar.sequenceFrom p ctx start first).Sited source Q := by
  simp [Grammar.sequenceFrom, hp, h]

@[simp]
theorem expression (hp : p.Sited source) {Q : Expr → Prop} (h : ∀ v, Q v) :
    (Grammar.expression p ctx).Sited source Q := by
  simp [Grammar.expression, hp, h]

end Parse.Sited

end Verbatim
