import Verbatim.Proofs.Formed.Expression

/-!
# Operands, operators and assignments

What these productions read is well formed unless an arrow is ahead. A group in front of an arrow is
the one beginning of such a draft, and an arrow behind a group or a name is the one token that may
follow it: whatever else goes on with an expression sees another token.
-/

namespace Verbatim

open Verbatim.Grammar

/-- An expression has dots in front only if it is spread. -/
theorem Grammar.GroupItem.isSpread_eq (item : GroupItem) : item.isSpread = item.value.hasDots := by
  unfold GroupItem.isSpread
  cases item.value <;> rfl

/-! ## An arrow is no operator -/

namespace Sight.AtArrow

variable {s : Sight} {ctx : Context}

theorem unaryOp? (h : s.AtArrow) : Grammar.unaryOp? s.token = none := by
  simp only [Grammar.unaryOp?, h.kind, h.raw]
  rfl

theorem updateOp? (h : s.AtArrow) : Grammar.updateOp? s.token = none := by
  simp only [Grammar.updateOp?, Token.isPunctuator, h.kind, h.raw]
  rfl

theorem binaryOp? (h : s.AtArrow) : Grammar.binaryOp? ctx s.token = none := by
  simp only [Grammar.binaryOp?, h.kind, h.raw]
  rfl

theorem assignOp? (h : s.AtArrow) : Grammar.assignOp? s.token = none := by
  simp only [Grammar.assignOp?, h.kind, h.raw]
  rfl

theorem isAwait (h : s.AtArrow) : Grammar.isAwait ctx s.token = false := by
  simp [Grammar.isAwait, Token.isWord, h.kind]

end Sight.AtArrow

/-- What is said of an arrow only is not so of a token that is none. -/
theorem Sight.not_atArrow_of_some {s : Sight} {α : Type} {o : Option α} {v : α}
    (hnone : s.AtArrow → o = none) (h : o = some v) : ¬ s.AtArrow :=
  fun ha => nomatch h.symm.trans (hnone ha)

namespace Parse.Drafts

variable {p : Productions} {ctx : Context} {s : Sight}

/-! ## Arrays, objects and arguments -/

/-- An item that may have dots in front. -/
theorem spreadOr {value : Parse Expr} (hvalue : value.Drafts) {post : Expr → Sight → Prop}
    (h : ∀ v s', v.Sound ∨ s'.AtArrow → post v s') : (Grammar.spreadOr value).Sees s post := by
  refine sees_ite.mpr ⟨fun _ => Sees.bindAny fun _ _ => hvalue.into fun _ operand s' hv => ?_,
    fun _ => ?_⟩
  · exact finish fun _ => h _ _ (hv.plain_or.imp_left fun hv => .behindDots hv trivial rfl)
  · exact hvalue.into fun _ v s' hv => h _ _ hv.sound

theorem arrayRound (hp : p.Forms) : (Grammar.arrayRound p ctx).Sees s
    fun r s' => r.Lists Tree.Sound (fun _ => False) s' := by
  refine sees_ite.mpr ⟨fun _ => separator fun _ _ _ => Tree.Plain.absent.sound, fun _ => ?_⟩
  exact spreadOr (hp.cover _) fun v s' hv => hv.imp_left Tree.Sound.present

theorem arrayLiteral (hp : p.Forms) {post : Expr → Sight → Prop}
    (h : ¬ s.AtArrow → ∀ v s', v.Plain → post v s') : (Grammar.arrayLiteral p ctx).Sees s post := by
  refine expect nofun fun hs _ _ => listed nofun (fun _ => arrayRound hp) fun r _ hr => ?_
  refine expect nofun fun _ _ _ => ?_
  exact finish fun _ => h hs _ _ ⟨.ofDots (.ofList hr) trivial rfl rfl, rfl⟩

theorem shorthandValue (hp : p.Forms) {start : Position} {id : Ident} {post : Expr → Sight → Prop}
    (h : ∀ v s', v.Draft s' → post v s') : (Grammar.shorthandValue p ctx start id).Sees s post := by
  have hid : (Tree.identifier id).Plain := .leaf trivial rfl rfl
  refine sees_ite.mpr ⟨fun _ => Sees.bindAny fun _ _ => Sees.bindAny fun _ _ => ?_,
    fun _ => h _ _ hid.draft⟩
  refine (hp.assignment _).into fun _ value s' hvalue => finish fun _ => h _ _ ?_
  exact hvalue.wrap (fun hv => .two (Tree.Binds.plain .namePattern) hv rfl rfl rfl) rfl rfl

theorem property (hp : p.Forms) {post : Tree .member → Sight → Prop}
    (h : ∀ v s', v.Draft s' → post v s') : (Grammar.property p ctx).Sees s post := by
  refine modifiers fun _ _ _ => key hp fun _ name _ hname => sees_ite.mpr ⟨fun _ => ?_, fun _ => ?_⟩
  · refine methodFunction hp fun value _ hvalue => finish fun _ => h _ _ (Tree.Plain.draft ?_)
    exact .property hname (.one hvalue trivial rfl rfl)
  refine sees_ite.mpr ⟨fun _ => Sees.bindAny fun _ _ => ?_, fun _ => ?_⟩
  · refine (hp.cover _).into fun _ value s' hvalue => finish fun _ => h _ _ ?_
    exact hvalue.wrap (fun hv => .property hname hv) rfl rfl
  · refine Sees.bindAny fun id _ => Sees.bindAny fun _ _ =>
      shorthandValue hp fun value s' hvalue => ?_
    exact finish fun _ => h _ _ (hvalue.wrap (fun hv => .property hname hv) rfl rfl)

theorem objectMember (hp : p.Forms) : (Grammar.objectMember p ctx).Sees s
    fun v s' => v.Sound ∨ s'.AtArrow := by
  refine sees_ite.mpr ⟨fun _ => Sees.bindAny fun _ _ => ?_,
    fun _ => property hp fun v s' hv => hv.sound⟩
  refine (hp.cover _).into fun _ operand s' hv => finish fun _ => ?_
  exact hv.plain_or.imp_left fun hv => .behindDots hv trivial rfl

theorem objectLiteral (hp : p.Forms) {post : Expr → Sight → Prop}
    (h : ¬ s.AtArrow → ∀ v s', v.Plain → post v s') :
    (Grammar.objectLiteral p ctx).Sees s post := by
  refine expect nofun fun hs _ _ => listed (P := Tree.Sound) nofun (fun _ => objectMember hp)
    fun r _ hr => ?_
  exact expect nofun fun _ _ _ => finish fun _ => h hs _ _
    ⟨.ofDots (.ofList hr) trivial rfl rfl, rfl⟩

theorem argumentList (hp : p.Forms) {post : Tree .arguments → Sight → Prop}
    (h : ∀ v s', v.Plain → post v s') : (Grammar.argumentList p ctx).Sees s post := by
  refine expect nofun fun _ _ _ => listed (P := Tree.Sound) nofun
    (fun _ => spreadOr (hp.assignment _) fun _ _ hv => hv) fun r _ hr =>
    expect nofun fun _ _ _ => ?_
  exact h _ _ ⟨.ofDots (.ofList hr) trivial rfl rfl, rfl⟩

/-! ## Groups -/

theorem readGroup (hp : p.Forms) {post : Group → Sight → Prop}
    (h : ¬ s.AtArrow → ∀ g s', (∀ v ∈ g.values, v.Sound) → post g s') :
    (Grammar.readGroup p ctx).Sees s post := by
  have hitem : ∀ s, (Round.item <$> groupItem p ctx.inside).Sees s fun r s' =>
      r.Lists (fun item : GroupItem => item.value.Sound) (fun _ => False) s' := fun s =>
    spreadOr (hp.cover _) fun v s' hv _ => hv
  refine expect nofun fun hs _ _ => listed nofun hitem fun r _ hr =>
    expect nofun fun _ _ _ => h hs _ _ ?_
  exact List.forall_mem_map.2 hr

theorem rejectPending {post : Unit → Sight → Prop} (h : post () s) :
    Grammar.rejectPending.Sees s post := by
  refine fun o => ?_
  cases o with
  | none => exact h
  | some site => trivial

/-- The expression that stands in a group of which no item is spread. -/
theorem groupValue {g : Group} {post : Expr → Sight → Prop} (hg : ∀ v ∈ g.values, v.Plain)
    (h : ∀ v, v.Plain → post v s) : (Grammar.groupValue g).Sees s post := by
  unfold Grammar.groupValue
  split
  · rename_i value _ hvalues
    exact h _ (hg _ (hvalues ▸ List.mem_singleton_self _))
  · exact finishAt fun _ => h _ (.one (.ofList hg) trivial rfl rfl)
  · trivial

/-- A group of sound items becomes a well formed expression. -/
theorem parenthesized {start : Position} {g : Group} (hg : ∀ v ∈ g.values, v.Sound)
    {post : Expr → Sight → Prop} (h : ∀ v, v.Plain → post v s) :
    (Grammar.parenthesized ctx start g).Sees s post := by
  refine sees_ite.mpr ⟨fun _ => trivial, fun _ => ?_⟩
  split
  · trivial
  rename_i hnone
  have hplain : ∀ v ∈ g.values, v.Plain := by
    refine List.forall_mem_map.2 fun item hitem => ⟨hg _ (List.mem_map_of_mem hitem), ?_⟩
    rw [← GroupItem.isSpread_eq, Bool.eq_false_iff]
    have hsite : g.spreadSite? = none := Option.eq_none_iff_forall_ne_some.2 hnone
    exact List.find?_eq_none.1 (Option.map_eq_none_iff.1 hsite) item hitem
  refine rejectPending (groupValue hplain fun inner hinner => finish fun _ => h _ ?_)
  exact .one hinner trivial rfl rfl

/-- In front of an arrow a group is a draft. -/
theorem unresolved {g : Group} (hg : ∀ v ∈ g.values, v.Sound) {asyncLead : Option String}
    {span : Span} (hs : s.AtArrow) : (g.unresolved asyncLead span).Draft s := by
  refine ⟨rfl, ?_, .inr hs⟩
  change ∀ v ∈ (Tree.ofList g.values).toList, v.Sound
  rwa [Tree.toList_ofList]

theorem group (hp : p.Forms) {post : Expr → Sight → Prop}
    (h : ¬ s.AtArrow → ∀ v s', v.Draft s' → post v s') : (Grammar.group p ctx).Sees s post := by
  refine readGroup hp fun hs g s' hg => sees_ite.mpr ⟨fun harrow => ?_, fun _ => ?_⟩
  · exact extent fun _ => h hs _ _ (unresolved hg harrow)
  · exact parenthesized hg fun v hv => h hs _ _ hv.draft

/-! ## Operands -/

section

variable {post : Expr → Sight → Prop}

theorem functionExpression (hp : p.Forms) (h : ¬ s.AtArrow → ∀ v s', v.Draft s' → post v s') :
    (Grammar.functionExpression p ctx).Sees s post :=
  function hp fun hs _ _ hv => h hs _ _ (Tree.Plain.draft (.one hv trivial rfl rfl))

theorem nameOperand (hp : p.Forms) (hkind : s.token.kind = .identifier)
    (h : ¬ s.AtArrow → ∀ v s', v.Draft s' → post v s') :
    (Grammar.nameOperand p ctx).Sees s post := by
  have hs := Sight.not_atArrow_of_kind hkind (by decide)
  have hname : ∀ {s₁}, next.Sees s₁ fun t s₂ => (Grammar.checkReference ctx t).Sees s₂ fun _ s₃ =>
      (Parse.finishName t).Sees s₃ fun id s₄ => post (.identifier id) s₄ := Sees.any fun _ _ =>
    Sees.any fun _ _ => Sees.any fun _ _ => h hs _ _ (Tree.Plain.draft (.leaf trivial rfl rfl))
  simp only [Grammar.nameOperand, sees_bind, sees_seesWord, sees_ite, sees_peek, sees_pure]
  exact ⟨fun _ _ _ => ⟨fun _ => functionExpression hp fun _ => h hs, fun _ => hname⟩,
    fun _ => ⟨fun hf => absurd hf Bool.false_ne_true, fun _ => hname⟩⟩

/-- An operand that starts with a punctuator is well formed unless an arrow is ahead. -/
theorem punctuatedOperand (hp : p.Forms) (h : ¬ s.AtArrow → ∀ v s', v.Draft s' → post v s') :
    (Grammar.punctuatedOperand p ctx s.token).Sees s post := by
  unfold Grammar.punctuatedOperand
  split
  case h_1 => exact group hp h
  case h_2 => exact arrayLiteral hp fun hs _ _ hv => h hs _ _ hv.draft
  case h_3 => exact objectLiteral hp fun hs _ _ hv => h hs _ _ hv.draft
  case h_6 hraw =>
    have hs : ¬ s.AtArrow := fun ha => absurd (hraw.symm.trans ha.raw) (by decide)
    refine sees_ite.mpr ⟨fun _ => ?_, fun _ => trivial⟩
    exact markupRoot hp fun _ _ hv => h hs _ _ hv.draft
  case h_7 => trivial
  all_goals
    rename_i hraw
    have hs : ¬ s.AtArrow := fun ha => absurd (hraw.symm.trans ha.raw) (by decide)
    refine Sees.bindAny fun _ _ => Sees.bindAny fun lit s' => h hs _ _ ?_
    exact Tree.Plain.draft (.leaf trivial rfl rfl)

theorem keywordOperand (hp : p.Forms) (hkind : s.token.kind = .keyword)
    (h : ¬ s.AtArrow → ∀ v s', v.Draft s' → post v s') :
    (Grammar.keywordOperand p ctx s.token).Sees s post := by
  have hs := Sight.not_atArrow_of_kind hkind (by decide)
  unfold Grammar.keywordOperand
  split
  · refine Sees.bindAny fun _ _ => Sees.bindAny fun _ s' => h hs _ _ ?_
    exact Tree.Plain.draft (.leaf trivial rfl rfl)
  · exact functionExpression hp h
  · exact classDefinition hp fun _ _ _ hv => h hs _ _ (Tree.Plain.draft (.one hv trivial rfl rfl))
  · trivial

/-- An operand is well formed unless an arrow is ahead. -/
theorem operand (hp : p.Forms) (h : ¬ s.AtArrow → ∀ v s', v.Draft s' → post v s') :
    (Grammar.operand p ctx).Sees s post := by
  refine sees_bind.mpr (sees_look.mpr ?_)
  split
  case h_1 hkind => exact nameOperand hp hkind h
  case h_7 hkind =>
    refine sees_ite.mpr ⟨fun _ => template hp fun hs _ _ hv => h hs _ _ ?_, fun _ => trivial⟩
    exact Tree.Plain.draft (.one hv trivial rfl rfl)
  case h_8 => exact punctuatedOperand hp h
  case h_9 hkind => exact keywordOperand hp hkind h
  case h_10 => trivial
  all_goals
    rename_i hkind
    have hs := Sight.not_atArrow_of_kind hkind (by decide)
    refine Sees.bindAny fun lit s' => h hs _ _ ?_
    exact Tree.Plain.draft (.leaf trivial rfl rfl)

end

/-! ## Chains -/

theorem accessName {post : Tree .access → Sight → Prop} (h : ∀ v s', v.Plain → post v s') :
    (Grammar.accessName ctx).Sees s post := by
  refine sees_ite.mpr ⟨fun _ => Sees.bindAny fun _ _ => h _ _ (.leaf trivial rfl rfl), fun _ => ?_⟩
  refine sees_ite.mpr ⟨fun _ => Sees.bindAny fun _ _ => Sees.bindAny fun _ _ => ?_,
    fun _ => trivial⟩
  exact h _ _ (.leaf trivial rfl rfl)

theorem accessIndex (hp : p.Forms) {post : Tree .access → Sight → Prop}
    (h : ∀ v s', v.Plain → post v s') : (Grammar.accessIndex p ctx).Sees s post := by
  refine expect nofun fun _ _ _ => (hp.expression _).into fun _ inner _ hinner => ?_
  refine expect nofun fun hs _ _ => ?_
  exact h _ _ (.one (hinner.plain hs) trivial rfl rfl)

section

variable {start : Position} {base : Expr} {post : Expr → Sight → Prop}

theorem finishAccess {isOptional : Bool} {dotLead : String} {prop : Tree .access} (hb : base.Plain)
    (ha : prop.Plain) (h : ∀ v, v.Plain → post v s) :
    (Grammar.finishAccess start base isOptional dotLead prop).Sees s post :=
  finish fun _ => h _ (.two hb ha trivial rfl rfl)

theorem finishCall {isOptional : Bool} {optionalLead : String} {args : Tree .arguments}
    (hb : base.Plain) (ha : args.Plain) (h : ∀ v, v.Plain → post v s) :
    (Grammar.finishCall start base isOptional optionalLead args).Sees s post :=
  finish fun _ => h _ (.two hb ha trivial rfl rfl)

theorem taggedTemplate (hp : p.Forms) (hb : base.Plain) (h : ∀ v s', v.Plain → post v s') :
    (Grammar.taggedTemplate p ctx start base).Sees s post :=
  template hp fun _ _ _ hv => finish fun _ => h _ _ (.two hb hv trivial rfl rfl)

theorem optionalLink (hp : p.Forms) (hb : base.Plain) (h : ∀ v s', v.Plain → post v s') :
    (Grammar.optionalLink p ctx start base).Sees s post := by
  refine Sees.bindAny fun _ _ => sees_ite.mpr ⟨fun _ => ?_, fun _ => sees_ite.mpr ⟨fun _ => ?_,
    fun _ => sees_ite.mpr ⟨fun _ => trivial, fun _ => ?_⟩⟩⟩
  · exact argumentList hp fun _ _ ha => finishCall hb ha fun _ => h _ _
  · exact accessIndex hp fun _ _ ha => finishAccess hb ha fun _ => h _ _
  · exact accessName fun _ _ ha => finishAccess hb ha fun _ => h _ _

/-- A link begins at no arrow. -/
theorem plainLink (hp : p.Forms) {post : Option Expr → Sight → Prop} (hb : base.Draft s)
    (hsome : ∀ v s', v.Plain → post (some v) s') (hnone : post none s) :
    (Grammar.plainLink p ctx start base).Sees s post := by
  refine sees_ite.mpr ⟨fun ht => Sees.bindAny fun _ _ => ?_, fun _ => sees_ite.mpr ⟨fun ht => ?_,
    fun _ => sees_ite.mpr ⟨fun ht => ?_, fun _ => hnone⟩⟩⟩
  all_goals have hbase := hb.plain (Sight.not_atArrow_of_isPunctuator ht (by decide))
  · exact accessName fun _ _ ha => finishAccess hbase ha fun _ => hsome _ _
  · exact accessIndex hp fun _ _ ha => finishAccess hbase ha fun _ => hsome _ _
  · exact argumentList hp fun _ _ ha => finishCall hbase ha fun _ => hsome _ _

end

/-- A further link of a chain. -/
theorem chainLink (hp : p.Forms) {start : Position} {c : Chain} (hc : c.value.Draft s) :
    (Grammar.chainLink p ctx start c).Sees s
      fun w s' => w.elim (c.value.Draft s') fun w => w.value.Draft s' := by
  simp only [Grammar.chainLink, sees_bind, sees_look, sees_ite, sees_pure]
  refine ⟨fun hlink => ?_, fun _ => ⟨fun hhead => ⟨fun _ => trivial, fun _ => ?_⟩, fun _ => ?_⟩⟩
  · have hbase := hc.plain (Sight.not_atArrow_of_isPunctuator hlink (by decide))
    exact optionalLink hp hbase fun _ _ hv => hv.draft
  · have hbase := hc.plain fun ha => by simp [Token.isTemplateHead, ha.kind] at hhead
    exact taggedTemplate hp hbase fun _ _ hv => hv.draft
  · exact plainLink hp hc (fun _ _ hv => hv.draft) hc

section

variable {post : Expr → Sight → Prop}

theorem superclass (hs : ¬ s.AtArrow) (h : ¬ s.AtArrow → ∀ v s', v.Draft s' → post v s') :
    (Grammar.superclass ctx).Sees s post := by
  refine Sees.bindAny fun _ _ => sees_ite.mpr
    ⟨fun _ => trivial, fun _ => finish fun _ => h hs _ _ ?_⟩
  exact Tree.Plain.draft (.leaf trivial rfl rfl)

theorem metaProperty {first : Token} {word : String} {check : Parse Unit}
    (h : ∀ v s', v.Draft s' → post v s') :
    (Grammar.metaProperty ctx first word check).Sees s post := by
  refine Sees.bindAny fun _ _ => Sees.bindAny fun _ _ =>
    sees_ite.mpr ⟨fun _ => trivial, fun _ => ?_⟩
  refine Sees.bindAny fun _ _ => Sees.bindAny fun _ _ => finish fun _ => h _ _ ?_
  exact Tree.Plain.draft (.leaf trivial rfl rfl)

theorem construct (hp : p.Forms) (hs : ¬ s.AtArrow)
    (h : ¬ s.AtArrow → ∀ v s', v.Draft s' → post v s') :
    (Grammar.construct p ctx).Sees s post := by
  refine Sees.bindAny fun _ _ => sees_ite.mpr ⟨fun _ => metaProperty (h hs), fun _ => ?_⟩
  refine sees_ite.mpr ⟨fun _ => trivial, fun _ => (hp.callee _).into fun _ base s' hb => ?_⟩
  refine sees_ite.mpr ⟨fun _ => trivial, fun _ => sees_ite.mpr ⟨fun hopen => ?_, fun _ => ?_⟩⟩
  · have hbase := hb.plain (Sight.not_atArrow_of_isPunctuator hopen (by decide))
    refine argumentList hp fun _ _ ha => finish fun _ => h hs _ _ (Tree.Plain.draft ?_)
    exact .two hbase (.present ha) trivial rfl rfl
  · refine finish fun _ => h hs _ _ (hb.wrap (fun hv => ?_) rfl rfl)
    exact .two hv (.absent : (Tree.absent : Tree (.maybe .arguments)).Plain) trivial rfl rfl

theorem importExpression (hp : p.Forms) (hs : ¬ s.AtArrow)
    (h : ¬ s.AtArrow → ∀ v s', v.Draft s' → post v s') :
    (Grammar.importExpression p ctx).Sees s post := by
  refine Sees.bindAny fun _ _ => sees_ite.mpr ⟨fun _ => metaProperty (h hs), fun _ => ?_⟩
  refine expect nofun fun _ _ _ => (hp.assignment _).into fun _ source _ hv =>
    expect nofun fun hend _ _ => ?_
  exact finish fun _ => h hs _ _ (Tree.Plain.draft (.one (hv.plain hend) trivial rfl rfl))

theorem asyncCall (hp : p.Forms) {start : Position} {name : Ident}
    (h : ∀ v s', v.Draft s' → post v s') : (Grammar.asyncCall p ctx start name).Sees s post := by
  refine fun _ => readGroup hp fun _ g s' hg => sees_ite.mpr ⟨fun harrow => ?_, fun _ => ?_⟩
  · exact extent fun _ => h _ _ (unresolved hg (Bool.and_eq_true_iff.1 harrow).1)
  have hname : (Tree.identifier name).Plain := .leaf trivial rfl rfl
  refine rejectPending (finishCall hname ⟨.ofDots (.ofList hg) trivial rfl rfl, rfl⟩ fun v hv => ?_)
  exact iterate (R := Tree.Draft) (fun v s hv => plainLink hp hv
    (fun _ _ hw => hw.draft) hv) hv.draft h

theorem chainHead (hp : p.Forms) (h : ¬ s.AtArrow → ∀ v s', v.Draft s' → post v s') :
    (Grammar.chainHead p ctx).Sees s post :=
  sees_ite.mpr ⟨fun ht => superclass (Sight.not_atArrow_of_isKeyword ht) h, fun _ => sees_ite.mpr
    ⟨fun ht => construct hp (Sight.not_atArrow_of_isKeyword ht) h, fun _ => sees_ite.mpr
      ⟨fun ht => importExpression hp (Sight.not_atArrow_of_isKeyword ht) h, fun _ => operand hp h⟩⟩⟩

theorem asyncCallee {first : Token} {value : Expr} {post : Option Ident → Sight → Prop}
    (h : ∀ v, post v s) : (Grammar.asyncCallee first value).Sees s post := by
  refine sees_bind.mpr (sees_look.mpr ?_)
  split
  · exact sees_ite.mpr ⟨fun _ => h _, fun _ => h _⟩
  · exact h _

theorem chain (hp : p.Forms) (h : ¬ s.AtArrow → ∀ v s', v.Draft s' → post v s') :
    (Grammar.chain p ctx).Sees s post := by
  refine chainHead hp fun hs value s' hv => asyncCallee fun name => ?_
  cases name with
  | some name => exact asyncCall hp (h hs)
  | none =>
    exact iterate (R := fun c s => c.value.Draft s) (fun _ _ hc => chainLink hp hc) hv
      fun c s' hc => h hs _ _ hc

theorem calleeLink (hp : p.Forms) {start : Position} {base : Expr} (hb : base.Draft s) :
    (Grammar.calleeLink p ctx start base).Sees s
      fun w s' => w.elim (base.Draft s') (·.Draft s') := by
  refine sees_ite.mpr ⟨fun _ => trivial, fun _ => sees_ite.mpr ⟨fun hhead => ?_, fun _ =>
    sees_ite.mpr ⟨fun _ => hb, fun _ => plainLink hp hb (fun _ _ hv => hv.draft) hb⟩⟩⟩
  have hbase := hb.plain fun ha => by simp [Token.isTemplateHead, ha.kind] at hhead
  exact taggedTemplate hp hbase fun _ _ hv => hv.draft

theorem callee (hp : p.Forms) (h : ¬ s.AtArrow → ∀ v s', v.Draft s' → post v s') :
    (Grammar.callee p ctx).Sees s post := by
  have hlinks : ¬ s.AtArrow → ∀ (v : Expr) s', v.Draft s' →
      (Parse.iterate (Grammar.calleeLink p ctx s.token.start) p.rounds v).Sees s' post :=
    fun hs v s' hv => iterate (R := Tree.Draft) (fun _ _ hb => calleeLink hp hb) hv (h hs)
  exact sees_ite.mpr ⟨fun ht => construct hp (Sight.not_atArrow_of_isKeyword ht) hlinks,
    fun _ => sees_ite.mpr ⟨fun ht => superclass (Sight.not_atArrow_of_isKeyword ht) hlinks,
      fun _ => operand hp hlinks⟩⟩

/-! ## Operators -/

theorem rejectCover {e : Expr} {post : Unit → Sight → Prop} (h : post () s) :
    (Grammar.rejectCover ctx e).Sees s post := sees_ite.mpr ⟨fun _ => trivial, fun _ => h⟩

theorem checkUpdateTarget {target : Expr} {start : Token} {restricted : Fault}
    {post : Unit → Sight → Prop} (h : post () s) :
    (Grammar.checkUpdateTarget ctx target start restricted).Sees s post := by
  unfold Grammar.checkUpdateTarget
  split <;> exact sees_ite.mpr ⟨fun _ => h, fun _ => h⟩

theorem unaryOperation (hp : p.Forms) {op : UnaryOp} (h : ∀ v s', v.Draft s' → post v s') :
    (Grammar.unaryOperation p ctx op).Sees s post := by
  refine Sees.bindAny fun t _ => (hp.unary _).into fun _ operand s' hv => rejectCover ?_
  have hpost : ∀ span, post (.unary t.lead op operand span) s' := fun _ =>
    h _ _ (hv.wrap (fun hv => .one hv trivial rfl rfl) rfl rfl)
  split
  · exact sees_ite.mpr ⟨fun _ => finish hpost, fun _ => finish hpost⟩
  · exact finish hpost

theorem awaitOperation (hp : p.Forms) (h : ∀ v s', v.Draft s' → post v s') :
    (Grammar.awaitOperation p ctx).Sees s post := by
  refine sees_ite.mpr ⟨fun _ => trivial, fun _ => Sees.bindAny fun t _ => ?_⟩
  refine (hp.unary _).into fun _ operand s' hv => rejectCover (finish fun _ => h _ _ ?_)
  exact hv.wrap (fun hv => .one hv trivial rfl rfl) rfl rfl

/-- The operand may be an undecided group, if it need be no target. -/
theorem updateBefore (hp : p.Forms) {op : UpdateOp} (h : ∀ v s', v.Draft s' → post v s') :
    (Grammar.updateBefore p ctx op).Sees s post := by
  refine Sees.bindAny fun t _ => Sees.bindAny fun _ _ => (hp.unary _).into fun _ operand s' hv => ?_
  refine checkUpdateTarget (finish fun _ => h _ _ ?_)
  exact hv.wrap (fun hv => .one hv trivial rfl rfl) rfl rfl

theorem updateAfter (hp : p.Forms) (h : ¬ s.AtArrow → ∀ v s', v.Draft s' → post v s') :
    (Grammar.updateAfter p ctx).Sees s post := by
  refine sees_bind.mpr (sees_look.mpr (chain hp fun hs v s' hv => sees_bind.mpr (sees_look.mpr ?_)))
  split
  · exact h hs _ _ hv
  · rename_i op hop
    have hvalue := hv.plain (Sight.not_atArrow_of_some Sight.AtArrow.updateOp? hop)
    refine sees_ite.mpr ⟨fun _ => h hs _ _ hv, fun _ => checkUpdateTarget ?_⟩
    exact Sees.bindAny fun _ _ => finish fun _ =>
      h hs _ _ (Tree.Plain.draft (.one hvalue trivial rfl rfl))

theorem unary (hp : p.Forms) (h : ¬ s.AtArrow → ∀ v s', v.Draft s' → post v s') :
    (Grammar.unary p ctx).Sees s post := by
  refine sees_bind.mpr (sees_look.mpr ?_)
  split
  · exact unaryOperation hp (h (Sight.not_atArrow_of_some Sight.AtArrow.unaryOp? ‹_›))
  refine sees_ite.mpr ⟨fun hawait => awaitOperation hp (h fun ha => ?_), fun _ => ?_⟩
  · exact Bool.eq_false_iff.1 ha.isAwait hawait
  split
  · exact updateBefore hp (h (Sight.not_atArrow_of_some Sight.AtArrow.updateOp? ‹_›))
  · exact updateAfter hp h

theorem exponentiation (hp : p.Forms) (h : ¬ s.AtArrow → ∀ v s', v.Draft s' → post v s') :
    (Grammar.exponentiation p ctx).Sees s post := by
  refine sees_bind.mpr (sees_look.mpr (unary hp fun hs base s' hb => ?_))
  refine sees_ite.mpr ⟨fun _ => h hs _ _ hb, fun hpower =>
    sees_ite.mpr ⟨fun _ => trivial, fun _ => ?_⟩⟩
  have hbase := hb.plain (Sight.not_atArrow_of_isPunctuator (by simpa using hpower) (by decide))
  refine rejectCover (Sees.bindAny fun _ _ => (hp.exponentiation _).into fun _ power s'' hv => ?_)
  refine rejectCover (finish fun _ => h hs _ _ ?_)
  exact hv.wrap (fun hv => .two hbase hv trivial rfl rfl) rfl rfl

theorem binaryStep (hp : p.Forms) {start : Position} {least : Nat} {left : Expr}
    (hl : left.Draft s) : (Grammar.binaryStep p ctx start least left).Sees s
      fun w s' => w.elim (left.Draft s') (·.Draft s') := by
  refine sees_bind.mpr (sees_look.mpr ?_)
  split
  · exact hl
  rename_i op hop
  have hleft := hl.plain (Sight.not_atArrow_of_some Sight.AtArrow.binaryOp? hop)
  refine sees_ite.mpr ⟨fun _ => hl, fun _ => rejectCover (Sees.bindAny fun _ _ => ?_)⟩
  refine (hp.binary _ _).into fun _ right s' hv => rejectCover
    (sees_ite.mpr ⟨fun _ => trivial, fun _ => ?_⟩)
  exact finish fun _ => hv.wrap (fun hv => .two hleft hv trivial rfl rfl) rfl rfl

theorem binary (hp : p.Forms) {least : Nat} (h : ¬ s.AtArrow → ∀ v s', v.Draft s' → post v s') :
    (Grammar.binary p least ctx).Sees s post := by
  refine exponentiation hp fun hs v s' hv => ?_
  exact iterate (R := Tree.Draft) (fun _ _ hl => binaryStep hp hl) hv (h hs)

theorem conditional (hp : p.Forms) (h : ¬ s.AtArrow → ∀ v s', v.Draft s' → post v s') :
    (Grammar.conditional p ctx).Sees s post := by
  refine binary hp fun hs test s' ht => sees_ite.mpr ⟨fun _ => h hs _ _ ht, fun hmark => ?_⟩
  have htest := ht.plain (Sight.not_atArrow_of_isPunctuator (by simpa using hmark) (by decide))
  refine rejectCover (Sees.bindAny fun _ _ => (hp.assignment _).into fun _ consequent _ hc => ?_)
  refine expect nofun fun hcolon _ _ => (hp.assignment _).into fun _ alternate s'' hv =>
    finish fun _ => ?_
  exact h hs _ _ (hv.wrap (fun hv => .three htest (hc.plain hcolon) hv trivial rfl rfl) rfl rfl)

end

/-! ## Targets and parameters -/

theorem tolerateAll {finder : Finder} {site : Site} {faults : List Fault}
    {post : Unit → Sight → Prop}
    (h : post () s) : (Parse.tolerateAll finder site faults).Sees s post := by
  induction faults with
  | nil => exact h
  | cons fault faults ih => exact ih

theorem convertAs {α : Type} {finder : Finder} {site : Site} {conversion : Conversion α}
    {post : α → Sight → Prop} (h : ∀ v faults, conversion [] = .ok v faults → post v s) :
    (Parse.convertAs finder site conversion).Sees s post := by
  unfold Parse.convertAs
  split
  · rename_i value faults hrun
    exact tolerateAll (h value faults hrun)
  · exact tolerateAll trivial

theorem simpleTarget {e : Expr} (he : e.Plain) {start : Token} {fault : Fault}
    {post : Pattern → Sight → Prop} (h : ∀ v : Pattern, v.Plain → v.isTarget = true → post v s) :
    (Parse.simpleTarget ctx e start fault).Sees s post := by
  unfold Parse.simpleTarget
  split
  · have hname : ∀ {id : Ident}, post (.namePattern id) s := h _ (Tree.Binds.plain .namePattern) rfl
    exact sees_ite.mpr ⟨fun _ => hname, fun _ => hname⟩
  · have hplace : post (.exprPattern e) s := h _ (.one he trivial rfl rfl) rfl
    exact sees_ite.mpr ⟨fun _ => hplace, fun _ => hplace⟩

/-- The target that a well formed expression is converted to is well formed. -/
theorem assignmentTarget {e : Expr} (he : e.Plain) {start : Token} {fault : Fault}
    {post : Pattern → Sight → Prop} (h : ∀ v : Pattern, v.Plain → v.isTarget = true → post v s) :
    (Parse.assignmentTarget ctx e start fault).Sees s post := by
  have hliteral : isLiteralPattern e = true → ∀ v faults,
      e.asTarget .assignment ctx.strict false [] = .ok v faults → post v s := by
    intro hlit v faults hrun
    have hbecomes := Tree.becomes_of_asTarget hrun
    have hconverted := hbecomes.converted
    refine h _ ⟨hconverted.sound he.sound (.inl ⟨rfl, he.noDots⟩), hconverted.noDots rfl⟩ ?_
    cases hbecomes <;> first | rfl | cases hlit
  unfold Parse.assignmentTarget
  split
  · exact convertAs (hliteral rfl)
  · exact convertAs (hliteral rfl)
  · exact simpleTarget he h

end Parse.Drafts

/-- What is known of the items of a group as parameters. -/
structure GroupParameters (trailing : Bool) (count : Nat) (patterns : List Pattern) : Prop where
  /-- There are as many as there are items. -/
  length : patterns.length = count
  /-- They are well formed and bind names only. -/
  all : ∀ v ∈ patterns, v.Sound ∧ v.isBinding = true
  /-- Only the last has dots in front. -/
  front : ∀ v ∈ patterns.dropLast, v.hasDots = false
  /-- If a comma follows the last, it has none. -/
  final : trailing = true → ∀ v ∈ patterns, v.hasDots = false

theorem GroupParameters.cons {trailing : Bool} {count : Nat} {patterns : List Pattern} {p : Pattern}
    (h : GroupParameters trailing count patterns) (hp : p.Plain) (hb : p.isBinding = true) :
    GroupParameters trailing (count + 1) (p :: patterns) := by
  refine ⟨congrArg (· + 1) h.length, List.forall_mem_cons.2 ⟨⟨hp.sound, hb⟩, h.all⟩, ?_,
    fun ht => List.forall_mem_cons.2 ⟨hp.noDots, h.final ht⟩⟩
  cases patterns with
  | nil => exact List.forall_mem_nil _
  | cons next others =>
    rw [List.dropLast_cons_cons]
    exact List.forall_mem_cons.2 ⟨hp.noDots, h.front⟩

/-- What a group is converted to is well formed if its items are. -/
theorem Parse.Returns.groupParameters {ctx : Context} {site : Site} {trailing : Bool}
    {items : List Expr} (h : ∀ v ∈ items, v.Sound) :
    (Grammar.groupParameters ctx site trailing items).Returns
      (GroupParameters trailing items.length) := by
  fun_induction Grammar.groupParameters ctx site trailing items with
  | case1 =>
    exact ⟨rfl, List.forall_mem_nil _, List.forall_mem_nil _, fun _ => List.forall_mem_nil _⟩
  | case2 => exact of_fails (reject _ _)
  | case3 dotsLead operand span rest hlast =>
    have hoperand := (h _ List.mem_cons_self).plain rfl _ (List.mem_singleton_self _)
    refine convertAs fun target faults hrun => ?_
    obtain ⟨target, s₁, htarget, hcheck⟩ := Run.bind_eq_ok.1 hrun
    obtain ⟨_, _, hrest, hpure⟩ := Run.bind_eq_ok.1 hcheck
    obtain ⟨rfl, -⟩ := Run.pure_eq_ok.1 hpure
    have hconverted := (Tree.becomes_of_asTarget htarget).converted
    have hdots := hconverted.noDots rfl
    have htarget : target.Plain :=
      ⟨hconverted.sound hoperand.sound (.inl ⟨rfl, hoperand.noDots⟩), hdots⟩
    have hshape := Tree.isTarget_of_noDots hdots (Tree.isDefault_of_checkRest hrest)
    obtain ⟨htrailing, hnil⟩ : trailing = false ∧ rest = [] := by simp_all
    subst hnil
    refine ⟨rfl, List.forall_mem_singleton.2
      ⟨.behindDots htarget hshape rfl, hconverted.binding rfl⟩,
      List.forall_mem_nil _, fun ht => ?_⟩
    cases htrailing.symm.trans ht
  | case4 => exact reject _ _
  | case5 => exact reject _ _
  | case6 item rest hspread _ _ ih =>
    obtain ⟨hitem, hrest⟩ := List.forall_mem_cons.1 h
    have hdots : item.hasDots = false := by
      cases item <;> first | rfl | exact (hspread _ _ _ rfl).elim
    refine convertAs fun p faults hrun => (ih hrest).imp fun patterns hpatterns => ?_
    have hconverted := (Tree.becomes_of_asTarget hrun).converted
    exact hpatterns.cons ⟨hconverted.sound hitem (.inl ⟨rfl, hdots⟩), hconverted.noDots rfl⟩
      (hconverted.binding rfl)

/-- The parameters that a group is converted to. -/
theorem GroupParameters.plain {patterns : List Pattern} {items : List Expr} {openLead : String}
    {separators : List String} {closeLead : String}
    (h : GroupParameters (separators.length ≥ items.length) items.length patterns) :
    (Tree.paramList openLead (.ofList patterns) separators closeLead).Plain := by
  have hlast : Tree.DotsLast (.ofList patterns) separators := .ofList h.front fun hle =>
    h.final (decide_eq_true (h.length ▸ hle))
  refine ⟨.ofDots (.ofList fun v hv => (h.all v hv).1) ⟨hlast, ?_⟩ rfl rfl, rfl⟩
  rw [Tree.toList_ofList]
  exact fun v hv => (h.all v hv).2

namespace Parse.Drafts

variable {p : Productions} {ctx : Context} {s : Sight}

/-! ## Arrow functions -/

section

theorem checkParameterNames {strict unique : Bool} {site : Site} {seen : List String}
    {ids : List Ident} {post : Unit → Sight → Prop} (h : post () s) :
    (Grammar.checkParameterNames strict unique site seen ids).Sees s post := by
  induction ids generalizing seen with
  | nil => exact h
  | cons id ids ih =>
    simp only [Grammar.checkParameterNames, sees_bind, sees_ite, sees_tolerate]
    simp [ih]

theorem arrowBody (hp : p.Forms) {post : Tree .arrowBody × Bool → Sight → Prop}
    (h : ∀ r s', r.1.Draft s' → post r s') : (Grammar.arrowBody p ctx).Sees s post := by
  refine sees_ite.mpr ⟨fun _ => functionBody hp fun r s' hr => ?_, fun _ => ?_⟩
  · exact h (.blockBody r.1, r.2) _ (Tree.Plain.draft (.one hr trivial rfl rfl))
  · refine (hp.assignment _).into fun _ value s' hv => h (.exprBody value, _) _ ?_
    exact hv.wrap (fun hv => .one hv trivial rfl rfl) rfl rfl

variable {post : Expr → Sight → Prop}

theorem arrow (hp : p.Forms) {start : Position} {asyncLead : Option String}
    {params : Tree .arrowParams} {site : Site} (hparams : params.Plain)
    (h : ∀ v s', v.Draft s' → post v s') :
    (Grammar.arrow p ctx start asyncLead params site).Sees s post := by
  refine Sees.bindAny fun _ _ => Sees.bindAny fun _ _ => arrowBody hp fun r s' hr => ?_
  refine sees_ite.mpr ⟨fun _ => trivial, fun _ => checkParameterNames (finish fun _ => h _ _ ?_)⟩
  exact hr.wrap (fun hv => .two hparams hv trivial rfl rfl) rfl rfl

theorem bareArrow (hp : p.Forms) {start : Position} {asyncLead : Option String} {id : Ident}
    {t : Token} (h : ∀ v s', v.Draft s' → post v s') :
    (Grammar.bareArrow p ctx start asyncLead id t).Sees s post := by
  have hid : (Tree.bareParam id).Plain := .leaf trivial rfl rfl
  exact sees_ite.mpr ⟨fun _ => trivial, fun _ => sees_ite.mpr
    ⟨fun _ => arrow hp hid h, fun _ => arrow hp hid h⟩⟩

theorem groupArrow (hp : p.Forms) {start : Position} {asyncLead : Option String} {openLead : String}
    {items : List Expr} {separators : List String} {closeLead : String}
    (hitems : ∀ v ∈ items, v.Sound) (h : ∀ v s', v.Draft s' → post v s') :
    (Grammar.groupArrow p ctx start asyncLead openLead items separators closeLead).Sees s post := by
  refine sees_bind.mpr (Sees.yielding (.groupParameters hitems) fun patterns s' hpatterns => ?_)
  refine sees_ite.mpr ⟨fun _ => trivial, fun _ => arrow hp ?_ h⟩
  exact .one hpatterns.plain trivial rfl rfl

theorem asyncBareArrow (hp : p.Forms) (h : ∀ v s', v.Draft s' → post v s') :
    (Grammar.asyncBareArrow p ctx).Sees s post := by
  refine Sees.bindAny fun _ _ => Sees.bindAny fun _ _ => Sees.bindAny fun _ _ =>
    Sees.bindAny fun _ _ => ?_
  exact Sees.bindAny fun _ _ => sees_ite.mpr ⟨fun _ => trivial, fun _ => bareArrow hp h⟩

theorem seesAsyncBareArrow {post : Bool → Sight → Prop} (hyes : ¬ s.AtArrow → ∀ s', post true s')
    (hno : ∀ s', (s.AtArrow → s'.AtArrow) → post false s') :
    Grammar.seesAsyncBareArrow.Sees s post := by
  refine sees_ite.mpr ⟨fun hword t _ => ?_, fun _ => hno _ id⟩
  cases hb : t.isName && !t.newlineBefore with
  | true =>
    exact show post (t.isName && !t.newlineBefore) _ from
      hb ▸ hyes (Sight.not_atArrow_of_isWord hword) _
  | false => exact show post (t.isName && !t.newlineBefore) _ from hb ▸ hno _ id

/-! ## Assignments -/

/-- A yield expression is well formed unless an arrow is ahead. -/
theorem yieldExpression (hp : p.Forms) (h : ∀ v s', v.Draft s' → post v s') :
    (Grammar.yieldExpression p ctx).Sees s post := by
  have hrest : ∀ {t : Token} {starLead : Option String} {operand : Tree (.maybe .expr)} {s₁},
      operand.Draft s₁ → (Parse.finish .yield t.start).Sees s₁ fun span s' =>
        post (.yield t.lead starLead operand span) s' := fun hv => finish fun _ => h _ _ <|
    hv.wrap (fun hv => .one hv trivial rfl rfl) rfl rfl
  have hnone : ∀ {s₁}, (Tree.absent : Tree (.maybe .expr)).Draft s₁ := Tree.Plain.absent.draft
  have hsome : ∀ {v : Expr} {s₁}, v.Draft s₁ → (Tree.present v).Draft s₁ := fun hv =>
    hv.wrap Tree.Plain.present hv.noDots rfl
  refine sees_ite.mpr ⟨fun _ => trivial, fun _ => Sees.bindAny fun _ _ =>
    Sees.bindAny fun first _ => ?_⟩
  refine sees_ite.mpr ⟨fun _ => hrest hnone,
    fun _ => sees_ite.mpr ⟨fun _ => Sees.bindAny fun _ _ => ?_,
    fun _ => sees_ite.mpr ⟨fun _ => ?_, fun _ => hrest hnone⟩⟩⟩
  · exact (hp.assignment _).into fun _ _ _ hv => hrest (hsome hv)
  · exact (hp.assignment _).into fun _ _ _ hv => hrest (hsome hv)

theorem assignTo (hp : p.Forms) {first : Token} {left : Expr} {op : AssignOp}
    {pendingBefore : Option Site} (hl : left.Plain) (h : ∀ v s', v.Draft s' → post v s') :
    (Grammar.assignTo p ctx first left op pendingBefore).Sees s post := by
  have hrest : ∀ target : Pattern, target.Plain → target.isTarget = true →
      lead.Sees s fun opLead s' => (p.assignment ctx).Sees s' fun value s' =>
        (Parse.finish .assignment first.start).Sees s' fun span s' =>
          post (.assignment target opLead op value span) s' := by
    refine fun target ht hshape => Sees.any fun _ _ =>
      (hp.assignment _).into fun _ value s' hv => ?_
    exact finish fun _ => h _ _ (hv.wrap (fun hv => .two ht hv hshape rfl rfl) rfl rfl)
  exact sees_ite.mpr ⟨fun _ => assignmentTarget hl hrest, fun _ => simpleTarget hl hrest⟩

theorem settle {value : Expr} {pendingBefore : Option Site} (h : post value s) :
    (Grammar.settle value pendingBefore).Sees s post := by
  refine fun now => ?_
  cases now with
  | none => exact h
  | some site => exact sees_ite.mpr ⟨fun _ => trivial, fun _ => h⟩

theorem arrowAfter? (hp : p.Forms) {first : Token} {value : Expr} {pendingBefore : Option Site}
    {post : Option Expr → Sight → Prop} (hv : value.Draft s)
    (hsome : ∀ v s', v.Draft s' → post (some v) s') (hnone : post none s) :
    (Grammar.arrowAfter? p ctx first value pendingBefore).Sees s post := by
  refine sees_ite.mpr ⟨fun _ => hnone, fun _ => ?_⟩
  split
  · exact sees_ite.mpr ⟨fun _ => trivial, fun _ => groupArrow hp hv.items hsome⟩
  · exact sees_ite.mpr ⟨fun _ => trivial, fun _ => bareArrow hp hsome⟩
  · exact hnone

theorem plainCover (hp : p.Forms) (h : ¬ s.AtArrow → ∀ v s', v.Draft s' → post v s') :
    (Grammar.plainCover p ctx).Sees s post := by
  refine fun _ => conditional hp fun hs value s' hv => ?_
  refine arrowAfter? hp hv (h hs) (sees_bind.mpr (sees_look.mpr ?_))
  split
  case h_1 op hop =>
    exact assignTo hp (hv.plain (Sight.not_atArrow_of_some Sight.AtArrow.assignOp? hop)) (h hs)
  case h_2 => exact settle (h hs _ _ hv)

theorem cover (hp : p.Forms) (h : ¬ s.AtArrow → ∀ v s', v.Draft s' → post v s') :
    (Grammar.cover p ctx).Sees s post := by
  refine sees_ite.mpr ⟨fun hyield => yieldExpression hp (h ?_), fun _ => ?_⟩
  · exact Sight.not_atArrow_of_isWord (Bool.and_eq_true_iff.1 hyield).2
  · refine seesAsyncBareArrow (fun hs s' => asyncBareArrow hp (h hs)) fun s' hlater => ?_
    exact plainCover hp fun hs => h fun ha => hs (hlater ha)

theorem assignment (hp : p.Forms) (h : ¬ s.AtArrow → ∀ v s', v.Draft s' → post v s') :
    (Grammar.assignment p ctx).Sees s post :=
  fun _ => cover hp fun hs _ _ hv => rejectPending (h hs _ _ hv)

theorem sequenceFrom (hp : p.Forms) {start : Position} {first : Expr} (hf : first.Draft s)
    (h : ∀ v s', v.Draft s' → post v s') :
    (Grammar.sequenceFrom p ctx start first).Sees s post := by
  refine sees_ite.mpr ⟨fun _ => h _ _ hf, fun hcomma => ?_⟩
  have hs := Sight.not_atArrow_of_isPunctuator (by simpa using hcomma) (by decide)
  refine afterCommas (fun _ => (hp.assignment _).into fun _ _ _ hv => hv)
    (fun ha => absurd ha hs) ?_
  refine fun _ r s' hr => finish fun _ => h _ _ ?_
  have hitems := Tree.Draft.ofList (List.forall_mem_cons.2 ⟨(hf.plain hs).draft, hr⟩)
  exact hitems.wrap (fun hv => .one hv trivial rfl rfl) rfl rfl

theorem expression (hp : p.Forms) (h : ¬ s.AtArrow → ∀ v s', v.Draft s' → post v s') :
    (Grammar.expression p ctx).Sees s post :=
  assignment hp fun hs _ _ hv => sequenceFrom hp hv (h hs)

end

end Parse.Drafts

end Verbatim
