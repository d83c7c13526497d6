import Verbatim.Proofs.Recorded.Expression

/-!
# Operands, operators and assignments

What these productions read obeys the rules. A group is read as a list with commas, and stays one
whether it turns out to be a sequence, parameters or arguments.
-/

namespace Verbatim

open Grammar Parse

namespace Parse.Notes

variable {p : Productions} {ctx : Context}

/-! ## Arrays, objects and arguments -/

theorem spreadOr {value : Parse Expr} {begun : Bool} (hvalue : value.Notes false Tree.Faithful) :
    (Grammar.spreadOr value).Notes begun Tree.Faithful := by
  unfold Grammar.spreadOr
  refine bindAny fun _ => ite (fun _ => leadThen fun _ => ?_) fun _ => hvalue.behind
  refine hvalue.behind.bind fun operand hv => bindAny fun _ => pure ?_
  exact .one hv (.of_none rfl trivial rfl trivial) rfl

theorem arrayRound (hp : p.Record) : (Grammar.arrayRound p ctx).Notes true
    (Round.Noted Tree.Faithful Tree.isAbsent) := by
  unfold Grammar.arrayRound
  refine bindAny fun _ => ite (fun _ => separator.bind fun comma hcomma => pure ⟨.absent, hcomma⟩)
    fun _ => (spreadOr (hp.cover _)).bind fun v hv => pure ⟨hv.present, rfl⟩

theorem arrayLiteral (hp : p.Record) : (Grammar.arrayLiteral p ctx).Notes false Tree.Faithful := by
  unfold Grammar.arrayLiteral
  refine bindAny fun _ => expectThen fun _ => (listed (arrayRound hp)).bind fun r hr => ?_
  refine bindAny fun _ => bindAny fun _ => pure ?_
  exact .one (Tree.Faithful.ofItems hr.items) (.of_list hr.commaList rfl trivial rfl trivial) rfl

theorem shorthandValue (hp : p.Record) {start : Position} {id : Ident} :
    (Grammar.shorthandValue p ctx start id).Notes true Tree.Faithful := by
  have hname : (Tree.namePattern id).Faithful := .leaf (.of_none rfl trivial rfl trivial) rfl
  unfold Grammar.shorthandValue
  refine bindAny fun _ => ite (fun _ => bindAny fun _ => bindAny fun _ => ?_) fun _ => pure ?_
  · refine (hp.assignment _).behind.bind fun value hvalue => bindAny fun _ => pure ?_
    exact .two hname hvalue (.of_none rfl trivial rfl trivial) rfl
  · exact .leaf (.of_none rfl trivial rfl trivial) rfl

/-- The words in front of a key fit the property that follows. -/
theorem property (hp : p.Record) : (Grammar.property p ctx).Notes false Tree.Faithful := by
  unfold Grammar.property
  refine bindAny fun _ => bindReturns .modifiers fun (mods, kind) ⟨hmods, hstatic⟩ => ?_
  refine bindAny fun first => (key hp).bind fun name hname => bindAny fun t => ?_
  refine ite (fun _ => ?_) fun hmodified => ?_
  · refine (methodFunction hp).behind.bind fun value hvalue => bindAny fun _ => pure ?_
    refine .property hname (.one hvalue.1 (.of_none rfl trivial rfl trivial) rfl)
      ⟨hstatic, fun h => ?_,
      fun _ => ⟨value, rfl, hvalue.2 ▸ hmods.introduce⟩, fun h hkind => ?_⟩
    · simpa using h
    · simp [hkind] at h
  obtain ⟨hnone, hkind⟩ : mods = {} ∧ kind = .plain := by
    refine ⟨?_, hmods.eq_plain (by simp_all)⟩
    obtain ⟨staticLead, asyncLead, accessorLead, starLead⟩ := mods
    simp_all
  have hfits : ∀ value, mods.FitProperty kind false value := fun value =>
    ⟨hstatic, nofun, fun h => absurd (h.resolve_left nofun) (absurd hkind), fun _ _ => hnone⟩
  refine ite (fun _ => bindAny fun _ => ?_) fun _ => bindAny fun id => bindAny fun _ => ?_
  · refine (hp.cover _).behind.bind fun value hvalue => bindAny fun _ => pure ?_
    exact .property hname hvalue (hfits value)
  · refine (shorthandValue hp).bind fun value hvalue => bindAny fun _ => pure ?_
    exact .property hname hvalue (hfits value)

theorem objectMember (hp : p.Record) : (Grammar.objectMember p ctx).Notes false Tree.Faithful := by
  unfold Grammar.objectMember
  refine bindAny fun _ => ite (fun _ => leadThen fun _ => ?_) fun _ => property hp
  refine (hp.cover _).behind.bind fun operand hv => bindAny fun _ => pure ?_
  exact .one hv (.of_none rfl trivial rfl trivial) rfl

theorem objectLiteral (hp : p.Record) : (Grammar.objectLiteral p ctx).Notes false
    Tree.Faithful := by
  unfold Grammar.objectLiteral
  have hround : (Round.item <$> Grammar.objectMember p ctx.inside).Notes true
      (Round.Noted Tree.Faithful Tree.isAbsent) :=
    (objectMember hp).behind.map fun v hv => ⟨hv, v.isAbsent_eq_false nofun⟩
  refine bindAny fun _ => expectThen fun _ => (listed hround).bind fun r hr => ?_
  refine bindAny fun _ => bindAny fun _ => pure ?_
  exact .one (Tree.Faithful.ofItems hr.items) (.of_list hr.commaList rfl trivial rfl trivial) rfl

theorem argumentList (hp : p.Record) : (Grammar.argumentList p ctx).Notes false Tree.Faithful := by
  unfold Grammar.argumentList
  have hround : (Round.item <$> Grammar.spreadOr (p.assignment ctx.inside)).Notes true
      (Round.Noted Tree.Faithful Tree.isAbsent) :=
    (spreadOr (hp.assignment _)).map fun v hv => ⟨hv, v.isAbsent_eq_false nofun⟩
  refine expectThen fun _ => (listed hround).bind fun r hr => bindAny fun _ => pure ?_
  exact .one (Tree.Faithful.ofItems hr.items) (.of_list hr.commaList rfl trivial rfl trivial) rfl

end Parse.Notes

/-! ## Groups -/

/-- The items of a group obey the rules, and its commas match them. -/
structure Grammar.Group.Faithful (g : Group) : Prop where
  /-- The items obey the rules. -/
  items : ∀ v ∈ g.values, v.Faithful
  /-- The commas match the items. -/
  commas : ((Tree.ofList g.values).commaList g.separators).Matched

/-- A sequence in a group has a comma behind each item but the last. -/
theorem Grammar.Group.Faithful.sequence {g : Group} (hg : g.Faithful)
    (hbare : g.separators.length < g.items.length) {span : Span} :
    (Tree.sequence (.ofList g.values) g.separators span).Faithful := by
  refine .one (Tree.Faithful.ofItems hg.items) (.of_list ?_ rfl trivial rfl trivial) rfl
  refine ⟨hg.commas.commas, hg.commas.between, hg.commas.behind, fun _ => ?_, hg.commas.hole⟩
  change g.separators.length < (Tree.ofList g.values).toList.length
  rw [Tree.toList_ofList]
  exact Nat.lt_of_lt_of_eq hbare (List.length_map ..).symm

theorem Grammar.Group.Faithful.unresolved {g : Group} (hg : g.Faithful) {asyncLead : Option String}
    {span : Span} : (g.unresolved asyncLead span).Faithful :=
  .one (Tree.Faithful.ofItems hg.items) (.of_list hg.commas rfl trivial rfl trivial) rfl

namespace Parse.Notes

variable {p : Productions} {ctx : Context}

/-- The items of a group obey the rules. -/
theorem readGroup (hp : p.Record) : (Grammar.readGroup p ctx).Notes false Group.Faithful := by
  have hround : (Round.item <$> groupItem p ctx.inside).Notes true
      (Round.Noted (fun item : GroupItem => item.value.Faithful) fun _ => false) := by
    refine map (P := fun item : GroupItem => item.value.Faithful) ?_ fun v hv => ⟨hv, rfl⟩
    unfold Grammar.groupItem
    exact bindAny fun _ => (spreadOr (hp.cover _)).bind fun v hv => bindAny fun _ => pure hv
  unfold Grammar.readGroup
  refine expectThen fun _ => (listed hround).bind fun r hr => bindAny fun _ => pure ?_
  refine ⟨List.forall_mem_map.2 hr.items, hr.matched ?_ rfl rfl fun hhole => ?_⟩
  · change (Tree.ofList (r.1.map (·.value))).toList.length = _
    rw [Tree.toList_ofList, List.length_map]
  · cases (Tree.endsInHole_eq_false (Tree.ofList (r.1.map (·.value))) nofun).symm.trans hhole

theorem groupValue {g : Group} (hg : g.Faithful) (hbare : g.separators.length < g.items.length) :
    (Grammar.groupValue g).Notes true Tree.Faithful := by
  unfold Grammar.groupValue
  split
  · rename_i value _ hvalues
    exact pure (hg.items _ (hvalues ▸ List.mem_singleton_self _))
  · exact bindAny fun _ => pure (hg.sequence hbare)
  · exact stalled

/-- A group in parentheses obeys the rules if its items do. -/
theorem parenthesized {start : Position} {g : Group} (hg : g.Faithful) :
    (Grammar.parenthesized ctx start g).Notes true Tree.Faithful := by
  unfold Grammar.parenthesized
  refine ite (fun _ => of_fails (.unexpectedHere _)) fun hbare => ?_
  have hinner : (Grammar.rejectPending >>= fun _ => Grammar.groupValue g >>= fun inner =>
      Parse.finish .parenthesized start >>= fun span =>
        Pure.pure (Tree.parenthesized g.openLead inner g.closeLead span)).Notes true
          Tree.Faithful := by
    refine bindAny fun _ => (groupValue hg (Nat.lt_of_not_le hbare)).bind fun inner hinner => ?_
    exact bindAny fun _ => pure (.one hinner (.of_none rfl trivial rfl trivial) rfl)
  split
  · exact bindAny fun _ => hinner
  · exact hinner

theorem group (hp : p.Record) : (Grammar.group p ctx).Notes false Tree.Faithful := by
  unfold Grammar.group
  refine bindAny fun _ => (readGroup hp).bind fun g hg => bindAny fun _ => ?_
  exact ite (fun _ => bindAny fun _ => pure hg.unresolved) fun _ => parenthesized hg

/-! ## Operands -/

theorem functionExpression (hp : p.Record) :
    (Grammar.functionExpression p ctx).Notes false Tree.Faithful :=
  (function hp).map fun _ hv => .one hv (.of_none rfl trivial rfl trivial) rfl

theorem nameOperand (hp : p.Record) : (Grammar.nameOperand p ctx).Notes false Tree.Faithful := by
  have hname : (Parse.next >>= fun t => Grammar.checkReference ctx t >>= fun _ =>
      Parse.finishName t >>= fun id => Pure.pure (Tree.identifier id)).Notes false Tree.Faithful :=
    nextThen fun _ => bindAny fun _ => bindAny fun _ =>
      pure (.leaf (.of_none rfl trivial rfl trivial) rfl)
  unfold Grammar.nameOperand
  refine bindAny fun _ => ite (fun _ => bindAny fun _ => bindAny fun _ => ?_) fun _ =>
    bindAny fun _ => ?_
  · exact ite (fun _ => functionExpression hp) fun _ => hname
  · exact ite (fun _ => functionExpression hp) fun _ => hname

theorem literalOperand : (Grammar.literal ctx >>= fun lit =>
    Pure.pure (Tree.literal lit)).Notes false Tree.Faithful :=
  literal.bind fun _ hlit => pure (.leaf (.of_literal hlit rfl trivial rfl trivial) rfl)

theorem punctuatedOperand (hp : p.Record) {t : Token} :
    (Grammar.punctuatedOperand p ctx t).Notes false Tree.Faithful := by
  unfold Grammar.punctuatedOperand
  split
  · exact group hp
  · exact arrayLiteral hp
  · exact objectLiteral hp
  · exact bindAny fun _ => literalOperand
  · exact bindAny fun _ => literalOperand
  · exact ite (fun _ => markupRoot hp) fun _ => fail
  · exact unexpected

theorem keywordOperand (hp : p.Record) {t : Token} :
    (Grammar.keywordOperand p ctx t).Notes false Tree.Faithful := by
  unfold Grammar.keywordOperand
  split
  · exact leadThen fun _ => bindAny fun _ => pure (.leaf (.of_none rfl trivial rfl trivial) rfl)
  · exact functionExpression hp
  · exact (classDefinition hp).map fun _ hv => .one hv (.of_none rfl trivial rfl trivial) rfl
  · exact unexpected

/-- An operand obeys the rules. -/
theorem operand (hp : p.Record) : (Grammar.operand p ctx).Notes false Tree.Faithful := by
  have hliteral : (Tree.literal <$> Grammar.literal ctx).Notes false Tree.Faithful :=
    literal.map fun _ hlit => .leaf (.of_literal hlit rfl trivial rfl trivial) rfl
  unfold Grammar.operand
  refine bindAny fun t => ?_
  split
  case h_1 => exact nameOperand hp
  case h_7 =>
    refine ite (fun _ => (template hp).map fun _ hv => ?_) fun _ => unexpected
    exact .one hv (.of_none rfl trivial rfl trivial) rfl
  case h_8 => exact punctuatedOperand hp
  case h_9 => exact keywordOperand hp
  case h_10 => exact unexpected
  all_goals exact hliteral

/-! ## Chains -/

theorem accessName : (Grammar.accessName ctx).Notes false Tree.Faithful := by
  unfold Grammar.accessName
  refine bindAny fun _ => ite (fun _ => nextThen fun _ => bindAny fun _ => pure ?_) fun _ => ?_
  · exact .leaf (.of_none rfl trivial rfl trivial) rfl
  · refine ite (fun _ => nextThen fun _ => bindAny fun _ => pure ?_) fun _ => unexpected
    exact .leaf (.of_none rfl trivial rfl trivial) rfl

theorem accessIndex (hp : p.Record) : (Grammar.accessIndex p ctx).Notes false Tree.Faithful := by
  unfold Grammar.accessIndex
  refine expectThen fun _ => (hp.expression _).behind.bind fun inner hinner =>
    bindAny fun _ => pure ?_
  exact .one hinner (.of_none rfl trivial rfl trivial) rfl

section

variable {start : Position} {base : Expr} (hb : base.Faithful)
include hb

theorem finishAccess {isOptional : Bool} {dotLead : String} {prop : Tree .access}
    (ha : prop.Faithful) :
    (Grammar.finishAccess start base isOptional dotLead prop).Notes true Tree.Faithful :=
  bindAny fun _ => pure (.two hb ha (.of_none rfl trivial rfl trivial) rfl)

theorem finishCall {isOptional : Bool} {optionalLead : String} {args : Tree .arguments}
    (ha : args.Faithful) :
    (Grammar.finishCall start base isOptional optionalLead args).Notes true Tree.Faithful :=
  bindAny fun _ => pure (.two hb ha (.of_none rfl trivial rfl trivial) rfl)

theorem taggedTemplate (hp : p.Record) :
    (Grammar.taggedTemplate p ctx start base).Notes true Tree.Faithful := by
  unfold Grammar.taggedTemplate
  refine (template hp).behind.bind fun quasi hquasi => bindAny fun _ => pure ?_
  exact .two hb hquasi (.of_none rfl trivial rfl trivial) rfl

theorem optionalLink (hp : p.Record) :
    (Grammar.optionalLink p ctx start base).Notes true Tree.Faithful := by
  unfold Grammar.optionalLink
  refine bindAny fun _ => bindAny fun _ => ite (fun _ => ?_) fun _ => ite (fun _ => ?_) fun _ =>
    ite (fun _ => reject) fun _ => ?_
  · exact (argumentList hp).behind.bind fun _ ha => finishCall hb ha
  · exact (accessIndex hp).behind.bind fun _ ha => finishAccess hb ha
  · exact accessName.behind.bind fun _ ha => finishAccess hb ha

theorem plainLink (hp : p.Record) :
    (Grammar.plainLink p ctx start base).Notes true fun w => ∀ v ∈ w, v.Faithful := by
  have hsome : ∀ v : Expr, v.Faithful → ∀ w ∈ some v, w.Faithful := by
    rintro v hv _ ⟨⟩
    exact hv
  unfold Grammar.plainLink
  refine bindAny fun _ => ite (fun _ => ?_) fun _ => ite (fun _ => ?_) fun _ => ite (fun _ => ?_)
    fun _ => pure nofun
  · exact bindAny fun _ => accessName.behind.bind fun _ ha => (finishAccess hb ha).map hsome
  · exact (accessIndex hp).behind.bind fun _ ha => (finishAccess hb ha).map hsome
  · exact (argumentList hp).behind.bind fun _ ha => (finishCall hb ha).map hsome

end

/-- A link of a chain obeys the rules if what it extends does. -/
theorem chainLink (hp : p.Record) {start : Position} {c : Chain} (hc : c.value.Faithful) :
    (Grammar.chainLink p ctx start c).Notes true fun w => ∀ c' ∈ w, c'.value.Faithful := by
  have hsome : ∀ c' : Chain, c'.value.Faithful → ∀ w ∈ some c', w.value.Faithful := by
    rintro v hv _ ⟨⟩
    exact hv
  unfold Grammar.chainLink
  refine bindAny fun _ => ite (fun _ => ?_) fun _ => ite (fun _ => check fun _ => ?_) fun _ => ?_
  · exact (optionalLink hc hp).bind fun v hv => pure (hsome _ hv)
  · exact (taggedTemplate hc hp).bind fun v hv => pure (hsome _ hv)
  · refine (plainLink hc hp).bind fun w hw => pure ?_
    cases w with
    | none => exact nofun
    | some v => exact hsome _ (hw v rfl)

theorem superclass : (Grammar.superclass ctx).Notes false Tree.Faithful := by
  unfold Grammar.superclass
  refine nextThen fun _ => bindAny fun _ => check fun _ => bindAny fun _ => pure ?_
  exact .leaf (.of_none rfl trivial rfl trivial) rfl

theorem metaProperty {first : Token} {word : String} {check : Parse Unit} :
    (Grammar.metaProperty ctx first word check).Notes true Tree.Faithful := by
  unfold Grammar.metaProperty
  refine bindAny fun _ => bindAny fun _ => bindAny fun _ => Notes.check fun _ => bindAny fun _ => ?_
  exact bindAny fun _ => bindAny fun _ => pure (.leaf (.of_none rfl trivial rfl trivial) rfl)

theorem construct (hp : p.Record) : (Grammar.construct p ctx).Notes false Tree.Faithful := by
  unfold Grammar.construct
  refine nextThen fun t => bindAny fun _ => ite (fun _ => metaProperty) fun _ => bindAny fun _ => ?_
  refine check fun _ => (hp.callee _).behind.bind fun base hb => check fun _ => bindAny fun _ => ?_
  refine ite (fun _ => ?_) fun _ => bindPure (bindAny fun _ => pure ?_)
  · refine bind (P := Tree.Faithful) ((argumentList hp).behind.map fun _ ha => ha.present)
      fun args ha => ?_
    exact bindAny fun _ => pure (.two hb ha (.of_none rfl trivial rfl trivial) rfl)
  · exact .two hb Tree.Faithful.absent (.of_none rfl trivial rfl trivial) rfl

theorem importExpression (hp : p.Record) :
    (Grammar.importExpression p ctx).Notes false Tree.Faithful := by
  unfold Grammar.importExpression
  refine nextThen fun t => bindAny fun _ => ite (fun _ => metaProperty) fun _ => bindAny fun _ => ?_
  refine (hp.assignment _).behind.bind fun source hsource => bindAny fun _ =>
    bindAny fun _ => pure ?_
  exact .one hsource (.of_none rfl trivial rfl trivial) rfl

theorem asyncCall (hp : p.Record) {start : Position} {name : Ident} :
    (Grammar.asyncCall p ctx start name).Notes true Tree.Faithful := by
  unfold Grammar.asyncCall
  refine bindAny fun _ => bindAny fun _ => (readGroup hp).behind.bind fun g hg =>
    bindAny fun _ => ?_
  refine ite (fun _ => bindAny fun _ => bindAny fun _ => pure hg.unresolved) fun _ => ?_
  refine bindAny fun _ => bindAny fun _ => (finishCall ?_ ?_).bind fun value hvalue => ?_
  · exact .leaf (.of_none rfl trivial rfl trivial) rfl
  · exact .one (Tree.Faithful.ofItems hg.items) (.of_list hg.commas rfl trivial rfl trivial) rfl
  · exact iterate (fun v hv => plainLink hv hp) hvalue

theorem chainHead (hp : p.Record) : (Grammar.chainHead p ctx).Notes false Tree.Faithful := by
  unfold Grammar.chainHead
  exact bindAny fun _ => ite (fun _ => superclass) fun _ => ite (fun _ => construct hp) fun _ =>
    ite (fun _ => importExpression hp) fun _ => operand hp

theorem chain (hp : p.Record) : (Grammar.chain p ctx).Notes false Tree.Faithful := by
  unfold Grammar.chain
  refine bindAny fun first => (chainHead hp).bind fun value hvalue => bindAny fun name => ?_
  cases name with
  | some name => exact asyncCall hp
  | none =>
    refine (iterate (P := fun c : Chain => c.value.Faithful)
      (fun c hc => chainLink hp hc) hvalue).bind ?_
    exact fun c hc => pure hc

theorem calleeLink (hp : p.Record) {start : Position} {base : Expr} (hb : base.Faithful) :
    (Grammar.calleeLink p ctx start base).Notes true fun w => ∀ v ∈ w, v.Faithful := by
  unfold Grammar.calleeLink
  refine bindAny fun _ => check fun _ => ite (fun _ => (taggedTemplate hb hp).map ?_) fun _ =>
    ite (fun _ => pure nofun) fun _ => plainLink hb hp
  rintro v hv _ ⟨⟩
  exact hv

theorem callee (hp : p.Record) : (Grammar.callee p ctx).Notes false Tree.Faithful := by
  have hlinks : ∀ {t : Token} {value : Expr}, value.Faithful →
      (Parse.iterate (Grammar.calleeLink p ctx t.start) p.rounds value).Notes true Tree.Faithful :=
    iterate fun v hv => calleeLink hp hv
  unfold Grammar.callee
  refine bindAny fun t => ite (fun _ => ?_) fun _ => ite (fun _ => ?_) fun _ => ?_
  · exact (construct hp).bind fun _ hv => hlinks hv
  · exact superclass.bind fun _ hv => hlinks hv
  · exact (operand hp).bind fun _ hv => hlinks hv

/-! ## Operators -/

theorem unaryOperation (hp : p.Record) {op : UnaryOp} :
    (Grammar.unaryOperation p ctx op).Notes false Tree.Faithful := by
  unfold Grammar.unaryOperation
  refine nextThen fun t => (hp.unary _).behind.bind fun operand hv => bindAny fun _ => ?_
  have hend : (Parse.finish .unary t.start >>= fun span =>
      Pure.pure (Tree.unary t.lead op operand span)).Notes true Tree.Faithful :=
    bindAny fun _ => pure (.one hv (.of_none rfl trivial rfl trivial) rfl)
  split
  · exact check fun _ => hend
  · exact hend

theorem awaitOperation (hp : p.Record) :
    (Grammar.awaitOperation p ctx).Notes false Tree.Faithful := by
  have hrest : (Parse.next >>= fun t => p.unary ctx >>= fun operand =>
      Grammar.rejectCover ctx operand >>= fun _ => Parse.finish .await t.start >>= fun span =>
        Pure.pure (Tree.await t.lead operand span)).Notes false Tree.Faithful := by
    refine nextThen fun t => (hp.unary _).behind.bind fun operand hv => bindAny fun _ => ?_
    exact bindAny fun _ => pure (.one hv (.of_none rfl trivial rfl trivial) rfl)
  unfold Grammar.awaitOperation
  exact ite (fun _ => bindAny fun _ => bindAny fun _ => hrest) fun _ => hrest

theorem updateBefore (hp : p.Record) {op : UpdateOp} :
    (Grammar.updateBefore p ctx op).Notes false Tree.Faithful := by
  unfold Grammar.updateBefore
  refine nextThen fun t => bindAny fun _ => (hp.unary _).behind.bind fun operand hv => ?_
  exact bindAny fun _ => bindAny fun _ => pure (.one hv (.of_none rfl trivial rfl trivial) rfl)

theorem updateAfter (hp : p.Record) : (Grammar.updateAfter p ctx).Notes false Tree.Faithful := by
  unfold Grammar.updateAfter
  refine bindAny fun _ => (chain hp).bind fun value hvalue => bindAny fun t => ?_
  split
  · exact pure hvalue
  · refine ite (fun _ => pure hvalue) fun _ => bindAny fun _ => bindAny fun _ =>
      bindAny fun _ => pure ?_
    exact .one hvalue (.of_none rfl trivial rfl trivial) rfl

theorem unary (hp : p.Record) : (Grammar.unary p ctx).Notes false Tree.Faithful := by
  unfold Grammar.unary
  refine bindAny fun t => ?_
  split
  · exact unaryOperation hp
  · refine ite (fun _ => awaitOperation hp) fun _ => ?_
    split
    · exact updateBefore hp
    · exact updateAfter hp

theorem exponentiation (hp : p.Record) :
    (Grammar.exponentiation p ctx).Notes false Tree.Faithful := by
  unfold Grammar.exponentiation
  refine bindAny fun _ => (unary hp).bind fun base hb => bindAny fun _ => ?_
  refine ite (fun _ => pure hb) fun _ => check fun _ => bindAny fun _ => bindAny fun _ => ?_
  refine (hp.exponentiation _).behind.bind fun power hpower => bindAny fun _ =>
    bindAny fun _ => pure ?_
  exact .two hb hpower (.of_none rfl trivial rfl trivial) rfl

/-- A step of a binary expression obeys the rules if its left side does. -/
theorem binaryStep (hp : p.Record) {start : Position} {least : Nat} {left : Expr}
    (hl : left.Faithful) :
    (Grammar.binaryStep p ctx start least left).Notes true fun w => ∀ v ∈ w, v.Faithful := by
  unfold Grammar.binaryStep
  refine bindAny fun t => ?_
  split
  · exact pure nofun
  · refine ite (fun _ => pure nofun) fun _ => bindAny fun _ => bindAny fun _ => ?_
    refine (hp.binary _ _).behind.bind fun right hr => bindAny fun _ => check fun _ => ?_
    refine bindAny fun _ => pure ?_
    rintro _ ⟨⟩
    exact .two hl hr (.of_none rfl trivial rfl trivial) rfl

theorem binary (hp : p.Record) {least : Nat} :
    (Grammar.binary p least ctx).Notes false Tree.Faithful := by
  unfold Grammar.binary
  refine bindAny fun _ => (exponentiation hp).bind fun first hfirst => ?_
  exact iterate (fun _ hl => binaryStep hp hl) hfirst

theorem conditional (hp : p.Record) : (Grammar.conditional p ctx).Notes false Tree.Faithful := by
  unfold Grammar.conditional
  refine bindAny fun _ => (binary hp).bind fun test ht => bindAny fun _ => ?_
  refine ite (fun _ => pure ht) fun _ => bindAny fun _ => bindAny fun _ => ?_
  refine (hp.assignment _).behind.bind fun consequent hc => bindAny fun _ => ?_
  refine (hp.assignment _).behind.bind fun alternate ha => bindAny fun _ => pure ?_
  exact .three ht hc ha (.of_none rfl trivial rfl trivial) rfl

end Parse.Notes

/-! ## Targets and parameters -/

namespace Parse.Returns

variable {ctx : Context}

theorem faithful_simpleTarget {e : Expr} (he : e.Faithful) {start : Token} {fault : Fault} :
    (Parse.simpleTarget ctx e start fault).Returns Tree.Faithful := by
  unfold Parse.simpleTarget
  have hname : ∀ {id : Ident}, (Tree.namePattern id).Faithful :=
    .leaf (.of_none rfl trivial rfl trivial) rfl
  have hplace : (Tree.exprPattern e).Faithful := .one he (.of_none rfl trivial rfl trivial) rfl
  split
  · exact ite (fun _ => bind fun _ => hname) fun _ => hname
  · exact ite (fun _ => bind fun _ => hplace) fun _ => hplace

theorem faithful_assignmentTarget {e : Expr} (he : e.Faithful) {start : Token} {fault : Fault} :
    (Parse.assignmentTarget ctx e start fault).Returns Tree.Faithful := by
  unfold Parse.assignmentTarget
  split
  · exact convertAs fun v faults hrun => (Tree.becomes_of_asTarget hrun).faithful he
  · exact convertAs fun v faults hrun => (Tree.becomes_of_asTarget hrun).faithful he
  · exact faithful_simpleTarget he

/-- There are as many parameters as items. -/
theorem faithfulParameters {site : Site} {trailing : Bool} {items : List Expr}
    (h : ∀ v ∈ items, v.Faithful) : (Grammar.groupParameters ctx site trailing items).Returns
      fun patterns => (∀ v ∈ patterns, v.Faithful) ∧ patterns.length = items.length := by
  fun_induction Grammar.groupParameters ctx site trailing items with
  | case1 => exact ⟨List.forall_mem_nil _, rfl⟩
  | case2 => exact of_fails (reject _ _)
  | case3 dotsLead operand span rest hlast =>
    have hoperand := (h _ List.mem_cons_self).part _ (List.mem_singleton_self _)
    refine convertAs fun target faults hrun => ?_
    obtain ⟨target, s₁, htarget, hcheck⟩ := Run.bind_eq_ok.1 hrun
    obtain ⟨_, _, -, hpure⟩ := Run.bind_eq_ok.1 hcheck
    obtain ⟨rfl, -⟩ := Run.pure_eq_ok.1 hpure
    have hconverted := (Tree.becomes_of_asTarget htarget).faithful hoperand
    obtain rfl : rest = [] := by simp_all
    exact ⟨List.forall_mem_singleton.2 (.one hconverted
      (.of_none rfl trivial rfl trivial) rfl), rfl⟩
  | case4 => exact reject _ _
  | case5 => exact reject _ _
  | case6 item rest hspread _ _ ih =>
    obtain ⟨hitem, hrest⟩ := List.forall_mem_cons.1 h
    refine convertAs fun p faults hrun => (ih hrest).imp fun patterns hpatterns => ?_
    have hconverted := (Tree.becomes_of_asTarget hrun).faithful hitem
    exact ⟨List.forall_mem_cons.2 ⟨hconverted, hpatterns.1⟩, congrArg (· + 1) hpatterns.2⟩

end Parse.Returns

namespace Parse.Notes

variable {p : Productions} {ctx : Context}

/-! ## Arrow functions -/

theorem arrowBody (hp : p.Record) :
    (Grammar.arrowBody p ctx).Notes false fun r => r.1.Faithful := by
  unfold Grammar.arrowBody
  refine bindAny fun _ => ite (fun _ => ?_) fun _ => ?_
  · exact (functionBody hp).bind fun r hr => pure (.one hr (.of_none rfl trivial rfl trivial) rfl)
  · exact (hp.assignment _).bind fun v hv => pure (.one hv (.of_none rfl trivial rfl trivial) rfl)

theorem arrow (hp : p.Record) {start : Position} {asyncLead : Option String}
    {params : Tree .arrowParams} {site : Site} (hparams : params.Faithful) :
    (Grammar.arrow p ctx start asyncLead params site).Notes true Tree.Faithful := by
  unfold Grammar.arrow
  refine bindAny fun _ => bindAny fun _ => bindAny fun _ =>
    (arrowBody hp).behind.bind fun r hr => ?_
  refine bindAny fun _ => check fun _ => bindAny fun _ => bindAny fun _ => pure ?_
  exact .two hparams hr (.of_none rfl trivial rfl trivial) rfl

theorem bareArrow (hp : p.Record) {start : Position} {asyncLead : Option String} {id : Ident}
    {t : Token} : (Grammar.bareArrow p ctx start asyncLead id t).Notes true Tree.Faithful := by
  unfold Grammar.bareArrow
  exact check fun _ => check fun _ => arrow hp (.leaf (.of_none rfl trivial rfl trivial) rfl)

/-- The parameters of an arrow function have the commas of the group. -/
theorem groupArrow (hp : p.Record) {start : Position} {asyncLead : Option String}
    {openLead : String}
    {items : List Expr} {separators : List String} {closeLead : String}
    (hitems : ∀ v ∈ items, v.Faithful)
    (hcommas : ((Tree.ofList items).commaList separators).Matched) :
    (Grammar.groupArrow p ctx start asyncLead openLead items separators closeLead).Notes true
      Tree.Faithful := by
  unfold Grammar.groupArrow
  refine bindReturns (.faithfulParameters hitems) fun patterns ⟨hpatterns, hlength⟩ => ?_
  refine check fun _ => arrow hp (.one ?_ (.of_none rfl trivial rfl trivial) rfl)
  refine .one (Tree.Faithful.ofItems hpatterns) (.of_list ?_ rfl trivial rfl trivial) rfl
  have hcount : (Tree.ofList patterns).toList.length = (Tree.ofList items).toList.length := by
    rwa [Tree.toList_ofList, Tree.toList_ofList]
  refine ⟨hcommas.commas, Nat.le_trans (Nat.le_of_eq hcount) hcommas.between,
    Nat.le_trans hcommas.behind (Nat.le_of_eq hcount.symm), nofun, fun hhole => ?_⟩
  cases (Tree.endsInHole_eq_false (Tree.ofList patterns) nofun).symm.trans hhole

theorem asyncBareArrow (hp : p.Record) :
    (Grammar.asyncBareArrow p ctx).Notes false Tree.Faithful := by
  unfold Grammar.asyncBareArrow
  refine bindAny fun _ => leadThen fun _ => bindAny fun _ => bindAny fun _ => bindAny fun _ => ?_
  exact check fun _ => bareArrow hp

/-! ## Assignments -/

/-- A yield expression obeys the rules. -/
theorem yieldExpression (hp : p.Record) :
    (Grammar.yieldExpression p ctx).Notes false Tree.Faithful := by
  have hend : ∀ {t : Token} {starLead : Option String} {operand : Tree (.maybe .expr)},
      operand.Faithful → (Parse.finish .yield t.start >>= fun span =>
        Pure.pure (Tree.yield t.lead starLead operand span)).Notes true Tree.Faithful :=
    fun hv => bindAny fun _ => pure (.one hv (.of_none rfl trivial rfl trivial) rfl)
  unfold Grammar.yieldExpression
  refine ite (fun _ => bindAny fun _ => bindAny fun _ => ?_) fun _ => ?_
  all_goals
    refine nextThen fun t => bindAny fun first => ite (fun _ => bindPure (hend .absent)) fun _ => ?_
    refine ite (fun _ => bindAny fun _ => ?_) fun _ =>
      ite (fun _ => ?_) fun _ => bindPure (hend .absent)
    · exact (hp.assignment _).behind.bind fun v hv => bindPure (hend hv.present)
    · exact (hp.assignment _).behind.bind fun v hv => bindPure (hend hv.present)

/-- An assignment obeys the rules if what stands to its left does. -/
theorem assignTo (hp : p.Record) {first : Token} {left : Expr} {op : AssignOp}
    {pendingBefore : Option Site} (hl : left.Faithful) :
    (Grammar.assignTo p ctx first left op pendingBefore).Notes true Tree.Faithful := by
  have hrest : ∀ target : Pattern, target.Faithful → (Parse.setPending pendingBefore >>= fun _ =>
      Parse.lead >>= fun opLead => p.assignment ctx >>= fun value =>
        Parse.finish .assignment first.start >>= fun span =>
          Pure.pure (Tree.assignment target opLead op value span)).Notes true Tree.Faithful := by
    refine fun target ht => bindAny fun _ => bindAny fun _ => ?_
    refine (hp.assignment _).behind.bind fun value hv => bindAny fun _ => pure ?_
    exact .two ht hv (.of_none rfl trivial rfl trivial) rfl
  unfold Grammar.assignTo
  exact ite (fun _ => bindReturns (.faithful_assignmentTarget hl) hrest) fun _ =>
    bindReturns (.faithful_simpleTarget hl) hrest

theorem settle {value : Expr} {pendingBefore : Option Site} (hv : value.Faithful) :
    (Grammar.settle value pendingBefore).Notes true Tree.Faithful := by
  unfold Grammar.settle
  refine bindAny fun now => ?_
  cases now with
  | none => exact bindAny fun _ => pure hv
  | some site => exact check fun _ => bindAny fun _ => pure hv

/-- An arrow function obeys the rules if what stands in front of its arrow does. -/
theorem arrowAfter? (hp : p.Record) {first : Token} {value : Expr} {pendingBefore : Option Site}
    (hv : value.Faithful) :
    (Grammar.arrowAfter? p ctx first value pendingBefore).Notes true fun w => ∀ v ∈ w,
    v.Faithful := by
  have hsome : ∀ v : Expr, v.Faithful → ∀ w ∈ some v, w.Faithful := by
    rintro v hv _ ⟨⟩
    exact hv
  unfold Grammar.arrowAfter?
  refine bindAny fun t => ite (fun _ => pure nofun) fun _ => ?_
  split
  · rename_i asyncLead openLead items separators closeLead span
    have hitems := (hv.part _ (List.mem_singleton_self _)).toList
    have hcommas := hv.here.lists _ (List.mem_singleton_self _)
    rw [← Tree.ofList_toList items] at hcommas
    exact check fun _ => bindAny fun _ => (groupArrow hp hitems hcommas).map hsome
  · exact check fun _ => bindAny fun _ => (bareArrow hp).map hsome
  · exact pure nofun

/-- A conditional expression obeys the rules, whatever was pending. -/
theorem plainCover (hp : p.Record) : (Grammar.plainCover p ctx).Notes false Tree.Faithful := by
  unfold Grammar.plainCover
  refine bindAny fun first => bindAny fun _ => bindAny fun _ =>
    (conditional hp).bind fun value hv => ?_
  refine (arrowAfter? hp hv).bind fun w hw => ?_
  cases w with
  | some v => exact pure (hw v rfl)
  | none =>
    refine bindAny fun t => ?_
    split
    · exact assignTo hp hv
    · exact settle hv

theorem cover (hp : p.Record) : (Grammar.cover p ctx).Notes false Tree.Faithful := by
  unfold Grammar.cover
  exact bindAny fun _ => ite (fun _ => yieldExpression hp) fun _ => bindAny fun _ =>
    ite (fun _ => asyncBareArrow hp) fun _ => plainCover hp

theorem assignment (hp : p.Record) : (Grammar.assignment p ctx).Notes false Tree.Faithful := by
  unfold Grammar.assignment
  refine bindAny fun _ => bindAny fun _ => (cover hp).bind fun value hv => ?_
  exact bindAny fun _ => bindAny fun _ => pure hv

/-- A sequence obeys the rules if its first item does. -/
theorem sequenceFrom (hp : p.Record) {start : Position} {first : Expr} (hf : first.Faithful) :
    (Grammar.sequenceFrom p ctx start first).Notes true Tree.Faithful := by
  unfold Grammar.sequenceFrom
  refine bindAny fun _ => ite (fun _ => pure hf) fun _ => ?_
  refine (afterCommas (hp.assignment _).behind).bind
    fun (rest, separators) ⟨hrest, hcommas, hlength⟩ =>
    bindAny fun _ => pure ?_
  refine .one (Tree.Faithful.ofItems (List.forall_mem_cons.2 ⟨hf, hrest⟩))
    (.of_list ?_ rfl trivial rfl trivial) rfl
  refine .of_bare ?_ hcommas (Tree.endsInHole_eq_false _ nofun)
  change (Tree.ofList (first :: rest)).toList.length = _
  rw [Tree.toList_ofList]
  exact congrArg (· + 1) hlength.symm

theorem expression (hp : p.Record) : (Grammar.expression p ctx).Notes false Tree.Faithful := by
  unfold Grammar.expression
  exact bindAny fun _ => (assignment hp).bind fun first hf => sequenceFrom hp hf

end Parse.Notes

end Verbatim
