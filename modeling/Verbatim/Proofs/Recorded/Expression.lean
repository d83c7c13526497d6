import Verbatim.Proofs.Recorded.Basic

/-!
# Literals, bindings, functions, classes and markup

What these productions read obeys the rules. The words in front of the key of a member are taken
before the member is known to be a method or a field, and the rules say what they may be for either.
-/

namespace Verbatim

open Grammar Parse

/-- The words in front of a key say what kind of member follows. -/
structure Modifiers.Announce (mods : Modifiers) (kind : PropertyKind) : Prop where
  /-- The word of an accessor stands in front of accessors. -/
  accessor : mods.accessorLead.isSome = (kind != .plain)
  /-- No other word stands beside it. -/
  alone : kind ≠ .plain → mods.asyncLead = none

/-- Words in front of a key introduce a function that is as they say. -/
theorem Modifiers.Announce.introduce {mods : Modifiers} {kind : PropertyKind}
    (h : mods.Announce kind) : mods.Introduce (kind != .plain)
      { isAsync := mods.asyncLead.isSome, isGenerator := mods.starLead.isSome } :=
  ⟨h.accessor, fun hkind => h.alone (by simpa using hkind), rfl, rfl⟩

/-- Where no word of an accessor stands, no accessor follows. -/
theorem Modifiers.Announce.eq_plain {mods : Modifiers} {kind : PropertyKind}
    (h : mods.Announce kind)
    (hnone : mods.accessorLead.isSome = false) : kind = .plain := by
  simpa [hnone] using h.accessor

/-! ## Literals, templates and keys -/

/-- The value of a regular expression is that of its token. -/
theorem Parse.Returns.literalValue {ctx : Context} {t : Token} :
    (Grammar.literalValue ctx t).Returns fun value => ∀ pattern flags,
      value = .regex pattern flags → t.kind = .regex ∧ t.value = .regex pattern flags := by
  unfold Grammar.literalValue
  split
  case h_2 => split <;> first | rintro _ _ ⟨⟩ | exact fail _ _ _
  case h_6 hkind hvalue =>
    rintro _ _ ⟨⟩
    exact ⟨hkind, hvalue⟩
  case h_7 => exact fail _ _ _
  all_goals rintro _ _ ⟨⟩

namespace Parse.Notes

variable {p : Productions} {ctx : Context}

theorem literal : (Grammar.literal ctx).Notes false Literal.IsSpelled := by
  unfold Grammar.literal
  refine next.bind fun t ht => check fun _ => bindReturns .literalValue fun value hvalue => ?_
  refine bindAny fun _ => pure fun pattern flags h => ?_
  obtain ⟨hkind, hregex⟩ := hvalue pattern flags h
  obtain ⟨_, ht⟩ := ht
  exact ht.regex pattern flags hkind hregex

theorem bindingName {restricted : Fault} :
    (Grammar.bindingName restricted ctx).Notes false fun _ => True := by
  unfold Grammar.bindingName
  exact bindAny fun _ => check fun _ => nextThen fun _ => any

theorem templatePiece {tagged : Bool} :
    (Grammar.templatePiece ctx tagged).Notes false fun _ => True := by
  unfold Grammar.templatePiece
  exact bindAny fun _ => check fun _ => nextThen fun _ => any

theorem templateParts (hp : p.Record) {tagged : Bool} {rounds : Nat} :
    (Grammar.templateParts p ctx tagged rounds).Notes false fun r => ∀ v ∈ r.2, v.Faithful := by
  induction rounds with
  | zero => exact stalled
  | succ rounds ih =>
    unfold Grammar.templateParts
    refine templatePiece.bind fun _ _ => ite (fun _ => pure (List.forall_mem_nil _)) fun _ => ?_
    refine (hp.expression _).behind.bind fun v hv => ih.behind.bind fun r hr => pure ?_
    exact List.forall_mem_cons.2 ⟨hv, hr⟩

theorem template (hp : p.Record) {tagged : Bool} :
    (Grammar.template p ctx tagged).Notes false Tree.Faithful := by
  unfold Grammar.template
  refine bindAny fun _ => (templateParts hp).bind fun r hr => bindAny fun _ => pure ?_
  exact .one (Tree.Faithful.ofItems hr) (.of_none rfl trivial rfl trivial) rfl

/-- A key obeys the rules. -/
theorem key (hp : p.Record) {allowsPrivate : Bool} :
    (Grammar.key p ctx allowsPrivate).Notes false Tree.Faithful := by
  have hliteral : (Grammar.literal ctx >>= fun lit => Pure.pure (Tree.literalKey lit)).Notes false
      Tree.Faithful :=
    literal.bind fun lit hlit => pure (.leaf (.of_literal hlit rfl trivial rfl trivial) rfl)
  unfold Grammar.key
  refine bindAny fun t => ite (fun _ => nextThen fun _ => ?_) fun _ => ?_
  · exact bindAny fun _ => pure (.leaf (.of_none rfl trivial rfl trivial) rfl)
  split
  · exact hliteral
  · exact hliteral
  · exact hliteral
  · refine ite (fun _ => nextThen fun _ => bindAny fun _ => pure ?_) fun _ => unexpected
    exact .leaf (.of_none rfl trivial rfl trivial) rfl
  · refine ite (fun _ => leadThen fun _ => ?_) fun _ => unexpected
    refine (hp.assignment _).behind.bind fun inner hinner => bindAny fun _ => pure ?_
    exact .one hinner (.of_none rfl trivial rfl trivial) rfl

/-! ## Bindings -/

section

variable {fault : Fault}

theorem withDefault (hp : p.Record) {start : Position} {target : Pattern} (ht : target.Faithful) :
    (Grammar.withDefault p ctx start target).Notes true Tree.Faithful := by
  unfold Grammar.withDefault
  refine bindAny fun eqLead => ?_
  cases eqLead with
  | none => exact pure ht
  | some eqLead =>
    refine (hp.assignment _).behind.bind fun value hvalue => bindAny fun _ => pure ?_
    exact .two ht hvalue (.of_none rfl trivial rfl trivial) rfl

theorem bindingElement (hp : p.Record) :
    (Grammar.bindingElement p fault ctx).Notes false Tree.Faithful := by
  unfold Grammar.bindingElement
  exact bindAny fun _ => (hp.binding _ _).bind fun target ht => withDefault hp ht

theorem bindingRest (hp : p.Record) {close : String} {misplaced : Fault} :
    (Grammar.bindingRest p fault ctx close misplaced).Notes false Tree.Faithful := by
  unfold Grammar.bindingRest
  refine bindAny fun _ => expectThen fun _ => (hp.binding _ _).behind.bind fun target ht => ?_
  refine bindAny fun _ => check fun _ => check fun _ => bindAny fun _ => pure ?_
  exact .one ht (.of_none rfl trivial rfl trivial) rfl

theorem arrayBindingRound (hp : p.Record) : (Grammar.arrayBindingRound p fault ctx).Notes true
    (Round.Noted Tree.Faithful Tree.isAbsent) := by
  unfold Grammar.arrayBindingRound
  refine bindAny fun _ => ite (fun _ => separator.bind fun comma hcomma => pure ⟨.absent, hcomma⟩)
    fun _ => bindAny fun _ => ite (fun _ => ?_) fun _ => ?_
  · exact (bindingRest hp).behind.bind fun v hv => pure ⟨hv.present, rfl⟩
  · exact (bindingElement hp).behind.bind fun v hv => pure ⟨hv.present, rfl⟩

theorem arrayBinding (hp : p.Record) :
    (Grammar.arrayBinding p fault ctx).Notes false Tree.Faithful := by
  unfold Grammar.arrayBinding
  refine bindAny fun _ => expectThen fun _ => (listed (arrayBindingRound hp)).bind fun r hr => ?_
  refine bindAny fun _ => bindAny fun _ => pure ?_
  exact .one (Tree.Faithful.ofItems hr.items) (.of_list hr.targetList rfl trivial rfl trivial) rfl

/-- A property of an object pattern obeys the rules. -/
theorem bindingProperty (hp : p.Record) :
    (Grammar.bindingProperty p fault ctx).Notes false Tree.Faithful := by
  unfold Grammar.bindingProperty
  have hshort : ∀ {start : Position}, (Grammar.bindingName fault ctx >>= fun id =>
      Grammar.withDefault p ctx start (.namePattern id) >>= fun value =>
        Parse.finish .property start >>= fun span =>
          Pure.pure (Tree.patternProperty (.nameKey id.bare) value true "" span)).Notes false
            Tree.Faithful := by
    refine bindingName.bind fun id _ => (withDefault hp ?_).bind fun value hvalue => ?_
    · exact .leaf (.of_none rfl trivial rfl trivial) rfl
    · refine bindAny fun _ => pure (.two ?_ hvalue (.of_none rfl trivial rfl trivial) rfl)
      exact .leaf (.of_none rfl trivial rfl trivial) rfl
  have hlong : ∀ {start : Position}, (Grammar.key p ctx false >>= fun name =>
      Parse.expect ctx ":" >>= fun colonLead => Grammar.bindingElement p fault ctx >>= fun value =>
        Parse.finish .property start >>= fun span =>
          Pure.pure (Tree.patternProperty name value false colonLead span)).Notes false
            Tree.Faithful := by
    refine (key hp).bind fun name hname => bindAny fun _ => ?_
    refine (bindingElement hp).behind.bind fun value hvalue => bindAny fun _ => pure ?_
    exact .two hname hvalue (.of_none rfl trivial rfl trivial) rfl
  refine bindAny fun start => bindAny fun _ => ite (fun _ => bindAny fun _ => ?_) fun _ => ?_
  · exact bindAny fun _ => ite (fun _ => hshort) fun _ => hlong
  · exact bindAny fun _ => ite (fun _ => hshort) fun _ => hlong

theorem bindingMemberRest :
    (Grammar.bindingMemberRest fault ctx).Notes false Tree.Faithful := by
  unfold Grammar.bindingMemberRest
  refine bindAny fun _ => expectThen fun _ => bindAny fun id => bindAny fun _ => ?_
  refine check fun _ => bindAny fun _ => pure (.one ?_ (.of_none rfl trivial rfl trivial) rfl)
  exact .leaf (.of_none rfl trivial rfl trivial) rfl

theorem objectBindingRound (hp : p.Record) : (Grammar.objectBindingRound p fault ctx).Notes true
    (Round.Noted Tree.Faithful Tree.isAbsent) := by
  unfold Grammar.objectBindingRound
  refine bindAny fun _ => ite (fun _ => ?_) fun _ => ?_
  · exact bindingMemberRest.behind.bind fun v hv => pure ⟨hv, v.isAbsent_eq_false nofun⟩
  · exact (bindingProperty hp).behind.bind fun v hv => pure ⟨hv, v.isAbsent_eq_false nofun⟩

theorem objectBinding (hp : p.Record) :
    (Grammar.objectBinding p fault ctx).Notes false Tree.Faithful := by
  unfold Grammar.objectBinding
  refine bindAny fun _ => expectThen fun _ => (listed (objectBindingRound hp)).bind fun r hr => ?_
  refine bindAny fun _ => bindAny fun _ => pure ?_
  exact .one (Tree.Faithful.ofItems hr.items) (.of_list hr.targetList rfl trivial rfl trivial) rfl

theorem binding (hp : p.Record) : (Grammar.binding p fault ctx).Notes false Tree.Faithful := by
  unfold Grammar.binding
  refine bindAny fun _ => ite (fun _ => arrayBinding hp) fun _ => bindAny fun _ =>
    ite (fun _ => objectBinding hp) fun _ => bindingName.bind fun id _ => pure ?_
  exact .leaf (.of_none rfl trivial rfl trivial) rfl

end

/-! ## Functions -/

/-- Statements in front of others, of which there may be none. -/
theorem prologueFrom (hp : p.Record) {octal : Option Token} {rounds : Nat} :
    (Grammar.prologueFrom p ctx octal rounds).Keeps fun r => ∀ v ∈ r.1, v.Faithful := by
  induction rounds generalizing ctx octal with
  | zero => exact Keeps.stalled
  | succ rounds ih =>
    unfold Grammar.prologueFrom
    refine .bindAny fun t => .ite (fun _ => .pure (List.forall_mem_nil _)) fun _ => ?_
    refine Keeps.bind (.of_notes (hp.expression _)) fun value hvalue => .bindAny fun ending => ?_
    have hstmt : ∀ {directive span}, (Tree.exprStmt value directive ending span).Faithful :=
      .one hvalue (.of_none rfl trivial rfl trivial) rfl
    have hrest : ∀ {ctx' octal' directive} {span : Span},
      (Grammar.prologueFrom p ctx' octal' rounds >>=
        fun r => Pure.pure (Tree.exprStmt value directive ending span :: r.1, r.2)).Keeps
          fun r : List Stmt × Bool => ∀ v ∈ r.1, v.Faithful :=
      Keeps.bind ih fun r hr => .pure (List.forall_mem_cons.2 ⟨hstmt, hr⟩)
    refine .ite
      (fun _ => .bindAny fun span => .pure (List.forall_mem_singleton.2 hstmt)) fun _ => ?_
    refine .ite (fun _ => ?_) fun _ => .bindAny fun _ => hrest
    cases octal with
    | none => exact .bindAny fun _ => hrest
    | some first => exact .bindAny fun _ => .bindAny fun _ => hrest

/-- Statements in braces. -/
theorem items (hp : p.Record) :
    (Grammar.items p ctx).Notes true fun vs => ∀ v ∈ vs, v.Faithful :=
  of_keeps (.many (hp.item ctx))

theorem functionBody (hp : p.Record) :
    (Grammar.functionBody p ctx).Notes false fun r => r.1.Faithful := by
  unfold Grammar.functionBody
  refine bindAny fun _ => expectThen fun _ => bindKeeps (prologueFrom hp) fun r hr => ?_
  refine (items hp).bind fun rest hrest => bindAny fun _ => bindAny fun _ => pure ?_
  exact .one (Tree.Faithful.ofItems (List.forall_mem_append.2 ⟨hr, hrest⟩))
    (.of_none rfl trivial rfl trivial) rfl

theorem parameterRound (hp : p.Record) : (Grammar.parameterRound p ctx).Notes true
    (Round.Noted Tree.Faithful Tree.isAbsent) := by
  unfold Grammar.parameterRound
  refine bindAny fun _ => ite (fun _ => ?_) fun _ => ?_
  · exact (bindingRest hp).behind.bind fun v hv => pure ⟨hv, v.isAbsent_eq_false nofun⟩
  · exact (bindingElement hp).behind.bind fun v hv => pure ⟨hv, v.isAbsent_eq_false nofun⟩

theorem parameterList (hp : p.Record) :
    (Grammar.parameterList p ctx).Notes false Tree.Faithful := by
  unfold Grammar.parameterList
  refine expectThen fun _ => (listed (parameterRound hp)).bind fun r hr => bindAny fun _ => pure ?_
  exact .one (Tree.Faithful.ofItems hr.items) (.of_list hr.targetList rfl trivial rfl trivial) rfl

theorem paramsAndBody (hp : p.Record) {isAsync isGenerator unique : Bool} {name : Option Ident}
    {site : Site} : (Grammar.paramsAndBody p ctx isAsync isGenerator name site unique).Notes false
      fun r => r.1.Faithful ∧ r.2.Faithful := by
  unfold Grammar.paramsAndBody
  refine bindAny fun _ => bindAny fun _ => (parameterList hp).bind fun params hparams => ?_
  refine (functionBody hp).behind.bind fun r hbody => check fun _ => ?_
  exact check fun _ => bindAny fun _ => bindAny fun _ => pure ⟨hparams, hbody⟩

theorem function (hp : p.Record) {isDeclaration nameOptional : Bool} :
    (Grammar.function p ctx isDeclaration nameOptional).Notes false Tree.Faithful := by
  unfold Grammar.function
  refine bindAny fun _ => bindAny fun _ => choose fun asyncLead => expectKeywordThen fun _ => ?_
  refine bindAny fun _ => bindAny fun _ => bindAny fun _ => ?_
  refine (paramsAndBody hp).behind.bind fun r hr => bindAny fun _ => pure ?_
  exact .two hr.1 hr.2 (.of_none rfl trivial rfl trivial) rfl

/-- The function of a method is what the words in front of its key say. -/
theorem methodFunction (hp : p.Record) {isAsync isGenerator : Bool} {kind : PropertyKind} :
    (Grammar.methodFunction p ctx isAsync isGenerator kind).Notes false
      fun v => v.Faithful ∧ v.functionHead = { isAsync, isGenerator } := by
  unfold Grammar.methodFunction
  refine bindAny fun _ => (paramsAndBody hp).bind fun r hr => bindAny fun _ => bindAny fun _ => ?_
  exact pure ⟨.two hr.1 hr.2 (.of_none rfl trivial rfl trivial) rfl, rfl⟩

end Parse.Notes

/-! ## Members -/

/-- What the words in front of a key say. -/
theorem Parse.Returns.modifiers : Grammar.modifiers.Returns fun r =>
    r.1.Announce r.2 ∧ r.1.staticLead = none := by
  have hstar : ∀ {mods : Modifiers} {kind : PropertyKind}, mods.Announce kind →
      mods.staticLead = none → (Parse.accept "*" >>= fun starLead =>
        Pure.pure ({ mods with starLead }, kind)).Returns fun r : Modifiers × PropertyKind =>
          r.1.Announce r.2 ∧ r.1.staticLead = none :=
    fun h hstatic => bind fun _ => ⟨⟨h.accessor, h.alone⟩, hstatic⟩
  have hnone : Modifiers.Announce {} .plain := ⟨rfl, fun h => absurd rfl h⟩
  unfold Grammar.modifiers
  refine bind fun t => ite (fun _ => bind fun _ => ite (fun _ => bind fun _ => ?_) fun _ => ?_)
    fun _ => ite (fun _ => bind fun _ => ite (fun _ => bind fun _ => ?_) fun _ => ?_) fun _ => ?_
  · exact hstar ⟨rfl, fun h => absurd rfl h⟩ rfl
  · exact hstar hnone rfl
  · refine hstar ⟨?_, fun _ => rfl⟩ rfl
    split <;> rfl
  · exact hstar hnone rfl
  · exact hstar hnone rfl

/-- The kind of a method is that of an accessor if the words in front of its key say so. -/
theorem Parse.Returns.methodKind {mods : Modifiers} {kind : PropertyKind} {name : Option String}
    {hasConstructor : Bool} {site : Site} :
    (Grammar.methodKind mods kind name hasConstructor site).Returns
      fun k => k.isAccessor = (kind != .plain) := by
  unfold Grammar.methodKind
  refine ite (fun _ => ite (fun _ => of_fails (reject _ _)) fun hplain => ?_) fun _ => ?_
  · have hkind : (kind != .plain) = false := by simp_all
    refine ite (fun _ => of_fails (reject _ _)) fun _ => ?_
    exact hkind.symm
  · cases kind <;> rfl

namespace Parse.Notes

variable {p : Productions} {ctx : Context}

theorem staticBlock (hp : p.Record) {start : Position} {staticLead : String} :
    (Grammar.staticBlock p ctx start staticLead).Notes false Tree.Faithful := by
  unfold Grammar.staticBlock
  refine expectThen fun _ => bindAny fun _ => bindAny fun _ =>
    (items hp).bind fun stmts hstmts => ?_
  refine bindAny fun _ => bindAny fun _ => bindAny fun _ => pure ?_
  exact .one (Tree.Faithful.ofItems hstmts) (.of_none rfl trivial rfl trivial) rfl

theorem fieldInitializer (hp : p.Record) :
    (Grammar.fieldInitializer p ctx).Notes true Tree.Faithful := by
  unfold Grammar.fieldInitializer
  refine bindAny fun eqLead => ?_
  cases eqLead with
  | none => exact pure .absent
  | some eqLead =>
    refine bindAny fun _ => bindAny fun _ => (hp.assignment _).behind.bind fun value hvalue => ?_
    exact bindAny fun _ => pure (.present (.one hvalue (.of_none rfl trivial rfl trivial) rfl))

theorem field (hp : p.Record) {start : Position} {mods : Modifiers} {name : Tree .key}
    (hname : name.Faithful) (hmods : mods = { staticLead := mods.staticLead }) :
    (Grammar.field p ctx start mods name).Notes true Tree.Faithful := by
  unfold Grammar.field
  refine (fieldInitializer hp).bind fun value hvalue => bindAny fun _ => bindAny fun _ => pure ?_
  exact .two hname hvalue (.of_none rfl hmods rfl trivial) rfl

/-- A member obeys the rules if its modifiers say what kind of member it is. -/
theorem keyedMember (hp : p.Record) {start : Position} {mods : Modifiers} {kind : PropertyKind}
    {hasConstructor : Bool} (hmods : mods.Announce kind) :
    (Grammar.keyedMember p ctx start mods kind hasConstructor).Notes false fun r =>
    r.1.Faithful := by
  unfold Grammar.keyedMember
  refine bindAny fun _ => (key hp).bind fun name hname => check fun _ => bindAny fun _ => ?_
  refine ite (fun hfield => check fun _ => ?_) fun _ => bindReturns .methodKind fun k hk => ?_
  · refine (field hp hname ?_).bind fun v hv => pure hv
    have haccessor := hmods.accessor
    obtain ⟨staticLead, asyncLead, accessorLead, starLead⟩ := mods
    cases accessorLead <;> cases asyncLead <;> cases starLead <;> simp_all
  · refine (methodFunction hp).behind.bind fun value hvalue => bindAny fun _ => pure ?_
    refine .two hname hvalue.1 (.of_none rfl ?_ rfl trivial) rfl
    change mods.Introduce k.isAccessor value.functionHead
    rw [hk, hvalue.2]
    exact hmods.introduce

/-- A member of a class obeys the rules. -/
theorem classMember (hp : p.Record) {hasConstructor : Bool} :
    (Grammar.classMember p ctx hasConstructor).Notes false fun r => r.1.Faithful := by
  have hkeyed : ∀ {start : Position} {staticLead : Option String}, (Grammar.modifiers >>= fun r =>
      Grammar.keyedMember p ctx start { r.1 with staticLead } r.2 hasConstructor).Notes false
        fun r => r.1.Faithful :=
    bindReturns .modifiers fun r hr => keyedMember hp ⟨hr.1.accessor, hr.1.alone⟩
  unfold Grammar.classMember
  refine bindAny fun t => ite (fun _ => leadThen fun _ => bindAny fun _ => pure ?_) fun _ => ?_
  · exact .leaf (.of_none rfl trivial rfl trivial) rfl
  refine choose fun isStatic => choose fun staticLead => ?_
  cases staticLead with
  | none => exact hkeyed
  | some staticLead =>
    refine bindAny fun _ => ite (fun _ => ?_) fun _ => hkeyed
    exact (staticBlock hp).bind fun v hv => pure hv

theorem classMembers (hp : p.Record) {hasConstructor : Bool} {rounds : Nat} :
    (Grammar.classMembers p ctx hasConstructor rounds).Notes true fun vs => ∀ v ∈ vs,
    v.Faithful := by
  induction rounds generalizing hasConstructor with
  | zero => exact stalled
  | succ rounds ih =>
    unfold Grammar.classMembers
    refine bindAny fun _ => ite (fun _ => pure (List.forall_mem_nil _)) fun _ => check fun _ => ?_
    refine (classMember hp).behind.bind fun r hr => ih.bind fun vs hvs => pure ?_
    exact List.forall_mem_cons.2 ⟨hr, hvs⟩

theorem heritage (hp : p.Record) : (Grammar.heritage p ctx).Notes true Tree.Faithful := by
  unfold Grammar.heritage
  refine bindAny fun _ => ite (fun _ => pure .absent) fun _ => bindAny fun _ => ?_
  refine (hp.chain _).behind.bind fun base hbase => check fun _ => pure ?_
  exact .present (.one hbase (.of_none rfl trivial rfl trivial) rfl)

theorem classDefinition (hp : p.Record) {isDeclaration nameRequired : Bool} :
    (Grammar.classDefinition p ctx isDeclaration nameRequired).Notes false Tree.Faithful := by
  unfold Grammar.classDefinition
  refine bindAny fun _ => expectKeywordThen fun _ => bindAny fun _ => ?_
  refine ite (fun _ => bindAny fun _ => ?_) fun _ => choose fun _ => ?_
  -- What follows the name does not depend on it.
  all_goals
    refine (heritage hp).bind fun base hbase => bindAny fun _ => ?_
    refine (classMembers hp).bind fun members hmembers => bindAny fun _ => bindAny fun _ => pure ?_
    exact .two hbase (Tree.Faithful.ofItems hmembers) (.of_none rfl trivial rfl trivial) rfl

/-! ## Markup -/

/-- A name in a tag has none of the signs that join names. -/
theorem tagIdent : (Grammar.tagIdent ctx).Notes false fun id => IsUnjoined id.name := by
  intro s _
  change Meets prospects (if s.token.kind ≠ .tagName then Parse.unexpectedHere ctx >>=
    fun _ => _ else
    Parse.next >>= fun t => Parse.finish .tagIdent t.start >>= fun span =>
      Pure.pure ({ lead := t.lead, name := t.raw, span } : TagIdent)) s _
  refine Meets.ite (fun _ => trivial) fun hk s' hs' _ _ _ => ⟨hs', ?_⟩
  exact s.genuine.tagName (Decidable.not_not.1 hk)

/-- The parts of the name of a tag have none of the signs that join them. -/
theorem tagName {rounds : Nat} : (Grammar.tagName ctx rounds).Notes false TagName.Unjoined := by
  have hmember : ∀ (start : Position) (name : TagName), name.Unjoined →
      (Grammar.tagMember ctx start name).Notes true fun next => ∀ name ∈ next, name.Unjoined := by
    intro start name hname
    unfold Grammar.tagMember
    refine bindAny fun dotLead => ?_
    cases dotLead with
    | none => exact pure nofun
    | some dotLead =>
      refine tagIdent.behind.bind fun property hproperty => bindAny fun _ => pure ?_
      rintro _ ⟨⟩
      exact ⟨hname, hproperty⟩
  unfold Grammar.tagName
  refine bindAny fun start => tagIdent.behind.bind fun first hfirst => bindAny fun _ => ?_
  refine ite (fun _ => ?_) fun _ => iterate (hmember start) hfirst
  unfold Grammar.namespacedName
  refine (expectThen fun _ => tagIdent.behind.bind fun name hname => ?_).bind
    fun _ hname => pure hname
  exact bindAny fun _ => pure ⟨hfirst, hname⟩

/-- A closing tag has the name of the opening one. -/
theorem closingTag {start : Position} {openLead : String} {name : TagName} {after : Mode}
    (hname : name.Unjoined) :
    (Grammar.closingTag p ctx start openLead name.qualified after).Notes true
      fun tag => tag.name.bare = name.bare := by
  unfold Grammar.closingTag
  refine bindAny fun _ => bindAny fun _ => tagName.behind.bind fun closing hclosing => ?_
  refine ite (fun _ _ _ => trivial) fun heq => bindAny fun _ => bindAny fun _ => pure ?_
  exact TagName.bare_eq_of_qualified_eq hclosing hname (by simpa using heq)

theorem container (hp : p.Record) {start : Position} {openLead : String} {after : Mode}
    {allowsEmpty : Bool} :
    (Grammar.container p ctx start openLead after allowsEmpty).Notes true Tree.Faithful := by
  unfold Grammar.container
  refine bindAny fun t => ite (fun _ => check fun _ => ?_) fun _ => ?_
  · refine bindAny fun _ => bindAny fun _ => bindAny fun _ => bindAny fun _ => pure ?_
    exact .leaf (.of_none rfl trivial rfl trivial) rfl
  · refine (hp.assignment _).behind.bind fun value hvalue => bindAny fun _ =>
      bindAny fun _ => pure ?_
    exact .one hvalue (.of_none rfl trivial rfl trivial) rfl

theorem attributeValue (hp : p.Record) :
    (Grammar.attributeValue p ctx).Notes true Tree.Faithful := by
  unfold Grammar.attributeValue
  refine bindAny fun t => ite (fun _ => literal.behind.bind fun lit hlit => pure ?_) fun _ => ?_
  · exact .leaf (.of_literal hlit rfl trivial rfl trivial) rfl
  refine ite (fun _ => bindAny fun _ => (container hp).bind fun v hv => pure ?_) fun _ => ?_
  · exact .one hv (.of_none rfl trivial rfl trivial) rfl
  refine ite (fun _ => bindAny fun _ => (hp.markup _ _ _ _).bind fun v hv => ?_) fun _ => unexpected
  cases v with
  | element e => exact pure (.one hv (.of_none rfl trivial rfl trivial) rfl)
  | fragment f => exact pure (.one hv (.of_none rfl trivial rfl trivial) rfl)

theorem spreadAttribute (hp : p.Record) :
    (Grammar.spreadAttribute p ctx).Notes true Tree.Faithful := by
  unfold Grammar.spreadAttribute
  refine bindAny fun _ => bindAny fun _ => bindAny fun _ => ?_
  refine (hp.assignment _).behind.bind fun operand hv => bindAny fun _ => bindAny fun _ => pure ?_
  exact .one hv (.of_none rfl trivial rfl trivial) rfl

/-- An attribute obeys the rules. -/
theorem tagAttribute (hp : p.Record) :
    (Grammar.tagAttribute p ctx).Notes true Tree.Faithful := by
  unfold Grammar.tagAttribute
  refine bindAny fun _ => ite (fun _ => spreadAttribute hp) fun _ => bindAny fun _ =>
    bindAny fun _ => ?_
  refine bindAny fun _ => choose fun name => bindAny fun eqLead => ?_
  cases eqLead with
  | none =>
    refine bindPure (bindAny fun _ => pure ?_)
    exact .one Tree.Faithful.absent (.of_none rfl trivial rfl trivial) rfl
  | some eqLead =>
    refine (attributeValue hp).bind fun value hvalue => bindPure (bindAny fun _ => pure ?_)
    exact .one hvalue.present (.of_none rfl trivial rfl trivial) rfl

theorem childContainer (hp : p.Record) :
    (Grammar.childContainer p ctx).Notes true fun v => v.Faithful ∧ v.markupText? = none := by
  unfold Grammar.childContainer
  refine bindAny fun _ => bindAny fun _ => bindAny fun _ =>
    ite (fun _ => bindAny fun _ => ?_) fun _ => ?_
  · refine (hp.assignment _).behind.bind fun operand hv => bindAny fun _ => bindAny fun _ => pure ?_
    exact ⟨.one hv (.of_none rfl trivial rfl trivial) rfl, rfl⟩
  · exact (container hp).bind fun v hv => pure ⟨.one hv (.of_none rfl trivial rfl trivial) rfl, rfl⟩

/-- Children that are read stand apart. Where no text comes first, the first child is none. -/
theorem children_meets (hp : p.Record) {name : String} {rounds : Nat} (s : Prospect)
    (hs : s.begun = true) : (Grammar.children p ctx name rounds).Meets prospects s fun r s' =>
      s'.begun = true ∧ ((∀ v ∈ r.1, v.Faithful) ∧ ChildrenApart r.1) ∧
        (s.token.kind ≠ .markupText → ∀ v ∈ r.1.head?, v.markupText? = none) := by
  induction rounds generalizing s with
  | zero => trivial
  | succ rounds ih =>
    have hrest : (Grammar.children p ctx name rounds).Notes true fun r =>
        (∀ v ∈ r.1, v.Faithful) ∧ ChildrenApart r.1 := fun s hs =>
      (ih s (hs rfl)).imp fun _ _ hr => ⟨hr.1, hr.2.1⟩
    -- A child that is no text in front of the others.
    have hcons : ∀ {v : Tree .child}, v.Faithful → v.markupText? = none →
        (Grammar.children p ctx name rounds >>= fun r => Pure.pure (v :: r.1, r.2)).Notes true
          fun r : List (Tree .child) × Position × String =>
            ((∀ v ∈ r.1, v.Faithful) ∧ ChildrenApart r.1) ∧ ∀ v ∈ r.1.head?,
            v.markupText? = none := by
      intro v hv hnone
      refine hrest.bind fun r hr => pure ⟨⟨List.forall_mem_cons.2 ⟨hv, hr.1⟩, hr.2.cons hnone⟩, ?_⟩
      rintro _ ⟨⟩
      exact hnone
    unfold Grammar.children
    refine Meets.look ?_
    split
    · trivial
    · rename_i hk
      intro s' hs' htext _ _
      refine (ih s' hs').imp fun r _ hr =>
        ⟨hr.1, ⟨List.forall_mem_cons.2 ⟨?_, hr.2.1.1⟩, ?_⟩, fun h => ?_⟩
      · exact .leaf (.of_none rfl trivial rfl trivial) rfl
      · exact hr.2.1.2.text (hr.2.2 (htext hk)) (s.genuine.markupText hk)
      · exact absurd hk h
    · suffices hbranch : Notes _ true fun r : List (Tree .child) × Position × String =>
          ((∀ v ∈ r.1, v.Faithful) ∧ ChildrenApart r.1) ∧ ∀ v ∈ r.1.head?, v.markupText? = none from
        (hbranch s fun _ => hs).imp fun r _ hr => ⟨hr.1, hr.2.1, fun _ => hr.2.2⟩
      refine ite (fun _ => ?_) fun _ => ?_
      · exact (childContainer hp).bind fun v hv => hcons hv.1 hv.2
      refine ite (fun _ => bindAny fun _ => bindAny fun _ => ?_) fun _ => unexpected
      refine ite (fun _ => pure ⟨⟨List.forall_mem_nil _, .nil⟩, fun _ h => by cases h⟩) fun _ => ?_
      refine (hp.markup _ _ _ _).bind fun v hv => ?_
      cases v with
      | element e => exact bindPure (hcons (.one hv (.of_none rfl trivial rfl trivial) rfl) rfl)
      | fragment f => exact bindPure (hcons (.one hv (.of_none rfl trivial rfl trivial) rfl) rfl)

theorem children (hp : p.Record) {name : String} {rounds : Nat} :
    (Grammar.children p ctx name rounds).Notes true fun r =>
      (∀ v ∈ r.1, v.Faithful) ∧ ChildrenApart r.1 := fun s hs =>
  (children_meets hp s (hs rfl)).imp fun _ _ hr => ⟨hr.1, hr.2.1⟩

theorem fragment (hp : p.Record) {start : Position} {openLead : String} {after : Mode} :
    (Grammar.fragment p ctx start openLead after).Notes true Tree.Faithful := by
  unfold Grammar.fragment
  refine bindAny fun _ => (children hp).bind fun r hr => bindAny fun _ => bindAny fun _ => ?_
  refine check fun _ => bindAny fun _ => bindAny fun _ => pure ?_
  refine .one (Tree.Faithful.ofItems hr.1) (.of_none rfl trivial rfl ?_) rfl
  exact (congrArg ChildrenApart (Tree.toList_ofList r.1)).mpr hr.2

/-- An element obeys the rules. -/
theorem element (hp : p.Record) {start : Position} {openLead : String} {after : Mode} :
    (Grammar.element p ctx start openLead after).Notes true Tree.Faithful := by
  unfold Grammar.element
  refine tagName.behind.bind fun name hname => ?_
  refine (many (tagAttribute hp)).bind fun attributes hattributes => ?_
  have hattributes := Tree.Faithful.ofItems hattributes
  refine bindAny fun _ => ite (fun _ => bindAny fun _ => bindAny fun _ => check fun _ =>
    ?_) fun _ => ?_
  · refine bindAny fun _ => bindAny fun _ => bindAny fun _ => pure ?_
    refine .two hattributes (.leaf .nil rfl) (.of_none rfl trivial rfl ?_) rfl
    exact ⟨.inl ⟨rfl, rfl, rfl⟩, .nil⟩
  · refine bindAny fun _ => bindAny fun _ => (children hp).bind fun r hr => ?_
    refine (closingTag hname).bind fun tag htag => bindAny fun _ => pure ?_
    refine .two hattributes (Tree.Faithful.ofItems hr.1) (.of_none rfl trivial rfl ?_) rfl
    exact ⟨.inr ⟨rfl, tag, rfl, htag⟩, (congrArg ChildrenApart (Tree.toList_ofList r.1)).mpr hr.2⟩

theorem markup (hp : p.Record) {start : Position} {openLead : String} {after : Mode} :
    (Grammar.markup p start openLead after ctx).Notes true Markup.Faithful := by
  unfold Grammar.markup
  refine bindAny fun _ => ite (fun _ => ?_) fun _ => ?_
  · exact (fragment hp).map fun _ hv => hv
  · exact (element hp).map fun _ hv => hv

theorem markupRoot (hp : p.Record) : (Grammar.markupRoot p ctx).Notes false Tree.Faithful := by
  unfold Grammar.markupRoot
  refine bindAny fun _ => bindAny fun _ => bindAny fun _ => leadThen fun _ => ?_
  refine (hp.markup _ _ _ _).bind fun v hv => ?_
  cases v with
  | element e => exact pure (.one hv (.of_none rfl trivial rfl trivial) rfl)
  | fragment f => exact pure (.one hv (.of_none rfl trivial rfl trivial) rfl)

end Parse.Notes

end Verbatim
