import Verbatim.Proofs.Formed.Basic

/-!
# Literals, bindings, functions, classes and markup

What these productions read is well formed. Where a list ends with an item behind dots, the
production looks at what follows it, so that no comma does.
-/

namespace Verbatim

open Verbatim.Grammar

namespace Tree

/-- One more piece and expression in front of a template. -/
theorem PiecesAround.cons {quasis : List Quasi} {count : Nat} {piece : Quasi}
    (h : PiecesAround quasis count) (hp : piece.isTail = false) :
    PiecesAround (piece :: quasis) (count + 1) := by
  obtain ⟨hlength, htail, hfront⟩ := h
  cases quasis with
  | nil => cases hlength
  | cons next others =>
    refine ⟨congrArg (· + 1) hlength, ?_, ?_⟩
    · rwa [List.getLast?_cons_cons]
    · rw [List.dropLast_cons_cons]
      exact List.forall_mem_cons.2 ⟨hp, hfront⟩

/-- The last piece of a template, with no expression behind it. -/
theorem PiecesAround.single {piece : Quasi} (hp : piece.isTail = true) :
    PiecesAround [piece] 0 := by
  refine ⟨rfl, ?_, List.forall_mem_nil _⟩
  rintro _ ⟨⟩
  exact hp

end Tree

namespace Parse.Drafts

variable {p : Productions} {ctx : Context} {s : Sight}

/-! ## Templates and keys -/

theorem templatePiece {tagged : Bool} {post : Quasi → Sight → Prop}
    (h : ¬ s.AtArrow → ∀ piece s', post piece s') :
    (Grammar.templatePiece ctx tagged).Sees s post := by
  refine sees_ite.mpr ⟨fun _ => trivial, fun hkind => Sees.any ?_⟩
  exact h (Sight.not_atArrow_of_kind (Decidable.not_not.1 hkind) (by decide))

/-- There is a piece in front of each expression and one behind the last. -/
theorem templateParts (hp : p.Forms) {tagged : Bool} {rounds : Nat}
    {post : List Quasi × List Expr → Sight → Prop}
    (h : ¬ s.AtArrow → ∀ r s', Tree.PiecesAround r.1 r.2.length →
      (∀ v ∈ r.2, v.Plain) → post r s') :
    (Grammar.templateParts p ctx tagged rounds).Sees s post := by
  induction rounds generalizing s post with
  | zero => trivial
  | succ rounds ih =>
    refine templatePiece fun hs piece s' => sees_ite.mpr ⟨fun htail => ?_, fun htail => ?_⟩
    · exact h hs _ _ (.single htail) (List.forall_mem_nil _)
    · refine (hp.expression _).into fun _ v s'' hv => ih fun hs' r s₃ hr hvalues => ?_
      refine h hs _ _ (hr.cons (Bool.eq_false_iff.2 htail)) ?_
      exact List.forall_mem_cons.2 ⟨hv.plain hs', hvalues⟩

theorem template (hp : p.Forms) {tagged : Bool} {post : Tree .template → Sight → Prop}
    (h : ¬ s.AtArrow → ∀ v s', v.Plain → post v s') :
    (Grammar.template p ctx tagged).Sees s post := by
  refine templateParts hp fun hs r s' hr hvalues => finish fun span => h hs _ _ ?_
  refine .one (.ofList hvalues) ?_ rfl rfl
  change Tree.PiecesAround r.1 (Tree.ofList r.2).toList.length
  rwa [Tree.toList_ofList]

/-- A key is well formed. -/
theorem key (hp : p.Forms) {allowsPrivate : Bool} {post : Tree .key → Sight → Prop}
    (h : ¬ s.AtArrow → ∀ v s', v.Plain → post v s') :
    (Grammar.key p ctx allowsPrivate).Sees s post := by
  refine sees_ite.mpr ⟨fun hname => Sees.bindAny fun id s' => ?_, fun _ => ?_⟩
  · refine h (fun ha => ?_) _ _ (.leaf trivial rfl rfl)
    simp [Token.isAnyName, ha.kind] at hname
  split
  case h_4 hkind =>
    refine sees_ite.mpr ⟨fun _ => Sees.bindAny fun _ _ => Sees.bindAny fun name s' => ?_,
      fun _ => trivial⟩
    exact h (Sight.not_atArrow_of_kind hkind (by decide)) _ _ (.leaf trivial rfl rfl)
  case h_5 =>
    refine sees_ite.mpr ⟨fun hopen => Sees.bindAny fun openLead _ => ?_, fun _ => trivial⟩
    have hs := Sight.not_atArrow_of_isPunctuator hopen (by decide)
    exact (hp.assignment _).into fun _ inner _ hinner => expect (by decide) fun hend _ _ =>
      h hs _ _ (.one (hinner.plain hend) trivial rfl rfl)
  all_goals
    rename_i hkind
    refine Sees.bindAny fun lit s' => h ?_ _ _ (.leaf trivial rfl rfl)
    exact Sight.not_atArrow_of_kind hkind (by decide)

/-! ## Bindings -/

section

variable {fault : Fault}

theorem withDefault (hp : p.Forms) {start : Position} {target : Pattern} (ht : target.Binds)
    {post : Pattern → Sight → Prop}
    (h : ∀ v s', v.isBinding = true → v.Draft s' → post v s') :
    (Grammar.withDefault p ctx start target).Sees s post := by
  refine accept nofun (fun _ eqLead s' => ?_) (h _ _ ht.binding ht.plain.draft)
  refine (hp.assignment _).into fun _ value s'' hvalue => finish fun span => h _ _ ht.binding ?_
  exact hvalue.wrap (fun hv => .two ht.plain hv ht.target rfl rfl) rfl rfl

theorem bindingElement (hp : p.Forms) {post : Pattern → Sight → Prop}
    (h : ∀ v s', v.isBinding = true → v.Draft s' → post v s') :
    (Grammar.bindingElement p fault ctx).Sees s post :=
  (hp.binding _ _ _).imp fun _ _ ht => withDefault hp ht h

theorem bindingRest (hp : p.Forms) {close : String} {misplaced : Fault}
    {post : Pattern → Sight → Prop} (h : ∀ v s', v.isBinding = true → v.Sound → post v s') :
    (Grammar.bindingRest p fault ctx close misplaced).Sees s post := by
  refine expect nofun fun _ _ _ => (hp.binding _ _ _).imp fun target s' ht => ?_
  refine sees_ite.mpr ⟨fun _ => trivial, fun _ => sees_ite.mpr ⟨fun _ => trivial, fun _ => ?_⟩⟩
  exact finish fun span => h _ _ ht.binding (.behindDots ht.plain ht.target rfl)

/-- An element of an array pattern, of which the last may have dots in front. -/
theorem arrayBindingRound (hp : p.Forms) : (Grammar.arrayBindingRound p fault ctx).Sees s
    fun r s' => r.Lists (fun v => v.isBinding = true ∧ v.Plain)
      (fun v => v.isBinding = true ∧ v.Sound) s' := by
  refine sees_ite.mpr ⟨fun _ => separator fun _ _ _ => ⟨rfl, .absent⟩, fun _ => ?_⟩
  refine sees_ite.mpr ⟨fun _ => ?_, fun _ => ?_⟩
  · exact bindingRest hp fun v s' hb hv => ⟨hb, hv.present⟩
  · refine bindingElement hp fun v s' hb hv => ?_
    by_cases hs : s'.AtArrow
    · exact .inr hs
    · exact .inl ⟨hb, (hv.plain hs).present⟩

end

end Parse.Drafts

/-- Patterns in a list, of which only the last may have dots in front. -/
theorem Listing.dotsLast {c : Category} {items : List (Tree c)} {commas : List String}
    (h : Listing (fun v => v.isBinding = true ∧ v.Plain) (fun v => v.isBinding = true ∧ v.Sound)
      items commas) :
    (∀ v ∈ items, v.isBinding = true ∧ v.Sound) ∧ Tree.DotsLast (.ofList items) commas := by
  obtain hall | ⟨front, last, rfl, hfront, hlast, hlength⟩ := h
  · refine ⟨fun v hv => ⟨(hall v hv).1, (hall v hv).2.sound⟩,
      .ofList (fun v hv => ?_) fun _ v hv => ?_⟩
    · exact (hall v (List.dropLast_subset _ hv)).2.noDots
    · exact (hall v hv).2.noDots
  · refine ⟨List.forall_mem_append.2 ⟨fun v hv => ⟨(hfront v hv).1, (hfront v hv).2.sound⟩,
      List.forall_mem_singleton.2 hlast⟩, .ofList (fun v hv => ?_) fun hle => ?_⟩
    · rw [List.dropLast_concat] at hv
      exact (hfront v hv).2.noDots
    · rw [List.length_append, List.length_singleton] at hle
      omega

/-- Patterns in a list bind names only if each does. -/
theorem Tree.isBinding_ofList {c : Category} {items : List (Tree c)}
    (h : ∀ v ∈ items, v.isBinding = true) : (Tree.ofList items).isBinding = true := by
  induction items with
  | nil => rfl
  | cons head tail ih =>
    obtain ⟨hhead, htail⟩ := List.forall_mem_cons.1 h
    exact Bool.and_eq_true_iff.2 ⟨hhead, ih htail⟩

namespace Parse.Drafts

variable {p : Productions} {ctx : Context} {s : Sight}

section

variable {fault : Fault}

theorem arrayBinding (hp : p.Forms) {post : Pattern → Sight → Prop}
    (h : ∀ v s', v.Binds → post v s') : (Grammar.arrayBinding p fault ctx).Sees s post := by
  refine expect nofun fun _ _ _ => listedDots nofun (fun _ => arrayBindingRound hp)
    fun r s' hr => ?_
  refine expect nofun fun _ _ _ => finish fun span => h _ _ ?_
  obtain ⟨hall, hlast⟩ := hr.dotsLast
  exact ⟨.ofDots (.ofList fun v hv => (hall v hv).2) hlast rfl rfl, rfl,
    Tree.isBinding_ofList fun v hv => (hall v hv).1⟩

/-- A property of an object pattern binds names, and is well formed unless an arrow is ahead. -/
theorem bindingProperty (hp : p.Forms) {post : Tree .patternMember → Sight → Prop}
    (h : ∀ v s', v.isBinding = true → v.Draft s' → post v s') :
    (Grammar.bindingProperty p fault ctx).Sees s post := by
  have hshort : ∀ (start : Position) (s : Sight), (Grammar.bindingName fault ctx).Sees s
      fun id s => (Grammar.withDefault p ctx start (.namePattern id)).Sees s fun value s =>
        (Parse.finish .property start).Sees s fun span s =>
          post (.patternProperty (.nameKey id.bare) value true "" span) s := by
    intro start s
    refine Sees.any fun id s => ?_
    have hkey : (Tree.nameKey id.bare).Plain := .leaf trivial rfl rfl
    refine withDefault hp .namePattern fun v s' hb hv => finish fun span => h _ _ hb ?_
    exact hv.wrap (fun hv => .two hkey hv trivial rfl rfl) rfl rfl
  have hlong : ∀ (start : Position) (s : Sight), (Grammar.key p ctx false).Sees s fun name s =>
      (Parse.expect ctx ":").Sees s fun colonLead s =>
        (Grammar.bindingElement p fault ctx).Sees s fun value s =>
          (Parse.finish .property start).Sees s fun span s =>
            post (.patternProperty name value false colonLead span) s := by
    intro start s
    refine key hp fun _ name _ hname => expect nofun fun _ _ _ =>
      bindingElement hp fun v s' hb hv => ?_
    refine finish fun span => h _ _ hb ?_
    exact hv.wrap (fun hv => .two hname hv trivial rfl rfl) rfl rfl
  simp only [Grammar.bindingProperty, sees_bind, sees_here, sees_look, sees_ite,
    sees_peek, sees_pure]
  exact ⟨fun _ _ _ => ⟨fun _ => hshort _ _, fun _ => hlong _ _⟩,
    fun _ => ⟨fun _ => hshort _ _, fun _ => hlong _ _⟩⟩

theorem bindingMemberRest {post : Tree .patternMember → Sight → Prop}
    (h : ∀ v s', v.isBinding = true → v.Sound → post v s') :
    (Grammar.bindingMemberRest fault ctx).Sees s post := by
  refine expect nofun fun _ _ _ => Sees.bindAny fun id s' => ?_
  refine sees_ite.mpr ⟨fun _ => trivial, fun _ => finish fun span => h _ _ rfl ?_⟩
  exact .behindDots (Tree.Binds.plain .namePattern) rfl rfl

theorem objectBindingRound (hp : p.Forms) : (Grammar.objectBindingRound p fault ctx).Sees s
    fun r s' => r.Lists (fun v => v.isBinding = true ∧ v.Plain)
      (fun v => v.isBinding = true ∧ v.Sound) s' := by
  refine sees_ite.mpr ⟨fun _ => bindingMemberRest fun v s' hb hv => ⟨hb, hv⟩, fun _ => ?_⟩
  refine bindingProperty hp fun v s' hb hv => ?_
  by_cases hs : s'.AtArrow
  · exact .inr hs
  · exact .inl ⟨hb, hv.plain hs⟩

theorem objectBinding (hp : p.Forms) {post : Pattern → Sight → Prop}
    (h : ∀ v s', v.Binds → post v s') : (Grammar.objectBinding p fault ctx).Sees s post := by
  refine expect nofun fun _ _ _ => listedDots nofun (fun _ => objectBindingRound hp)
    fun r s' hr => ?_
  refine expect nofun fun _ _ _ => finish fun span => h _ _ ?_
  obtain ⟨hall, hlast⟩ := hr.dotsLast
  exact ⟨.ofDots (.ofList fun v hv => (hall v hv).2) hlast rfl rfl, rfl,
    Tree.isBinding_ofList fun v hv => (hall v hv).1⟩

theorem binding (hp : p.Forms) {post : Pattern → Sight → Prop}
    (h : ∀ v s', v.Binds → post v s') : (Grammar.binding p fault ctx).Sees s post := by
  refine sees_ite.mpr ⟨fun _ => arrayBinding hp h, fun _ => sees_ite.mpr
    ⟨fun _ => objectBinding hp h, fun _ => Sees.bindAny fun id s' => h _ _ .namePattern⟩⟩

end

/-! ## Functions -/

/-- Statements in front of others. None is read at an arrow. -/
theorem prologueFrom (hp : p.Forms) {octal : Option Token} {rounds : Nat}
    {post : List Stmt × Bool → Sight → Prop}
    (h : ∀ r s', (s.AtArrow → s'.AtArrow) → (∀ v ∈ r.1, v.Draft s') → post r s') :
    (Grammar.prologueFrom p ctx octal rounds).Sees s post := by
  induction rounds generalizing ctx octal s post with
  | zero => trivial
  | succ rounds ih =>
    refine sees_ite.mpr ⟨fun _ => h _ _ id (List.forall_mem_nil _), fun _ => ?_⟩
    refine (hp.expression _).into fun hs value s' hvalue => terminator fun ending s'' hlater => ?_
    have hstmt : ∀ directive span, (Tree.exprStmt value directive ending span).Draft
      s'' := fun _ _ =>
      (hvalue.later hlater).wrap (fun hv => .one hv trivial rfl rfl) rfl rfl
    have hrest : ∀ {ctx' octal' span}, (Grammar.prologueFrom p ctx' octal' rounds).Sees
      s'' fun r s₃ =>
        post (.exprStmt value (some (directiveText s.token)) ending span :: r.1, r.2) s₃ := by
      refine ih fun r s₃ hlater' hr => h _ _ (fun ha => absurd ha hs) ?_
      exact List.forall_mem_cons.2 ⟨(hstmt _ _).later hlater', hr⟩
    refine sees_ite.mpr ⟨fun _ => finish fun span => ?_, fun _ => ?_⟩
    · exact h _ _ (fun ha => absurd ha hs) (List.forall_mem_singleton.2 (hstmt _ _))
    · generalize Grammar.directiveText s.token = text at hrest ⊢
      cases octal <;> exact sees_ite.mpr
        ⟨fun _ => finish fun _ => hrest, fun _ => finish fun _ => hrest⟩

/-- Statements in braces, which begin at no arrow. -/
theorem items (hp : p.Forms) {post : List Stmt → Sight → Prop}
    (h : ¬ s.AtArrow → ∀ vs s', (∀ v ∈ vs, v.Plain) → post vs s') :
    (Grammar.items p ctx).Sees s post := by
  refine many (fun t ht => Bool.eq_false_iff.2 fun ha => ?_) (fun s => ?_) h
  · simp_all [endsBlock, Token.isPunctuator, Token.isEof]
  · exact (hp.item ctx).into fun hs v s' hv => ⟨hs, hv.plain_or⟩

theorem functionBody (hp : p.Forms) {post : Tree .body × Bool → Sight → Prop}
    (h : ∀ r s', r.1.Plain → post r s') : (Grammar.functionBody p ctx).Sees s post := by
  refine expect nofun fun _ _ _ => prologueFrom hp fun r s' _ hr =>
    items hp fun hs rest _ hrest => ?_
  refine expect nofun fun _ _ _ => finish fun span => h _ _ ?_
  exact .one (.ofList (List.forall_mem_append.2 ⟨fun v hv => (hr v hv).plain hs, hrest⟩))
    trivial rfl rfl

/-- A parameter, of which the last may have dots in front. -/
theorem parameterRound (hp : p.Forms) : (Grammar.parameterRound p ctx).Sees s
    fun r s' => r.Lists (fun v => v.isBinding = true ∧ v.Plain)
      (fun v => v.isBinding = true ∧ v.Sound) s' := by
  refine sees_ite.mpr ⟨fun _ => bindingRest hp fun v s' hb hv => ⟨hb, hv⟩, fun _ => ?_⟩
  refine bindingElement hp fun v s' hb hv => ?_
  exact hv.plain_or.imp_left fun hv => ⟨hb, hv⟩

theorem parameterList (hp : p.Forms) {post : Tree .params → Sight → Prop}
    (h : ¬ s.AtArrow → ∀ v s', v.Plain → post v s') :
    (Grammar.parameterList p ctx).Sees s post := by
  refine expect nofun fun hs _ _ => listedDots nofun (fun _ => parameterRound hp) fun r s' hr => ?_
  refine expect nofun fun _ _ _ => h hs _ _ ⟨?_, rfl⟩
  obtain ⟨hall, hlast⟩ := hr.dotsLast
  refine .ofDots (.ofList fun v hv => (hall v hv).2) ⟨hlast, ?_⟩ rfl rfl
  rw [Tree.toList_ofList]
  exact fun v hv => (hall v hv).1

theorem paramsAndBody (hp : p.Forms) {isAsync isGenerator unique : Bool} {name : Option Ident}
    {site : Site} {post : Tree .params × Tree .body → Sight → Prop}
    (h : ¬ s.AtArrow → ∀ r s', r.1.Plain → r.2.Plain → post r s') :
    (Grammar.paramsAndBody p ctx isAsync isGenerator name site unique).Sees s post := by
  refine fun _ => parameterList hp fun hs params _ hparams => functionBody hp fun r s' hbody => ?_
  refine sees_ite.mpr ⟨fun _ => trivial, fun _ => ?_⟩
  have hrest := h hs (params, r.1)
  exact sees_ite.mpr ⟨fun _ => Sees.bindAny fun _ _ => Sees.bindAny fun _ s' =>
    hrest s' hparams hbody,
    fun _ => Sees.bindAny fun _ s' => hrest s' hparams hbody⟩

theorem function (hp : p.Forms) {isDeclaration nameOptional : Bool}
    {post : Tree .function → Sight → Prop} (h : ¬ s.AtArrow → ∀ v s', v.Plain → post v s') :
    (Grammar.function p ctx isDeclaration nameOptional).Sees s post := by
  refine sees_ite.mpr ⟨fun hasync => Sees.bindAny fun _ _ => expectKeyword fun _ _ _ => ?_,
    fun _ => expectKeyword fun hs _ _ => ?_⟩
  · refine Sees.bindAny fun _ _ => Sees.bindAny fun _ _ => Sees.bindAny fun _ _ => ?_
    refine paramsAndBody hp fun _ r s' hparams hbody => ?_
    have hs := Sight.not_atArrow_of_isWord hasync
    exact finish fun _ => h hs _ _ (.two hparams hbody trivial rfl rfl)
  · refine Sees.bindAny fun _ _ => Sees.bindAny fun _ _ => Sees.bindAny fun _ _ => ?_
    refine paramsAndBody hp fun _ r s' hparams hbody => ?_
    exact finish fun _ => h hs _ _ (.two hparams hbody trivial rfl rfl)

theorem methodFunction (hp : p.Forms) {isAsync isGenerator : Bool} {kind : PropertyKind}
    {post : Tree .function → Sight → Prop} (h : ∀ v s', v.Plain → post v s') :
    (Grammar.methodFunction p ctx isAsync isGenerator kind).Sees s post := by
  refine paramsAndBody hp fun _ r _ hparams hbody => Sees.bindAny fun _ _ =>
    finish fun _ => h _ _ ?_
  exact .two hparams hbody trivial rfl rfl

/-! ## Classes -/

/-- Words and a star are no arrow. -/
theorem modifiers {post : Modifiers × PropertyKind → Sight → Prop}
    (h : ∀ r s', (s.AtArrow → s'.AtArrow) → post r s') : Grammar.modifiers.Sees s post := by
  have hstar : ∀ {s₁} {mods : Modifiers} {kind : PropertyKind}, (s.AtArrow → s₁.AtArrow) →
      (Parse.accept "*").Sees s₁ fun starLead s' => post ({ mods with starLead }, kind) s' := by
    refine fun hs₁ => accept nofun (fun hno _ _ => h _ _ fun ha => absurd (hs₁ ha) hno) (h _ _ hs₁)
  refine sees_ite.mpr ⟨fun hasync u _ => ?_,
    fun _ => sees_ite.mpr ⟨fun hget u _ => ?_, fun _ => ?_⟩⟩
  · have hs := Sight.not_atArrow_of_isWord hasync
    exact sees_ite.mpr ⟨fun _ => Sees.bindAny fun _ _ => hstar fun ha => absurd ha hs,
      fun _ => hstar id⟩
  · have hs : ¬ s.AtArrow := by
      rcases Bool.or_eq_true_iff.1 hget with hget | hset
      · exact Sight.not_atArrow_of_isWord hget
      · exact Sight.not_atArrow_of_isWord hset
    exact sees_ite.mpr ⟨fun _ => Sees.bindAny fun _ _ => hstar fun ha => absurd ha hs,
      fun _ => hstar id⟩
  · exact hstar id

theorem staticBlock (hp : p.Forms) {start : Position} {staticLead : String}
    {post : Tree .classMember → Sight → Prop} (h : ∀ v s', v.Plain → post v s') :
    (Grammar.staticBlock p ctx start staticLead).Sees s post := by
  refine expect nofun fun _ _ _ _ => items hp fun _ stmts _ hstmts => ?_
  refine expect nofun fun _ _ _ => finish fun _ => ?_
  exact h _ _ (.one (.ofList hstmts) trivial rfl rfl)

theorem fieldInitializer (hp : p.Forms) {post : Tree (.maybe .initializer) → Sight → Prop}
    (h : ∀ v s', (s.AtArrow → s'.AtArrow) → v.Draft s' → post v s') :
    (Grammar.fieldInitializer p ctx).Sees s post := by
  refine accept nofun (fun hs _ _ _ => (hp.assignment _).into fun _ value s' hvalue => ?_)
    (h _ _ id Tree.Plain.absent.draft)
  refine h _ _ (fun ha => absurd ha hs) ?_
  exact hvalue.wrap (fun hv => .present (.one hv trivial rfl rfl)) rfl rfl

theorem field (hp : p.Forms) {start : Position} {mods : Modifiers} {name : Tree .key}
    (hname : name.Plain) {post : Tree .classMember → Sight → Prop}
    (h : ∀ v s', v.Draft s' → post v s') :
    (Grammar.field p ctx start mods name).Sees s post := by
  refine fieldInitializer hp fun value s' _ hvalue => terminator fun _ s'' hlater =>
    finish fun _ => ?_
  exact h _ _ ((hvalue.later hlater).wrap (fun hv => .two hname hv trivial rfl rfl) rfl rfl)

theorem keyedMember (hp : p.Forms) {start : Position} {mods : Modifiers} {kind : PropertyKind}
    {hasConstructor : Bool} {post : Tree .classMember × Bool → Sight → Prop}
    (h : ¬ s.AtArrow → ∀ r s', r.1.Draft s' → post r s') :
    (Grammar.keyedMember p ctx start mods kind hasConstructor).Sees s post := by
  refine key hp fun hs name s' hname => sees_ite.mpr ⟨fun _ => trivial, fun _ => ?_⟩
  refine sees_ite.mpr ⟨fun _ => sees_ite.mpr ⟨fun _ => trivial, fun _ => ?_⟩, fun _ => ?_⟩
  · exact field hp hname fun v s'' hv => h hs (v, _) _ hv
  · refine Sees.bindAny fun _ _ => methodFunction hp fun value s'' hvalue => finish fun _ => ?_
    exact h hs _ _ (Tree.Plain.draft (.two hname hvalue trivial rfl rfl))

/-- A member of a class is well formed unless an arrow is ahead. -/
theorem classMember (hp : p.Forms) {hasConstructor : Bool}
    {post : Tree .classMember × Bool → Sight → Prop}
    (h : ¬ s.AtArrow → ∀ r s', r.1.Draft s' → post r s') :
    (Grammar.classMember p ctx hasConstructor).Sees s post := by
  have hkeyed : ∀ {s₁} {staticLead : Option String}, (s.AtArrow → s₁.AtArrow) →
      Grammar.modifiers.Sees s₁ fun r s' => (Grammar.keyedMember p ctx s.token.start
        { r.1 with staticLead } r.2 hasConstructor).Sees s' post := by
    refine fun hs₁ => modifiers fun r s' hlater => keyedMember hp fun hs => ?_
    exact h fun ha => hs (hlater (hs₁ ha))
  simp only [Grammar.classMember, sees_bind, sees_look, sees_ite, sees_lead, sees_pure, sees_map,
    sees_sees]
  refine ⟨fun hend u _ => extent fun _ => ?_, fun _ => ⟨fun hword => ?_, fun _ => ?_⟩⟩
  · have hs := Sight.not_atArrow_of_isPunctuator hend (by decide)
    exact h hs _ _ (Tree.Plain.draft (.leaf trivial rfl rfl))
  · have hs := Sight.not_atArrow_of_isWord hword
    refine Sees.any fun isStatic s' => ⟨fun _ u _ => ⟨fun _ => ?_, fun _ => ?_⟩, fun _ => ?_⟩
    · exact staticBlock hp fun v s' hv => h hs (v, hasConstructor) _ hv.draft
    · exact hkeyed fun ha => absurd ha hs
    · exact hkeyed fun ha => absurd ha hs
  · exact ⟨fun hf => absurd hf Bool.false_ne_true, fun _ => hkeyed id⟩

theorem classMembers (hp : p.Forms) {hasConstructor : Bool} {rounds : Nat}
    {post : List (Tree .classMember) → Sight → Prop}
    (h : ¬ s.AtArrow → ∀ vs s', (∀ v ∈ vs, v.Plain) → post vs s') :
    (Grammar.classMembers p ctx hasConstructor rounds).Sees s post := by
  induction rounds generalizing hasConstructor s post with
  | zero => trivial
  | succ rounds ih =>
    refine sees_ite.mpr ⟨fun hend => ?_, fun _ => sees_ite.mpr ⟨fun _ => trivial, fun _ => ?_⟩⟩
    · exact h (Sight.not_atArrow_of_isPunctuator hend (by decide)) _ _ (List.forall_mem_nil _)
    · refine classMember hp fun hs r s' hr => ih fun hs' vs s'' hvs => h hs _ _ ?_
      exact List.forall_mem_cons.2 ⟨hr.plain hs', hvs⟩

theorem heritage (hp : p.Forms) {post : Tree (.maybe .heritage) → Sight → Prop}
    (h : ∀ v s', v.Draft s' → post v s') : (Grammar.heritage p ctx).Sees s post := by
  refine sees_ite.mpr ⟨fun _ => h _ _ Tree.Plain.absent.draft, fun _ => Sees.bindAny fun _ _ => ?_⟩
  refine (hp.chain _).into fun _ base s' hbase => sees_ite.mpr ⟨fun _ => trivial, fun _ => h _ _ ?_⟩
  exact hbase.wrap (fun hv => .present (.one hv trivial rfl rfl)) rfl rfl

/-- A class is well formed. -/
theorem classDefinition (hp : p.Forms) {isDeclaration nameRequired : Bool}
    {post : Tree .classDef → Sight → Prop} (h : ¬ s.AtArrow → ∀ v s', v.Plain → post v s') :
    (Grammar.classDefinition p ctx isDeclaration nameRequired).Sees s post := by
  refine expectKeyword fun hs classLead s' => ?_
  have hrest : ∀ {start} {name : Option Ident} {s₁},
    (Grammar.heritage p ctx.classBody).Sees s₁ fun base s =>
      (Parse.expect ctx.classBody "\x7b").Sees s fun openLead s =>
        (Grammar.classMembers p ctx.classBody false p.rounds).Sees s fun members s =>
          (Parse.expect ctx.classBody "\x7d").Sees s fun closeLead s =>
            (Parse.finish (if isDeclaration = true then .classDecl else .classExpr) start).Sees s
              fun span s =>
                post (.classDef classLead name base openLead
                  (.ofList members) closeLead span) s := by
    intro start name s₁
    refine heritage hp fun base _ hbase => expect nofun fun hopen _ _ => ?_
    refine classMembers hp fun _ members _ hmembers => expect nofun fun _ _ _ =>
      finish fun _ => h hs _ _ ?_
    exact .two (hbase.plain hopen) (.ofList hmembers) trivial rfl rfl
  refine sees_ite.mpr ⟨fun _ => Sees.bindAny fun _ _ => hrest, fun _ => sees_ite.mpr
    ⟨fun _ => trivial, fun _ => hrest⟩⟩

/-! ## Markup -/

theorem expectThen {spelling : String} {after : Mode} {post : String → Sight → Prop}
    (hne : spelling ≠ "=>") (h : ¬ s.AtArrow → ∀ text s', post text s') :
    (Grammar.expectThen ctx spelling after).Sees s post :=
  show (Parse.expect ctx spelling).Sees { token := s.token } post from expect hne h

theorem container (hp : p.Forms) {start : Position} {openLead : String} {after : Mode}
    {allowsEmpty : Bool} {post : Tree .container → Sight → Prop} (h : ∀ v s', v.Plain → post v s') :
    (Grammar.container p ctx start openLead after allowsEmpty).Sees s post := by
  refine sees_ite.mpr ⟨fun _ => sees_ite.mpr ⟨fun _ => trivial, fun _ => ?_⟩, fun _ => ?_⟩
  · exact Sees.bindAny fun _ _ => Sees.bindAny fun _ _ => Sees.bindAny fun _ _ =>
      Sees.bindAny fun _ _ => h _ _ (.leaf trivial rfl rfl)
  · refine (hp.assignment _).into fun _ value s' hvalue => expectThen nofun fun hs _ _ =>
      finish fun _ => ?_
    exact h _ _ (.one (hvalue.plain hs) trivial rfl rfl)

theorem attributeValue (hp : p.Forms) {post : Tree .attributeValue → Sight → Prop}
    (h : ∀ v s', v.Plain → post v s') : (Grammar.attributeValue p ctx).Sees s post := by
  refine sees_ite.mpr ⟨fun _ => Sees.bindAny fun _ _ => h _ _ (.leaf trivial rfl rfl), fun _ => ?_⟩
  refine sees_ite.mpr ⟨fun _ => Sees.bindAny fun _ _ => ?_, fun _ => sees_ite.mpr
    ⟨fun _ => Sees.bindAny fun _ _ => (hp.markup _ _ _ _ _).imp fun v s' hv => ?_,
      fun _ => trivial⟩⟩
  · exact container hp fun _ _ hv => h _ _ (.one hv trivial rfl rfl)
  · cases v with
    | element e => exact h _ _ (.one hv trivial rfl rfl)
    | fragment f => exact h _ _ (.one hv trivial rfl rfl)

theorem spreadAttribute (hp : p.Forms) {post : Tree .attribute → Sight → Prop}
    (h : ∀ v s', v.Plain → post v s') : (Grammar.spreadAttribute p ctx).Sees s post := by
  refine Sees.bindAny fun _ _ => Sees.bindAny fun _ _ => expect nofun fun _ _ _ => ?_
  refine (hp.assignment _).into fun _ operand _ hv => ?_
  exact expectThen nofun fun hs _ _ => finish fun _ => h _ _ (.one (hv.plain hs) trivial rfl rfl)

theorem tagIdent {post : TagIdent → Sight → Prop} (h : ¬ s.AtArrow → ∀ id s', post id s') :
    (Grammar.tagIdent ctx).Sees s post := by
  refine sees_ite.mpr ⟨fun _ => trivial, fun hkind => Sees.bindAny fun _ _ => finish fun _ => ?_⟩
  exact h (Sight.not_atArrow_of_kind (Decidable.not_not.1 hkind) (by decide)) _ _

/-- An attribute is well formed unless an arrow is ahead. -/
theorem tagAttribute (hp : p.Forms) {post : Tree .attribute → Sight → Prop}
    (h : ¬ s.AtArrow → ∀ v s', v.Plain → post v s') : (Grammar.tagAttribute p ctx).Sees s post := by
  simp only [Grammar.tagAttribute, sees_bind, sees_sees, sees_here, sees_ite, sees_map, sees_pure]
  refine ⟨fun hopen => spreadAttribute hp ?_, fun _ => tagIdent fun hs first _ =>
    ⟨fun _ => Sees.any fun _ _ => ?_, fun _ => ?_⟩⟩
  · exact h (Sight.not_atArrow_of_isPunctuator hopen (by decide))
  -- What follows the name is read in the same way.
  all_goals
    refine accept nofun (fun _ _ _ => attributeValue hp fun _ _ hv => finish fun _ => ?_)
      (finish fun _ => ?_)
    · exact h hs _ _ (.one (.present hv) trivial rfl rfl)
    · exact h hs _ _
        (.one (.absent : (Tree.absent : Tree (.maybe .attributeValue)).Plain) trivial rfl rfl)

theorem childContainer (hp : p.Forms) {post : Tree .child → Sight → Prop}
    (h : ∀ v s', v.Plain → post v s') : (Grammar.childContainer p ctx).Sees s post := by
  refine Sees.bindAny fun _ _ => Sees.bindAny fun _ _ => sees_ite.mpr ⟨fun _ =>
    Sees.bindAny fun _ _ => (hp.assignment _).into fun _ _ _ hv => ?_, fun _ => ?_⟩
  · exact expectThen nofun fun hs _ _ => finish fun _ => h _ _ (.one (hv.plain hs) trivial rfl rfl)
  · exact container hp fun _ _ hv => h _ _ (.one hv trivial rfl rfl)

/-- The children of an element are well formed. -/
theorem children (hp : p.Forms) {name : String} {rounds : Nat}
    {post : List (Tree .child) × Position × String → Sight → Prop}
    (h : ∀ r s', (∀ v ∈ r.1, v.Plain) → post r s') :
    (Grammar.children p ctx name rounds).Sees s post := by
  induction rounds generalizing s post with
  | zero => trivial
  | succ rounds ih =>
    -- A child in front of the others.
    have hcons : ∀ {v : Tree .child} {s₁}, v.Plain →
        (Grammar.children p ctx name rounds).Sees s₁ fun r s => post (v :: r.1, r.2) s :=
      fun hv => ih fun r s' hr => h _ _ (List.forall_mem_cons.2 ⟨hv, hr⟩)
    refine sees_bind.mpr (sees_look.mpr ?_)
    split
    · trivial
    · exact Sees.bindAny fun _ _ => Sees.bindAny fun _ _ => hcons (.leaf trivial rfl rfl)
    · refine sees_ite.mpr ⟨fun _ => childContainer hp fun _ _ hv => hcons hv, fun _ => sees_ite.mpr
        ⟨fun _ => Sees.bindAny fun _ _ => sees_ite.mpr ⟨fun _ => h _ _ (List.forall_mem_nil _),
          fun _ => (hp.markup _ _ _ _ _).imp fun v s' hv => ?_⟩, fun _ => trivial⟩⟩
      cases v with
      | element e => exact hcons (.one hv trivial rfl rfl)
      | fragment f => exact hcons (.one hv trivial rfl rfl)

theorem fragment (hp : p.Forms) {start : Position} {openLead : String} {after : Mode}
    {post : Tree .fragment → Sight → Prop} (h : ∀ v s', v.Plain → post v s') :
    (Grammar.fragment p ctx start openLead after).Sees s post := by
  refine expectThen nofun fun _ _ _ => children hp fun r _ hr => Sees.bindAny fun _ _ => ?_
  refine sees_ite.mpr ⟨fun _ => trivial, fun _ => Sees.bindAny fun _ _ => finish fun _ => h _ _ ?_⟩
  exact .one (.ofList hr) trivial rfl rfl

/-- An element is well formed. -/
theorem element (hp : p.Forms) {start : Position} {openLead : String} {after : Mode}
    {post : Tree .element → Sight → Prop} (h : ∀ v s', v.Plain → post v s') :
    (Grammar.element p ctx start openLead after).Sees s post := by
  have hends : ∀ t : Token, endsAttributes t = true → t.isPunctuator "=>" = false := by
    intro t ht
    simp only [endsAttributes, Token.isPunctuator] at *
    grind
  have hattribute : ∀ s, (Grammar.tagAttribute p ctx).Sees s fun v s' =>
      ¬ s.AtArrow ∧ (v.Plain ∨ s'.AtArrow) := fun s => tagAttribute hp fun hs _ _ hv =>
        ⟨hs, .inl hv⟩
  refine Sees.bindAny fun name _ => many hends hattribute fun _ attributes s' hattributes => ?_
  refine sees_ite.mpr ⟨fun _ => Sees.bindAny fun _ _ =>
    sees_ite.mpr ⟨fun _ => trivial, fun _ => ?_⟩,
    fun _ => Sees.bindAny fun _ _ => Sees.bindAny fun _ _ => children hp fun r _ hr => ?_⟩
  · refine Sees.bindAny fun _ _ => Sees.bindAny fun _ _ => finish fun _ => h _ _ ?_
    have hnone : (Tree.nil : Tree (.many .child)).Plain := .leaf trivial rfl rfl
    exact .two (.ofList hattributes) hnone trivial rfl rfl
  · refine Sees.bindAny fun _ _ => finish fun _ => h _ _ ?_
    exact .two (.ofList hattributes) (.ofList hr) trivial rfl rfl

theorem markup (hp : p.Forms) {start : Position} {openLead : String} {after : Mode} :
    (Grammar.markup p start openLead after ctx).Sees s fun v _ => v.Plain :=
  sees_ite.mpr ⟨fun _ => fragment hp fun _ _ hv => hv, fun _ => element hp fun _ _ hv => hv⟩

theorem markupRoot (hp : p.Forms) {post : Expr → Sight → Prop} (h : ∀ v s', v.Plain → post v s') :
    (Grammar.markupRoot p ctx).Sees s post := by
  refine Sees.bindAny fun _ _ => Sees.bindAny fun _ _ => Sees.bindAny fun _ _ =>
    Sees.bindAny fun _ _ => ?_
  refine (hp.markup _ _ _ _ _).imp fun v s' hv => ?_
  cases v with
  | element e => exact h _ _ (.one hv trivial rfl rfl)
  | fragment f => exact h _ _ (.one hv trivial rfl rfl)

end Parse.Drafts

end Verbatim
