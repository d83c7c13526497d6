import Verbatim.Proofs.Course.Statement

/-!
# Modules and whole sources

Imports, exports and whole sources are read as they are laid out, to every depth of the productions.
The node of the whole source is finished last, and it is the only one of its kind.

## Main results

* `Verbatim.Productions.Proceeds.ofDepth` — productions of every depth.
* `Verbatim.Parse.Proceeds.program` — the production of a whole source.
-/

namespace Verbatim

open Verbatim.Grammar Verbatim.Course Verbatim.Layout

namespace Parse.Proceeds

variable {source : String} {p : Productions} {ctx : Context} {c c₀ c₁ : Course source}

/-! ## Parts of imports and exports -/

theorem moduleSource {post : Literal → Outlook source → Prop}
    (h : ∀ lit c', c.Passes (.literal lit) c' → post lit (.on c')) :
    (Grammar.moduleSource ctx).Proceeds c post := by
  simp only [Grammar.moduleSource, proceeds_bind, proceeds_look, meets_on, proceeds_ite,
    proceeds_unexpectedHere, implies_true, and_true]
  exact fun _ => literal h

theorem exportName {post : ExportName → Outlook source → Prop}
    (h : ∀ name c', c.Passes name.layout c' → post name (.on c')) :
    (Grammar.exportName ctx).Proceeds c post := by
  simp only [Grammar.exportName, proceeds_bind, proceeds_look, meets_on, proceeds_ite,
    proceeds_unexpected, implies_true, and_true]
  exact ⟨fun _ => literal fun lit c' hlit => h (.string lit) c' hlit,
    fun _ _ => anyName fun id c' hid => h (.ident id) c' hid⟩

theorem expectFrom {post : String → Outlook source → Prop}
    (h : ∀ lead c', c.Passes (.token (lead ++ "from")) c' → post lead (.on c')) :
    Grammar.expectFrom.Proceeds c post := by
  simp only [Grammar.expectFrom, proceeds_bind, proceeds_look, meets_on, proceeds_ite,
    proceeds_reject, implies_true, true_and, Bool.not_eq_true', Bool.not_eq_false]
  exact fun ht => lead (raw_of_isWord ht) h

theorem exportAlias {post : Option ExportAlias → Outlook source → Prop}
    (h : ∀ alias? c', c.Passes (alias?.elim .blank ExportAlias.layout) c' → post alias? (.on c')) :
    (Grammar.exportAlias ctx).Proceeds c post := by
  simp only [Grammar.exportAlias, proceeds_bind, proceeds_seesWord, meets_on, proceeds_ite,
    proceeds_pure]
  refine ⟨fun ht => lead (raw_of_isWord ht) fun asLead c₁ h₁ => ?_, fun _ => h none _ .blank⟩
  exact exportName fun exported c₂ h₂ => h (some { asLead, exported }) _ (h₁.seq h₂)

/-! ## Imports -/

theorem importAlias {first : Token} {post : Option ImportAlias → Outlook source → Prop}
    (h : ∀ alias? c', c.Passes (alias?.elim .blank ImportAlias.layout) c' → post alias? (.on c')) :
    (Grammar.importAlias ctx first).Proceeds c post := by
  simp only [Grammar.importAlias, proceeds_bind, proceeds_seesWord, meets_on, proceeds_ite,
    proceeds_unexpected, implies_true, true_and]
  refine ⟨fun ht => lead (raw_of_isWord ht) fun asLead c₁ h₁ => ?_,
    fun _ _ => checkReference (h none _ .blank)⟩
  exact bindingName fun binding c₂ h₂ => h (some { asLead, binding }) _ (h₁.seq h₂)

theorem importSpecifier {post : ImportSpecifier → Outlook source → Prop}
    (h : ∀ s c', c.Passes s.layout c' → post s (.on c')) :
    (Grammar.importSpecifier ctx).Proceeds c post := by
  simp only [Grammar.importSpecifier, proceeds_bind, proceeds_look, meets_on]
  refine exportName fun imported c₁ h₁ => importAlias fun alias? c₂ h₂ => ?_
  refine finish (h₁.seq h₂) ?_ (by decide) fun span c' hr => h _ _ hr
  cases imported <;> rfl

theorem namedImports {rounds : Nat} {post : NamedImports → Outlook source → Prop}
    (h : ∀ n c', c.Passes n.layout c' → post n (.on c')) :
    (Grammar.namedImports ctx rounds).Proceeds c post := by
  have hround : ∀ c : Course source, (Round.item <$> Grammar.importSpecifier ctx).Yields c
      (RoundPasses (fun s c c' => c.Passes s.layout c') c) :=
    fun c => Yields.of_rule fun post h => importSpecifier fun s c' hs => h (.item s) c' hs
  refine expect fun openLead c₁ h₁ => listed hround fun vs commas c₂ h₂ => ?_
  refine expect fun closeLead c₃ h₃ => h _ _ ?_
  exact h₁.seq ((h₂.reads id).seq h₃)

theorem namespaceImport (ht : c.ahead.isPunctuator "*" = true)
    {post : NamespaceImport → Outlook source → Prop}
    (h : ∀ n c', c.Passes n.layout c' → post n (.on c')) :
    (Grammar.namespaceImport ctx).Proceeds c post := by
  simp only [Grammar.namespaceImport, proceeds_bind, proceeds_here, meets_on]
  refine lead (raw_of_isPunctuator ht) fun starLead c₁ h₁ => expectWord fun asLead c₂ h₂ => ?_
  refine bindingName fun binding c₃ h₃ => ?_
  exact finish (h₁.seq (h₂.seq h₃)) rfl (by decide) fun span c' hr => h _ _ hr

/-- The clause of an import is laid out as it was read. -/
theorem importParts {rounds : Nat} {main : Option Ident} {commaLead : String}
    {post : ImportClause → Outlook source → Prop} (hmain : c₀.Passes (nameLayout main) c₁)
    (hcomma : c₁.Passes (.onlyIf main.isSome (commaLead ++ ",")) c)
    (h : ∀ clause c', c₀.Passes clause.layout c' → post clause (.on c')) :
    (Grammar.importParts ctx rounds main commaLead).Proceeds c post := by
  simp only [Grammar.importParts, proceeds_bind, proceeds_sees, meets_on, proceeds_ite,
    proceeds_unexpectedHere, implies_true, and_true]
  refine ⟨fun ht => namespaceImport ht fun n c' hn => ?_, fun _ _ => namedImports fun n c' hn => ?_⟩
  · have hcomma : c₁.Passes (.onlyIf (main.isSome && (true || false)) (commaLead ++ ",")) c := by
      simpa using hcomma
    exact h { main, commaLead, space := some n, named := none } _
      (hmain.seq (hcomma.seq (hn.seq .blank)))
  · have hcomma : c₁.Passes (.onlyIf (main.isSome && (false || true)) (commaLead ++ ",")) c := by
      simpa using hcomma
    exact h { main, commaLead, space := none, named := some n } _
      (hmain.seq (hcomma.seq (Passes.blank.seq hn)))

theorem importClause {rounds : Nat} {post : ImportClause → Outlook source → Prop}
    (h : ∀ clause c', c.Passes clause.layout c' → post clause (.on c')) :
    (Grammar.importClause ctx rounds).Proceeds c post := by
  simp only [Grammar.importClause, proceeds_bind, proceeds_look, meets_on, proceeds_ite]
  refine ⟨fun _ => bindingName fun main c₁ h₁ => ?_, fun _ => ?_⟩
  · have hmain : c.Passes (nameLayout (some main)) c₁ := h₁
    refine accept (h { main := some main, commaLead := "", space := none, named := none } _ ?_)
      fun commaLead c₂ h₂ => importParts hmain h₂ h
    exact hmain.seq (Passes.blank.seq (Passes.blank.seq .blank))
  · exact importParts .blank .blank h

/-- An import is laid out as it was read. -/
theorem importDeclaration {rounds : Nat} {post : Stmt → Outlook source → Prop}
    (ht : c.ahead.raw = "import") (h : ∀ v c', c.Builds v c' → post v (.on c')) :
    (Grammar.importDeclaration ctx rounds).Proceeds c post := by
  intro u hu
  have hword : c.Passes (.token (c.ahead.lead ++ "import")) (c.take u hu) := .token ht
  have hrest : ∀ {clause : Option ImportClause} {fromLead : String} {c₁ : Course source},
      (c.take u hu).Passes (clause.elim .blank fun clause =>
        .seq clause.layout (.token (fromLead ++ "from"))) c₁ →
      (Grammar.moduleSource ctx).Proceeds c₁ fun origin o =>
        (Parse.terminator ctx).Meets (courses source) o fun ending o =>
          (Parse.finish .importDecl c.ahead.start).Meets (courses source) o fun span o =>
            post (.importStmt { lead := c.ahead.lead, clause, fromLead, source := origin,
                                terminator := ending, span }) o := by
    refine fun h₁ => moduleSource fun origin c₂ h₂ => terminator fun ending c₃ h₃ => ?_
    exact finish (hword.seq (h₁.seq (h₂.seq h₃))) rfl (by decide) fun span c' hr =>
      h _ _ (.part hr rfl)
  simp only [meets_on, proceeds_bind, proceeds_look, proceeds_ite, proceeds_pure]
  refine ⟨fun _ => hrest .blank, fun _ => importClause fun clause c₁ h₁ => ?_⟩
  exact expectFrom fun fromLead c₂ h₂ => hrest (h₁.seq h₂)

/-! ## Exports -/

/-- What is exported by default is laid out as it was read. -/
theorem exportValue (hp : p.Proceeds source) {post : Tree .exportValue → Outlook source → Prop}
    (h : ∀ v c', c.Builds v c' → post v (.on c')) :
    (Grammar.exportValue p ctx).Proceeds c post := by
  have hother : (if c.ahead.isKeyword "class" then
      .exportClass <$> Grammar.classDefinition p ctx true false
    else do
      let value ← p.assignment ctx
      let ending ← Parse.terminator ctx
      return .exportExpr value ending : Parse (Tree .exportValue)).Proceeds c post := by
    simp only [proceeds_ite, proceeds_map, proceeds_bind]
    refine ⟨fun _ => classDefinition hp fun _ _ hc => h _ _ (.part hc rfl), fun _ => ?_⟩
    refine hp.ofAssignment fun value c₁ h₁ => terminator fun ending c₂ h₂ => ?_
    exact h _ _ (.part (h₁.seq h₂) rfl)
  have hfunction : (.exportFunction <$> Grammar.function p ctx true true :
      Parse (Tree .exportValue)).Proceeds c post := function hp fun _ _ hf => h _ _ (.part hf rfl)
  simp only [Grammar.exportValue, proceeds_bind, proceeds_look, meets_on]
  refine proceeds_ite.mpr ⟨fun _ => hfunction, fun _ =>
    proceeds_ite.mpr ⟨fun _ => ?_, fun _ => hother⟩⟩
  exact isAsyncFunction fun b => proceeds_ite.mpr ⟨fun _ => hfunction, fun _ => hother⟩

section

variable {post : Stmt → Outlook source → Prop}

theorem exportDefault (hp : p.Proceeds source)
    (hword : c₀.Passes (.token (c₀.ahead.lead ++ "export")) c)
    (ht : c.ahead.isKeyword "default" = true) (h : ∀ v c', c₀.Builds v c' → post v (.on c')) :
    (Grammar.exportDefault p ctx c₀.ahead).Proceeds c post := by
  refine lead (raw_of_isKeyword ht) fun defaultLead c₁ h₁ => exportValue hp fun value c₂ h₂ => ?_
  exact finish (hword.seq (h₁.seq h₂)) rfl (by decide) fun span c' hr => h _ _ (.part hr rfl)

theorem exportAll (hword : c₀.Passes (.token (c₀.ahead.lead ++ "export")) c)
    (ht : c.ahead.isPunctuator "*" = true) (h : ∀ v c', c₀.Builds v c' → post v (.on c')) :
    (Grammar.exportAll ctx c₀.ahead).Proceeds c post := by
  refine lead (raw_of_isPunctuator ht) fun starLead c₁ h₁ => exportAlias fun alias? c₂ h₂ => ?_
  refine expectFrom fun fromLead c₃ h₃ => moduleSource fun origin c₄ h₄ => ?_
  refine terminator fun ending c₅ h₅ => ?_
  exact finish (hword.seq (h₁.seq (h₂.seq ((h₃.seq h₄).seq h₅)))) rfl (by decide) fun span c' hr =>
    h _ _ (.part hr rfl)

theorem exportSpecifier {post : ExportSpecifier × Token → Outlook source → Prop}
    (h : ∀ r c', c.Passes r.1.layout c' → post r (.on c')) :
    (Grammar.exportSpecifier ctx).Proceeds c post := by
  simp only [Grammar.exportSpecifier, proceeds_bind, proceeds_look, meets_on]
  refine exportName fun binding c₁ h₁ => exportAlias fun alias? c₂ h₂ => ?_
  refine finish (h₁.seq h₂) ?_ (by decide) fun span c' hr => h (_, _) _ hr
  cases binding <;> rfl

@[simp]
theorem checkLocalNames {locals : List Token} {post : Unit → Outlook source → Prop}
    (h : post () (.on c)) : (Grammar.checkLocalNames ctx locals).Proceeds c post := by
  induction locals with
  | nil => exact h
  | cons t ts ih => simp [Grammar.checkLocalNames, ih]

theorem exportOrigin {locals : List Token} {post : Option FromClause → Outlook source → Prop}
    (h : ∀ origin c', c.Passes (origin.elim .blank FromClause.layout) c' → post origin (.on c')) :
    (Grammar.exportOrigin ctx locals).Proceeds c post := by
  simp only [Grammar.exportOrigin, proceeds_bind, proceeds_seesWord, meets_on, proceeds_ite]
  refine ⟨fun ht => lead (raw_of_isWord ht) fun fromLead c₁ h₁ => ?_,
    fun _ => checkLocalNames (h none _ .blank)⟩
  exact moduleSource fun lit c₂ h₂ => h (some { fromLead, source := lit }) _ (h₁.seq h₂)

/-- A list of exported names is laid out as it was read. -/
theorem exportNames {rounds : Nat} (hword : c₀.Passes (.token (c₀.ahead.lead ++ "export")) c)
    (h : ∀ v c', c₀.Builds v c' → post v (.on c')) :
    (Grammar.exportNames ctx rounds c₀.ahead).Proceeds c post := by
  have hround : ∀ c : Course source, (Round.item <$> Grammar.exportSpecifier ctx).Yields c
      (RoundPasses (fun r c c' => c.Passes r.1.layout c') c) :=
    fun c => Yields.of_rule fun post h => exportSpecifier fun r c' hr => h (.item r) c' hr
  refine expect fun openLead c₁ h₁ => listed hround fun entries commas c₂ h₂ => ?_
  refine expect fun closeLead c₃ h₃ => exportOrigin fun origin c₄ h₄ => ?_
  refine terminator fun ending c₅ h₅ => ?_
  have hlist : c₁.Passes (.list ((entries.map (·.1)).map (·.layout)) commas) c₂ := by
    rw [List.map_map]
    exact h₂.reads id
  let specifiers : NamedExports :=
    { openLead, specifiers := entries.map (·.1), separators := commas, closeLead }
  have hnames : c.Passes specifiers.layout c₃ := h₁.seq (hlist.seq h₃)
  have hdecl : c.Builds (.absent : Tree (.maybe .stmt)) c := .part .blank rfl
  exact finish (hword.seq (hdecl.seq (hnames.seq (h₄.seq h₅)))) rfl (by decide) fun span c' hr =>
    h _ _ (.part hr rfl)

theorem seesDeclaration {post : Bool → Outlook source → Prop} (h : ∀ b, post b (.on c)) :
    Grammar.seesDeclaration.Proceeds c post := by
  simp only [Grammar.seesDeclaration, proceeds_bind, proceeds_look, meets_on, proceeds_ite,
    proceeds_pure]
  exact ⟨fun _ => h _, fun _ => ⟨fun _ => h _, fun _ => ⟨fun _ => isAsyncFunction h, fun _ => h _⟩⟩⟩

theorem exportedDeclaration (hp : p.Proceeds source)
    (hword : c₀.Passes (.token (c₀.ahead.lead ++ "export")) c)
    (h : ∀ v c', c₀.Builds v c' → post v (.on c')) :
    (Grammar.exportedDeclaration p ctx c₀.ahead).Proceeds c post := by
  refine seesDeclaration fun b => ?_
  simp only [meets_on, proceeds_bind, proceeds_ite, proceeds_unexpectedHere, implies_true, true_and]
  refine fun _ => (hp.item ctx c).use fun declaration c₁ h₁ => ?_
  have hdecl : c.Builds (.present declaration) c₁ := .part h₁ rfl
  exact finish (hword.seq (hdecl.seq (Passes.blank.seq (Passes.blank.seq .blank)))) rfl (by decide)
    fun span c' hr => h _ _ (.part hr rfl)

theorem exportDeclaration (hp : p.Proceeds source) (ht : c.ahead.raw = "export")
    (h : ∀ v c', c.Builds v c' → post v (.on c')) :
    (Grammar.exportDeclaration p ctx).Proceeds c post := by
  intro u hu
  have hword : c.Passes (.token (c.ahead.lead ++ "export")) (c.take u hu) := .token ht
  simp only [meets_on, proceeds_bind, proceeds_seesKeyword, proceeds_sees, proceeds_ite]
  exact ⟨fun hd => exportDefault hp hword hd h, fun _ => ⟨fun hs => exportAll hword hs h,
    fun _ => ⟨fun _ => exportNames hword h, fun _ => exportedDeclaration hp hword h⟩⟩⟩

theorem moduleItem (hp : p.Proceeds source) (c : Course source) :
    (Grammar.moduleItem p ctx).Yields c fun v c' => c.Builds v c' := by
  refine Yields.of_rule fun post h => ?_
  have hitem : (p.item ctx).Proceeds c post := (hp.item ctx c).use h
  simp only [Grammar.moduleItem, proceeds_bind, proceeds_look, meets_on, proceeds_ite]
  refine ⟨fun ht => isImportExpression fun b => ?_, fun _ => ⟨fun ht => ?_, fun _ => hitem⟩⟩
  · exact proceeds_ite.mpr ⟨fun _ => hitem, fun _ => importDeclaration (raw_of_isKeyword ht) h⟩
  · exact exportDeclaration hp (raw_of_isKeyword ht) h

end

end Parse.Proceeds

/-! ## Every depth -/

namespace Productions.Proceeds

variable {source : String} {p : Productions}

/-- Productions that are used up read nothing. -/
theorem exhausted : Productions.exhausted.Proceeds source := by
  constructor <;> intros <;> trivial

/-- Productions that call the given ones. -/
theorem deepen (hp : p.Proceeds source) : p.deepen.Proceeds source where
  expression _ _ := .of_rule fun _ h => Parse.Proceeds.expression hp h
  assignment _ _ := .of_rule fun _ h => Parse.Proceeds.assignment hp h
  cover _ _ := .of_rule fun _ h => Parse.Proceeds.cover hp h
  binary _ _ _ := .of_rule fun _ h => Parse.Proceeds.binary hp h
  exponentiation _ _ := .of_rule fun _ h => Parse.Proceeds.exponentiation hp h
  unary _ _ := .of_rule fun _ h => Parse.Proceeds.unary hp h
  chain _ _ := .of_rule fun _ h => Parse.Proceeds.chain hp h
  callee _ _ := .of_rule fun _ h => Parse.Proceeds.callee hp h
  binding _ _ _ := .of_rule fun _ h => Parse.Proceeds.binding hp h
  statement _ _ := .of_rule fun _ h => Parse.Proceeds.statement hp h
  item _ _ := .of_rule fun _ h => Parse.Proceeds.item hp h
  markup _ _ _ _ _ hlead := Parse.Proceeds.markup hp hlead

/-- Productions of every depth read what they build. -/
theorem ofDepth (depth : Nat) : (Productions.ofDepth depth).Proceeds source := by
  induction depth with
  | zero => exact exhausted
  | succ depth ih => exact ih.deepen

end Productions.Proceeds

/-! ## Whole sources -/

/-- What a source consists of is read, and then its node is finished, which is the last one. -/
theorem Parse.Proceeds.program {source : String} {p : Productions} {goal : Goal}
    {allowsMarkup : Bool} {c : Course source} (hp : p.Proceeds source) :
    (Grammar.program p goal allowsMarkup).Proceeds c fun v o => ∃ c', o = .ended c' v.span ∧
      c.Builds (.ofList v.body) c' ∧ v.span = .between c.ahead.start c'.lastEnd ∧
      v.tail = c'.ahead.lead := by
  simp only [Grammar.program, proceeds_bind, proceeds_here, meets_on]
  refine prologueFrom hp fun first c₁ h₁ => many (fun c₂ => ?_) fun rest c₃ h₂ => ?_
  · cases goal with
    | script => exact hp.item _ c₂
    | module => exact moduleItem hp c₂
  · exact ⟨fun _ => ⟨c₃, rfl, h₁.append_ofList h₂, rfl, rfl⟩, fun hk => absurd rfl hk⟩

end Verbatim
