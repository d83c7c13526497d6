import Verbatim.Proofs.Layout.Shape

/-!
# Visits of layouts

A visit of a tree is a visit of its layout. What is done at extents must not depend on what was done
before, since a layout has its extents in another order.

## Main definitions

* `Verbatim.Visitor.Moves` — visitors that change extents by a function.

## Main results

* `Verbatim.Tree.shape_traverse` — a visit of a tree is a visit of its layout.
-/

namespace Verbatim

variable {m : Type → Type} [Monad m] {v : Visitor m} {g : Span → Span}

namespace Visitor

/-- A visitor that changes extents by a function, whatever it does at leaves. -/
def Moves (v : Visitor m) (g : Span → Span) : Prop := ∀ span, v.span span = pure (g span)

end Visitor

/-! ## Single tokens -/

namespace Layout

@[simp]
theorem visit_mark (lead : Option String) (spelling : String) :
    (mark lead spelling).visit v = pure (mark lead spelling) := by
  cases lead <;> rfl

@[simp]
theorem visit_onlyIf (condition : Bool) (text : String) :
    (onlyIf condition text).visit v = pure (onlyIf condition text) := by
  cases condition <;> rfl

@[simp]
theorem visit_terminator (t : Terminator) : t.layout.visit v = pure t.layout := by
  unfold Terminator.layout
  split <;> rfl

@[simp]
theorem visit_optionalTerminator (t : Option Terminator) :
    (t.elim blank Terminator.layout).visit v = pure (t.elim blank Terminator.layout) := by
  cases t with
  | none => rfl
  | some t => exact visit_terminator t

variable [LawfulMonad m]

@[simp]
theorem visit_modifiers (mods : Modifiers) (accessor : String) :
    (mods.layout accessor).visit v = pure (mods.layout accessor) := by
  simp [Modifiers.layout, all, visit]

@[simp]
theorem visit_nameLayout (name : Option Ident) :
    (nameLayout name).visit v = nameLayout <$> Visitor.option v.ident name := by
  cases name <;> simp [nameLayout, visit, Visitor.option]

@[simp]
theorem visit_functionHead (head : FunctionHead) :
    head.layout.visit v = FunctionHead.layout <$> v.functionHead head := by
  simp [FunctionHead.layout, Visitor.functionHead, all, visit]

/-- The layout of an optional part is visited as the part is. -/
theorem visit_elim {α : Type} {layout : α → Layout} {change : α → m α}
    (h : ∀ part, (layout part).visit v = layout <$> change part) (part : Option α) :
    (part.elim blank layout).visit v =
      (fun part => part.elim blank layout) <$> Visitor.option change part := by
  cases part with
  | none => simp [Visitor.option]
  | some part => simp [Visitor.option, h]

/-- The layouts of some things are visited as the things are. -/
theorem visits_map {α : Type} {layout : α → Layout} {change : α → m α}
    (h : ∀ part, (layout part).visit v = layout <$> change part) (parts : List α) :
    visits v (parts.map layout) = List.map layout <$> Visitor.list change parts := by
  induction parts with
  | nil => simp [Visitor.list]
  | cons part parts ih => simp [visits, Visitor.list, h, ih]

/-- Items that are joined are visited as they are by themselves. -/
theorem visit_joined (items : List Layout) (separators : List String) :
    (joined items separators).visit v = (joined · separators) <$> visits v items := by
  induction items generalizing separators with
  | nil => simp [joined]
  | cons item items ih =>
    cases items with
    | nil => cases separators <;> simp [joined, visits, visit]
    | cons next items =>
      have hjoined : joined (item :: next :: items) separators = .seq item (.seq (.token
          (separators.headD defaultSeparator)) (joined (next :: items) separators.tail)) := rfl
      rw [hjoined, visit, visit, ih]
      simp [visits, visit, joined]

end Layout

/-! ## What is no tree -/

section

variable [LawfulMonad m]

theorem ExportName.visit_layout (name : ExportName) :
    name.layout.visit v = ExportName.layout <$> v.exportName name := by
  cases name <;> simp [ExportName.layout, Layout.visit, Visitor.exportName]

theorem ImportAlias.visit_layout (a : ImportAlias) :
    a.layout.visit v = ImportAlias.layout <$> v.importAlias a := by
  simp [ImportAlias.layout, Layout.visit, Visitor.importAlias]

theorem ExportAlias.visit_layout (a : ExportAlias) :
    a.layout.visit v = ExportAlias.layout <$> v.exportAlias a := by
  simp [ExportAlias.layout, Layout.visit, Visitor.exportAlias, ExportName.visit_layout]

theorem FromClause.visit_layout (c : FromClause) :
    c.layout.visit v = FromClause.layout <$> v.fromClause c := by
  simp [FromClause.layout, Layout.visit, Visitor.fromClause]

end

namespace Visitor.Moves

variable [LawfulMonad m] (hv : v.Moves g)
include hv

theorem visit_importSpecifier (s : ImportSpecifier) :
    s.layout.visit v = ImportSpecifier.layout <$> v.importSpecifier s := by
  simp [ImportSpecifier.layout, Layout.visit, Visitor.importSpecifier, hv _,
    ExportName.visit_layout,
    Layout.visit_elim ImportAlias.visit_layout]

theorem visit_namespaceImport (n : NamespaceImport) :
    n.layout.visit v = NamespaceImport.layout <$> v.namespaceImport n := by
  simp [NamespaceImport.layout, Layout.all, Layout.visit, Visitor.namespaceImport, hv _]

theorem visit_namedImports (n : NamedImports) :
    n.layout.visit v = NamedImports.layout <$> v.namedImports n := by
  simp [NamedImports.layout, Layout.all, Layout.visit, Visitor.namedImports,
    Layout.visits_map hv.visit_importSpecifier]

theorem visit_importClause (c : ImportClause) :
    c.layout.visit v = ImportClause.layout <$> v.importClause c := by
  obtain ⟨main, commaLead, space, named⟩ := c
  cases main <;> cases space <;> cases named <;>
    simp [ImportClause.layout, Layout.all, Layout.visit, Visitor.importClause, Visitor.option,
      nameLayout, hv.visit_namespaceImport, hv.visit_namedImports]

theorem visit_importDeclaration (d : ImportDeclaration) :
    d.layout.visit v = ImportDeclaration.layout <$> v.importDeclaration d := by
  obtain ⟨lead, clause, fromLead, source, terminator, span⟩ := d
  cases clause <;>
    simp [ImportDeclaration.layout, Layout.all, Layout.visit, Visitor.importDeclaration,
      Visitor.option, hv _, hv.visit_importClause]

theorem visit_exportSpecifier (s : ExportSpecifier) :
    s.layout.visit v = ExportSpecifier.layout <$> v.exportSpecifier s := by
  simp [ExportSpecifier.layout, Layout.visit, Visitor.exportSpecifier, hv _,
    ExportName.visit_layout,
    Layout.visit_elim ExportAlias.visit_layout]

theorem visit_namedExports (n : NamedExports) :
    n.layout.visit v = NamedExports.layout <$> v.namedExports n := by
  simp [NamedExports.layout, Layout.all, Layout.visit, Visitor.namedExports,
    Layout.visits_map hv.visit_exportSpecifier]

theorem visit_exportAll (d : ExportAll) :
    d.layout.visit v = ExportAll.layout <$> v.exportAll d := by
  simp [ExportAll.layout, Layout.all, Layout.visit, Visitor.exportAll, hv _,
    FromClause.visit_layout, Layout.visit_elim ExportAlias.visit_layout]

theorem visit_tagIdent (id : TagIdent) :
    id.layout.visit v = TagIdent.layout <$> v.tagIdent id := by
  simp [TagIdent.layout, Layout.visit, Visitor.tagIdent, hv _]

theorem visit_namespacedName (n : NamespacedName) :
    n.layout.visit v = NamespacedName.layout <$> v.namespacedName n := by
  simp [NamespacedName.layout, Layout.all, Layout.visit, Visitor.namespacedName, hv _,
    hv.visit_tagIdent]

theorem visit_tagName (name : TagName) :
    name.layout.visit v = TagName.layout <$> v.tagName name := by
  induction name with
  | plain id => simp [TagName.layout, Visitor.tagName, hv.visit_tagIdent]
  | namespaced n => simp [TagName.layout, Visitor.tagName, hv.visit_namespacedName]
  | member object dotLead property span ih =>
    simp [TagName.layout, Layout.all, Layout.visit, Visitor.tagName, hv _, ih, hv.visit_tagIdent]

theorem visit_attributeName (name : AttributeName) :
    name.layout.visit v = AttributeName.layout <$> v.attributeName name := by
  cases name <;>
    simp [AttributeName.layout, Visitor.attributeName, hv.visit_tagIdent, hv.visit_namespacedName]

theorem visit_closingTag (tag : ClosingTag) :
    tag.layout.visit v = ClosingTag.layout <$> v.closingTag tag := by
  simp [ClosingTag.layout, Layout.all, Layout.visit, Visitor.closingTag, hv _, hv.visit_tagName]

end Visitor.Moves

/-! ## Templates -/

namespace Layout

variable [LawfulMonad m]

theorem visit_all (items : List Layout) : (all items).visit v = all <$> visits v items := by
  induction items with
  | nil => simp [all, visits]
  | cons item items ih =>
    cases items with
    | nil => simp [all, visits]
    | cons next items =>
      have hall : all (item :: next :: items) = .seq item (all (next :: items)) := rfl
      rw [hall, visit, ih]
      simp [visits, all]

theorem list_quasi (hv : v.Moves g) (quasis : List Quasi) :
    Visitor.list v.quasi quasis =
      pure (quasis.map fun piece => { piece with span := g piece.span }) := by
  induction quasis with
  | nil => rfl
  | cons piece rest ih => simp [Visitor.list, Visitor.quasi, hv _, ih]

theorem visit_quasi (hv : v.Moves g) (piece : Quasi) (delimiter : String) :
    (piece.layout delimiter).visit v =
      pure (Quasi.layout { piece with span := g piece.span } delimiter) := by
  simp [Quasi.layout, visit, hv _]

/-- Visiting the layout of a template visits all pieces first and then what is between them. -/
theorem visit_pieces (hv : v.Moves g) (delimiter : String) (quasis : List Quasi)
    (exprs : List Layout) : (pieces delimiter quasis exprs).visit v = (do
      let quasis ← Visitor.list v.quasi quasis
      let exprs ← visits v exprs
      return pieces delimiter quasis exprs) := by
  rw [list_quasi hv, pure_bind, bind_pure_comp]
  induction quasis generalizing delimiter exprs with
  | nil => simp [pieces, visit, visit_all]
  | cons piece rest ih =>
    cases exprs with
    | nil => simp [pieces, visit, visits, ih, visit_quasi hv]
    | cons expr exprs =>
      cases ht : piece.isTail <;> simp [pieces, visit, visits, ih, ht, visit_quasi hv]

end Layout

/-! ## Trees -/

namespace Tree

variable [LawfulMonad m]

/-- Visiting the layouts of the items of a list is visiting the list. -/
theorem visits_toList {c : Category} (items : Tree (.many c)) :
    Layout.visits v (items.toList.map (.part .standalone)) =
      (fun items : Tree (.many c) => items.toList.map (.part .standalone)) <$>
      items.traverse v := by
  obtain ⟨l, rfl⟩ : ∃ l, items = ofList l := ⟨_, items.ofList_toList.symm⟩
  induction l with
  | nil =>
    change _ = _ <$> pure _
    simp [ofList]
  | cons head tail ih =>
    rw [toList_ofList] at ih
    change _ = _ <$> (_ >>= _)
    simp [ofList, Layout.visits, Layout.visit, ih]

@[simp]
theorem visit_listOf {c : Category} (items : Tree (.many c)) (separators : List String) :
    (listOf items separators).visit v = (do
      let separators ← v.separators separators
      let items ← items.traverse v
      return listOf items separators) := by
  simp [listOf, Layout.visit, visits_toList]

/-- A visit does not change how a property is accessed. -/
theorem traverse_isComputed {α : Type} (f : Tree .access → Bool → α) (prop : Tree .access) :
    (fun prop => f prop prop.isComputed) <$> prop.traverse v =
      (fun prop' => f prop' prop.isComputed) <$> prop.traverse v := by
  cases prop <;> (change _ <$> (_ >>= _) = _ <$> (_ >>= _)) <;> simp [isComputed]

/-- A visit does not change whether a part is present. -/
theorem traverse_isSome {α : Type} {c : Category} (f : Tree (.maybe c) → Bool → α)
    (part : Tree (.maybe c)) :
    (fun part => f part part.toOption.isSome) <$> part.traverse v =
      (fun part' => f part' part.toOption.isSome) <$> part.traverse v := by
  cases part with
  | absent => rw [show (absent : Tree (.maybe c)).traverse v = pure .absent from rfl, map_pure,
      map_pure]
  | present part =>
    change _ <$> (_ >>= _) = _ <$> (_ >>= _)
    simp [toOption]

attribute [local simp] shape Layout.visit Layout.all in
/-- A visit of a tree is a visit of its layout. -/
theorem shape_traverse (hv : v.Moves g) {c : Category} (s : Setting) (t : Tree c) :
    (fun t => t.shape s) <$> t.traverse v = (t.shape s).visit v := by
  cases t
  all_goals first | change _ <$> (_ >>= _) = _ | change _ <$> pure _ = _
  all_goals simp only [map_bind, map_pure]
  case update op isBefore opLead operand span =>
    cases isBefore <;> simp [hv _]
  case memberAccess base isOptional dotLead prop span =>
    have h : ∀ base : Expr, _ := fun base => traverse_isComputed (v := v)
      (fun prop isComputed => Layout.node (g span) (.seq (.part s base)
        (.seq (.onlyIf (isOptional || !isComputed) (dotLead ++ if isOptional then "?." else "."))
          (.part s prop)))) prop
    simp [hv _, h]
  case templateLit quasis exprs span =>
    simp [Layout.visit_pieces hv, visits_toList, hv _]
  case property modifiers key value kind isMethod isShorthand colonLead span =>
    cases isShorthand with
    | true => simp [hv _]
    | false =>
      by_cases h : isMethod = true ∨ kind ≠ .plain <;>
        simp [hv _, h]
  case patternProperty key value isShorthand colonLead span =>
    cases isShorthand <;> simp [hv _]
  case privateKey name =>
    simp [PrivateName.layout, PrivateName.print, Visitor.privateName, hv _]
  case privateAccess name =>
    simp [PrivateName.layout, PrivateName.print, Visitor.privateName, hv _]
  case function head params body span =>
    by_cases h : s = .standalone
    · simp [hv _, h]
    · simp [hv _, h, Visitor.functionHead]
  case importStmt d => simp [hv.visit_importDeclaration]
  case exportAll d => simp [hv.visit_exportAll]
  case exportNamed lead declaration specifiers origin terminator span =>
    simp [hv _, Layout.visit_elim hv.visit_namedExports, Layout.visit_elim FromClause.visit_layout]
  case element lead name attributes selfClosing closeLead openingSpan children closing span =>
    simp [hv _, hv.visit_tagName, Layout.visit_elim hv.visit_closingTag]
  case «attribute» name eqLead value span =>
    have h : ∀ name : AttributeName, _ := fun name => traverse_isSome (v := v)
      (fun value isSome => Layout.node (g span) (.seq name.layout
        (.seq (.onlyIf isSome (eqLead ++ "=")) (.part s value)))) value
    simp [hv _, hv.visit_attributeName, h]
  case switchCase lead test colonLead body span =>
    cases test with
    | absent =>
      have h : (absent : Tree (.maybe .expr)).traverse v = pure .absent := rfl
      simp [hv _, h]
    | present test =>
      have h : (present test).traverse v = present <$> test.traverse v := bind_pure_comp ..
      simp [toOption, hv _, h]
  all_goals
    simp only [shape, Layout.all, Layout.visit, Layout.visit_blank, Layout.visit_mark,
      Layout.visit_onlyIf, Layout.visit_terminator, Layout.visit_optionalTerminator,
      Layout.visit_modifiers, Layout.visit_nameLayout, visit_listOf, hv _, pure_bind,
        bind_pure_comp,
      map_pure, map_bind, Functor.map_map, bind_map_left]

end Tree

end Verbatim
