import Verbatim.Proofs.Tree.Spans

/-!
# Layouts

A layout tells what a construct consists of, in the order in which it is printed: single tokens with
their trivia, leaves, parts, lists with separators, and extents that cover what is inside them. It
goes one level deep. What is below is the layout of the parts.

A construct may have parts that it does not print, and texts that do not belong to it. A layout has
them as well, so that nothing is lost, but no construct that was read from a source has any.

## Main definitions

* `Verbatim.Layout` — layouts.
* `Verbatim.Layout.print` — what is printed of a layout.
* `Verbatim.Layout.visit` — the leaves and extents of a layout are visited.
* `Verbatim.FunctionHead.layout`, `Verbatim.ImportDeclaration.layout`, … — the layouts of what is no
  tree.
-/

namespace Verbatim

/-- What a construct consists of, in the order in which it is printed. -/
inductive Layout where
  /-- A token with its trivia. -/
  | token (text : String)
  /-- A text that belongs to no token. -/
  | loose (text : String)
  /-- A name. -/
  | ident (id : Ident)
  /-- A literal. -/
  | literal (lit : Literal)
  /-- Text in markup. -/
  | markup (t : MarkupText)
  /-- A part in its setting. -/
  | part {c : Category} (s : Setting) (t : Tree c)
  /-- One thing behind another. -/
  | seq (first rest : Layout)
  /-- Items with recorded separators between them. -/
  | list (items : List Layout) (separators : List String)
  /-- What an extent covers. -/
  | node (span : Span) (inner : Layout)
  /-- One thing behind another, and the extent of what lies between them. -/
  | gap (span : Span) (first rest : Layout)
  /-- What is not printed. -/
  | hidden (inner : Layout)
  /-- What stands for a shorthand property, with its key. The key is not printed, and only its
  extents are visited. -/
  | shorthand (key : Tree .key) (inner : Layout)

namespace Layout

/-- Nothing. -/
def blank : Layout := .loose ""

/-- Some things one behind the other. -/
def all : List Layout → Layout
  | [] => blank
  | [item] => item
  | item :: items => .seq item (all items)

/-- A word or mark that may be missing. -/
def mark (lead : Option String) (spelling : String) : Layout :=
  lead.elim blank fun lead => .token (lead ++ spelling)

/-- A token that is there on a condition. -/
def onlyIf (condition : Bool) (text : String) : Layout :=
  if condition then .token text else blank

/-- The items with separators between them as single things. -/
def joined : List Layout → List String → Layout
  | [], _ => blank
  | [item], separators => .seq item (separators.head?.elim blank .token)
  | item :: items, separators =>
    .seq item (.seq (.token (separators.headD defaultSeparator)) (joined items separators.tail))

/-! ## What is printed -/

mutual

/-- What is printed of a layout. -/
def print : Layout → String
  | .token text => text
  | .loose text => text
  | .ident id => id.print
  | .literal lit => lit.print
  | .markup t => t.raw
  | .part s t => t.printIn s
  | .seq first rest => first.print ++ rest.print
  | .list items separators => joinList (prints items) separators
  | .node _ inner => inner.print
  | .gap _ first rest => first.print ++ rest.print
  | .hidden _ => ""
  | .shorthand _ inner => inner.print

/-- What is printed of each of some layouts. -/
def prints : List Layout → List String
  | [] => []
  | item :: items => item.print :: prints items

end

@[simp]
theorem prints_eq_map (items : List Layout) : prints items = items.map print := by
  induction items with
  | nil => rfl
  | cons item items ih => rw [prints, ih, List.map_cons]

@[simp]
theorem print_blank : blank.print = "" := rfl

@[simp]
theorem print_all (items : List Layout) : (all items).print = concat (items.map print) := by
  induction items with
  | nil => rfl
  | cons item items ih =>
    cases items with
    | nil => simp [all]
    | cons next items => exact congrArg (item.print ++ ·) ih

@[simp]
theorem print_mark (lead : Option String) (spelling : String) :
    (mark lead spelling).print = printMark lead spelling := by
  cases lead <;> rfl

@[simp]
theorem print_onlyIf (condition : Bool) (text : String) :
    (onlyIf condition text).print = if condition then text else "" := by
  cases condition <;> rfl

/-- A list is printed as its items with the separators between them are. -/
theorem print_joined (items : List Layout) (separators : List String) :
    (joined items separators).print = joinList (items.map print) separators := by
  induction items generalizing separators with
  | nil => rfl
  | cons item items ih =>
    cases items with
    | nil => cases separators <;> simp [joined, print]
    | cons next items =>
      change item.print ++
        (separators.headD _ ++ (joined (next :: items) separators.tail).print) = _
      rw [ih]
      exact (String.append_assoc ..).symm

/-! ## Visits -/

section

variable {m : Type → Type} [Monad m] (v : Visitor m)

mutual

/-- The leaves and extents of a layout are visited. -/
def visit : Layout → m Layout
  | .token text => return .token text
  | .loose text => return .loose text
  | .ident id => return .ident (← v.ident id)
  | .literal lit => return .literal (← v.literal lit)
  | .markup t => return .markup (← v.text t)
  | .part s t => return .part s (← t.traverse v)
  | .seq first rest => do
    let first ← first.visit
    let rest ← rest.visit
    return .seq first rest
  | .list items separators => do
    let separators ← v.separators separators
    let items ← visits items
    return .list items separators
  | .node span inner => do
    let inner ← inner.visit
    return .node (← v.span span) inner
  | .gap span first rest => do
    let span ← v.span span
    let first ← first.visit
    return .gap span first (← rest.visit)
  | .hidden inner => return .hidden (← inner.visit)
  | .shorthand key inner => do
    let key ← key.traverse v.hidden
    return .shorthand key (← inner.visit)

/-- The leaves and extents of some layouts are visited. -/
def visits : List Layout → m (List Layout)
  | [] => return []
  | item :: items => do
    let item ← item.visit
    let items ← visits items
    return item :: items

end

@[simp]
theorem visit_blank : blank.visit v = pure blank := by
  simp [blank, visit]

@[simp]
theorem visits_nil : visits v [] = pure [] := by
  simp [visits]

end

end Layout

/-! ## What is no tree -/

/-- A name, if there is one. -/
def nameLayout (name : Option Ident) : Layout := name.elim .blank .ident

/-- The end of a statement. -/
def Terminator.layout (t : Terminator) : Layout :=
  if t.isExplicit then .token t.print else .loose t.print

/-- The words in front of a key. -/
def Modifiers.layout (mods : Modifiers) (accessor : String) : Layout :=
  .all [.mark mods.staticLead "static", .mark mods.asyncLead "async",
    .mark mods.accessorLead accessor, .mark mods.starLead "*"]

/-- What stands in front of the parameters of a function. -/
def FunctionHead.layout (head : FunctionHead) : Layout :=
  .all [.onlyIf head.isAsync (head.asyncLead ++ "async"), .token (head.keywordLead ++ "function"),
    .onlyIf head.isGenerator (head.starLead ++ "*"), nameLayout head.name]

/-- A piece of a template, behind the given delimiter. -/
def Quasi.layout (piece : Quasi) (delimiter : String) : Layout :=
  .node piece.span
    (.token (piece.lead ++ delimiter ++ piece.raw ++ if piece.isTail then "`" else "$\x7b"))

/-- The pieces of a template with the layouts of the expressions between them. A piece that ends the
template has no expression behind it. -/
def Layout.pieces (delimiter : String) : List Quasi → List Layout → Layout
  | [], exprs => .hidden (.all exprs)
  | piece :: pieces, [] => .seq (piece.layout delimiter) (Layout.pieces "\x7d" pieces [])
  | piece :: pieces, expr :: exprs =>
    .seq (piece.layout delimiter)
      (.seq (if piece.isTail then .hidden expr else expr) (Layout.pieces "\x7d" pieces exprs))

/-- A private name. -/
def PrivateName.layout (name : PrivateName) : Layout := .node name.span (.token name.print)

/-! ### Names in markup -/

/-- A name in markup. -/
def TagIdent.layout (id : TagIdent) : Layout := .node id.span (.token (id.lead ++ id.name))

/-- A name within a namespace. -/
def NamespacedName.layout (n : NamespacedName) : Layout :=
  .node n.span (.all [n.space.layout, .token (n.colonLead ++ ":"), n.name.layout])

/-- The name of an element. -/
def TagName.layout : TagName → Layout
  | .plain id => id.layout
  | .namespaced n => n.layout
  | .member object dotLead property span =>
    .node span (.all [object.layout, .token (dotLead ++ "."), property.layout])

/-- The name of an attribute. -/
def AttributeName.layout : AttributeName → Layout
  | .plain id => id.layout
  | .namespaced n => n.layout

/-- A closing tag. -/
def ClosingTag.layout (tag : ClosingTag) : Layout :=
  .node tag.span (.all [.token (tag.lead ++ "<"), .token (tag.slashLead ++ "/"), tag.name.layout,
    .token (tag.closeLead ++ ">")])

/-! ### Module lists -/

/-- A name in an import or export list. -/
def ExportName.layout : ExportName → Layout
  | .ident id => .ident id
  | .string lit => .literal lit

/-- The local name that an import is bound to. -/
def ImportAlias.layout (a : ImportAlias) : Layout :=
  .seq (.token (a.asLead ++ "as")) (.ident a.binding)

/-- An entry of an import list. -/
def ImportSpecifier.layout (s : ImportSpecifier) : Layout :=
  .node s.span (.seq s.imported.layout (s.alias?.elim .blank ImportAlias.layout))

/-- The import of a module as one object. -/
def NamespaceImport.layout (n : NamespaceImport) : Layout :=
  .node n.span (.all [.token (n.starLead ++ "*"), .token (n.asLead ++ "as"), .ident n.binding])

/-- An import list. -/
def NamedImports.layout (n : NamedImports) : Layout :=
  .all [.token (n.openLead ++ "\x7b"), .list (n.specifiers.map (·.layout)) n.separators,
    .token (n.closeLead ++ "\x7d")]

/-- What an import declaration binds. -/
def ImportClause.layout (c : ImportClause) : Layout :=
  .all [nameLayout c.main,
    .onlyIf (c.main.isSome && (c.space.isSome || c.named.isSome)) (c.commaLead ++ ","),
    c.space.elim .blank NamespaceImport.layout, c.named.elim .blank NamedImports.layout]

/-- An import declaration. -/
def ImportDeclaration.layout (d : ImportDeclaration) : Layout :=
  .node d.span (.all [.token (d.lead ++ "import"),
    d.clause.elim .blank fun clause => .seq clause.layout (.token (d.fromLead ++ "from")),
    .literal d.source, d.terminator.layout])

/-- The name that something is exported under. -/
def ExportAlias.layout (a : ExportAlias) : Layout :=
  .seq (.token (a.asLead ++ "as")) a.exported.layout

/-- An entry of an export list. -/
def ExportSpecifier.layout (s : ExportSpecifier) : Layout :=
  .node s.span (.seq s.binding.layout (s.alias?.elim .blank ExportAlias.layout))

/-- An export list. -/
def NamedExports.layout (n : NamedExports) : Layout :=
  .all [.token (n.openLead ++ "\x7b"), .list (n.specifiers.map (·.layout)) n.separators,
    .token (n.closeLead ++ "\x7d")]

/-- The module that something is exported from. -/
def FromClause.layout (c : FromClause) : Layout :=
  .seq (.token (c.fromLead ++ "from")) (.literal c.source)

/-- An export of everything. -/
def ExportAll.layout (d : ExportAll) : Layout :=
  .node d.span (.all [.token (d.lead ++ "export"), .token (d.starLead ++ "*"),
    d.alias?.elim .blank ExportAlias.layout, d.origin.layout, d.terminator.layout])

/-! ### What they print -/

@[simp]
theorem print_nameLayout (name : Option Ident) : (nameLayout name).print = printName name := by
  cases name <;> rfl

@[simp]
theorem Terminator.print_layout (t : Terminator) : t.layout.print = t.print := by
  unfold Terminator.layout
  split <;> rfl

@[simp]
theorem Modifiers.print_layout (mods : Modifiers) (accessor : String) :
    (mods.layout accessor).print = mods.print accessor := by
  simp [Modifiers.layout, Modifiers.print, String.append_assoc]

@[simp]
theorem FunctionHead.print_layout (head : FunctionHead) : head.layout.print = head.print := by
  simp [FunctionHead.layout, FunctionHead.print, Layout.print, String.append_assoc]

@[simp]
theorem Quasi.print_layout (piece : Quasi) (delimiter : String) :
    (piece.layout delimiter).print =
      piece.lead ++ delimiter ++ piece.raw ++ if piece.isTail then "`" else "$\x7b" := rfl

@[simp]
theorem PrivateName.print_layout (name : PrivateName) : name.layout.print = name.print := rfl

/-- The pieces of a template are printed with the expressions between them. -/
theorem Layout.print_pieces (delimiter : String) (quasis : List Quasi) (exprs : List Layout) :
    (Layout.pieces delimiter quasis exprs).print =
      printPieces delimiter quasis (exprs.map Layout.print) := by
  induction quasis generalizing delimiter exprs with
  | nil => rfl
  | cons piece pieces ih =>
    cases exprs with
    | nil =>
      simp only [Layout.pieces, Layout.print, Quasi.print_layout, ih, printPieces, List.map_nil,
        List.tail_nil, List.headD_nil, String.append_empty]
    | cons expr exprs =>
      simp only [Layout.pieces, Layout.print, Quasi.print_layout, ih, printPieces, List.map_cons,
        List.tail_cons, List.headD_cons]
      cases h : piece.isTail <;> simp [Layout.print, String.append_assoc]

@[simp]
theorem TagIdent.print_layout (id : TagIdent) : id.layout.print = id.print := rfl

@[simp]
theorem NamespacedName.print_layout (n : NamespacedName) : n.layout.print = n.print := by
  simp [NamespacedName.layout, NamespacedName.print, Layout.print, String.append_assoc]

@[simp]
theorem TagName.print_layout (name : TagName) : name.layout.print = name.print := by
  induction name with
  | plain id => rfl
  | namespaced n => exact n.print_layout
  | member object dotLead property span ih =>
    simp [TagName.layout, TagName.print, Layout.print, ih, String.append_assoc]

@[simp]
theorem AttributeName.print_layout (name : AttributeName) : name.layout.print = name.print := by
  cases name with
  | plain id => rfl
  | namespaced n => exact n.print_layout

@[simp]
theorem ClosingTag.print_layout (tag : ClosingTag) : tag.layout.print = tag.print := by
  simp [ClosingTag.layout, ClosingTag.print, Layout.print, String.append_assoc]

@[simp]
theorem ExportName.print_layout (name : ExportName) : name.layout.print = name.print := by
  cases name <;> rfl

@[simp]
theorem ImportSpecifier.print_layout (s : ImportSpecifier) : s.layout.print = s.print := by
  obtain ⟨imported, alias?, span⟩ := s
  cases alias? <;>
    simp [ImportSpecifier.layout, ImportAlias.layout, ImportSpecifier.print, Layout.print]

@[simp]
theorem NamespaceImport.print_layout (n : NamespaceImport) : n.layout.print = n.print := by
  simp [NamespaceImport.layout, NamespaceImport.print, Layout.print, String.append_assoc]

@[simp]
theorem NamedImports.print_layout (n : NamedImports) : n.layout.print = n.print := by
  simp [NamedImports.layout, NamedImports.print, Layout.print, String.append_assoc,
    Function.comp_def]

@[simp]
theorem ImportClause.print_layout (c : ImportClause) : c.layout.print = c.print := by
  obtain ⟨main, commaLead, space, named⟩ := c
  cases space <;> cases named <;>
    simp [ImportClause.layout, ImportClause.print, String.append_assoc]

@[simp]
theorem ImportDeclaration.print_layout (d : ImportDeclaration) : d.layout.print = d.print := by
  obtain ⟨lead, clause, fromLead, source, terminator, span⟩ := d
  cases clause <;>
    simp [ImportDeclaration.layout, ImportDeclaration.print, Layout.print, String.append_assoc]

@[simp]
theorem ExportAlias.print_layout (a : Option ExportAlias) :
    (a.elim .blank ExportAlias.layout).print = ExportAlias.printOption a := by
  cases a with
  | none => rfl
  | some a => simp [ExportAlias.layout, ExportAlias.printOption, Layout.print]

@[simp]
theorem ExportSpecifier.print_layout (s : ExportSpecifier) : s.layout.print = s.print := by
  simp [ExportSpecifier.layout, ExportSpecifier.print, Layout.print]

@[simp]
theorem NamedExports.print_layout (n : NamedExports) : n.layout.print = n.print := by
  simp [NamedExports.layout, NamedExports.print, Layout.print, String.append_assoc,
    Function.comp_def]

@[simp]
theorem FromClause.print_layout (c : FromClause) : c.layout.print = c.print := by
  simp [FromClause.layout, FromClause.print, Layout.print]

@[simp]
theorem ExportAll.print_layout (d : ExportAll) : d.layout.print = d.print := by
  simp [ExportAll.layout, ExportAll.print, Layout.print, String.append_assoc]

end Verbatim
