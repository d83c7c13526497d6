import Verbatim.Proofs.Grammar.Binding
import Verbatim.Proofs.Scan.Octal
import Verbatim.Proofs.Static.Operators
import Verbatim.Proofs.Static.Parts
import Verbatim.Proofs.Tree.Conversion

/-!
# The rules of the language

What the language demands of a construct beyond its form, given what surrounds it. Each rule looks
at one construct, so a program obeys the rules if each construct that occurs in it does.

Some rules are kept by every program that is parsed. The faults against the others may be
tolerated, so they are kept if none is.

## Main definitions

* `Verbatim.Context.MayBind`, `Verbatim.Context.MayAssign`, `Verbatim.Context.MaySpell` — what
  strict code may name and spell.
* `Verbatim.Tree.ParametersAllowed` — the rules for parameters.
* `Verbatim.Tree.Allowed` — the rules for every construct.
-/

namespace Verbatim

open Text Grammar

/-! ## Names and literals in strict code -/

/-- A name that strict code may bind. -/
def IsStrictName (name : String) : Prop :=
  isRestricted name = false ∧ isStrictReserved name = false

/-- Whether a literal is a numeral with a needless leading zero, or a string in which a digit is
escaped. -/
def Literal.isLegacyOctal (lit : Literal) : Bool :=
  match lit.value with
  | .number _ | .bigint _ => hasNeedlessZero lit.raw.toList
  | .string _ => hasDigitEscape lit.raw.toList
  | _ => false

namespace Context

/-- The code is not strict, or it may bind the names. -/
def MayBind (ctx : Context) (names : List String) : Prop :=
  ctx.strict = true → ∀ name ∈ names, IsStrictName name

/-- The code is not strict, or it may assign to the names. -/
def MayAssign (ctx : Context) (names : List String) : Prop :=
  ctx.strict = true → ∀ name ∈ names, isRestricted name = false

/-- The code is not strict, or no literal has an octal spelling. -/
def MaySpell (ctx : Context) (literals : List Literal) : Prop :=
  ctx.strict = true → ∀ lit ∈ literals, lit.isLegacyOctal = false

variable {ctx : Context} {names names' : List String} {literals literals' : List Literal}

theorem MayBind.mayAssign (h : ctx.MayBind names) : ctx.MayAssign names :=
  fun hs name hmem => (h hs name hmem).1

theorem MayBind.nil : ctx.MayBind [] := fun _ => List.forall_mem_nil _

theorem MayBind.append (h : ctx.MayBind names) (h' : ctx.MayBind names') :
    ctx.MayBind (names ++ names') := fun hs => List.forall_mem_append.2 ⟨h hs, h' hs⟩

theorem MayBind.flatMap {α : Type} {l : List α} {f : α → List String}
    (h : ∀ x ∈ l, ctx.MayBind (f x)) : ctx.MayBind (l.flatMap f) := fun hs name hmem => by
  obtain ⟨x, hx, hname⟩ := List.mem_flatMap.1 hmem
  exact h x hx hs name hname

theorem MayAssign.nil : ctx.MayAssign [] := fun _ => List.forall_mem_nil _

theorem MayAssign.append (h : ctx.MayAssign names) (h' : ctx.MayAssign names') :
    ctx.MayAssign (names ++ names') := fun hs => List.forall_mem_append.2 ⟨h hs, h' hs⟩

theorem MaySpell.nil : ctx.MaySpell [] := fun _ => List.forall_mem_nil _

theorem MaySpell.append (h : ctx.MaySpell literals) (h' : ctx.MaySpell literals') :
    ctx.MaySpell (literals ++ literals') := fun hs => List.forall_mem_append.2 ⟨h hs, h' hs⟩

theorem MaySpell.flatMap {α : Type} {l : List α} {f : α → List Literal}
    (h : ∀ x ∈ l, ctx.MaySpell (f x)) : ctx.MaySpell (l.flatMap f) := fun hs lit hmem => by
  obtain ⟨x, hx, hlit⟩ := List.mem_flatMap.1 hmem
  exact h x hx hs lit hlit

end Context

namespace Tree

/-- The names that a pattern binds. -/
def names {c : Category} (t : Tree c) : List String := t.boundNames.map (·.name)

theorem names_cons {c : Category} {head : Tree c} {tail : Tree (.many c)} :
    (cons head tail).names = head.names ++ tail.names := List.map_append

/-- The names that parameters bind. -/
def parameterNames (params : List Pattern) : List String := params.flatMap (·.names)

/-- The parameters of a function. -/
def functionParameters : Tree .function → List Pattern
  | .function _ params _ _ => params.parameters

/-- The parameters of an expression that is a function. -/
def methodParameters : Expr → List Pattern
  | .functionExpr f => f.functionParameters
  | _ => []

end Tree

/-! ## Names and strings in the lists of modules -/

/-- The string that a name in the list of a module is. -/
def ExportName.strings : ExportName → List Literal
  | .ident _ => []
  | .string lit => [lit]

/-- The entries of an import clause. -/
def ImportClause.entries (c : ImportClause) : List ImportSpecifier := c.named.elim [] (·.specifiers)

/-- The local names that an import declaration gives: that of the default export, that of the whole
module, and those behind `as`. -/
def ImportDeclaration.aliases (d : ImportDeclaration) : List String :=
  d.clause.elim [] fun c =>
    c.main.toList.map (·.name) ++ c.space.toList.map (·.binding.name) ++
      c.entries.flatMap fun s => s.alias?.toList.map (·.binding.name)

/-- The strings of an import declaration. -/
def ImportDeclaration.strings (d : ImportDeclaration) : List Literal :=
  (d.clause.elim [] fun c => c.entries.flatMap (·.imported.strings)) ++ [d.source]

/-- The strings of an export alias. -/
def ExportAlias.strings (alias? : Option ExportAlias) : List Literal :=
  alias?.elim [] (·.exported.strings)

/-- The strings of the entries of an export list. -/
def NamedExports.strings (exports : Option NamedExports) : List Literal :=
  exports.elim [] fun n =>
    n.specifiers.flatMap fun s => s.binding.strings ++ ExportAlias.strings s.alias?

/-- The string behind `from`. -/
def FromClause.strings (origin : Option FromClause) : List Literal := origin.toList.map (·.source)

/-- The strings of an export of everything. -/
def ExportAll.strings (d : ExportAll) : List Literal :=
  ExportAlias.strings d.alias? ++ [d.origin.source]

namespace Tree

/-! ## Rules -/

/-- The rules for the parameters of a function. `hasDirective` says that its own body makes its code
strict, and `unique` that its parameters have distinct names even where the code is not strict. -/
structure ParametersAllowed (clean strict hasDirective unique : Bool) (params : List Pattern) :
    Prop where
  /-- A function with a directive of its own has plain parameters. -/
  plain : hasDirective = true → params.all (·.isName) = true
  /-- Strict code may bind the names. -/
  strictNames : clean = true → strict = true → ∀ name ∈ parameterNames params, IsStrictName name
  /-- No name is bound twice. -/
  distinct : clean = true → (strict || unique) = true → (parameterNames params).Nodup

/-- The rules of the language for a construct with the given surroundings. Those whose breach is
tolerated are kept if the parse is `clean`. -/
def Allowed (clean : Bool) (ctx : Context) : {c : Category} → Tree c → Prop
  | _, .literal lit => clean = true → ctx.MaySpell [lit]
  | _, .literalKey lit => clean = true → ctx.MaySpell [lit]
  | _, .unary _ _ operand _ => operand.Standalone
  | _, .update _ _ _ operand _ => clean = true →
    operand.isSimpleTarget = true ∧ ctx.MayAssign (operand.ident?.toList.map (·.name))
  | _, .binary left _ op right _ => op.Groups left right
  | _, .assignment target _ op _ _ =>
    (op ≠ .assign → target.isPlace = true) ∧ (clean = true → ctx.MayAssign target.names)
  | _, .yield _ _ _ _ => ctx.allowsYield = true ∧ ctx.inParameters = false
  | _, .await _ operand _ =>
    operand.Standalone ∧ ctx.allowsAwait = true ∧ ctx.inParameters = false
  | _, .arrow _ _ params _ body _ =>
    ParametersAllowed clean (ctx.strict || arrowHasUseStrict body) (arrowHasUseStrict body) true
      (arrowPatterns params)
  | _, .property _ _ value kind isMethod _ _ _ => clean = true →
    (isMethod || kind != .plain) = true → (parameterNames value.methodParameters).Nodup
  | _, .function head params body _ =>
    ParametersAllowed clean (ctx.strict || hasUseStrict body) (hasUseStrict body) (!params.isSimple)
        params.parameters ∧
      (clean = true → (inFunctionOf ctx head body).MayBind (head.name.toList.map (·.name)))
  | _, .classDef _ name _ _ _ _ _ => clean = true → ctx.classBody.MayBind (name.toList.map (·.name))
  | _, .method _ _ _ value _ => clean = true → (parameterNames value.functionParameters).Nodup
  | _, .exprPattern target => clean = true → target.isSimpleTarget = true
  | _, .returnStmt _ _ _ _ => clean = true → ctx.inFunction = true
  | _, .breakStmt _ label _ _ =>
    label.elim ((ctx.inLoop || ctx.inSwitch) = true) (ctx.labels.contains ·.name = true)
  | _, .continueStmt _ label _ _ =>
    ctx.inLoop = true ∧ label.all (ctx.labels.contains ·.name) = true
  | _, .labeledStmt label _ _ _ => ctx.labels.contains label.name = false
  | _, .importStmt d => clean = true → ctx.MaySpell d.strings ∧ ctx.MayBind d.aliases
  | _, .exportNamed _ _ specifiers origin _ _ =>
    clean = true → ctx.MaySpell (NamedExports.strings specifiers ++ FromClause.strings origin)
  | _, .exportAll d => clean = true → ctx.MaySpell d.strings
  | _, .declarator target _ _ => clean = true → ctx.MayBind target.names
  | _, .targetPattern p => clean = true → ctx.MayAssign p.names
  | _, .catchParam _ target _ => clean = true → ctx.MayBind target.names
  | _, _ => True

/-! ## Extents -/

section

variable (g : Span → Span)

theorem all_isName_mapSpans (params : List Pattern) :
    (params.map (·.mapSpans g)).all (·.isName) = params.all (·.isName) := by
  rw [List.all_map]
  exact congrArg (params.all ·) (funext fun p => isName_mapSpans g p)

theorem isSimple_mapSpans (params : Tree .params) :
    (params.mapSpans g).isSimple = params.isSimple := by
  unfold isSimple
  rw [parameters_mapSpans, all_isName_mapSpans]

theorem arrowPatterns_mapSpans (params : Tree .arrowParams) :
    arrowPatterns (params.mapSpans g) = (arrowPatterns params).map (·.mapSpans g) := by
  cases params with
  | bareParam id => rfl
  | listedParams params => exact parameters_mapSpans g params

theorem isPlace_mapSpans (p : Pattern) : (p.mapSpans g).isPlace = p.isPlace := by
  cases p <;> rfl

end

end Tree

end Verbatim
