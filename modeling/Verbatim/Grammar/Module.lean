import Verbatim.Grammar.Statement

/-!
# Imports and exports

The declarations that stand at the top of a module only.

## Main definitions

* `Verbatim.Grammar.importDeclaration` — imports.
* `Verbatim.Grammar.exportDeclaration` — exports.
* `Verbatim.Grammar.moduleItem` — what stands at the top of a module.
-/

namespace Verbatim.Grammar

open Verbatim.Parse

/-! ## Parts -/

/-- The other module, as a string. -/
def moduleSource (ctx : Context) : Parse Literal := do
  if (← look).isString then literal ctx else unexpectedHere ctx

/-- A name on either side of `as`. -/
def exportName (ctx : Context) : Parse ExportName := do
  let t ← look
  if t.isString then return .string (← literal ctx)
  if t.isAnyName then return .ident (← anyName)
  unexpected ctx t

/-- The word `from`, without which a list of names has no source. -/
def expectFrom : Parse String := do
  let t ← look
  if !t.isWord "from" then reject .missingFrom t.site
  lead

/-- The exported name behind `as`, if there is one. -/
def exportAlias (ctx : Context) : Parse (Option ExportAlias) := do
  if ← seesWord "as" then
    let asLead ← lead
    return some { asLead, exported := ← exportName ctx }
  return none

/-! ## Imports -/

/-- The local name behind `as`. Without one the imported name itself is the local one, and must be
fit for that. -/
def importAlias (ctx : Context) (first : Token) : Parse (Option ImportAlias) := do
  if ← seesWord "as" then
    let asLead ← lead
    return some { asLead, binding := ← bindingName .strictVariableName ctx }
  if !first.isName then unexpected ctx first
  checkReference ctx first
  return none

/-- One entry of an import list. -/
def importSpecifier (ctx : Context) : Parse ImportSpecifier := do
  let first ← look
  let imported ← exportName ctx
  let alias? ← importAlias ctx first
  let span ← finish .importSpecifier first.start
  return { imported, alias?, span }

/-- An import list in braces. -/
def namedImports (ctx : Context) (rounds : Nat) : Parse NamedImports := do
  let openLead ← expect ctx "\x7b"
  let (specifiers, separators) ← listed ctx "\x7d" (.item <$> importSpecifier ctx) rounds
  let closeLead ← expect ctx "\x7d"
  return { openLead, specifiers, separators, closeLead }

/-- The import of a module as one object; the lookahead is its star. -/
def namespaceImport (ctx : Context) : Parse NamespaceImport := do
  let start ← here
  let starLead ← lead
  let asLead ← expectWord ctx "as"
  let binding ← bindingName .strictVariableName ctx
  let span ← finish .namespaceImport start
  return { starLead, asLead, binding, span }

/-- What is imported besides the default export. -/
def importParts (ctx : Context) (rounds : Nat) (main : Option Ident) (commaLead : String) :
    Parse ImportClause := do
  if ← sees "*" then
    return { main, commaLead, space := some (← namespaceImport ctx), named := none }
  if ← sees "\x7b" then
    return { main, commaLead, space := none, named := some (← namedImports ctx rounds) }
  unexpectedHere ctx

/-- What an import declaration binds. -/
def importClause (ctx : Context) (rounds : Nat) : Parse ImportClause := do
  if (← look).isName then
    let main ← bindingName .strictVariableName ctx
    match ← accept "," with
    | none => return { main := some main, commaLead := "", space := none, named := none }
    | some commaLead => importParts ctx rounds (some main) commaLead
  else importParts ctx rounds none ""

/-- An import declaration; the lookahead is its keyword. -/
def importDeclaration (ctx : Context) (rounds : Nat) : Parse Stmt := do
  let t ← next
  let (clause, fromLead) : Option ImportClause × String ←
    if (← look).isString then pure (none, "")
    else
      let clause ← importClause ctx rounds
      pure (some clause, ← expectFrom)
  let source ← moduleSource ctx
  let ending ← terminator ctx
  let span ← finish .importDecl t.start
  return .importStmt { lead := t.lead, clause, fromLead, source, terminator := ending, span }

/-! ## Exports -/

/-- What a module exports by default. -/
def exportValue (p : Productions) (ctx : Context) : Parse (Tree .exportValue) := do
  let t ← look
  let isFunction ←
    if t.isKeyword "function" then pure true
    else if t.isWord "async" then isAsyncFunction
    else pure false
  if isFunction then .exportFunction <$> function p ctx true true
  else if t.isKeyword "class" then .exportClass <$> classDefinition p ctx true false
  else
    let value ← p.assignment ctx
    let ending ← terminator ctx
    return .exportExpr value ending

/-- The default export; the lookahead is `default`. -/
def exportDefault (p : Productions) (ctx : Context) (t : Token) : Parse Stmt := do
  let defaultLead ← lead
  let value ← exportValue p ctx
  let span ← finish .exportDefault t.start
  return .exportDefault t.lead defaultLead value span

/-- The export of everything another module exports; the lookahead is the star. -/
def exportAll (ctx : Context) (t : Token) : Parse Stmt := do
  let starLead ← lead
  let alias? ← exportAlias ctx
  let fromLead ← expectFrom
  let source ← moduleSource ctx
  let ending ← terminator ctx
  let span ← finish .exportAll t.start
  return .exportAll
    { lead := t.lead, starLead, alias?, origin := { fromLead, source }, terminator := ending, span }

/-- One entry of an export list, with the token that it begins with. -/
def exportSpecifier (ctx : Context) : Parse (ExportSpecifier × Token) := do
  let first ← look
  let binding ← exportName ctx
  let alias? ← exportAlias ctx
  let span ← finish .exportSpecifier first.start
  return ({ binding, alias?, span }, first)

/-- Fails at the first token that is no name of this module. -/
def checkLocalNames (ctx : Context) : List Token → Parse Unit
  | [] => return
  | t :: ts => do
    if !t.isName then unexpected ctx t
    checkLocalNames ctx ts

/-- The module that a list of names is exported from. Without one the names are those of this
module. -/
def exportOrigin (ctx : Context) (locals : List Token) : Parse (Option FromClause) := do
  if ← seesWord "from" then
    let fromLead ← lead
    return some { fromLead, source := ← moduleSource ctx }
  checkLocalNames ctx locals
  return none

/-- The export of a list of names; the lookahead is the opening brace. -/
def exportNames (ctx : Context) (rounds : Nat) (t : Token) : Parse Stmt := do
  let openLead ← expect ctx "\x7b"
  let (entries, separators) ← listed ctx "\x7d" (.item <$> exportSpecifier ctx) rounds
  let closeLead ← expect ctx "\x7d"
  let origin ← exportOrigin ctx (entries.map (·.2))
  let ending ← terminator ctx
  let span ← finish .exportNamed t.start
  let specifiers : NamedExports :=
    { openLead, specifiers := entries.map (·.1), separators, closeLead }
  return .exportNamed t.lead .absent (some specifiers) origin (some ending) span

/-- Whether the lookahead begins a declaration that may be exported. -/
def seesDeclaration : Parse Bool := do
  let t ← look
  if t.kind = .keyword then return ["var", "const", "function", "class"].contains t.raw
  else if t.isWord "let" then return true
  else if t.isWord "async" then isAsyncFunction
  else return false

/-- The export of a declaration. -/
def exportedDeclaration (p : Productions) (ctx : Context) (t : Token) : Parse Stmt := do
  if !(← seesDeclaration) then unexpectedHere ctx
  let declaration ← p.item ctx
  let span ← finish .exportNamed t.start
  return .exportNamed t.lead (.present declaration) none none none span

/-- An export declaration; the lookahead is its keyword. -/
def exportDeclaration (p : Productions) (ctx : Context) : Parse Stmt := do
  let t ← next
  if ← seesKeyword "default" then exportDefault p ctx t
  else if ← sees "*" then exportAll ctx t
  else if ← sees "\x7b" then exportNames ctx p.rounds t
  else exportedDeclaration p ctx t

/-- What stands at the top of a module. -/
def moduleItem (p : Productions) (ctx : Context) : Parse Stmt := do
  let t ← look
  if t.isKeyword "import" then
    if ← isImportExpression then p.item ctx else importDeclaration ctx p.rounds
  else if t.isKeyword "export" then exportDeclaration p ctx
  else p.item ctx

end Verbatim.Grammar
