import Verbatim.Grammar.Function

/-!
# Classes

Classes and their members. All code of a class is strict, and so is its name.

## Main definitions

* `Verbatim.Grammar.classDefinition` — classes.
* `Verbatim.Grammar.classMember` — methods, accessors, fields, static blocks and lone semicolons.
-/

namespace Verbatim.Grammar

open Verbatim.Parse

/-! ## Modifiers -/

/-- The words and the star in front of a key, apart from `static`. A getter or setter has no
`async`, and either may have a star. -/
def modifiers : Parse (Modifiers × PropertyKind) := do
  let t ← look
  let (mods, kind) : Modifiers × PropertyKind ←
    if t.isWord "async" then
      if ← isModifier true then
        let asyncLead ← lead
        pure ({ asyncLead := some asyncLead }, .plain)
      else pure ({}, .plain)
    else if t.isWord "get" || t.isWord "set" then
      if ← isModifier false then
        let accessorLead ← lead
        let kind := if t.raw == "get" then PropertyKind.getter else .setter
        pure ({ accessorLead := some accessorLead }, kind)
      else pure ({}, .plain)
    else pure ({}, .plain)
  let starLead ← accept "*"
  return ({ mods with starLead }, kind)

/-! ## Members -/

/-- A static block, behind the word `static`. -/
def staticBlock (p : Productions) (ctx : Context) (start : Position) (staticLead : String) :
    Parse (Tree .classMember) := do
  let openLead ← expect ctx "\x7b"
  let pendingBefore ← pending
  setPending none
  let stmts ← items p ctx.staticBlock
  setPending pendingBefore
  let closeLead ← expect ctx "\x7d"
  let span ← finish .staticBlock start
  return .staticBlock staticLead openLead (.ofList stmts) closeLead span

/-- The value of a field, if it has one. -/
def fieldInitializer (p : Productions) (ctx : Context) : Parse (Tree (.maybe .initializer)) := do
  match ← accept "=" with
  | none => return .absent
  | some eqLead =>
    let pendingBefore ← pending
    setPending none
    let value ← p.assignment ctx.fieldValue
    setPending pendingBefore
    return .present (.initializer eqLead value)

/-- A field, behind its key. -/
def field (p : Productions) (ctx : Context) (start : Position) (mods : Modifiers)
    (name : Tree .key) : Parse (Tree .classMember) := do
  let value ← fieldInitializer p ctx
  let ending ← terminator ctx
  let span ← finish .field start
  return .field mods name value ending span

/-- The kind of a method with the given key name; `hasConstructor` says whether the class has a
constructor already. -/
def methodKind (mods : Modifiers) (kind : PropertyKind) (name : Option String)
    (hasConstructor : Bool) (site : Site) : Parse MethodKind := do
  if mods.staticLead.isNone && name == some "constructor" then
    if kind != .plain || mods.asyncLead.isSome || mods.starLead.isSome then
      reject .specialConstructor site
    if hasConstructor then reject .repeatedConstructor site
    return .constructor
  return match kind with
    | .plain => .method
    | .getter => .getter
    | .setter => .setter

/-- A method, accessor or field, behind its modifiers, together with whether the class now has a
constructor. -/
def keyedMember (p : Productions) (ctx : Context) (start : Position) (mods : Modifiers)
    (kind : PropertyKind) (hasConstructor : Bool) : Parse (Tree .classMember × Bool) := do
  let site := (← look).site
  let memberKey ← key p ctx true
  let name := memberKey.staticName
  let isAsync := mods.asyncLead.isSome
  let isGenerator := mods.starLead.isSome
  if mods.staticLead.isSome && name == some "prototype" then reject .staticPrototype site
  if !(← sees "(") && !isAsync && !isGenerator && kind == .plain then
    if name == some "constructor" then reject .constructorField site
    return (← field p ctx start mods memberKey, hasConstructor)
  let methodKind ← methodKind mods kind name hasConstructor site
  let value ← methodFunction p ctx isAsync isGenerator kind
  let span ← finish .method start
  return (.method mods methodKind memberKey value span,
    hasConstructor || methodKind == .constructor)

/-- A member of a class, together with whether the class now has a constructor. -/
def classMember (p : Productions) (ctx : Context) (hasConstructor : Bool) :
    Parse (Tree .classMember × Bool) := do
  let t ← look
  let start := t.start
  if t.isPunctuator ";" then
    let semicolonLead ← lead
    return (.strayTerminator semicolonLead (← extent start), hasConstructor)
  let isStatic ← if t.isWord "static" then isModifier false else pure false
  let staticLead ← if isStatic then some <$> lead else pure none
  if let some staticLead := staticLead then
    if ← sees "\x7b" then return (← staticBlock p ctx start staticLead, hasConstructor)
  let (mods, kind) ← modifiers
  keyedMember p ctx start { mods with staticLead } kind hasConstructor

/-- The members of a class up to its closing brace. -/
def classMembers (p : Productions) (ctx : Context) (hasConstructor : Bool) :
    Nat → Parse (List (Tree .classMember))
  | 0 => stalled
  | rounds + 1 => do
    let t ← look
    if t.isPunctuator "\x7d" then return []
    if t.isEof then unexpected ctx t
    let (head, hasConstructor) ← classMember p ctx hasConstructor
    let tail ← classMembers p ctx hasConstructor rounds
    return head :: tail

/-! ## Classes -/

/-- The class that another extends, if there is one. -/
def heritage (p : Productions) (ctx : Context) : Parse (Tree (.maybe .heritage)) := do
  if !(← seesKeyword "extends") then return .absent
  let extendsLead ← lead
  let base ← p.chain ctx
  if base.isCover then unexpectedHere ctx
  return .present (.heritage extendsLead base)

/-- A class, which has a name if `nameRequired`. -/
def classDefinition (p : Productions) (ctx : Context) (isDeclaration nameRequired : Bool) :
    Parse (Tree .classDef) := do
  let start ← here
  let classLead ← expectKeyword ctx "class"
  let ctx := ctx.classBody
  let name ←
    if (← look).isName then some <$> bindingName .strictVariableName ctx
    else if nameRequired then unexpectedHere ctx
    else pure none
  let base ← heritage p ctx
  let openLead ← expect ctx "\x7b"
  let members ← classMembers p ctx false p.rounds
  let closeLead ← expect ctx "\x7d"
  let span ← finish (if isDeclaration then .classDecl else .classExpr) start
  return .classDef classLead name base openLead (.ofList members) closeLead span

end Verbatim.Grammar
