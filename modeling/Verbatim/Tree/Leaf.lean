import Verbatim.Number.Shortest
import Verbatim.Source.Position
import Verbatim.Text.Entity
import Verbatim.Text.Quoted

/-!
# Leaves of the tree

The parts of a tree that hold no expressions, patterns or statements. A leaf keeps the trivia in
front of it and its spelling beside its value, so that it prints as it was written until it is
edited; an edit sets the value and the spelling together.

## Main definitions

* `Verbatim.Ident`, `Verbatim.Literal`, `Verbatim.MarkupText` — the leaves that can be edited.
* `Verbatim.Value`, `Verbatim.Value.render` — the value of a literal and its canonical spelling.
* `Verbatim.Terminator` — the end of a statement, written or inserted.
* `Verbatim.TagName`, `Verbatim.AttributeName` — names in markup.
* `Verbatim.ImportDeclaration`, `Verbatim.NamedExports` — the module lists.
-/

namespace Verbatim

/-! ## Names -/

/-- A name. The decoded name and the spelling differ when the name was written with escapes. -/
structure Ident where
  /-- The trivia in front of it. -/
  lead : String := ""
  /-- The decoded name. -/
  name : String
  /-- The spelling. -/
  raw : String
  /-- The extent. -/
  span : Span := {}
deriving DecidableEq, Repr

namespace Ident

/-- A name spelled as itself. -/
def ofName (name : String) : Ident := { name, raw := name }

/-- The same name without trivia and extent. -/
def bare (id : Ident) : Ident := { id with lead := "", span := {} }

/-- Renames; the new name is spelled as itself. -/
def rename (id : Ident) (name : String) : Ident := { id with name, raw := name }

/-- The text of a name with its trivia. -/
def print (id : Ident) : String := id.lead ++ id.raw

end Ident

/-- A private name, kept without its number sign. -/
structure PrivateName where
  /-- The trivia in front of it. -/
  lead : String := ""
  /-- The decoded name. -/
  name : String
  /-- The extent. -/
  span : Span := {}
deriving DecidableEq, Repr

/-- The text of a private name with its trivia. -/
def PrivateName.print (p : PrivateName) : String := p.lead ++ "#" ++ p.name

/-! ## Literals -/

/-- The value of a literal. -/
inductive Value where
  /-- The null value. -/
  | null
  /-- A truth value. -/
  | boolean (value : Bool)
  /-- A number. -/
  | number (value : Double)
  /-- A big integer. -/
  | bigint (value : Int)
  /-- A string. -/
  | string (text : String)
  /-- A regular expression. -/
  | regex (pattern flags : String)
deriving DecidableEq, Repr

/-- The canonical spelling of a value; strings are written with the given quote. A negative number
is parenthesised, so that the spelling is one operand wherever it stands. -/
def Value.render (quote : Char) : Value → String
  | .null => "null"
  | .boolean value => if value then "true" else "false"
  | .number value =>
    if value.isNegative && !value.isNaN then "(" ++ value.render ++ ")" else value.render
  | .bigint value => toString value ++ "n"
  | .string text => Text.quote quote text
  | .regex pattern flags => "/" ++ pattern ++ "/" ++ flags

/-- A literal. -/
structure Literal where
  /-- The trivia in front of it. -/
  lead : String := ""
  /-- The value. -/
  value : Value
  /-- The spelling. -/
  raw : String
  /-- The extent. -/
  span : Span := {}
deriving DecidableEq, Repr

namespace Literal

/-- A literal in canonical spelling. -/
def ofValue (value : Value) : Literal := { value, raw := value.render '"' }

/-- The quote that a new spelling keeps: a single one if the old spelling starts with one. -/
def quote (lit : Literal) : Char := if lit.raw.toList.head? = some '\x27' then '\x27' else '"'

/-- Replaces the value and spells it canonically, keeping the quote. -/
def replace (lit : Literal) (value : Value) : Literal :=
  { lit with value, raw := value.render lit.quote }

/-- The text of a string literal. -/
def text? (lit : Literal) : Option String :=
  match lit.value with
  | .string text => some text
  | _ => none

/-- The text of a literal with its trivia. -/
def print (lit : Literal) : String := lit.lead ++ lit.raw

end Literal

/-- One static piece of a template. -/
structure Quasi where
  /-- The trivia in front of the piece's opening delimiter. -/
  lead : String
  /-- The text between the delimiters, as written. -/
  raw : String
  /-- The decoded text; there is none when the piece holds an invalid escape. -/
  cooked : Option String
  /-- Whether the piece is the last. -/
  isTail : Bool
  /-- The extent. -/
  span : Span := {}
deriving DecidableEq, Repr

/-! ## Terminators and modifiers -/

/-- The end of a statement. -/
structure Terminator where
  /-- The trivia in front of a written semicolon. -/
  lead : String := ""
  /-- A semicolon, or nothing if it was inserted. -/
  spelling : String := ";"
deriving DecidableEq, Repr

namespace Terminator

/-- A semicolon without trivia. -/
def explicit : Terminator := {}

/-- A semicolon that is not written. -/
def inserted : Terminator := { spelling := "" }

/-- Whether the semicolon is written. -/
def isExplicit (t : Terminator) : Bool := !t.spelling.isEmpty

/-- The text of a terminator with its trivia. -/
def print (t : Terminator) : String := t.lead ++ t.spelling

end Terminator

/-- The words in front of the key of a method, accessor or field, each with its trivia. -/
structure Modifiers where
  /-- The trivia in front of `static`. -/
  staticLead : Option String := none
  /-- The trivia in front of `async`. -/
  asyncLead : Option String := none
  /-- The trivia in front of `get` or `set`. -/
  accessorLead : Option String := none
  /-- The trivia in front of `*`. -/
  starLead : Option String := none
deriving DecidableEq, Repr

/-- An optional word with its trivia. -/
def printMark (lead : Option String) (spelling : String) : String :=
  match lead with
  | some lead => lead ++ spelling
  | none => ""

/-- The text of the modifiers, given the word that an accessor is introduced by. -/
def Modifiers.print (m : Modifiers) (accessor : String) : String :=
  printMark m.staticLead "static" ++ printMark m.asyncLead "async"
    ++ printMark m.accessorLead accessor ++ printMark m.starLead "*"

/-- What precedes the parameters of a function. -/
structure FunctionHead where
  /-- Whether the function is asynchronous. -/
  isAsync : Bool := false
  /-- The trivia in front of `async`. -/
  asyncLead : String := ""
  /-- The trivia in front of `function`. -/
  keywordLead : String := ""
  /-- Whether the function is a generator. -/
  isGenerator : Bool := false
  /-- The trivia in front of `*`. -/
  starLead : String := ""
  /-- The name. -/
  name : Option Ident := none
deriving DecidableEq, Repr

/-- The text of an optional name with its trivia. -/
def printName (name : Option Ident) : String :=
  match name with
  | some id => id.print
  | none => ""

/-- The text from `async` or `function` to the name. -/
def FunctionHead.print (h : FunctionHead) : String :=
  (if h.isAsync then h.asyncLead ++ "async" else "") ++ h.keywordLead ++ "function"
    ++ (if h.isGenerator then h.starLead ++ "*" else "") ++ printName h.name

/-! ## Lists with separators -/

/-- The texts one after the other. -/
def concat : List String → String
  | [] => ""
  | text :: texts => text ++ concat texts

/-- The separator between items for which none is recorded. -/
def defaultSeparator : String := ", "

/-- Joins texts by the recorded separators in order, by `fallback` where none is left, and ends with
the separator recorded after the last text, if there is one. -/
def joinWith (fallback : String) : List String → List String → String
  | [], _ => ""
  | [item], separators => item ++ separators.headD ""
  | item :: items, separators =>
    item ++ separators.headD fallback ++ joinWith fallback items separators.tail

/-- Joins texts by the recorded separators. -/
def joinList (items separators : List String) : String := joinWith defaultSeparator items separators

/-- Joins texts by one separator. -/
def joinUniform (separator : String) (items : List String) : String := separator.intercalate items

/-! ## Markup -/

/-- A name or part of a name in markup, which may contain hyphens. -/
structure TagIdent where
  /-- The trivia in front of it. -/
  lead : String := ""
  /-- The name. -/
  name : String
  /-- The extent. -/
  span : Span := {}
deriving DecidableEq, Repr

/-- The text of a markup name with its trivia. -/
def TagIdent.print (id : TagIdent) : String := id.lead ++ id.name

/-- A name within a namespace. -/
structure NamespacedName where
  /-- The namespace. -/
  space : TagIdent
  /-- The trivia in front of the colon. -/
  colonLead : String
  /-- The name. -/
  name : TagIdent
  /-- The extent. -/
  span : Span := {}
deriving DecidableEq, Repr

/-- The text of a namespaced name with its trivia. -/
def NamespacedName.print (n : NamespacedName) : String :=
  n.space.print ++ n.colonLead ++ ":" ++ n.name.print

/-- The name of an element. -/
inductive TagName where
  /-- One name. -/
  | plain (id : TagIdent)
  /-- A name within a namespace. -/
  | namespaced (name : NamespacedName)
  /-- A member of another name. -/
  | member (object : TagName) (dotLead : String) (property : TagIdent) (span : Span)
deriving DecidableEq, Repr

namespace TagName

/-- The name without trivia; a closing tag must have the one of its opening tag. -/
def qualified : TagName → String
  | .plain id => id.name
  | .namespaced n => n.space.name ++ ":" ++ n.name.name
  | .member object _ property _ => object.qualified ++ "." ++ property.name

/-- The text of an element name with its trivia. -/
def print : TagName → String
  | .plain id => id.print
  | .namespaced n => n.print
  | .member object dotLead property _ => object.print ++ dotLead ++ "." ++ property.print

end TagName

/-- The name of an attribute. -/
inductive AttributeName where
  /-- One name. -/
  | plain (id : TagIdent)
  /-- A name within a namespace. -/
  | namespaced (name : NamespacedName)
deriving DecidableEq, Repr

/-- The text of an attribute name with its trivia. -/
def AttributeName.print : AttributeName → String
  | .plain id => id.print
  | .namespaced n => n.print

/-- A closing tag. -/
structure ClosingTag where
  /-- The trivia in front of `<`. -/
  lead : String
  /-- The trivia in front of `/`. -/
  slashLead : String
  /-- The name. -/
  name : TagName
  /-- The trivia in front of `>`. -/
  closeLead : String
  /-- The extent. -/
  span : Span := {}
deriving DecidableEq, Repr

/-- The text of a closing tag with its trivia. -/
def ClosingTag.print (t : ClosingTag) : String :=
  t.lead ++ "<" ++ t.slashLead ++ "/" ++ t.name.print ++ t.closeLead ++ ">"

/-- A run of text between tags. -/
structure MarkupText where
  /-- The text with its references decoded. -/
  value : String
  /-- The spelling. -/
  raw : String
  /-- The extent. -/
  span : Span := {}
deriving DecidableEq, Repr

/-- Replaces the text; characters with a meaning in markup are spelled as references. -/
def MarkupText.replace (t : MarkupText) (value : String) : MarkupText :=
  { t with value, raw := Entity.encode value }

/-! ## Module lists -/

/-- A name in an import or export list. -/
inductive ExportName where
  /-- A name. -/
  | ident (id : Ident)
  /-- A string. -/
  | string (lit : Literal)
deriving DecidableEq, Repr

/-- The text of a module name with its trivia. -/
def ExportName.print : ExportName → String
  | .ident id => id.print
  | .string lit => lit.print

/-- The local name that an import is bound to. -/
structure ImportAlias where
  /-- The trivia in front of `as`. -/
  asLead : String
  /-- The local name. -/
  binding : Ident
deriving DecidableEq, Repr

/-- One entry of an import list. -/
structure ImportSpecifier where
  /-- The name in the other module. -/
  imported : ExportName
  /-- The local name, if it is another. -/
  alias? : Option ImportAlias
  /-- The extent. -/
  span : Span := {}
deriving DecidableEq, Repr

/-- The text of an import list entry. -/
def ImportSpecifier.print (s : ImportSpecifier) : String :=
  s.imported.print ++ match s.alias? with
    | some a => a.asLead ++ "as" ++ a.binding.print
    | none => ""

/-- The import of a module as one object. -/
structure NamespaceImport where
  /-- The trivia in front of `*`. -/
  starLead : String
  /-- The trivia in front of `as`. -/
  asLead : String
  /-- The local name. -/
  binding : Ident
  /-- The extent. -/
  span : Span := {}
deriving DecidableEq, Repr

/-- The text of a namespace import. -/
def NamespaceImport.print (n : NamespaceImport) : String :=
  n.starLead ++ "*" ++ n.asLead ++ "as" ++ n.binding.print

/-- An import list in braces. -/
structure NamedImports where
  /-- The trivia in front of the opening brace. -/
  openLead : String
  /-- The entries. -/
  specifiers : List ImportSpecifier
  /-- The commas with their trivia. -/
  separators : List String
  /-- The trivia in front of the closing brace. -/
  closeLead : String
deriving DecidableEq, Repr

/-- The text of an import list. -/
def NamedImports.print (n : NamedImports) : String :=
  n.openLead ++ "\x7b" ++ joinList (n.specifiers.map (·.print)) n.separators
    ++ n.closeLead ++ "\x7d"

/-- What an import declaration binds. -/
structure ImportClause where
  /-- The local name of the default export. -/
  main : Option Ident
  /-- The trivia in front of the comma after it. -/
  commaLead : String
  /-- The import of the whole module. -/
  space : Option NamespaceImport
  /-- The import list. -/
  named : Option NamedImports
deriving DecidableEq, Repr

/-- The text of an import clause; a comma stands between the default import and what follows. -/
def ImportClause.print (c : ImportClause) : String :=
  printName c.main
    ++ (if c.main.isSome && (c.space.isSome || c.named.isSome) then c.commaLead ++ "," else "")
    ++ (match c.space with
      | some space => space.print
      | none => "")
    ++ (match c.named with
      | some named => named.print
      | none => "")

/-- An import declaration. -/
structure ImportDeclaration where
  /-- The trivia in front of `import`. -/
  lead : String
  /-- What is bound; a bare import binds nothing. -/
  clause : Option ImportClause
  /-- The trivia in front of `from`. -/
  fromLead : String
  /-- The other module. -/
  source : Literal
  /-- The end of the statement. -/
  terminator : Terminator
  /-- The extent. -/
  span : Span := {}
deriving DecidableEq, Repr

/-- The text of an import declaration. -/
def ImportDeclaration.print (d : ImportDeclaration) : String :=
  d.lead ++ "import"
    ++ (match d.clause with
      | some clause => clause.print ++ d.fromLead ++ "from"
      | none => "")
    ++ d.source.print ++ d.terminator.print

/-- The name that something is exported under. -/
structure ExportAlias where
  /-- The trivia in front of `as`. -/
  asLead : String
  /-- The exported name. -/
  exported : ExportName
deriving DecidableEq, Repr

/-- The text of an export alias, if there is one. -/
def ExportAlias.printOption : Option ExportAlias → String
  | some a => a.asLead ++ "as" ++ a.exported.print
  | none => ""

/-- One entry of an export list. -/
structure ExportSpecifier where
  /-- The local name. -/
  binding : ExportName
  /-- The exported name, if it is another. -/
  alias? : Option ExportAlias
  /-- The extent. -/
  span : Span := {}
deriving DecidableEq, Repr

/-- The text of an export list entry. -/
def ExportSpecifier.print (s : ExportSpecifier) : String :=
  s.binding.print ++ ExportAlias.printOption s.alias?

/-- An export list in braces. -/
structure NamedExports where
  /-- The trivia in front of the opening brace. -/
  openLead : String
  /-- The entries. -/
  specifiers : List ExportSpecifier
  /-- The commas with their trivia. -/
  separators : List String
  /-- The trivia in front of the closing brace. -/
  closeLead : String
deriving DecidableEq, Repr

/-- The text of an export list. -/
def NamedExports.print (n : NamedExports) : String :=
  n.openLead ++ "\x7b" ++ joinList (n.specifiers.map (·.print)) n.separators
    ++ n.closeLead ++ "\x7d"

/-- The module that something is exported from. -/
structure FromClause where
  /-- The trivia in front of `from`. -/
  fromLead : String
  /-- The other module. -/
  source : Literal
deriving DecidableEq, Repr

/-- The text of a source clause. -/
def FromClause.print (c : FromClause) : String := c.fromLead ++ "from" ++ c.source.print

/-- The export of everything another module exports. -/
structure ExportAll where
  /-- The trivia in front of `export`. -/
  lead : String
  /-- The trivia in front of `*`. -/
  starLead : String
  /-- The name that the whole is exported under. -/
  alias? : Option ExportAlias
  /-- The other module. -/
  origin : FromClause
  /-- The end of the statement. -/
  terminator : Terminator
  /-- The extent. -/
  span : Span := {}
deriving DecidableEq, Repr

/-- The text of an export of everything. -/
def ExportAll.print (d : ExportAll) : String :=
  d.lead ++ "export" ++ d.starLead ++ "*" ++ ExportAlias.printOption d.alias? ++ d.origin.print
    ++ d.terminator.print

end Verbatim
