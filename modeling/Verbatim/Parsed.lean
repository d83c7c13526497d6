import Verbatim.Grammar.Language
import Verbatim.Tree.Print
import Verbatim.Tree.Traverse

/-!
# Parsing a source

A source is parsed by running the production of programs on it. The options say what is recorded in
the course of the run; what was recorded is handed out at its end.

## Main definitions

* `Verbatim.Outcome`, `Verbatim.Parse.onSource` — what running an action on a source leaves.
* `Verbatim.Parsed` — the result of a successful parse.
* `Verbatim.parse`, `Verbatim.parseScript`, `Verbatim.parseModule` — parsing.
* `Verbatim.parseExpression` — parsing one expression at the start of a source.
* `Verbatim.parseNodes` — parsing with the list of the finished nodes.
-/

namespace Verbatim

/-- What the options ask to be recorded. -/
def Options.records (o : Options) : Records where
  range := o.range
  location := o.location
  source := o.source
  tokens := o.tokens
  comments := o.comments

/-! ## Outcomes -/

/-- What running an action on a source leaves. -/
structure Outcome (α : Type) where
  /-- The nodes finished before the end or the failure, oldest first. -/
  nodes : Array NodeRecord
  /-- The value and the last state, or the error. -/
  result : Except SyntaxError (α × Parser)

/-- Runs an action on a source. -/
def Parse.onSource {α : Type} (action : Parse α) (source : String) (isModule tolerant : Bool)
    (records : Records := {}) : Outcome α :=
  match Parser.start source isModule tolerant records with
  | .error error => { nodes := #[], result := .error error }
  | .ok first =>
    match action.run first with
    | .ok value last => { nodes := last.nodes, result := .ok (value, last) }
    | .error error last => { nodes := last.nodes, result := .error error }

/-- The outcome of parsing a whole source. -/
def outcomeOf (goal : Goal) (tolerant allowsMarkup : Bool) (source : String)
    (records : Records := {}) : Outcome Program :=
  (Grammar.program (.forSource source) goal allowsMarkup).onSource source (goal = .module) tolerant
    records

/-! ## Parses -/

/-- The result of a successful parse. -/
structure Parsed where
  /-- The tree. -/
  program : Program
  /-- The tolerated errors, oldest first. -/
  errors : List SyntaxError
  /-- The tokens, if they were asked for. -/
  tokens : Option (List TokenRecord)
  /-- The comments, if they were asked for. -/
  comments : Option (List Comment)
deriving DecidableEq

/-- What is handed out at the end of a parse. -/
def Parsed.of (program : Program) (last : Parser) : Parsed where
  program
  errors := last.report.errors.toList
  tokens := if last.records.tokens then some last.tokens.toList else none
  comments := if last.records.comments then some last.scanner.comments.toList else none

/-- The result of the parse that has an outcome. -/
def Outcome.parsed (outcome : Outcome Program) : Except SyntaxError Parsed :=
  outcome.result.map fun (program, last) => .of program last

/-- Parses a source. -/
def parse (o : Options) (source : String) : Except SyntaxError Parsed :=
  (outcomeOf o.goal o.tolerant o.jsx source o.records).parsed

/-- A parse that ends well is a run over the whole source that does. -/
theorem exists_run_of_parse {o : Options} {source : String} {out : Parsed}
    (h : parse o source = .ok out) : ∃ first program last,
      Parser.start source (o.goal = .module) o.tolerant o.records = .ok first ∧
        (Grammar.program (.forSource source) o.goal o.jsx).run first = .ok program last ∧
        out = .of program last := by
  unfold parse outcomeOf Outcome.parsed Parse.onSource at h
  cases hstart : Parser.start source (o.goal = .module) o.tolerant o.records with
  | error e =>
    simp only [hstart] at h
    cases h
  | ok first =>
    simp only [hstart] at h
    cases hrun : (Grammar.program (.forSource source) o.goal o.jsx).run first with
    | error e last =>
      simp only [hrun] at h
      cases h
    | ok program last =>
      simp only [hrun] at h
      cases h
      exact ⟨first, program, last, rfl, hrun, rfl⟩

/-- Parses a source as a script. -/
def parseScript (o : Options) (source : String) : Except SyntaxError Parsed :=
  parse { o with goal := .script } source

/-- Parses a source as a module. -/
def parseModule (o : Options) (source : String) : Except SyntaxError Parsed :=
  parse { o with goal := .module } source

/-- Parses a source and lists the nodes that were finished, children before parents. -/
def parseNodes (o : Options) (source : String) :
    List NodeRecord × Except SyntaxError Parsed :=
  let outcome := outcomeOf o.goal o.tolerant o.jsx source o.records
  (outcome.nodes.toList, outcome.parsed)

/-- Parses the expression that a source begins with; what follows it is not looked at. -/
def parseExpression (o : Options) (source : String) : Except SyntaxError Expr :=
  let action := (Productions.forSource source).expression (.start o.goal o.jsx)
  (action.onSource source o.isModule o.tolerant o.records).result.map (·.1)

end Verbatim
