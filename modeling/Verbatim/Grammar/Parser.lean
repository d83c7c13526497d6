import Verbatim.Grammar.Parse

/-!
# How parsing actions are run

A parser holds the scanner, the lookahead with a way back to the place in front of it, and the
records that a parse leaves behind: the consumed tokens, the finished nodes and the tolerated
errors. What is asked to be recorded is looked at in the course of the run: where a token is
consumed, where an extent is closed and where an error is recorded or ends the parse.

## Main definitions

* `Verbatim.Records` — what a parse records beside the tree.
* `Verbatim.Records.between` — what is recorded of an extent.
* `Verbatim.Parser` — the state of a parse.
* `Verbatim.Parser.answer` — how each request is answered.
* `Verbatim.Parse.run` — how an action is run.
* `Verbatim.Parser.start` — a parser at the start of a source.
-/

namespace Verbatim

/-- What a parse records beside the tree. The default is to record everything, without a label. -/
structure Records where
  /-- Whether extents have byte offsets. -/
  range : Bool := true
  /-- Whether extents have lines and columns. -/
  location : Bool := true
  /-- The label of the source in locations and errors. -/
  source : Option String := none
  /-- Whether the consumed tokens are kept. -/
  tokens : Bool := true
  /-- Whether the comments are kept. -/
  comments : Bool := true
deriving DecidableEq, Repr

/-- What is recorded of the extent between two points. -/
def Records.between (k : Records) (start stop : Position) : Span where
  range := if k.range then some (start.offset, stop.offset) else none
  location := if k.location then some { start, stop, source := k.source } else none

/-- A finished node as it is reported. -/
structure NodeRecord where
  /-- The kind. -/
  kind : NodeKind
  /-- The extent. -/
  span : Span
deriving DecidableEq, Repr

/-- The state of a parse. -/
structure Parser where
  /-- The scanner, behind the lookahead. -/
  scanner : Scanner
  /-- The place in front of the lookahead and its trivia. -/
  before : Scanner.Snapshot
  /-- The next token. -/
  lookahead : Token
  /-- The point after the last consumed token. -/
  lastEnd : Position := {}
  /-- The first shorthand property with a default that is still to become part of a pattern. -/
  pending : Option Site := none
  /-- What is recorded. -/
  records : Records := {}
  /-- The tolerated errors. -/
  report : Report := {}
  /-- The consumed tokens, oldest first. -/
  tokens : Array TokenRecord := #[]
  /-- The finished nodes, oldest first. -/
  nodes : Array NodeRecord := #[]
deriving DecidableEq, Repr

namespace Parser

/-- What happens in a parse: it may fail, and leaves a state in either case. -/
abbrev Run := EStateM SyntaxError Parser

/-- Scans. An error gets the label of the source. -/
def scan {α : Type} (action : Scan α) : Run α := fun p =>
  match action p.scanner with
  | .ok value scanner => .ok value { p with scanner }
  | .error error scanner => .error (error.label p.report.source) { p with scanner }

/-- The state after the lookahead was consumed and the given token was scanned behind it. -/
def advance (p : Parser) (before : Scanner.Snapshot) (lookahead : Token) : Parser :=
  let consumed := p.lookahead
  { p with
    before
    lookahead
    lastEnd := consumed.stop
    tokens :=
      if p.records.tokens && !consumed.isEof then p.tokens.push
        { kind := consumed.kind
          value := consumed.raw
          span := p.records.between consumed.start consumed.stop }
      else p.tokens }

/-- Consumes the lookahead and scans the next token. -/
def next : Run Token := do
  let p ← get
  let lookahead ← scan Scan.next
  modify (·.advance p.scanner.save lookahead)
  return p.lookahead

/-- Scans one token further and goes back. -/
def peek : Run Token := fun p =>
  match Scan.next p.scanner with
  | .ok token scanner => .ok token { p with scanner := scanner.restore p.scanner.save }
  | .error error scanner =>
    .error (error.label p.report.source) { p with scanner := scanner.restore p.scanner.save }

/-- Goes back to the place in front of the lookahead and scans it again. -/
def rescanWith (action : Scan Token) : Run Unit := do
  modify fun p => { p with scanner := p.scanner.restore p.before }
  let lookahead ← scan action
  modify ({ · with lookahead })

/-- Records an error if errors are tolerated, and fails with another one otherwise. -/
def tolerate (recorded thrown : SyntaxError) : Run Unit := fun p =>
  match p.report.tolerate (recorded.label p.report.source) with
  | .ok report => .ok () { p with report }
  | .error _ => .error (thrown.label p.report.source) p

/-- How each request is answered. -/
def answer : (request : Request) → Run request.Answer
  | .look => return (← get).lookahead
  | .next => next
  | .peek => peek
  | .rescan => rescanWith Scan.next
  | .rescanRegex => rescanWith Scan.nextRegex
  | .setMode mode => scan (Scan.setMode mode)
  | .lastEnd => return (← get).lastEnd
  | .pending => return (← get).pending
  | .setPending site => modify ({ · with pending := site })
  | .span start stop => return (← get).records.between start stop
  | .finish kind span => modify fun p => { p with nodes := p.nodes.push { kind, span } }
  | .tolerate finder fault site => tolerate (Finder.recorded fault site) (finder.thrown fault site)
  | .fail error => fun p => .error (error.label p.report.source) p

/-- A parser at the start of a source, with the first token scanned. -/
def start (source : String) (isModule tolerant : Bool) (records : Records := {}) :
    Except SyntaxError Parser :=
  let scanner := Scanner.start source isModule records.comments
  match Scan.next scanner with
  | .ok lookahead after =>
    .ok { scanner := after, before := scanner.save, lookahead, records
          report := { tolerant, source := records.source } }
  | .error error _ => .error (error.label records.source)

end Parser

/-- Runs a parsing action. -/
def Parse.run {α : Type} : Parse α → Parser.Run α
  | .done value => fun p => .ok value p
  | .ask request => Parser.answer request
  | .andThen first resume => fun p =>
    match first.run p with
    | .ok value after => (resume value).run after
    | .error error after => .error error after

/-- A value by itself leaves the parser as it is. -/
@[simp]
theorem Parse.run_pure {α : Type} (value : α) (p : Parser) :
    (pure value : Parse α).run p = .ok value p := rfl

/-- Running one action after the other. -/
@[simp]
theorem Parse.run_bind {α β : Type} (action : Parse α) (f : α → Parse β) (p : Parser) :
    (action >>= f).run p =
      match action.run p with
      | .ok value after => (f value).run after
      | .error error after => .error error after := by
  rw [show (action >>= f) = Parse.andThen action f from rfl, Parse.run]

/-- A single request is answered by the parser. -/
@[simp]
theorem Parse.run_ask (request : Request) : (Parse.ask request).run = Parser.answer request := rfl

end Verbatim
