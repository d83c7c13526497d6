import Verbatim.Proofs.Tree.Spans
import Verbatim.Proofs.Walk

/-!
# Runs that record a part

A run that records only what the options ask for is the image of the run that records everything:
it takes the same tokens, fails or ends well with it, and has the selected part of what the other
one has. Nothing of this is true by the shape of the definitions. The two runs have different
parsers, whose scanners keep comments or not, and each extent that one of them builds into a tree
may be missing in the other. So it is proved of each request, and then of each production that it
asks nothing of an extent.

With it, the same is shown of a run in which markup is allowed where it is not allowed in the other
one. Here the image is claimed only if the other run does not fail.

## Main definitions

* `Verbatim.Selects` — values of which options select a part.
* `Verbatim.Parser.select`, `Verbatim.selectEnd` — the image of a parser and of the end of a run.
* `Verbatim.Parse.Projects` — an action whose runs are the images of those of another one.
* `Verbatim.Parse.Projected` — an action whose runs are images of its own runs.
* `Verbatim.Productions.Projects` — productions whose runs project to those of others.

## Main results

* `Verbatim.Scan.next_select`, `Verbatim.Scan.nextRegex_select` — scanning decides nothing by the
  comments that are kept.
* `Verbatim.Parse.Projects.bind`, `Verbatim.Parse.Projects.branch` — composed actions.
* `Verbatim.Parse.Projects.many`, `Verbatim.Parse.Projects.listed`,
  `Verbatim.Parse.Projects.afterCommas`, `Verbatim.Parse.Projects.iterate` — loops.
-/

namespace Verbatim

/-! ## Selection -/

/-- What the options select of a complete extent. -/
def Span.select (o : Options) (s : Span) : Span where
  range := if o.range then s.range else none
  location := if o.location then s.location.map ({ · with source := o.source }) else none

/-- A token record with what the options select of its extent. -/
def TokenRecord.select (o : Options) (t : TokenRecord) : TokenRecord :=
  { t with span := t.span.select o }

/-- A node record with what the options select of its extent. -/
def NodeRecord.select (o : Options) (n : NodeRecord) : NodeRecord :=
  { n with span := n.span.select o }

/-- What the options select of a complete parse. -/
def Parsed.select (o : Options) (program : Program) (last : Parser) : Parsed where
  program := program.mapSpans (·.select o)
  errors := last.report.errors.toList.map (·.label o.source)
  tokens := if o.tokens then some (last.tokens.toList.map (·.select o)) else none
  comments := if o.comments then some last.scanner.comments.toList else none

/-- What the options select of the result of a complete parse. -/
def Outcome.select (o : Options) (outcome : Outcome Program) : Except SyntaxError Parsed :=
  match outcome.result with
  | .ok (program, last) => .ok (.select o program last)
  | .error error => .error (error.label o.source)

/-- The options record of an extent what they select of the complete one. -/
theorem Options.records_between (o : Options) (start stop : Position) :
    o.records.between start stop = (Span.between start stop).select o := by
  obtain ⟨_, range, _ | _, _, _, _, _, _⟩ := o <;> rfl

/-- A label that is not there is given by a second labelling. -/
theorem SyntaxError.label_label (e : SyntaxError) (source : Option String) :
    (e.label none).label source = e.label source := by
  rw [label_none]

/-! ## Scanning without comments -/

/-- What is left when the state is changed by a function. -/
def mapState {ε σ α : Type} (f : σ → σ) : EStateM.Result ε σ α → EStateM.Result ε σ α
  | .ok value s => .ok value (f s)
  | .error e s => .error e (f s)

/-- Two actions one after the other commute with a change of the state if both do. -/
theorem mapState_bind {ε σ α β : Type} {f : σ → σ} {a : EStateM ε σ α}
    {b b' : α → EStateM ε σ β} {s : σ} (ha : a (f s) = mapState f (a s))
    (hb : ∀ v s, b v (f s) = mapState f (b' v s)) :
    (a >>= b) (f s) = mapState f ((a >>= b') s) := by
  change EStateM.bind a b (f s) = mapState f (EStateM.bind a b' s)
  unfold EStateM.bind
  rw [ha]
  cases a s with
  | ok v r => exact hb v r
  | error e r => rfl

theorem mapState_get {ε σ β : Type} {f : σ → σ} {b b' : σ → EStateM ε σ β} {s : σ}
    (hb : b (f s) (f s) = mapState f (b' s s)) :
    (get >>= b) (f s) = mapState f ((get >>= b') s) := hb

/-- The scanner that keeps comments if the options ask for them. -/
def Scanner.select (o : Options) (s : Scanner) : Scanner := if o.comments then s else s.quiet

namespace Scan

section

variable (s : Scanner)

theorem read_quiet {α : Type} (stage : Stage) (reader : ReadOn Cursor α) :
    read stage reader s.quiet = mapState Scanner.quiet (read stage reader s) := by
  refine mapState_get ?_
  have hcursor : s.quiet.cursor = s.cursor := rfl
  rw [hcursor]
  cases reader s.cursor <;> rfl

theorem trivia_quiet : trivia s.quiet = mapState Scanner.quiet (trivia s) := by
  rw [trivia_eq]
  refine mapState_get (mapState_bind ?_ fun _ r => ?_)
  · exact congrArg (EStateM.Result.ok ()) (s.quiet_past _).symm
  · have hfound : Trivia.read s.quiet.allowsHtml (s.quiet.cursor.position.offset = 0)
        s.quiet.cursor.rest = Trivia.read s.allowsHtml (s.cursor.position.offset = 0)
        s.cursor.rest := rfl
    rw [hfound]
    cases (Trivia.read s.allowsHtml (s.cursor.position.offset = 0) s.cursor.rest).isComplete <;> rfl

theorem lexeme_quiet : lexeme s.quiet = mapState Scanner.quiet (lexeme s) :=
  mapState_get (mapState_bind (read_quiet s _ _) fun _ _ => rfl)

theorem token_quiet (lead : String) (newline : Bool) {action : Scan Lexeme}
    (h : ∀ s : Scanner, action s.quiet = mapState Scanner.quiet (action s)) :
    token lead newline action s.quiet = mapState Scanner.quiet (token lead newline action s) :=
  mapState_get (mapState_bind (h s) fun _ _ => rfl)

/-- Scanning a token decides nothing by the comments that are kept. -/
theorem next_quiet : next s.quiet = mapState Scanner.quiet (next s) := by
  have hrun : ∀ s : Scanner, next s = (if s.mode = .text then token "" false lexeme else
      trivia >>= fun v => token v.1 v.2 lexeme : Scan Token) s := fun _ => rfl
  have hmode : s.quiet.mode = s.mode := rfl
  rw [hrun, hrun, hmode]
  split
  · exact token_quiet s _ _ lexeme_quiet
  · exact mapState_bind (trivia_quiet s) fun v s => token_quiet s v.1 v.2 lexeme_quiet

theorem nextRegex_quiet : nextRegex s.quiet = mapState Scanner.quiet (nextRegex s) :=
  mapState_bind (trivia_quiet s) fun v s =>
    token_quiet s v.1 v.2 fun s => read_quiet s .scanner Read.regex

end

/-- What does not depend on comments does not depend on whether they are kept. -/
theorem select_of_quiet {α : Type} {action : Scan α} (o : Options)
    (h : ∀ s : Scanner, action s.quiet = mapState Scanner.quiet (action s)) (s : Scanner) :
    action (s.select o) = mapState (·.select o) (action s) := by
  unfold Scanner.select
  cases o.comments with
  | true =>
    change action s = mapState id (action s)
    cases action s <;> rfl
  | false => exact h s

theorem next_select (o : Options) (s : Scanner) :
    next (s.select o) = mapState (·.select o) (next s) := select_of_quiet o next_quiet s

theorem nextRegex_select (o : Options) (s : Scanner) :
    nextRegex (s.select o) = mapState (·.select o) (nextRegex s) :=
  select_of_quiet o nextRegex_quiet s

theorem setMode_select (o : Options) (mode : Mode) (s : Scanner) :
    setMode mode (s.select o) = mapState (·.select o) (setMode mode s) :=
  select_of_quiet o (fun _ => rfl) s

end Scan

/-- The snapshot that a scanner takes that keeps comments if the options ask for them. -/
def Scanner.Snapshot.select (o : Options) (snapshot : Snapshot) : Snapshot :=
  if o.comments then snapshot else { snapshot with commentCount := 0 }

namespace Scanner

variable (o : Options) (s : Scanner)

theorem save_select : (s.select o).save = s.save.select o := by
  unfold select Snapshot.select
  cases o.comments <;> rfl

theorem restore_select (snapshot : Snapshot) :
    (s.select o).restore (snapshot.select o) = (s.restore snapshot).select o := by
  unfold select Snapshot.select
  cases o.comments <;> rfl

@[simp]
theorem mode_select : (s.select o).mode = s.mode := by
  unfold select
  cases o.comments <;> rfl

end Scanner

/-! ## Values -/

/-- Values of which options select a part. -/
class Selects (α : Type) where
  /-- The selected part. -/
  select : Options → α → α

export Selects (select)

/-- Values of which everything is selected. -/
@[reducible]
def Selects.all {α : Type} : Selects α := ⟨fun _ => id⟩

/-- Values in which extents are selected. -/
@[reducible]
def Selects.spans {α : Type} (visit : Visitor Id → α → α) : Selects α :=
  ⟨fun o => visit (.moving (·.select o))⟩

instance : Selects Unit := .all
instance : Selects Bool := .all
instance : Selects String := .all
instance : Selects Position := .all
instance : Selects Site := .all
instance : Selects Token := .all
instance : Selects Value := .all
instance : Selects Terminator := .all
instance : Selects Modifiers := .all
instance : Selects PropertyKind := .all
instance : Selects MethodKind := .all
instance : Selects Span := ⟨Span.select⟩
instance : Selects Ident := .spans Visitor.ident
instance : Selects PrivateName := .spans Visitor.privateName
instance : Selects Literal := .spans Visitor.literal
instance : Selects Quasi := .spans Visitor.quasi
instance : Selects TagIdent := .spans Visitor.tagIdent
instance : Selects NamespacedName := .spans Visitor.namespacedName
instance : Selects TagName := .spans Visitor.tagName
instance : Selects AttributeName := .spans Visitor.attributeName
instance : Selects ClosingTag := .spans Visitor.closingTag
instance : Selects ExportName := .spans Visitor.exportName
instance : Selects ImportAlias := .spans Visitor.importAlias
instance : Selects ImportSpecifier := .spans Visitor.importSpecifier
instance : Selects NamespaceImport := .spans Visitor.namespaceImport
instance : Selects NamedImports := .spans Visitor.namedImports
instance : Selects ImportClause := .spans Visitor.importClause
instance : Selects ExportAlias := .spans Visitor.exportAlias
instance : Selects ExportSpecifier := .spans Visitor.exportSpecifier
instance : Selects FromClause := .spans Visitor.fromClause
instance {c : Category} : Selects (Tree c) := ⟨fun o t => t.mapSpans (·.select o)⟩
instance : Selects Program := ⟨fun o p => p.mapSpans (·.select o)⟩

section

variable {α β : Type} [Selects α] [Selects β]

instance : Selects (α × β) := ⟨fun o v => (select o v.1, select o v.2)⟩
instance : Selects (Option α) := ⟨fun o => Option.map (select o)⟩
instance : Selects (List α) := ⟨fun o => List.map (select o)⟩

instance : Selects (Parse.Round α) where
  select o
    | .item value => .item (select o value)
    | .hole value separator => .hole (select o value) separator
    | .last value => .last (select o value)

end

/-! Of texts and places all is selected, also where there are many of them or none. -/

instance : Selects (List String) := .all
instance : Selects (Option String) := .all
instance : Selects (Option Site) := .all

instance : Selects Markup where
  select o
    | .element e => .element (select o e)
    | .fragment f => .fragment (select o f)

instance : Selects Grammar.GroupItem := ⟨fun o i => { i with value := select o i.value }⟩
instance : Selects Grammar.Group := ⟨fun o g => { g with items := select o g.items }⟩
instance : Selects Grammar.Chain := ⟨fun o c => { c with value := select o c.value }⟩
instance : Selects Grammar.Variables := ⟨fun o v => { v with items := select o v.items }⟩

@[simp]
theorem select_ofList {c : Category} (o : Options) (items : List (Tree c)) :
    select o (Tree.ofList items) = .ofList (select o items) :=
  Tree.mapSpans_ofList _ items

theorem select_append {α : Type} [Selects α] (o : Options) (l l' : List α) :
    select o (l ++ l') = select o l ++ select o l' := List.map_append

/-! ## Parsers -/

/-- The parser that records what the options ask for, at the same place. -/
def Parser.select (o : Options) (p : Parser) : Parser where
  scanner := p.scanner.select o
  before := p.before.select o
  lookahead := p.lookahead
  lastEnd := p.lastEnd
  pending := p.pending
  records := o.records
  report := { p.report with
    source := o.source
    errors := p.report.errors.map (·.label o.source) }
  tokens := if o.tokens then p.tokens.map (·.select o) else #[]
  nodes := p.nodes.map (·.select o)

/-- The end of a run that records what the options ask for. -/
def selectEnd {α : Type} [Selects α] (o : Options) :
    EStateM.Result SyntaxError Parser α → EStateM.Result SyntaxError Parser α
  | .ok value p => .ok (select o value) (p.select o)
  | .error e p => .error (e.label o.source) (p.select o)

namespace Parser

variable (o : Options) {p q : Parser}

/-- Scanning, where everything is recorded and where a part is. -/
theorem scan_select {α : Type} {action : Scan α} (hp : p.report.source = none)
    (h : ∀ s : Scanner, action (s.select o) = mapState (·.select o) (action s)) :
    scan action (p.select o) = @selectEnd α .all o (scan action p) := by
  have hscanner : (p.select o).scanner = p.scanner.select o := rfl
  unfold scan
  rw [hscanner, h, hp]
  cases action p.scanner with
  | ok v s => rfl
  | error e s => exact congrArg (EStateM.Result.error · _) (e.label_label _).symm

/-- Consuming a token, where everything is recorded and where a part is. -/
theorem advance_select (hp : p.records = {}) (before : Scanner.Snapshot) (t : Token) :
    (p.select o).advance (before.select o) t = (p.advance before t).select o := by
  have htokens : (if o.tokens && !p.lookahead.isEof then (p.select o).tokens.push
        { kind := p.lookahead.kind
          value := p.lookahead.raw
          span := o.records.between p.lookahead.start p.lookahead.stop }
      else (p.select o).tokens) = ((p.advance before t).select o).tokens := by
    rw [o.records_between]
    unfold Parser.select advance
    dsimp only
    rw [hp]
    cases o.tokens with
    | false => rfl
    | true => cases p.lookahead.isEof <;> simp [TokenRecord.select, Records.between, Span.between]
  exact congrArg (fun tokens => ({ (p.advance before t).select o with tokens } : Parser)) htokens

end Parser

/-! ## Projections of runs -/

/-- Where the first action is run by a parser that records everything, without a label, the second
one has the image of its run, and takes the same tokens. If `m` is set, that is said only of runs
that end well. -/
def Parse.Projects {α : Type} [Selects α] (o : Options) (m : Bool) (a b : Parse α) : Prop :=
  ∀ p : Parser, p.records = {} → p.report.source = none →
    b.run (p.select o) = selectEnd o (a.run p) ∧ b.takes (p.select o) = a.takes p ∨
      m = true ∧ ∃ e q, a.run p = .error e q

/-- The context in which markup is also allowed if `m` is set, and all else is the same. -/
def Context.widen (ctx : Context) (m : Bool) : Context :=
  { ctx with allowsMarkup := ctx.allowsMarkup || m }

namespace Parse.Projects

variable {α β : Type} [Selects α] [Selects β] {o : Options} {m : Bool} {ctx : Context}

/-- Values project to their selected part. -/
theorem pure {v w : α} (h : select o v = w) : Projects o m (Pure.pure v) (Pure.pure w) := by
  subst h
  exact fun _ _ _ => .inl ⟨rfl, rfl⟩

/-- One action after the other. -/
theorem bind {a b : Parse α} {f g : α → Parse β} (h : Projects o m a b)
    (hf : ∀ v, Projects o m (f v) (g (select o v))) : Projects o m (a >>= f) (b >>= g) := by
  intro p hp hl
  rcases h p hp hl with ⟨hrun, htakes⟩ | ⟨hm, e, q, he⟩
  · cases ha : a.run p with
    | ok v q =>
      rw [ha] at hrun
      have hb : b.run (p.select o) = .ok (select o v) (q.select o) := hrun
      rw [run_bind, run_bind, takes_bind ha, takes_bind hb, ha, hb, htakes]
      obtain ⟨hrecords, hlabel⟩ := run_records ha
      rcases hf v q (hrecords.trans hp) (hlabel.trans hl) with ⟨hrest, hmore⟩ | ⟨hm, e, r, he⟩
      · exact .inl ⟨hrest, by rw [hmore]⟩
      · exact .inr ⟨hm, e, r, he⟩
    | error e q =>
      rw [ha] at hrun
      have hb : b.run (p.select o) = .error (e.label o.source) (q.select o) := hrun
      refine .inl ⟨by rw [run_bind, run_bind, ha, hb]; rfl, ?_⟩
      change (Parse.andThen b g).takes _ = (Parse.andThen a f).takes _
      rw [takes, takes, ha, hb, htakes]
  · refine .inr ⟨hm, e, q, ?_⟩
    rw [run_bind, he]

theorem map {a b : Parse α} {f g : α → β} (h : Projects o m a b)
    (hf : ∀ v, select o (f v) = g (select o v)) : Projects o m (f <$> a) (g <$> b) :=
  bind h fun v => pure (hf v)

/-! ## Requests -/

/-- A request whose answer has the image of what another answer has. -/
theorem of_answer {request : Request} [Selects request.Answer] (hn : request ≠ .next)
    (h : ∀ p : Parser, p.records = {} → p.report.source = none →
      Parser.answer request (p.select o) = selectEnd o (Parser.answer request p)) :
    Projects o m (ask request) (ask request) := by
  intro p hp hl
  refine .inl ⟨h p hp hl, ?_⟩
  cases request <;> first | rfl | exact absurd rfl hn

theorem failWith (error : SyntaxError) (f : Empty → Parse α) :
    Projects o m (.andThen (ask (.fail error)) f) (.andThen (ask (.fail error)) f) := by
  refine fun p _ hl => .inl ⟨congrArg (EStateM.Result.error · _) ?_, rfl⟩
  rw [hl]
  exact (SyntaxError.label_label _ _).symm

theorem fail (stage : Stage) (fault : Fault) (site : Site) :
    Projects o m (Parse.fail stage fault site : Parse α) (Parse.fail stage fault site) :=
  failWith _ _

/-- An action that fails projects to any, if nothing is said of failures. -/
theorem of_fails (hm : m = true) {stage : Stage} {fault : Fault} {site : Site} {b : Parse α} :
    Projects o m (Parse.fail stage fault site) b := fun _ _ _ => .inr ⟨hm, _, _, rfl⟩

theorem spanBetween (start stop : Position) :
    Projects o m (Parse.spanBetween start stop) (Parse.spanBetween start stop) := by
  refine of_answer nofun fun p hp _ => congrArg (EStateM.Result.ok · _) ?_
  rw [hp]
  exact o.records_between start stop

theorem report (kind : NodeKind) (span : Span) :
    Projects o m (Parse.report kind span) (Parse.report kind (select o span)) := by
  refine fun p _ _ => .inl ⟨congrArg (EStateM.Result.ok _ ·) ?_, rfl⟩
  have hnodes : (p.nodes.map (·.select o)).push ⟨kind, select o span⟩ =
      (p.nodes.push ⟨kind, span⟩).map (·.select o) := by
    rw [Array.map_push]
    rfl
  exact congrArg (fun nodes => ({ p.select o with nodes } : Parser)) hnodes

/-- An error is tolerated in both runs or in none, and labelled in its own way in each. -/
theorem askTolerate (finder : Finder) (fault : Fault) (site : Site) :
    Projects o m (ask (.tolerate finder fault site)) (ask (.tolerate finder fault site)) := by
  refine of_answer nofun fun p _ hl => ?_
  change Parser.tolerate _ _ (p.select o) = selectEnd o (Parser.tolerate _ _ p)
  unfold Parser.tolerate Report.tolerate
  rw [hl]
  have htolerant : (p.select o).report.tolerant = p.report.tolerant := rfl
  rw [htolerant]
  cases p.report.tolerant with
  | true =>
    refine congrArg (EStateM.Result.ok () ·) ?_
    have herrors : (p.report.errors.map (·.label o.source)).push
        ((Finder.recorded fault site).label o.source) =
        (p.report.errors.push ((Finder.recorded fault site).label none)).map
          (·.label o.source) := by
      rw [Array.map_push, SyntaxError.label_label]
    exact congrArg (fun errors => ({ p.select o with
      report := { tolerant := true, source := o.source, errors } } : Parser)) herrors
  | false => exact congrArg (EStateM.Result.error · _) (SyntaxError.label_label _ _).symm

/-- Both runs take the same token; only the record of it differs. -/
theorem next : Projects o m Parse.next Parse.next := by
  intro p hp hl
  refine .inl ⟨?_, ?_⟩
  · change (Parser.scan Scan.next >>= fun lookahead => do
        modify (·.advance (p.select o).scanner.save lookahead)
        return p.lookahead) (p.select o) =
      selectEnd o ((Parser.scan Scan.next >>= fun lookahead => do
        modify (·.advance p.scanner.save lookahead)
        return p.lookahead) p)
    change EStateM.bind _ _ _ = selectEnd o (EStateM.bind _ _ _)
    unfold EStateM.bind
    rw [Parser.scan_select o hl (Scan.next_select o)]
    cases hscan : Parser.scan Scan.next p with
    | ok u q =>
      refine congrArg (EStateM.Result.ok p.lookahead ·) ?_
      have hsave : (p.select o).scanner.save = p.scanner.save.select o := p.scanner.save_select o
      exact hsave ▸ Parser.advance_select o ((Parser.scan_records hscan).1.trans hp)
        p.scanner.save u
    | error e q => rfl
  · change [(p.lookahead, (p.scanner.select o).mode)] = [(p.lookahead, p.scanner.mode)]
    rw [Scanner.mode_select]

/-- The lookahead is the same in both runs. -/
theorem peek : Projects o m Parse.peek Parse.peek := by
  refine of_answer nofun fun p _ hl => ?_
  change Parser.peek (p.select o) = selectEnd o (Parser.peek p)
  have hscanner : (p.select o).scanner = p.scanner.select o := rfl
  unfold Parser.peek
  have hlabel : (p.select o).report.source = o.source := rfl
  rw [hscanner, hlabel, Scan.next_select, hl]
  cases Scan.next p.scanner with
  | ok t s =>
    refine congrArg (EStateM.Result.ok t ·) ?_
    have hback : (s.select o).restore (p.scanner.select o).save =
        (s.restore p.scanner.save).select o := by
      rw [Scanner.save_select, Scanner.restore_select]
    exact congrArg (fun scanner => ({ p.select o with scanner } : Parser)) hback
  | error e s =>
    have hback : (s.select o).restore (p.scanner.select o).save =
        (s.restore p.scanner.save).select o := by
      rw [Scanner.save_select, Scanner.restore_select]
    change EStateM.Result.error _ _ = EStateM.Result.error _ _
    rw [e.label_label]
    exact congrArg (fun scanner => EStateM.Result.error _ ({ p.select o with scanner } : Parser))
      hback

/-- Scanning the lookahead again, where everything is recorded and where a part is. -/
theorem rescanWith_select {action : Scan Token} {p : Parser} (hl : p.report.source = none)
    (h : ∀ s : Scanner, action (s.select o) = mapState (·.select o) (action s)) :
    Parser.rescanWith action (p.select o) = selectEnd o (Parser.rescanWith action p) := by
  let back (q : Parser) : Parser := { q with scanner := q.scanner.restore q.before }
  have hrun : ∀ q : Parser, Parser.rescanWith action q =
      EStateM.bind (Parser.scan action) (fun lookahead => modify ({ · with lookahead })) (back q) :=
    fun _ => rfl
  have hback : back (p.select o) = (back p).select o :=
    congrArg (fun scanner => ({ p.select o with scanner } : Parser))
      (p.scanner.restore_select o p.before)
  have hscan : Parser.scan action ((back p).select o) =
      @selectEnd Token .all o (Parser.scan action (back p)) := Parser.scan_select o hl h
  rw [hrun, hrun, hback]
  unfold EStateM.bind
  rw [hscan]
  cases Parser.scan action (back p) <;> rfl

theorem rescan : Projects o m Parse.rescan Parse.rescan :=
  of_answer nofun fun _ _ hl => rescanWith_select hl (Scan.next_select o)

theorem rescanRegex : Projects o m Parse.rescanRegex Parse.rescanRegex :=
  of_answer nofun fun _ _ hl => rescanWith_select hl (Scan.nextRegex_select o)

theorem setMode (mode : Mode) : Projects o m (Parse.setMode mode) (Parse.setMode mode) :=
  of_answer nofun fun _ _ hl => Parser.scan_select o hl (Scan.setMode_select o mode)

/-! ## Branches -/

theorem branch {c : Prop} [Decidable c] {a a' b b' : Parse α} (h : Projects o m a b)
    (h' : Projects o m a' b') : Projects o m (if c then a else a') (if c then b else b') := by
  split
  · exact h
  · exact h'

/-- One of two actions, where the condition looks at a value of which a part was selected. -/
theorem branchWith {c c' : Bool} {a a' b b' : Parse α} (hc : c' = c) (h : Projects o m a b)
    (h' : Projects o m a' b') : Projects o m (if c then a else a') (if c' then b else b') := by
  rw [hc]
  exact branch h h'

/-- One of two actions, and another one after it. -/
theorem choice {c : Prop} [Decidable c] {a a' b b' : Parse α} {f g : α → Parse β}
    (hf : ∀ v, Projects o m (f v) (g (select o v))) (h : Projects o m a b)
    (h' : Projects o m a' b') :
    Projects o m (if c then a >>= f else a' >>= f) (if c then b >>= g else b' >>= g) :=
  branch (bind h hf) (bind h' hf)

/-- An action that may be left out, and another one after it. -/
theorem check {c : Prop} [Decidable c] {a b : Parse Unit} {f g : Unit → Parse β}
    (hf : Projects o m (f ()) (g ())) (h : Projects o m a b) :
    Projects o m (if c then a >>= f else f ()) (if c then b >>= g else g ()) :=
  branch (bind h fun _ => hf) hf

theorem checkWith {c c' : Bool} {a b : Parse Unit} {f g : Unit → Parse β} (hc : c' = c)
    (hf : Projects o m (f ()) (g ())) (h : Projects o m a b) :
    Projects o m (if c then a >>= f else f ()) (if c' then b >>= g else g ()) :=
  branchWith hc (bind h fun _ => hf) hf

end Parse.Projects

/-! ## Actions without extents -/

/-- Values that have no extents. -/
class Spanless (α : Type) [Selects α] : Prop where
  /-- All of a value is selected. -/
  select_eq (o : Options) (v : α) : select o v = v

instance : Spanless Unit := ⟨fun _ _ => rfl⟩
instance : Spanless Bool := ⟨fun _ _ => rfl⟩
instance : Spanless String := ⟨fun _ _ => rfl⟩
instance : Spanless Position := ⟨fun _ _ => rfl⟩
instance : Spanless Site := ⟨fun _ _ => rfl⟩
instance : Spanless Token := ⟨fun _ _ => rfl⟩
instance : Spanless Value := ⟨fun _ _ => rfl⟩
instance : Spanless Terminator := ⟨fun _ _ => rfl⟩
instance : Spanless Modifiers := ⟨fun _ _ => rfl⟩
instance : Spanless PropertyKind := ⟨fun _ _ => rfl⟩
instance : Spanless MethodKind := ⟨fun _ _ => rfl⟩
instance : Spanless (List String) := ⟨fun _ _ => rfl⟩
instance : Spanless (Option String) := ⟨fun _ _ => rfl⟩
instance : Spanless (Option Site) := ⟨fun _ _ => rfl⟩

instance {α β : Type} [Selects α] [Selects β] [Spanless α] [Spanless β] : Spanless (α × β) :=
  ⟨fun o v => Prod.ext (Spanless.select_eq o v.1) (Spanless.select_eq o v.2)⟩

/-- An action whose runs are the images of its own runs. -/
class Parse.Projected {α : Type} [Selects α] (a : Parse α) : Prop where
  /-- It projects to itself. -/
  projects (o : Options) (m : Bool) : a.Projects o m a

namespace Parse

open Projected (projects)

variable {α β : Type} [Selects α] [Selects β] {ctx : Context} {t : Token} {site : Site}
  {fault : Fault}

theorem Projects.same {o : Options} {m : Bool} {a : Parse α} [Projected a] : a.Projects o m a :=
  projects o m

/-- The same action first, whose value has no extents. -/
theorem Projects.after {o : Options} {m : Bool} {a : Parse α} {f g : α → Parse β} [Spanless α]
    [Projected a] (h : ∀ v, Projects o m (f v) (g v)) : Projects o m (a >>= f) (a >>= g) :=
  .bind .same fun v => (Spanless.select_eq o v).symm ▸ h v

instance {v : α} [Spanless α] : (pure v : Parse α).Projected :=
  ⟨fun o _ => .pure (Spanless.select_eq o v)⟩

instance {a : Parse α} {f : α → Parse β} [Spanless α] [a.Projected] [∀ v, (f v).Projected] :
    (a >>= f).Projected :=
  ⟨fun _ _ => .after fun _ => .same⟩

instance {a : Parse α} {f : α → β} [Spanless α] [Spanless β] [a.Projected] : (f <$> a).Projected :=
  inferInstanceAs (Projected (a >>= fun v => pure (f v)))

instance {c : Prop} [Decidable c] {a b : Parse α} [a.Projected] [b.Projected] :
    (if c then a else b).Projected := ⟨fun _ _ => .branch .same .same⟩

instance : look.Projected := ⟨fun _ _ => .of_answer nofun fun _ _ _ => rfl⟩
instance : next.Projected := ⟨fun _ _ => .next⟩
instance : peek.Projected := ⟨fun _ _ => .peek⟩
instance : rescan.Projected := ⟨fun _ _ => .rescan⟩
instance : rescanRegex.Projected := ⟨fun _ _ => .rescanRegex⟩
instance {mode : Mode} : (setMode mode).Projected := ⟨fun _ _ => .setMode mode⟩
instance : lastEnd.Projected := ⟨fun _ _ => .of_answer nofun fun _ _ _ => rfl⟩
instance : pending.Projected := ⟨fun _ _ => .of_answer nofun fun _ _ _ => rfl⟩
instance {s : Option Site} : (setPending s).Projected :=
    ⟨fun _ _ => .of_answer nofun fun _ _ _ => rfl⟩
instance {finder : Finder} : (ask (.tolerate finder fault site)).Projected :=
  ⟨fun _ _ => .askTolerate _ _ _⟩
instance : (tolerate fault site).Projected := ⟨fun _ _ => .askTolerate _ _ _⟩
instance {stage : Stage} : (fail stage fault site : Parse α).Projected := ⟨fun _ _ => .fail _ _ _⟩
instance : (reject fault site : Parse α).Projected := ⟨fun _ _ => .fail _ _ _⟩
instance : (unexpected ctx t : Parse α).Projected := ⟨fun _ _ => .fail _ _ _⟩
instance : (unexpectedHere ctx : Parse α).Projected := by unfold unexpectedHere; infer_instance
instance : (stalled : Parse α).Projected := by unfold stalled; infer_instance
instance {start stop : Position} : (spanBetween start stop).Projected :=
  ⟨fun _ _ => .spanBetween start stop⟩

section

variable {spelling : String} {kind : NodeKind} {start stop : Position}

instance : (sees spelling).Projected := by unfold sees; infer_instance
instance : (seesKeyword spelling).Projected := by unfold seesKeyword; infer_instance
instance : (seesWord spelling).Projected := by unfold seesWord; infer_instance
instance : here.Projected := by unfold here; infer_instance
instance : lead.Projected := by unfold lead; infer_instance
instance : (expect ctx spelling).Projected := by unfold expect; infer_instance
instance : (expectKeyword ctx spelling).Projected := by unfold expectKeyword; infer_instance
instance : (expectWord ctx spelling).Projected := by unfold expectWord; infer_instance
instance : (separator ctx).Projected := by unfold separator; infer_instance
instance : (accept spelling).Projected := by unfold accept; infer_instance
instance : (terminator ctx).Projected := by unfold terminator; infer_instance

instance : (finishAt kind start stop).Projected :=
  ⟨fun _ _ => .bind .same fun _ => .bind (.report _ _) fun _ => .pure rfl⟩

instance : (finish kind start).Projected := by unfold finish; infer_instance
instance : (extent start).Projected := by unfold extent; infer_instance
instance : (finishName t).Projected := ⟨fun _ _ => .bind .same fun _ => .pure rfl⟩
instance : (finishPrivateName t).Projected := ⟨fun _ _ => .bind .same fun _ => .pure rfl⟩
instance : anyName.Projected := by unfold anyName; infer_instance

end

instance {finder : Finder} {faults : List Fault} : (tolerateAll finder site faults).Projected := by
  induction faults with
  | nil => exact inferInstanceAs (Projected (pure () : Parse Unit))
  | cons fault faults ih =>
    exact inferInstanceAs (Projected (do ask (.tolerate finder fault site); _))

namespace Projects

variable {o : Options} {m : Bool}

/-- A conversion to the image of the value, with the same faults. -/
theorem convertAs {finder : Finder} {c c' : Conversion α} (h : c' = select o <$> c) :
    Projects o m (Parse.convertAs finder site c) (Parse.convertAs finder site c') := by
  have hmap : (select o <$> c) [] = EStateM.map (select o) c [] := rfl
  unfold Parse.convertAs EStateM.run
  rw [h, hmap]
  unfold EStateM.map
  cases c [] with
  | ok v faults => exact .bind .same fun _ => .pure rfl
  | error fault faults => exact .bind .same fun _ => .failWith _ _

/-! ## Loops -/

theorem many {ends : Token → Bool} {item item' : Parse α} {rounds rounds' : Nat}
    (h : Projects o m item item') (hr : rounds = rounds') :
    Projects o m (Parse.many ends item rounds) (Parse.many ends item' rounds') := by
  subst hr
  induction rounds with
  | zero => exact .same (a := stalled)
  | succ rounds ih =>
    exact .bind .same fun _ => .branch (.pure rfl) (.bind h fun _ => .bind ih fun _ => .pure rfl)

/-- Rounds of a list decide nothing by what is recorded if one round does not. -/
theorem listed {close : String} {round round' : Parse (Round α)} {rounds rounds' : Nat}
    (h : Projects o m round round') (hr : rounds = rounds') :
    Projects o m (Parse.listed ctx close round rounds)
      (Parse.listed (ctx.widen m) close round' rounds') := by
  subst hr
  induction rounds with
  | zero => exact .same (a := stalled)
  | succ rounds ih =>
    refine .bind .same fun _ => .branch (.pure rfl) (.bind h fun v => ?_)
    cases v with
    | item =>
      exact .bind .same fun _ => .branch (.pure rfl) (.bind .same fun _ => .bind ih fun _ =>
        .pure rfl)
    | hole => exact .bind ih fun _ => .pure rfl
    | last => exact .pure rfl

theorem afterCommas {item item' : Parse α} {rounds rounds' : Nat} (h : Projects o m item item')
    (hr : rounds = rounds') :
    Projects o m (Parse.afterCommas ctx item rounds)
      (Parse.afterCommas (ctx.widen m) item' rounds') := by
  subst hr
  induction rounds with
  | zero => exact .same (a := stalled)
  | succ rounds ih =>
    exact .bind .same fun _ => .branch (.pure rfl) (.bind .same fun _ => .bind h fun _ =>
      .bind ih fun _ => .pure rfl)

theorem iterate {step step' : α → Parse (Option α)} {rounds rounds' : Nat} {v : α}
    (h : ∀ v, Projects o m (step v) (step' (select o v))) (hr : rounds = rounds') :
    Projects o m (Parse.iterate step rounds v) (Parse.iterate step' rounds' (select o v)) := by
  subst hr
  induction rounds generalizing v with
  | zero => exact .same (a := stalled)
  | succ rounds ih =>
    refine .bind (h v) fun w => ?_
    cases w with
    | none => exact .pure rfl
    | some w => exact ih

end Projects

end Parse

/-! ## Productions -/

/-- Productions whose runs project to those of others. -/
structure Productions.Projects (o : Options) (m : Bool) (p p' : Productions) : Prop where
  /-- The bounds of the loops are the same. -/
  rounds : p.rounds = p'.rounds
  expression (ctx : Context) : (p.expression ctx).Projects o m (p'.expression (ctx.widen m))
  assignment (ctx : Context) : (p.assignment ctx).Projects o m (p'.assignment (ctx.widen m))
  cover (ctx : Context) : (p.cover ctx).Projects o m (p'.cover (ctx.widen m))
  binary (least : Nat) (ctx : Context) :
    (p.binary least ctx).Projects o m (p'.binary least (ctx.widen m))
  exponentiation (ctx : Context) :
    (p.exponentiation ctx).Projects o m (p'.exponentiation (ctx.widen m))
  unary (ctx : Context) : (p.unary ctx).Projects o m (p'.unary (ctx.widen m))
  chain (ctx : Context) : (p.chain ctx).Projects o m (p'.chain (ctx.widen m))
  callee (ctx : Context) : (p.callee ctx).Projects o m (p'.callee (ctx.widen m))
  binding (restricted : Fault) (ctx : Context) :
    (p.binding restricted ctx).Projects o m (p'.binding restricted (ctx.widen m))
  statement (ctx : Context) : (p.statement ctx).Projects o m (p'.statement (ctx.widen m))
  item (ctx : Context) : (p.item ctx).Projects o m (p'.item (ctx.widen m))
  markup (start : Position) (lead : String) (after : Mode) (ctx : Context) :
    (p.markup start lead after ctx).Projects o m (p'.markup start lead after (ctx.widen m))

end Verbatim
