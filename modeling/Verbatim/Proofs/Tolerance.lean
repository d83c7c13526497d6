import Verbatim.Parsed

/-!
# Tolerance

A parse that tolerates faults goes the same way as one that does not up to the first fault that may
be survived. There the latter ends, and the former records the fault and never forgets it. So
tolerance accepts more sources and changes nothing on the others.

All of this is induction over actions, from how single requests are answered: only the request to
survive a fault looks at the record of faults.

## Main definitions

* `Verbatim.Parser.withReport` — the same parser with another record of faults.
* `Verbatim.Compares` — a run without tolerance beside the same run with it.

## Main results

* `Verbatim.Parser.answer_withReport` — other requests do not depend on the record of faults.
* `Verbatim.Parse.run_keeps` — recorded faults are kept, in order.
* `Verbatim.Parse.compares` — every action compares with itself.
* `Verbatim.parse_ok_iff_tolerant` — tolerance accepts more sources and changes nothing on the
  others.
* `Verbatim.parse_thrown_of_recorded` — what a parse without tolerance ends with where faults are
  recorded.
-/

namespace Verbatim

/-! ## The record of faults -/

/-- The same parser with another record of faults. -/
def Parser.withReport (p : Parser) (report : Report) : Parser := { p with report }

/-- The same end of a run with another record of faults. -/
def endWith {α : Type} (report : Report) :
    EStateM.Result SyntaxError Parser α → EStateM.Result SyntaxError Parser α
  | .ok value p => .ok value (p.withReport report)
  | .error error p => .error error (p.withReport report)

/-- The parser at the end of a run. -/
def endOf {α : Type} : EStateM.Result SyntaxError Parser α → Parser
  | .ok _ p => p
  | .error _ p => p

/-- Whether a request asks to survive a fault. -/
def Request.isTolerate : Request → Bool
  | .tolerate .. => true
  | _ => false

/-- Scanning does not depend on the record of faults. -/
theorem Parser.scan_withReport {α : Type} (action : Scan α) (p : Parser) {report : Report}
    (hs : report.source = p.report.source) :
    scan action (p.withReport report) = endWith report (scan action p) := by
  have hscanner : (p.withReport report).scanner = p.scanner := rfl
  have hlabel : (p.withReport report).report.source = p.report.source := hs
  unfold scan
  rw [hscanner, hlabel]
  cases action p.scanner <;> rfl

theorem Parser.rescanWith_withReport (action : Scan Token) (p : Parser) {report : Report}
    (hs : report.source = p.report.source) :
    rescanWith action (p.withReport report) = endWith report (rescanWith action p) := by
  let back (q : Parser) : Parser := { q with scanner := q.scanner.restore q.before }
  have hrun : ∀ q : Parser, rescanWith action q =
      EStateM.bind (scan action) (fun lookahead => modify ({ · with lookahead })) (back q) :=
    fun _ => rfl
  rw [hrun, hrun, show back (p.withReport report) = (back p).withReport report from rfl]
  unfold EStateM.bind
  rw [scan_withReport action (back p) hs]
  cases scan action (back p) <;> rfl

/-- Requests other than the one to survive a fault depend on nothing of the record of faults but the
label, and leave it as it is. -/
theorem Parser.answer_withReport {request : Request} (h : request.isTolerate = false)
    (p : Parser) {report : Report} (hs : report.source = p.report.source) :
    answer request (p.withReport report) = endWith report (answer request p) := by
  cases request with
  | tolerate => cases h
  | look => rfl
  | lastEnd => rfl
  | pending => rfl
  | setPending => rfl
  | span => rfl
  | finish => rfl
  | fail error => exact congrArg (fun source => EStateM.Result.error (error.label source) _) hs
  | setMode mode => exact scan_withReport (Scan.setMode mode) p hs
  | rescan => exact rescanWith_withReport Scan.next p hs
  | rescanRegex => exact rescanWith_withReport Scan.nextRegex p hs
  | next =>
    change EStateM.bind (scan Scan.next) _ (p.withReport report) =
      endWith report (EStateM.bind (scan Scan.next) _ p)
    unfold EStateM.bind
    rw [scan_withReport Scan.next p hs]
    cases scan Scan.next p <;> rfl
  | peek =>
    have hscanner : (p.withReport report).scanner = p.scanner := rfl
    have hlabel : (p.withReport report).report.source = p.report.source := hs
    change peek _ = endWith report (peek p)
    unfold peek
    rw [hscanner, hlabel]
    cases Scan.next p.scanner <;> rfl

/-- Requests other than the one to survive a fault leave the record of faults as it is. -/
theorem Parser.report_answer {request : Request} (h : request.isTolerate = false) (p : Parser) :
    (endOf (answer request p)).report = p.report := by
  have hsame := answer_withReport h p (show p.report.source = p.report.source from rfl)
  rw [show p.withReport p.report = p from rfl] at hsame
  rw [hsame]
  cases answer request p <;> rfl

/-- A parser that tolerates faults records the fault that it is asked to survive. -/
theorem Parser.answer_tolerate {finder : Finder} {fault : Fault} {site : Site} {p : Parser}
    (h : p.report.tolerant = true) :
    answer (.tolerate finder fault site) p =
      .ok () (p.withReport { p.report with
        errors := p.report.errors.push
          ((Finder.recorded fault site).label p.report.source) }) := by
  change Parser.tolerate _ _ p = _
  unfold Parser.tolerate Report.tolerate
  rw [if_pos h]
  rfl

/-- A parser that does not tolerate faults ends at the fault that it is asked to survive. -/
theorem Parser.answer_tolerate_error {finder : Finder} {fault : Fault} {site : Site} {p : Parser}
    (h : p.report.tolerant = false) :
    answer (.tolerate finder fault site) p =
      .error ((finder.thrown fault site).label p.report.source) p := by
  change Parser.tolerate _ _ p = _
  unfold Parser.tolerate Report.tolerate
  rw [if_neg (by rw [h]; decide)]

/-! ## Recorded faults are kept -/

/-- Every request keeps the recorded faults, and whether faults are tolerated. -/
theorem Parser.answer_keeps (request : Request) (p : Parser) :
    (endOf (answer request p)).report.tolerant = p.report.tolerant ∧
      p.report.errors.toList <+: (endOf (answer request p)).report.errors.toList := by
  cases hr : request.isTolerate with
  | false =>
    rw [report_answer hr]
    exact ⟨rfl, List.prefix_refl _⟩
  | true =>
    cases request with
    | tolerate finder fault site =>
      cases ht : p.report.tolerant with
      | true =>
        rw [answer_tolerate ht]
        exact ⟨ht, by simp [endOf, withReport]⟩
      | false =>
        rw [answer_tolerate_error ht]
        exact ⟨ht, List.prefix_refl _⟩
    | _ => cases hr

/-- Every run keeps the recorded faults, and whether faults are tolerated. -/
theorem Parse.run_keeps {α : Type} (action : Parse α) (p : Parser) :
    (endOf (action.run p)).report.tolerant = p.report.tolerant ∧
      p.report.errors.toList <+: (endOf (action.run p)).report.errors.toList := by
  induction action generalizing p with
  | done value => exact ⟨rfl, List.prefix_refl _⟩
  | ask request => exact Parser.answer_keeps request p
  | andThen first resume ihFirst ihResume =>
    obtain ⟨ht, he⟩ := ihFirst p
    change (endOf ((first >>= resume).run p)).report.tolerant = _ ∧
      _ <+: (endOf ((first >>= resume).run p)).report.errors.toList
    rw [run_bind]
    cases hrun : first.run p with
    | error e q =>
      rw [hrun] at ht he
      exact ⟨ht, he⟩
    | ok value q =>
      rw [hrun] at ht he
      obtain ⟨ht', he'⟩ := ihResume value q
      exact ⟨ht'.trans ht, he.trans he'⟩

/-! ## Two runs -/

/-- The same parser, tolerating faults. -/
def Parser.lenient (p : Parser) : Parser := p.withReport { p.report with tolerant := true }

/-- A run without tolerance, from a parser `p`, beside the same run with it. -/
inductive Compares {α : Type} (p : Parser) :
    EStateM.Result SyntaxError Parser α → EStateM.Result SyntaxError Parser α → Prop where
  /-- Neither meets a fault, and both have the same value. -/
  | ok (value : α) (q : Parser) (report : q.report = p.report) :
      Compares p (.ok value q) (.ok value q.lenient)
  /-- Neither meets a fault that may be survived, and both fail in the same way. -/
  | failed (error : SyntaxError) (q : Parser) : Compares p (.error error q) (.error error q.lenient)
  /-- One ends at a fault that may be survived, and the other records it before any other. -/
  | survived (source : Option String) (finder : Finder) (fault : Fault) (site : Site) (q : Parser)
      (result : EStateM.Result SyntaxError Parser α)
      (recorded : p.report.errors.toList ++ [(Finder.recorded fault site).label source] <+:
        (endOf result).report.errors.toList) :
      Compares p (.error ((finder.thrown fault site).label source) q) result

/-- A request is answered alike whether faults are tolerated or not, up to the first of them. -/
theorem Parser.answer_compares (request : Request) {p : Parser}
    (h : p.report.tolerant = false) :
    Compares p (answer request p) (answer request p.lenient) := by
  cases hr : request.isTolerate with
  | false =>
    have hlenient := answer_withReport hr p
      (show ({ p.report with tolerant := true } : Report).source = p.report.source from rfl)
    have hreport := report_answer hr p
    rw [show p.lenient = p.withReport _ from rfl, hlenient]
    cases hrun : answer request p with
    | ok value q =>
      rw [hrun] at hreport
      have hq : q.lenient = q.withReport { p.report with tolerant := true } := by
        rw [lenient, show q.report = p.report from hreport]
      change Compares p _ (.ok value (q.withReport _))
      rw [← hq]
      exact .ok value q hreport
    | error e q =>
      rw [hrun] at hreport
      have hq : q.lenient = q.withReport { p.report with tolerant := true } := by
        rw [lenient, show q.report = p.report from hreport]
      change Compares p _ (.error e (q.withReport _))
      rw [← hq]
      exact .failed e q
  | true =>
    cases request with
    | tolerate finder fault site =>
      rw [answer_tolerate_error h, answer_tolerate rfl]
      refine .survived p.report.source finder fault site p _ ?_
      simp [endOf, withReport, lenient]
    | _ => cases hr

/-- Every action without tolerance compares with itself with tolerance. -/
theorem Parse.compares {α : Type} (action : Parse α) {p : Parser}
    (h : p.report.tolerant = false) : Compares p (action.run p) (action.run p.lenient) := by
  induction action generalizing p with
  | done value => exact .ok value p rfl
  | ask request => exact Parser.answer_compares request h
  | andThen first resume ihFirst ihResume =>
    change Compares p ((first >>= resume).run p) ((first >>= resume).run p.lenient)
    rw [run_bind, run_bind]
    have hfirst := ihFirst h
    generalize first.run p = strict at hfirst
    generalize first.run p.lenient = lenient at hfirst
    cases hfirst with
    | failed e q => exact .failed e q
    | ok value q hreport =>
      have hresume := ihResume value (p := q) (by rw [hreport, h])
      change Compares p ((resume value).run q) ((resume value).run q.lenient)
      generalize (resume value).run q = strict at hresume
      generalize (resume value).run q.lenient = lenient at hresume
      cases hresume with
      | ok value r hr => exact .ok value r (hr.trans hreport)
      | failed e r => exact .failed e r
      | survived label finder fault site r result hrec =>
        exact .survived label finder fault site r lenient (hreport ▸ hrec)
    | survived label finder fault site q result hrec =>
      -- The first part already recorded the fault, and what follows keeps it.
      refine .survived label finder fault site q _ (hrec.trans ?_)
      cases lenient with
      | error e r => exact List.prefix_refl _
      | ok value r => exact (run_keeps (resume value) r).2

/-! ## Two parses -/

/-- What a parse without tolerance gives, beside the same parse with it. -/
inductive Outcomes : Except SyntaxError Parsed → Except SyntaxError Parsed → Prop where
  /-- Both succeed without faults. -/
  | ok (out : Parsed) (clean : out.errors = []) : Outcomes (.ok out) (.ok out)
  /-- Both fail in the same way. -/
  | failed (error : SyntaxError) : Outcomes (.error error) (.error error)
  /-- One fails at a fault, and the other fails later. -/
  | later (error error' : SyntaxError) : Outcomes (.error error) (.error error')
  /-- One fails at a fault, and the other records it first. -/
  | survived (source : Option String) (finder : Finder) (fault : Fault) (site : Site) (out : Parsed)
      (rest : List SyntaxError)
      (recorded : out.errors = (Finder.recorded fault site).label source :: rest) :
      Outcomes (.error ((finder.thrown fault site).label source)) (.ok out)

/-- A parser at the start of a source differs only in whether it tolerates faults. -/
theorem Parser.start_tolerant (source : String) (isModule : Bool) (records : Records) :
    (∃ e, start source isModule false records = .error e ∧
        start source isModule true records = .error e) ∨
      ∃ p, start source isModule false records = .ok p ∧
        start source isModule true records = .ok p.lenient ∧ p.report.tolerant = false ∧
        p.report.errors = #[] := by
  unfold start
  dsimp only
  cases Scan.next (Scanner.start source isModule records.comments) with
  | error e s => exact .inl ⟨_, rfl, rfl⟩
  | ok t s => exact .inr ⟨_, rfl, rfl, rfl, rfl⟩

/-- Every parse without tolerance, beside the same parse with it. -/
theorem parse_outcomes (o : Options) (source : String) :
    Outcomes (parse { o with tolerant := false } source)
      (parse { o with tolerant := true } source) := by
  have hrecords (tolerant : Bool) : ({ o with tolerant } : Options).records = o.records := rfl
  unfold parse outcomeOf Parse.onSource
  rw [hrecords false, hrecords true]
  obtain ⟨e, hstrict, hlenient⟩ | ⟨p, hstrict, hlenient, ht, he⟩ :=
    Parser.start_tolerant source (o.goal = .module) o.records
  · simp only [hstrict, hlenient]
    exact .failed _
  · simp only [hstrict, hlenient]
    have hcompare := (Grammar.program (.forSource source) o.goal o.jsx).compares
      (p := p) ht
    generalize (Grammar.program (.forSource source) o.goal o.jsx).run p = strict at hcompare
    generalize (Grammar.program (.forSource source) o.goal o.jsx).run p.lenient =
      lenient at hcompare
    cases hcompare with
    | ok program q hreport =>
      change Outcomes (.ok (.of program q)) (.ok (.of program q))
      refine .ok _ ?_
      change q.report.errors.toList = []
      rw [hreport, he]
    | failed e q => exact .failed _
    | survived label finder fault site q result hrec =>
      cases lenient with
      | error e r => exact .later _ _
      | ok program r =>
        obtain ⟨rest, hrest⟩ := hrec
        change Outcomes (.error ((finder.thrown fault site).label label)) (.ok (.of program r))
        refine .survived label finder fault site _ rest ?_
        change r.report.errors.toList = _
        rw [show r.report.errors.toList = _ from hrest.symm, he]
        rfl

/-- A parse without tolerance succeeds with exactly the results that a parse with tolerance has
without recording a fault, and fails wherever a parse with tolerance fails. -/
theorem parse_ok_iff_tolerant (o : Options) (source : String) :
    (∀ out, parse { o with tolerant := false } source = .ok out ↔
      parse { o with tolerant := true } source = .ok out ∧ out.errors = []) ∧
    ∀ e, parse { o with tolerant := true } source = .error e →
      ∃ e', parse { o with tolerant := false } source = .error e' := by
  have houtcomes := parse_outcomes o source
  generalize parse { o with tolerant := false } source = strict at houtcomes
  generalize parse { o with tolerant := true } source = lenient at houtcomes
  cases houtcomes with
  | ok out clean =>
    refine ⟨fun out' => ⟨?_, And.left⟩, fun e he => ?_⟩
    · rintro ⟨⟩
      exact ⟨rfl, clean⟩
    · cases he
  | failed e => exact ⟨fun out => ⟨nofun, fun h => absurd h.1 nofun⟩, fun _ _ => ⟨e, rfl⟩⟩
  | later e e' => exact ⟨fun out => ⟨nofun, fun h => absurd h.1 nofun⟩, fun _ _ => ⟨e, rfl⟩⟩
  | survived source finder fault site out rest recorded =>
    refine ⟨fun out' => ⟨nofun, ?_⟩, fun e he => ?_⟩
    · rintro ⟨⟨⟩, clean⟩
      rw [recorded] at clean
      cases clean
    · cases he

/-- A call is read with tolerance and without, a `with` in strict code is survived with tolerance
only, and a group without end is no program in either case. -/
theorem parse_strict_with_tolerant :
    (∃ out, parse { tolerant := false } "f(a, b)" = .ok out ∧
        parse { tolerant := true } "f(a, b)" = .ok out ∧ out.errors = []) ∧
      (∃ out, parse { tolerant := true } "\x27use strict\x27;with(a)b" = .ok out ∧ out.errors ≠ [] ∧
        parse { tolerant := false } "\x27use strict\x27;with(a)b" ≠ .ok out) ∧
      (∃ e, parse { tolerant := true } "(" = .error e) ∧
        ∃ e, parse { tolerant := false } "(" = .error e := by
  refine ⟨?_, ?_, ?_⟩
  · have hreads : (parse { tolerant := false } "f(a, b)").isOk = true := by decide +kernel
    cases h : parse { tolerant := false } "f(a, b)" with
    | ok out => exact ⟨out, rfl, ((parse_ok_iff_tolerant {} "f(a, b)").1 out).1 h⟩
    | error e =>
      rw [h] at hreads
      cases hreads
  · have hrecords : (parse { tolerant := true } "\x27use strict\x27;with(a)b").toOption.map
        (·.errors.length) = some 1 := by decide +kernel
    cases h : parse { tolerant := true } "\x27use strict\x27;with(a)b" with
    | ok out =>
      rw [h] at hrecords
      have herrors : out.errors ≠ [] := fun hnone => by
        rw [show (Except.ok out : Except SyntaxError Parsed).toOption = some out from rfl,
          Option.map_some, hnone] at hrecords
        cases hrecords
      exact ⟨out, rfl, herrors, fun hok =>
        herrors (((parse_ok_iff_tolerant {} "\x27use strict\x27;with(a)b").1 out).1 hok).2⟩
    | error e =>
      rw [h] at hrecords
      cases hrecords
  · have hfails : (parse { tolerant := true } "(").toOption = none := by decide +kernel
    cases h : parse { tolerant := true } "(" with
    | ok out =>
      rw [h] at hfails
      cases hfails
    | error e => exact ⟨⟨e, rfl⟩, (parse_ok_iff_tolerant {} "(").2 e h⟩

/-- Where a parse with tolerance records faults, a parse without it fails at the place of the first
of them, and with that very error unless it was found while a group was turned into parameters. Then
the group as a whole is malformed. -/
theorem parse_thrown_of_recorded (o : Options) (source : String) (out : Parsed)
    (first : SyntaxError) (rest : List SyntaxError)
    (h : parse { o with tolerant := true } source = .ok out) (hfirst : out.errors = first :: rest) :
    ∃ e, parse { o with tolerant := false } source = .error e ∧
      (e = first ∨ e = { first with stage := .coverGrammar, fault := .malformedParameters }) := by
  have houtcomes := parse_outcomes o source
  rw [h] at houtcomes
  generalize parse { o with tolerant := false } source = strict at houtcomes
  cases houtcomes with
  | ok _ clean =>
    rw [clean] at hfirst
    cases hfirst
  | survived source finder fault site out rest' recorded =>
    rw [recorded] at hfirst
    cases hfirst
    refine ⟨_, rfl, ?_⟩
    cases finder with
    | grammar => exact .inl rfl
    | parameters => exact .inr rfl

/-- A parameter of an arrow function that strict code must not have: the fault that is recorded is
not the error that a parse without tolerance fails with. -/
theorem parse_thrown_ne_recorded :
    (parse { tolerant := true } "\x27use strict\x27;(eval)=>1").toOption.bind (·.errors.head?) =
        some ⟨.grammar, .strictParameterName, ⟨13, 1, 14⟩, none⟩ ∧
      (match parse { tolerant := false } "\x27use strict\x27;(eval)=>1" with
        | .ok _ => none
        | .error e => some e) =
        some ⟨.coverGrammar, .malformedParameters, ⟨13, 1, 14⟩, none⟩ := by
  decide +kernel

end Verbatim
