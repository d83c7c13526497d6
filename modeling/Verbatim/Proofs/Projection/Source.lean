import Verbatim.Parsed
import Verbatim.Proofs.Projection.Statement

/-!
# A parse is the image of the complete parse

What a run over a whole source leaves that records what the options ask for is the image of what
the complete run leaves, and so is what is handed out. The results on parses are proved of the
complete run and taken over with this.

## Main definitions

* `Verbatim.Outcome.project` — what the options select of what a complete run leaves.

## Main results

* `Verbatim.parse_eq_select`, `Verbatim.parseNodes_eq_select` — parses hand out what the options
  select of the complete run.
* `Verbatim.parse_withMarkup` — allowing markup changes no result of a parse that ends well.
-/

namespace Verbatim

/-- A parser that records what the options ask for starts as the image of one that records
everything. -/
theorem Parser.start_select (o : Options) (source : String) (isModule tolerant : Bool) :
    start source isModule tolerant o.records =
      match start source isModule tolerant with
      | .ok first => .ok (first.select o)
      | .error e => .error (e.label o.source) := by
  have hscanner : Scanner.start source isModule o.comments =
      (Scanner.start source isModule true).select o := by
    unfold Scanner.select
    cases o.comments <;> rfl
  have hsave : (Scanner.start source isModule o.comments).save =
      (Scanner.start source isModule true).save.select o := by
    rw [hscanner, Scanner.save_select]
  have hnext := Scan.next_select o (Scanner.start source isModule true)
  rw [← hscanner] at hnext
  unfold start
  dsimp only
  rw [show o.records.comments = o.comments from rfl, hnext]
  cases Scan.next (Scanner.start source isModule true) with
  | ok t s =>
    have htokens : (if o.tokens then (#[] : Array TokenRecord).map
      (·.select o) else #[]) = #[] := by
      cases o.tokens <;> simp
    change Except.ok (Parser.mk ..) = .ok (Parser.mk ..)
    rw [hsave, htokens]
    simp [Options.records]
  | error e s => exact congrArg Except.error (e.label_label _).symm

/-- A parser starts by recording what it is asked to. -/
theorem Parser.start_records {source : String} {isModule tolerant : Bool} {records : Records}
    {first : Parser} (h : start source isModule tolerant records = .ok first) :
    first.records = records ∧ first.report.source = records.source := by
  unfold start at h
  dsimp only at h
  split at h <;> cases h
  exact ⟨rfl, rfl⟩

section

variable {α : Type} [Selects α]

/-- What the options select of what a complete run leaves. -/
def Outcome.project (o : Options) (outcome : Outcome α) : Outcome α where
  nodes := outcome.nodes.map (·.select o)
  result :=
    match outcome.result with
    | .ok (value, last) => .ok (Selects.select o value, last.select o)
    | .error error => .error (error.label o.source)

/-- An action that projects to another one leaves the image of what that one leaves. -/
theorem Parse.Projects.onSource {o : Options} {m : Bool} {a b : Parse α} (h : a.Projects o m b)
    (source : String) (isModule tolerant : Bool) :
    b.onSource source isModule tolerant o.records =
        (a.onSource source isModule tolerant).project o ∨
      m = true ∧ ∃ e, (a.onSource source isModule tolerant).result = .error e := by
  unfold Parse.onSource
  rw [Parser.start_select]
  cases hstart : Parser.start source isModule tolerant with
  | error e => simp [Outcome.project]
  | ok first =>
    dsimp only
    obtain ⟨hrecords, hlabel⟩ := Parser.start_records hstart
    rcases h first hrecords hlabel with ⟨hrun, -⟩ | ⟨hm, e, q, he⟩
    · rw [hrun]
      cases a.run first <;> exact .inl rfl
    · rw [he]
      exact .inr ⟨hm, e, rfl⟩

/-- An action that projects to itself, where a part is recorded. -/
theorem Parse.Projects.onSource_eq {o : Options} {a b : Parse α} (h : a.Projects o false b)
    (source : String) (isModule tolerant : Bool) :
    b.onSource source isModule tolerant o.records =
      (a.onSource source isModule tolerant).project o :=
  (h.onSource source isModule tolerant).resolve_right fun h => Bool.false_ne_true h.1

end

/-- What the options hand out at the end of the image of a complete parse. -/
theorem Parsed.of_select (o : Options) (program : Program) (last : Parser) :
    Parsed.of (Selects.select o program) (last.select o) = .select o program last := by
  have herrors : (last.report.errors.map (·.label o.source)).toList =
      last.report.errors.toList.map (·.label o.source) := Array.toList_map
  have hcomments : (if o.comments then some (last.scanner.select o).comments.toList else none) =
      if o.comments then some last.scanner.comments.toList else none := by
    unfold Scanner.select
    cases o.comments <;> rfl
  have htokens : (if o.tokens then some
        (if o.tokens then last.tokens.map (·.select o) else #[]).toList else none) =
      if o.tokens then some (last.tokens.toList.map (·.select o)) else none := by
    cases o.tokens with
    | true => exact congrArg some Array.toList_map
    | false => rfl
  change Parsed.mk .. = Parsed.mk ..
  exact congr (congr (congrArg (Parsed.mk _) herrors) htokens) hcomments

/-- What is handed out at the end of the image of a complete run. -/
theorem Outcome.parsed_project (o : Options) (outcome : Outcome Program) :
    (outcome.project o).parsed = outcome.select o := by
  unfold project parsed select
  cases outcome.result with
  | error e => rfl
  | ok v => exact congrArg Except.ok (Parsed.of_select o v.1 v.2)

variable (o : Options) (source : String)

/-- A run over a whole source leaves the image of what the complete run leaves. -/
theorem outcomeOf_records : outcomeOf o.goal o.tolerant o.jsx source o.records =
    (outcomeOf o.goal o.tolerant o.jsx source).project o := by
  have hprojects := Grammar.program_projects o false source o.goal o.jsx
  rw [Bool.or_false] at hprojects
  exact hprojects.onSource_eq source (o.goal = .module) o.tolerant

/-- A parse hands out what the options select of the complete run. -/
theorem parse_eq_select :
    parse o source = (outcomeOf o.goal o.tolerant o.jsx source).select o := by
  rw [parse, outcomeOf_records, Outcome.parsed_project]

/-- A parse that ends well hands out what the options select of a complete run that does. -/
theorem exists_complete_run {o : Options} {source : String} {out : Parsed}
    (h : parse o source = .ok out) : ∃ first program last,
      Parser.start source (o.goal = .module) o.tolerant = .ok first ∧
        (Grammar.program (.forSource source) o.goal o.jsx).run first = .ok program last ∧
        out = .select o program last := by
  rw [parse_eq_select, Outcome.select, outcomeOf, Parse.onSource] at h
  cases hstart : Parser.start source (o.goal = .module) o.tolerant with
  | error e =>
    simp only [hstart] at h
    cases h
  | ok first =>
    simp only [hstart] at h
    cases hrun : (Grammar.program (.forSource source) o.goal o.jsx).run first with
    | error e last =>
      simp only [hrun] at h
      cases h
    | ok program last =>
      simp only [hrun] at h
      cases h
      exact ⟨first, program, last, rfl, hrun, rfl⟩

/-- The nodes of a parse are those of the complete run, with what the options select of the
extents. -/
theorem parseNodes_eq_select : parseNodes o source =
    ((outcomeOf o.goal o.tolerant o.jsx source).nodes.toList.map (·.select o),
      (outcomeOf o.goal o.tolerant o.jsx source).select o) := by
  unfold parseNodes
  rw [outcomeOf_records]
  exact Prod.ext Array.toList_map (Outcome.parsed_project o _)

/-! ## Allowing markup -/

/-- A source that is accepted without markup is accepted with it, with the same result. -/
theorem parse_withMarkup {out : Parsed} (h : parse { o with jsx := false } source = .ok out) :
    parse { o with jsx := true } source = .ok out := by
  have hprojects := (Grammar.program_projects o true source o.goal false).onSource source
    (o.goal = .module) o.tolerant
  rw [parse_eq_select] at h
  have hoff : (outcomeOf o.goal o.tolerant false source).select o = .ok out := h
  rcases hprojects with heq | ⟨-, e, he⟩
  · have hon : outcomeOf o.goal o.tolerant true source o.records =
        (outcomeOf o.goal o.tolerant false source).project o := heq
    change (outcomeOf o.goal o.tolerant true source o.records).parsed = .ok out
    rw [hon, Outcome.parsed_project, hoff]
  · have he : (outcomeOf o.goal o.tolerant false source).result = .error e := he
    rw [Outcome.select, he] at hoff
    cases hoff

end Verbatim
