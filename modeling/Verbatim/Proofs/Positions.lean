import Verbatim.Parsed
import Verbatim.Proofs.Sites.Statement

/-!
# Positions are a function of the offset

The scanner counts lines and columns as it moves, jumps over some characters without a look at them,
and goes back to places that were saved. Still each position that it hands out is that of its
offset: one line more than end in front of it, and the characters behind the last line end. The
errors of a parse are reported at such positions.

## Main results

* `Verbatim.position_eq_pointAt` — positions of scanners, tokens, comments and errors.
-/

namespace Verbatim

open Verbatim.Text

/-! ## Scanners -/

section

variable {source : String} {s s' : Scanner} {t : Token} {e : SyntaxError}

/-- Both ends of a token are points of the source. -/
theorem Scan.Keeps.ok {action : Scan Token} (h : Keeps source action (·.IsOf source))
    (hs : s.IsOf source) (hrun : action s = .ok t s') : t.IsOf source := by
  have h := h s hs
  rw [hrun] at h
  exact h.2

/-- An error is reported at a point of the source. -/
theorem Scan.Keeps.error {action : Scan Token} (h : Keeps source action (·.IsOf source))
    (hs : s.IsOf source) (hrun : action s = .error e s') : e.site.IsOf source := by
  have h := h s hs
  rw [hrun] at h
  exact h.2

end

/-! ## Parses -/

/-- The parser at the start of a source is in the source, and fails there if there is none. -/
theorem Parser.start_isOf (source : String) (isModule tolerant : Bool) (records : Records) :
    match Parser.start source isModule tolerant records with
    | .ok q => q.IsOf source
    | .error e => e.site.IsOf source := by
  have hstart := Scanner.IsOf.start source isModule records.comments
  have h := Scan.next_keeps source _ hstart
  unfold Parser.start
  cases hrun : Scan.next (Scanner.start source isModule records.comments) with
  | ok t s =>
    rw [hrun] at h
    simp only [hrun]
    exact ⟨h.1, hstart.cursor, h.2, fun _ h => absurd h (Option.not_mem_none _),
      fun _ h => absurd h (Array.not_mem_empty _)⟩
  | error e s =>
    rw [hrun] at h
    simp only [hrun]
    exact e.isOf_label h.2 _

/-- What is reported of an action on a source lies there: the error that ends it, or the errors that
were tolerated. -/
theorem Parse.Sited.onSource {α : Type} {source : String} {action : Parse α}
    (h : action.Sited source fun _ => True) (isModule tolerant : Bool) (records : Records) :
    match (action.onSource source isModule tolerant records).result with
    | .ok (_, last) => ∀ e ∈ last.report.errors, e.site.IsOf source
    | .error e => e.site.IsOf source := by
  have hstart := Parser.start_isOf source isModule tolerant records
  unfold Parse.onSource
  cases hs : Parser.start source isModule tolerant records with
  | error e =>
    rw [hs] at hstart
    exact hstart
  | ok first =>
    rw [hs] at hstart
    have hrun := Meets.run (sites_holds source) h hstart
    cases hend : action.run first with
    | error e last =>
      rw [hend] at hrun
      simp only [hend]
      exact hrun
    | ok value last =>
      rw [hend] at hrun
      simp only [hend]
      obtain ⟨_, hlast, -⟩ := hrun
      exact hlast.errors

/-- The errors of a parse are reported at points of the source. -/
theorem parse_isOf (o : Options) (source : String) :
    match parse o source with
    | .ok out => ∀ e ∈ out.errors, e.site.IsOf source
    | .error e => e.site.IsOf source := by
  have hp : (Productions.ofDepth (source.length + 3)).Sited source := .ofDepth _
  have h := (Parse.Sited.program hp o.goal o.jsx).onSource (decide (o.goal = .module)) o.tolerant
    o.records
  unfold parse Outcome.parsed
  cases hres : (outcomeOf o.goal o.tolerant o.jsx source o.records).result with
  | error e =>
    rw [outcomeOf, Productions.forSource] at hres
    rw [hres] at h
    exact h
  | ok out =>
    rw [outcomeOf, Productions.forSource] at hres
    rw [hres] at h
    exact fun e he => h e (Array.mem_toList_iff.1 he)

/-- So is the error of a parse of an expression. -/
theorem parseExpression_isOf {o : Options} {source : String} {e : SyntaxError}
    (h : parseExpression o source = .error e) : e.site.IsOf source := by
  have hp : (Productions.ofDepth (source.length + 3)).Sited source := .ofDepth _
  have hsited := (hp.expression (.start o.goal o.jsx)).onSource o.isModule o.tolerant o.records
  unfold parseExpression at h
  dsimp only [Productions.forSource] at h
  cases hres : (Parse.onSource ((Productions.ofDepth (source.length + 3)).expression
      (.start o.goal o.jsx)) source o.isModule o.tolerant o.records).result with
  | ok v =>
    rw [hres] at h
    cases h
  | error thrown =>
    rw [hres] at h hsited
    obtain rfl := Except.error.inj h
    exact hsited

/-- Positions are a function of the offset. Whatever operations lead to a scanner, it stands at the
point of its offset, so do both ends of the tokens that it hands out and of the comments that it
keeps, and its errors are reported at points of the source. So are the errors that end a parse, and
those that it tolerates. Lines and columns are counted in thirty-two bits, which is exact unless the
source has more characters than that. -/
theorem position_eq_pointAt (source : String) :
    (∀ isModule keepsComments s saved, Scanner.Reaches source isModule keepsComments s saved →
      s.cursor.position.IsOf source ∧ (∀ comment ∈ s.comments, comment.span.IsOf source) ∧
      (∀ t s', Scan.next s = .ok t s' → t.IsOf source) ∧
      (∀ t s', Scan.nextRegex s = .ok t s' → t.IsOf source) ∧
      (∀ e s', Scan.next s = .error e s' → e.site.IsOf source) ∧
      (∀ e s', Scan.nextRegex s = .error e s' → e.site.IsOf source)) ∧
    (∀ o e, parse o source = .error e → e.site.IsOf source) ∧
    (∀ o out, parse o source = .ok out → ∀ e ∈ out.errors, e.site.IsOf source) ∧
    (∀ o e, parseExpression o source = .error e → e.site.IsOf source) ∧
    (source.length + 1 < UInt32.size → ∀ offset,
      (pointAt source offset).line =
        1 + linesWithin source.toList (charsWithin offset source.toList) ∧
      (pointAt source offset).column =
        columnWithin source.toList (charsWithin offset source.toList) ∧
      (pointAt source offset).site.column =
        columnWithin source.toList (charsWithin offset source.toList) + 1) := by
  refine ⟨fun isModule keepsComments s saved hs => ?_, fun o e he => ?_, fun o out ho => ?_,
    fun o e he => parseExpression_isOf he, fun h offset => pointAt_exact h offset⟩
  · obtain ⟨hs, -⟩ := hs.isOf
    have hnext := Scan.next_keeps source
    have hregex := Scan.nextRegex_keeps source
    exact ⟨hs.cursor.position, hs.comments, fun _ _ h => hnext.ok hs h, fun _ _ h => hregex.ok hs h,
      fun _ _ h => hnext.error hs h, fun _ _ h => hregex.error hs h⟩
  · have h := parse_isOf o source
    rw [he] at h
    exact h
  · have h := parse_isOf o source
    rw [ho] at h
    exact h

/-- An error behind a comment over two lines, the sign that opens a substitution and the prefix of a
numeral, each of which is jumped over, and the scanner behind the first token. -/
theorem position_eq_pointAt_second_line : ∃ e,
    parse {} "/*a\r\n*/\x60$\x7b0x1F\x7d\x60 )" = .error e ∧
    e.site = ⟨17, 2, 13⟩ ∧ e.site.IsOf "/*a\r\n*/\x60$\x7b0x1F\x7d\x60 )" ∧
    ((Scanner.start "/*a\r\n*/\x60$\x7b0x1F\x7d\x60 )" false true).after
      Scan.next).cursor.position.IsOf "/*a\r\n*/\x60$\x7b0x1F\x7d\x60 )" ∧
    (pointAt "/*a\r\n*/\x60$\x7b0x1F\x7d\x60 )" 17).column = 12 := by
  obtain ⟨h, hparse, -, -, hexact⟩ := position_eq_pointAt "/*a\r\n*/\x60$\x7b0x1F\x7d\x60 )"
  have hsite : (match parse {} "/*a\r\n*/\x60$\x7b0x1F\x7d\x60 )" with
      | .ok _ => none
      | .error e => some e.site) = some ⟨17, 2, 13⟩ := by decide +kernel
  obtain ⟨e, he, hsite⟩ : ∃ e, parse {} "/*a\r\n*/\x60$\x7b0x1F\x7d\x60 )" = .error e ∧
      e.site = ⟨17, 2, 13⟩ := by
    split at hsite
    · cases hsite
    · exact ⟨_, ‹_›, Option.some.inj hsite⟩
  have hcolumn := (hexact (by decide +kernel) 17).2.1
  exact ⟨e, he, hsite, hparse _ e he, (h false true _ [] (.next .start)).1,
    hcolumn.trans (by decide +kernel)⟩

end Verbatim
