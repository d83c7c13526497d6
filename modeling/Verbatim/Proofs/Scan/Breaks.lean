import Verbatim.Proofs.Scan.Places
import Verbatim.Proofs.Scan.Scanned

/-!
# Line breaks in front of tokens

A token tells whether a line ends in front of it. The scanner finds that out piece by piece while it
passes over trivia, and never looks at the trivia again. What it tells is what the trivia shows:
wherever the scanner was led, the flag is set exactly if there is a line terminator in the trivia,
in a comment or not. Trivia and spelling together are the text that the scanner moved over.

## Main definitions

* `Verbatim.IsTextBetween` — the text of a source between two offsets.
* `Verbatim.Scanner.Reachable` — the scanners that operations lead to, comments taken or not.

## Main results

* `Verbatim.Lead.any_endsLine` — pieces end a line exactly if their characters do.
* `Verbatim.Scanner.Reachable.newlineBefore_iff` — the flag of a token is exact.
-/

namespace Verbatim

open Verbatim.Text

/-! ## Pieces of trivia -/

/-- White space within a line ends none. -/
theorem Text.isLineTerminator_of_isBlank {c : Char} (h : isBlank c = true) :
    isLineTerminator c = false := by
  refine Bool.eq_false_iff.2 fun hl => ?_
  simp only [isLineTerminator, Bool.or_eq_true, beq_iff_eq] at hl
  rcases hl with ((rfl | rfl) | rfl) | rfl <;> exact absurd h (by decide)

/-- A piece ends a line exactly if there is a line terminator in it. -/
theorem Trivium.Before.any_chars {piece : Trivium} {rest : List Char} (h : piece.Before rest) :
    piece.chars.any isLineTerminator = piece.endsLine := by
  cases h with
  | blank h =>
    change (isLineTerminator _ || false) = false
    rw [isLineTerminator_of_isBlank h]
    rfl
  | lineEnd h =>
    change (isLineTerminator _ || false) = true
    rw [h]
    rfl
  | crlf => rfl
  | @line opening body _ ho h =>
    have hopening : opening.toList.any isLineTerminator = false := by
      simp only [List.mem_cons, List.not_mem_nil, or_false] at ho
      rcases ho with rfl | rfl | rfl <;> rfl
    simp [chars, endsLine, hopening]
  | block => simp [chars, endsLine, isLineTerminator]

theorem Gap.any_endsLine {html fresh : Bool} {chars rest : List Char} {pieces : List Trivium}
    (h : Gap html fresh chars pieces rest) :
    pieces.any Trivium.endsLine = (pieces.flatMap Trivium.chars).any isLineTerminator := by
  induction h with
  | nil => rfl
  | cons h _ ih =>
    rw [List.any_cons, List.flatMap_cons, List.any_append, ih, (Front.of_eq_piece h).2.any_chars]

/-- Pieces of trivia end a line exactly if there is a line terminator in them. -/
theorem Lead.any_endsLine {html atStart : Bool} {chars rest : List Char} {pieces : List Trivium}
    (h : Lead html atStart chars pieces rest) :
    pieces.any Trivium.endsLine = (pieces.flatMap Trivium.chars).any isLineTerminator := by
  cases h with
  | plain _ hg => exact hg.any_endsLine
  | interpreter hg =>
    rw [List.any_cons, List.flatMap_cons, List.any_append, hg.any_endsLine]
    simp [Trivium.chars, Trivium.endsLine, isLineTerminator]

/-! ## Finds -/

namespace Find

variable {f : Find} {s : Scanner}

/-- The flag of a token shows whether its trivia has a line terminator. -/
theorem newlineBefore_eq (h : f.pieces.any Trivium.endsLine = f.lead.any isLineTerminator) :
    (f.token s).newlineBefore = (f.token s).lead.toList.any isLineTerminator := by
  change f.pieces.any Trivium.endsLine = (String.ofList f.lead).toList.any isLineTerminator
  rw [String.toList_ofList, h]

theorem Next.any_endsLine (h : f.Next s) :
    f.pieces.any Trivium.endsLine = f.lead.any isLineTerminator := by
  have htrivia := h.trivia
  split at htrivia
  · rw [Find.lead, htrivia]
    rfl
  · exact htrivia.any_endsLine

end Find

/-! ## The text that is moved over -/

/-- Whether a text is what stands in a source between two byte offsets. -/
def IsTextBetween (source : String) (start stop : Nat) (text : String) : Prop :=
  ∃ before after, source.toList = before ++ text.toList ++ after ∧ byteLength before = start ∧
    byteLength (before ++ text.toList) = stop

/-- A text that ends with the source has nothing behind it. -/
theorem Cursor.IsOf.offset_of_nil {source : String} {cursor : Cursor} (h : cursor.IsOf source)
    (hrest : cursor.rest = []) : cursor.position.offset = byteLength source.toList := by
  obtain ⟨before, hs, hp⟩ := h
  rw [hp, hs, hrest, List.append_nil]

/-- Trivia and spelling are the text that is moved over. -/
theorem Find.isTextBetween {source : String} {f : Find} {s : Scanner} {braces : List Brace}
    (hs : s.cursor.IsOf source) (hc : s.cursor.rest = f.lead ++ f.raw ++ f.rest) :
    IsTextBetween source s.cursor.position.offset (f.after s braces).cursor.position.offset
      ((f.token s).lead ++ (f.token s).raw) := by
  obtain ⟨before, hsource, hp⟩ := hs
  have htext : ((f.token s).lead ++ (f.token s).raw).toList = f.lead ++ f.raw := by
    change (String.ofList f.lead ++ String.ofList f.raw).toList = _
    rw [String.toList_append, String.toList_ofList, String.toList_ofList]
  refine ⟨before, f.rest, ?_, by rw [hp], ?_⟩
  · rw [htext, hsource, hc, List.append_assoc before]
  · change _ = (f.back s).position.offset
    rw [htext, byteLength_append, byteLength_append, (back_spec hc).2, (front_spec hc).2, hp,
      Nat.add_assoc]

/-! ## Scanners that can be reached -/

namespace Scanner

/-- The scanners of a source that operations lead to, with what was saved on the way. -/
inductive Reachable (source : String) : Scanner → List Snapshot → Prop where
  /-- The start of the source. -/
  | start (isModule keepsComments : Bool) :
    Reachable source (.start source isModule keepsComments) []
  /-- Scanning a token. -/
  | next {s : Scanner} {saved : List Snapshot} (h : Reachable source s saved) :
    Reachable source (s.after Scan.next) saved
  /-- Scanning a regular expression. -/
  | nextRegex {s : Scanner} {saved : List Snapshot} (h : Reachable source s saved) :
    Reachable source (s.after Scan.nextRegex) saved
  /-- Changing which tokens there are. -/
  | setMode {s : Scanner} {saved : List Snapshot} (mode : Mode) (h : Reachable source s saved) :
    Reachable source (s.after (Scan.setMode mode)) saved
  /-- Saving the place. -/
  | save {s : Scanner} {saved : List Snapshot} (h : Reachable source s saved) :
    Reachable source s (s.save :: saved)
  /-- Going back to a saved place. -/
  | restore {s : Scanner} {saved : List Snapshot} {snapshot : Snapshot}
    (h : Reachable source s saved) (mem : snapshot ∈ saved) :
    Reachable source (s.restore snapshot) saved
  /-- Taking the comments. -/
  | takeComments {s : Scanner} {saved : List Snapshot} (h : Reachable source s saved) :
    Reachable source s.takeComments.2 saved

namespace Reachable

variable {source : String} {s s' : Scanner} {saved : List Snapshot} {t : Token}

/-- Whatever the operations, the scanner stays in the source. -/
theorem isOf (h : Reachable source s saved) :
    s.IsOf source ∧ ∀ snapshot ∈ saved, snapshot.cursor.IsOf source := by
  induction h with
  | start => exact ⟨.start source _ _, fun _ h => absurd h List.not_mem_nil⟩
  | next _ ih => exact ⟨ih.1.after (Scan.next_keeps source), ih.2⟩
  | nextRegex _ ih => exact ⟨ih.1.after (Scan.nextRegex_keeps source), ih.2⟩
  | setMode mode _ ih => exact ⟨ih.1.after (.setMode mode), ih.2⟩
  | save _ ih =>
    refine ⟨ih.1, fun snapshot hs => ?_⟩
    rcases List.mem_cons.1 hs with rfl | hs
    · exact ih.1.cursor
    · exact ih.2 snapshot hs
  | restore _ mem ih => exact ⟨ih.1.restore (ih.2 _ mem), ih.2⟩
  | takeComments _ ih => exact ⟨⟨ih.1.cursor, fun _ h => absurd h (Array.not_mem_empty _)⟩, ih.2⟩

end Reachable

/-- The flag of a token is exact. Wherever operations have led a scanner, a token that it scans
tells of a line break exactly if there is a line terminator in its trivia. Trivia and spelling are
the text of the source between the places of the scanner before and behind, and only where the
source ends is the token the end of the source. -/
theorem Reachable.newlineBefore_iff {source : String} {s s' : Scanner} {saved : List Snapshot}
    {t : Token} (h : Reachable source s saved)
    (ht : Scan.next s = .ok t s' ∨ Scan.nextRegex s = .ok t s') :
    (t.newlineBefore = true ↔
      ∃ c ∈ t.lead.toList, c = '\n' ∨ c = '\r' ∨ c = '\u2028' ∨ c = '\u2029') ∧
    IsTextBetween source s.cursor.position.offset s'.cursor.position.offset (t.lead ++ t.raw) ∧
    (t.isEof = true → s'.cursor.position.offset = byteLength source.toList) := by
  have hs := h.isOf.1.cursor
  have hterminator : t.lead.toList.any isLineTerminator = true ↔
      ∃ c ∈ t.lead.toList, c = '\n' ∨ c = '\r' ∨ c = '\u2028' ∨ c = '\u2029' := by
    simp [isLineTerminator, or_assoc]
  rw [← hterminator, ← Bool.eq_iff_iff]
  rcases ht with ht | ht
  · have hs' := Scan.next_keeps source s h.isOf.1
    rw [ht] at hs'
    obtain ⟨f, hf, rfl, rfl⟩ := Scan.next_eq_ok.1 ht
    refine ⟨Find.newlineBefore_eq hf.any_endsLine, Find.isTextBetween hs hf.chars, fun heof => ?_⟩
    exact hs'.1.cursor.offset_of_nil ((Find.back_spec hf.chars).1.trans
      (hf.eof (Find.kind_eq_eof heof)).2)
  · have hkind := Scan.nextRegex_kind ht
    obtain ⟨f, hf, rfl, rfl⟩ := Scan.nextRegex_eq_ok.1 ht
    refine ⟨Find.newlineBefore_eq hf.trivia.any_endsLine, Find.isTextBetween hs hf.chars, ?_⟩
    intro heof
    cases hkind.symm.trans (Find.kind_eq_eof heof)

/-- A line that ends in a comment, in front of the second token of a source. -/
theorem Reachable.newlineBefore_iff_comment : ∃ s t s', Reachable "a/*\n*/b" s [] ∧
    Scan.next s = .ok t s' ∧ t.raw = "b" ∧ t.newlineBefore = true ∧
    ∃ c ∈ t.lead.toList, c = '\n' ∨ c = '\r' ∨ c = '\u2028' ∨ c = '\u2029' := by
  have hs : Reachable "a/*\n*/b" _ [] := (Reachable.start false false).next
  obtain ⟨t, s', ht, hraw, hnewline⟩ : ∃ t s', Scan.next
      ((Scanner.start "a/*\n*/b" false false).after Scan.next) = .ok t s' ∧ t.raw = "b" ∧
        t.newlineBefore = true := ⟨_, _, rfl, by decide +kernel, by decide +kernel⟩
  exact ⟨_, t, s', hs, ht, hraw, hnewline, (hs.newlineBefore_iff (.inl ht)).1.1 hnewline⟩

end Scanner

end Verbatim
