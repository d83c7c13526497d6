import Verbatim.Proofs.Scan.Along
import Verbatim.Proofs.Scan.Opening

/-!
# What scanning a token does

Scanning a token comes upon trivia, the spelling of a token and the text behind it, and moves past
the first two. Everything about scanning follows from this. The comments that are kept are a record
only, so a scanner that keeps none scans the same tokens.

## Main definitions

* `Verbatim.Find` — what scanning a token comes upon.
* `Verbatim.Find.Next`, `Verbatim.Find.Regex` — finds of a token and of a regular expression.
* `Verbatim.Scanner.quiet` — the scanner that keeps no comments.

## Main results

* `Verbatim.Scan.next_eq_ok`, `Verbatim.Scan.nextRegex_eq_ok` — scanning in terms of finds.
-/

namespace Verbatim

/-! ## Passing over trivia -/

namespace Scanner

/-- A scanner that keeps no comments, at the same place. -/
def quiet (s : Scanner) : Scanner := { s with keepsComments := false, comments := #[] }

section

variable (s : Scanner) (piece : Trivium) (pieces : List Trivium)

theorem exists_walk : ∃ comments, s.walk piece =
    { s with cursor := s.cursor.advanceBy piece.chars.length, comments } := by
  unfold walk passTo
  split
  · split
    · exact ⟨_, rfl⟩
    · exact ⟨_, rfl⟩
  · exact ⟨_, rfl⟩

/-- Passing over trivia moves past it, and at most keeps comments. -/
theorem exists_past : ∃ comments, s.past pieces =
    { s with cursor := s.cursor.advanceBy (pieces.flatMap Trivium.chars).length, comments } := by
  induction pieces generalizing s with
  | nil => exact ⟨s.comments, rfl⟩
  | cons piece pieces ih =>
    obtain ⟨kept, hp⟩ := s.exists_walk piece
    obtain ⟨comments, h⟩ := ih (s.walk piece)
    refine ⟨comments, h.trans ?_⟩
    rw [hp, List.flatMap_cons, List.length_append, Cursor.advanceBy_add]

@[simp]
theorem past_cursor :
    (s.past pieces).cursor = s.cursor.advanceBy (pieces.flatMap Trivium.chars).length := by
  obtain ⟨_, h⟩ := s.exists_past pieces
  rw [h]

@[simp]
theorem past_braces : (s.past pieces).braces = s.braces := by
  obtain ⟨_, h⟩ := s.exists_past pieces
  rw [h]

@[simp]
theorem past_mode : (s.past pieces).mode = s.mode := by
  obtain ⟨_, h⟩ := s.exists_past pieces
  rw [h]

@[simp]
theorem past_isModule : (s.past pieces).isModule = s.isModule := by
  obtain ⟨_, h⟩ := s.exists_past pieces
  rw [h]

theorem quiet_walk : (s.walk piece).quiet = s.quiet.walk piece := by
  unfold walk passTo
  split
  · split <;> rfl
  · rfl

theorem quiet_past : (s.past pieces).quiet = s.quiet.past pieces := by
  induction pieces generalizing s with
  | nil => rfl
  | cons piece pieces ih =>
    change ((s.walk piece).past pieces).quiet = (s.quiet.walk piece).past pieces
    rw [ih, quiet_walk]

end

end Scanner

/-! ## Scanning actions that end well -/

namespace Scan

variable {s s' : Scanner}

/-- A reader that reads something moves the cursor to what it leaves. -/
theorem readChars_eq_ok {α : Type} {stage : Stage} {reader : Read α} {value : α} :
    readChars stage reader s = .ok value s' ↔ ∃ rest, reader s.cursor.rest = .ok value rest ∧
      s' = { s with cursor := s.cursor.moveTo rest } := by
  unfold readChars
  rw [Run.bind_eq_ok]
  constructor
  · rintro ⟨_, _, hget, h⟩
    cases hget
    cases hread : reader s.cursor.rest with
    | ok v rest =>
      rw [hread] at h
      cases h
      exact ⟨rest, rfl, rfl⟩
    | error fault rest =>
      rw [hread] at h
      cases h
  · rintro ⟨rest, hread, rfl⟩
    refine ⟨s, s, rfl, ?_⟩
    rw [hread]
    rfl

/-- Passing over trivia ends well where the trivia leads to a token. -/
theorem trivia_eq_ok {v : String × Bool} : trivia s = .ok v s' ↔
    ∃ pieces rest, Lead s.allowsHtml (s.cursor.position.offset = 0) s.cursor.rest pieces rest ∧
      v = (s.cursor.textTo s'.cursor, pieces.any Trivium.endsLine) ∧ s' = s.past pieces := by
  have hrun : ∀ found,
      Trivia.read s.allowsHtml (s.cursor.position.offset = 0) s.cursor.rest = found →
      trivia s = (do
        modify (·.past found.pieces)
        if !found.isComplete then
          modify fun s => { s with cursor := s.cursor.moveTo [] }
          fail .scanner .unterminatedComment
        return (s.cursor.textTo (← get).cursor, found.pieces.any Trivium.endsLine) :
          Scan (String × Bool)) s := by
    rintro found rfl
    rw [trivia_eq]
    rfl
  constructor
  · intro h
    cases hread : Trivia.read s.allowsHtml (s.cursor.position.offset = 0) s.cursor.rest with
    | mk pieces rest isComplete =>
      rw [hrun _ hread] at h
      cases isComplete with
      | true =>
        cases h
        exact ⟨pieces, rest, Lead.of_read.1 hread, rfl, rfl⟩
      | false => cases h
  · rintro ⟨pieces, rest, hl, rfl, rfl⟩
    rw [hrun _ (Lead.of_read.2 hl)]
    rfl

/-- A token is read by the reader that its first characters ask for. -/
theorem lexeme_eq_ok {v : Lexeme} : lexeme s = .ok v s' ↔
    ∃ rest, (Opening.of s.mode s.braces s.cursor.rest).reader s.cursor.rest = .ok v rest ∧
      s' = { s with
        cursor := s.cursor.moveTo rest
        braces := (Opening.of s.mode s.braces s.cursor.rest).nest v s.braces } := by
  constructor
  · intro h
    obtain ⟨_, _, hget, hread⟩ := Run.bind_eq_ok.1 h
    cases hget
    obtain ⟨v', s₁, hr, hmodify⟩ := Run.bind_eq_ok.1 hread
    rw [read_reader] at hr
    obtain ⟨rest, hrest, rfl⟩ := readChars_eq_ok.1 hr
    cases hmodify
    exact ⟨rest, hrest, rfl⟩
  · rintro ⟨rest, hr, rfl⟩
    let read : Scanner := { s with cursor := s.cursor.moveTo rest }
    refine Run.bind_eq_ok.2 ⟨s, s, rfl, Run.bind_eq_ok.2 ⟨v, read, ?_, rfl⟩⟩
    rw [read_reader]
    exact readChars_eq_ok.2 ⟨rest, hr, rfl⟩

/-- A token keeps its spelling and the places around it. -/
theorem token_eq_ok {lead : String} {newline : Bool} {action : Scan Lexeme} {t : Token} :
    token lead newline action s = .ok t s' ↔ ∃ v, action s = .ok v s' ∧
      t = { v with
        raw := s.cursor.textTo s'.cursor
        lead
        start := s.cursor.position
        stop := s'.cursor.position
        lineStart := s.cursor.lineStart
        newlineBefore := newline } := by
  constructor
  · intro h
    obtain ⟨_, _, hget, haction⟩ := Run.bind_eq_ok.1 h
    cases hget
    obtain ⟨v, s₁, hv, hrest⟩ := Run.bind_eq_ok.1 haction
    cases hrest
    exact ⟨v, hv, rfl⟩
  · rintro ⟨v, hv, rfl⟩
    exact Run.bind_eq_ok.2 ⟨s, s, rfl, Run.bind_eq_ok.2 ⟨v, s', hv, rfl⟩⟩

end Scan

/-! ## Finds -/

/-- What scanning a token comes upon. -/
structure Find where
  /-- The trivia. -/
  pieces : List Trivium
  /-- The spelling of the token. -/
  raw : List Char
  /-- The text behind it. -/
  rest : List Char
  /-- What the spelling amounts to. -/
  lexeme : Lexeme

namespace Find

variable (f : Find) (s : Scanner)

/-- The text of the trivia. -/
def lead : List Char := f.pieces.flatMap Trivium.chars

/-- The place in front of the token. -/
def front : Cursor := s.cursor.advanceBy f.lead.length

/-- The place behind the token. -/
def back : Cursor := (f.front s).advanceBy f.raw.length

/-- The token. -/
def token : Token :=
  { f.lexeme with
    raw := String.ofList f.raw
    lead := String.ofList f.lead
    start := (f.front s).position
    stop := (f.back s).position
    lineStart := (f.front s).lineStart
    newlineBefore := f.pieces.any Trivium.endsLine }

/-- What the token starts with. -/
def opening : Opening := Opening.of s.mode s.braces (f.raw ++ f.rest)

/-- The scanner behind the token, with the given open braces. -/
def after (braces : List Brace) : Scanner :=
  { s.past f.pieces with cursor := f.back s, braces }

/-- The find of a token. -/
structure Next (s : Scanner) (f : Find) : Prop where
  /-- The trivia, the spelling and the text behind it are what remains. -/
  chars : s.cursor.rest = f.lead ++ f.raw ++ f.rest
  /-- The trivia comes first; between tags, there is none. -/
  trivia : if s.mode = .text then f.pieces = [] else
    Lead s.allowsHtml (s.cursor.position.offset = 0) s.cursor.rest f.pieces (f.raw ++ f.rest)
  /-- Then the token. -/
  reads : (f.opening s).reader (f.raw ++ f.rest) = .ok f.lexeme f.rest

/-- The find of a regular expression. -/
structure Regex (s : Scanner) (f : Find) : Prop where
  /-- The trivia, the spelling and the text behind it are what remains. -/
  chars : s.cursor.rest = f.lead ++ f.raw ++ f.rest
  /-- The trivia comes first. -/
  trivia : Lead s.allowsHtml (s.cursor.position.offset = 0) s.cursor.rest f.pieces (f.raw ++ f.rest)
  /-- Then the regular expression. -/
  reads : Read.regex (f.raw ++ f.rest) = .ok f.lexeme f.rest

section

variable {f : Find} {s : Scanner} (hc : s.cursor.rest = f.lead ++ f.raw ++ f.rest)
include hc

theorem front_spec : (f.front s).rest = f.raw ++ f.rest ∧
    (f.front s).position.offset = s.cursor.position.offset + Text.byteLength f.lead :=
  Cursor.advanceBy_length (hc.trans (List.append_assoc ..))

theorem back_spec : (f.back s).rest = f.rest ∧
    (f.back s).position.offset = (f.front s).position.offset + Text.byteLength f.raw :=
  Cursor.advanceBy_length (front_spec hc).1

theorem moveTo_front : (f.front s).moveTo f.rest = f.back s := Cursor.moveTo_eq (front_spec hc).1

theorem textTo_front : s.cursor.textTo (f.front s) = String.ofList f.lead :=
  Cursor.textTo_eq (by rw [(front_spec hc).1, hc, List.append_assoc])

theorem textTo_back : (f.front s).textTo (f.back s) = String.ofList f.raw :=
  Cursor.textTo_eq (by rw [(back_spec hc).1, (front_spec hc).1])

/-- The token of a find by the places around it. -/
theorem token_eq : f.token s =
    { f.lexeme with
      raw := (s.past f.pieces).cursor.textTo (f.back s)
      lead := s.cursor.textTo (s.past f.pieces).cursor
      start := (s.past f.pieces).cursor.position
      stop := (f.back s).position
      lineStart := (s.past f.pieces).cursor.lineStart
      newlineBefore := f.pieces.any Trivium.endsLine : Token } := by
  have hfront : (s.past f.pieces).cursor = f.front s := s.past_cursor _
  rw [hfront, textTo_back hc, textTo_front hc]
  rfl

end

end Find

namespace Scan

variable {s s' : Scanner} {t : Token}

/-- An action that reads the token behind given trivia comes upon a find. -/
theorem behind_eq_ok {action : Scan Lexeme} {reader : Read Lexeme} {nest : Lexeme → List Brace}
    {pieces : List Trivium} {mid : List Char}
    (hc : s.cursor.rest = pieces.flatMap Trivium.chars ++ mid)
    (haction : ∀ v s', action (s.past pieces) = .ok v s' ↔ ∃ rest, reader mid = .ok v rest ∧
      s' = { s.past pieces with cursor := (s.past pieces).cursor.moveTo rest, braces := nest v })
    (hsuffix : ∀ v rest, reader mid = .ok v rest → rest <:+ mid) :
    token (s.cursor.textTo (s.past pieces).cursor) (pieces.any Trivium.endsLine) action
        (s.past pieces) = .ok t s' ↔
      ∃ f : Find, f.pieces = pieces ∧ f.raw ++ f.rest = mid ∧ reader mid = .ok f.lexeme f.rest ∧
        t = f.token s ∧ s' = f.after s (nest f.lexeme) := by
  rw [token_eq_ok]
  constructor
  · rintro ⟨v, hv, rfl⟩
    obtain ⟨rest, hr, rfl⟩ := (haction v s').1 hv
    obtain ⟨raw, hraw⟩ := hsuffix v rest hr
    let f : Find := ⟨pieces, raw, rest, v⟩
    have hcf : s.cursor.rest = f.lead ++ f.raw ++ f.rest := by
      rw [hc, ← hraw, ← List.append_assoc]
      rfl
    have hback : (s.past pieces).cursor.moveTo rest = f.back s := by
      rw [s.past_cursor]
      exact Find.moveTo_front hcf
    refine ⟨f, rfl, hraw, hr, ?_, ?_⟩
    · rw [Find.token_eq hcf, ← hback]
    · rw [hback]
      rfl
  · rintro ⟨f, rfl, rfl, hr, rfl, rfl⟩
    have hcf : s.cursor.rest = f.lead ++ f.raw ++ f.rest := hc.trans (List.append_assoc ..).symm
    have hback : (s.past f.pieces).cursor.moveTo f.rest = f.back s := by
      rw [s.past_cursor]
      exact Find.moveTo_front hcf
    refine ⟨f.lexeme, (haction _ _).2 ⟨f.rest, hr, ?_⟩, Find.token_eq hcf⟩
    rw [hback]
    rfl

theorem lexeme_past_eq_ok {pieces : List Trivium} {mid : List Char}
    (hmid : (s.past pieces).cursor.rest = mid) (v : Lexeme) (s' : Scanner) :
    lexeme (s.past pieces) = .ok v s' ↔
      ∃ rest, (Opening.of s.mode s.braces mid).reader mid = .ok v rest ∧
        s' = { s.past pieces with
          cursor := (s.past pieces).cursor.moveTo rest
          braces := (Opening.of s.mode s.braces mid).nest v s.braces } := by
  have hopening : Opening.of (s.past pieces).mode (s.past pieces).braces mid =
      Opening.of s.mode s.braces mid := by
    rw [s.past_mode, s.past_braces]
  rw [lexeme_eq_ok, hmid, hopening, s.past_braces]

/-- A token or regular expression behind trivia is scanned by coming upon a find. -/
theorem trivia_token_eq_ok {action : Scan Lexeme} {reader : List Char → Read Lexeme}
    {nest : List Char → Lexeme → List Brace}
    (haction : ∀ {pieces mid}, (s.past pieces).cursor.rest = mid → ∀ v s',
      action (s.past pieces) = .ok v s' ↔ ∃ rest, reader mid mid = .ok v rest ∧
        s' = { s.past pieces with
          cursor := (s.past pieces).cursor.moveTo rest
          braces := nest mid v })
    (hsuffix : ∀ mid v rest, reader mid mid = .ok v rest → rest <:+ mid) :
    (do
      let (lead, newline) ← trivia
      token lead newline action : Scan Token) s = .ok t s' ↔
      ∃ f : Find, s.cursor.rest = f.lead ++ f.raw ++ f.rest ∧
        Lead s.allowsHtml (s.cursor.position.offset = 0) s.cursor.rest f.pieces (f.raw ++ f.rest) ∧
        reader (f.raw ++ f.rest) (f.raw ++ f.rest) = .ok f.lexeme f.rest ∧
        t = f.token s ∧ s' = f.after s (nest (f.raw ++ f.rest) f.lexeme) := by
  rw [Run.bind_eq_ok]
  constructor
  · rintro ⟨v, s₁, ht, h⟩
    obtain ⟨pieces, mid, hl, rfl, rfl⟩ := trivia_eq_ok.1 ht
    have hmid : (s.past pieces).cursor.rest = mid := by
      rw [s.past_cursor]
      exact (Cursor.advanceBy_length hl.chars_eq).1
    obtain ⟨f, rfl, rfl, hr, rfl, rfl⟩ :=
      (behind_eq_ok hl.chars_eq (haction hmid) (hsuffix mid)).1 h
    exact ⟨f, hl.chars_eq.trans (List.append_assoc ..).symm, hl, hr, rfl, rfl⟩
  · rintro ⟨f, hc, hl, hr, rfl, rfl⟩
    have hmid : (s.past f.pieces).cursor.rest = f.raw ++ f.rest := by
      rw [s.past_cursor]
      exact (Find.front_spec hc).1
    exact ⟨_, _, trivia_eq_ok.2 ⟨f.pieces, _, hl, rfl, rfl⟩,
      (behind_eq_ok hl.chars_eq (haction hmid) (hsuffix _)).2 ⟨f, rfl, rfl, hr, rfl, rfl⟩⟩

theorem suffix_of_reader {mode : Mode} {braces : List Brace} (mid : List Char) (v : Lexeme)
    (rest : List Char) (h : (Opening.of mode braces mid).reader mid = .ok v rest) : rest <:+ mid :=
  ((Opening.fits mode braces mid).isLocal : Read.Local (fun _ => true) _).suffix h

/-- A token is scanned by coming upon a find. -/
theorem next_eq_ok : next s = .ok t s' ↔
    ∃ f : Find, f.Next s ∧ t = f.token s ∧ s' = f.after s
      ((f.opening s).nest f.lexeme s.braces) := by
  have hrun : next s = (if s.mode = .text then token "" false lexeme else do
      let (lead, newline) ← trivia
      token lead newline lexeme : Scan Token) s := rfl
  rw [hrun]
  by_cases hm : s.mode = .text
  · rw [if_pos hm]
    have hempty : s.cursor.textTo s.cursor = "" := Cursor.textTo_eq rfl
    have hc : s.cursor.rest = ([] : List Trivium).flatMap Trivium.chars ++ s.cursor.rest := rfl
    have h : token (s.cursor.textTo (s.past []).cursor) (List.any [] Trivium.endsLine) lexeme
        (s.past []) = .ok t s' ↔ _ := behind_eq_ok hc (lexeme_past_eq_ok rfl) (suffix_of_reader _)
    rw [← hempty]
    refine Iff.trans h ?_
    constructor
    · rintro ⟨f, hp, hc, hr, rfl, rfl⟩
      have hl : f.lead = [] := by rw [Find.lead, hp]; rfl
      rw [← hc] at hr ⊢
      exact ⟨f, ⟨by rw [hl, ← hc]; rfl, by rwa [if_pos hm], hr⟩, rfl, rfl⟩
    · rintro ⟨f, ⟨hc, hp, hr⟩, rfl, rfl⟩
      rw [if_pos hm] at hp
      have hl : f.lead = [] := by rw [Find.lead, hp]; rfl
      rw [hl, List.nil_append] at hc
      rw [hc]
      exact ⟨f, hp, rfl, hr, rfl, rfl⟩
  · rw [if_neg hm, trivia_token_eq_ok lexeme_past_eq_ok suffix_of_reader]
    constructor
    · rintro ⟨f, hc, hl, hr, h⟩
      exact ⟨f, ⟨hc, by rwa [if_neg hm], hr⟩, h⟩
    · rintro ⟨f, ⟨hc, hl, hr⟩, h⟩
      rw [if_neg hm] at hl
      exact ⟨f, hc, hl, hr, h⟩

/-- A regular expression is scanned by coming upon a find. -/
theorem nextRegex_eq_ok : nextRegex s = .ok t s' ↔
    ∃ f : Find, f.Regex s ∧ t = f.token s ∧ s' = f.after s s.braces := by
  have haction : ∀ {pieces mid}, (s.past pieces).cursor.rest = mid → ∀ v s',
      read .scanner Read.regex (s.past pieces) = .ok v s' ↔ ∃ rest, Read.regex mid = .ok v rest ∧
        s' = { s.past pieces with
          cursor := (s.past pieces).cursor.moveTo rest
          braces := s.braces } := by
    rintro pieces mid rfl v s'
    rw [read_regex, readChars_eq_ok, ← s.past_braces pieces]
  have hrun : nextRegex s = (do
      let (lead, newline) ← trivia
      token lead newline (read .scanner Read.regex) : Scan Token) s := rfl
  rw [hrun, trivia_token_eq_ok haction fun mid v rest h =>
    (Read.Local.regex : Read.Local (fun _ => true) _).suffix h]
  constructor
  · rintro ⟨f, hc, hl, hr, h⟩
    exact ⟨f, ⟨hc, hl, hr⟩, h⟩
  · rintro ⟨f, ⟨hc, hl, hr⟩, h⟩
    exact ⟨f, hc, hl, hr, h⟩

end Scan

end Verbatim
