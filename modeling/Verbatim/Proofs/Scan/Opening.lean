import Verbatim.Proofs.Scan.Numeral
import Verbatim.Proofs.Scan.Punctuator
import Verbatim.Proofs.Scan.Quotation
import Verbatim.Proofs.Scan.Regex
import Verbatim.Scan.Opening

/-!
# What readers of tokens take

## Main results

* `Verbatim.Opening.of_parts`, `Verbatim.Opening.Fits.isLocal` — a token is read alike where the
  text behind it parts.
* `Verbatim.Opening.Fits.takes` — every token but the end takes something.
* `Verbatim.Opening.Fits.template`, … — what the spelling of a token tells.
-/

namespace Verbatim

open Verbatim.Text

namespace Read.Local

variable {guard : Char → Bool}

theorem decoded (text : List Char) : Local guard (Read.decoded text) := by
  unfold Read.decoded
  split
  · exact pure _
  · exact throw _

/-- A string within a tag, behind its first quote. -/
theorem tagStringBody {quote : Char} (hq : isQuote quote = true) : Local guard (do
    let body ← Read.takeWhile (· ≠ quote)
    if (← Read.peek).isNone then MonadExcept.throw .unterminatedAttribute
    Read.skip 1
    return { kind := .string, value := .text (← Read.decoded body) : Lexeme }) := by
  refine bind (r := Read.takeWhile _) (takeWhile fun h => ?_) fun body => ?_
  · obtain rfl : '\x60' = quote := by simpa using h
    exact absurd hq (by decide)
  have hclose : Local guard (do
      Read.skip 1
      return { kind := .string, value := .text (← Read.decoded body) : Lexeme }) :=
    (skip 1).bind fun _ => (decoded _).bind fun _ => pure _
  refine peek (fun c => ite (throw _) hclose) fun _ {l l' v} h => ?_
  obtain ⟨_, m, hm, h⟩ := Run.bind_eq_ok.1
    (show (Read.decoded body >>= fun _ => _ : Read Lexeme) l = _ from h)
  obtain ⟨-, rfl⟩ := Run.pure_eq_ok.1 h
  have hlen := ((decoded body : Local guard _).suffix hm).length_le
  simp only [List.length_cons] at hlen
  omega

theorem tagString {quote : Char} (hq : isQuote quote = true) : Local guard (Read.tagString quote) :=
  (skip 1).bind fun _ => tagStringBody hq

theorem tagName : Local guard Read.tagName :=
  (takeWhile fun _ => by decide).bind fun _ => pure _

theorem markupText : Local guard Read.markupText :=
  (takeWhile fun h => absurd h (by decide)).bind fun _ => (decoded _).bind fun _ => pure _

end Read.Local

/-- What may begin a name may continue one. -/
theorem Text.isNamePart_of_isNameStart {c : Char} (h : isNameStart c = true) :
    isNamePart c = true := by
  unfold isNamePart
  split
  · rename_i ha
    rw [isNameStart, if_pos ha] at h
    simp only [Bool.or_eq_true, Char.isAlphanum] at h ⊢
    rcases h with h | h
    · exact .inl h
    · exact .inr (.inl h)
  · simp [h]

namespace Opening

variable {mode : Mode} {braces : List Brace} {x y a b chars rest : List Char} {lexeme : Lexeme}
  {guard : Char → Bool} {opening : Opening}

/-- A text starts alike where texts part behind its first character. -/
theorem of_parts (hab : Parts a b) (hx : x ≠ []) :
    Opening.of mode braces (x ++ a) = Opening.of mode braces (x ++ b) := by
  obtain ⟨c, x, rfl⟩ := List.exists_cons_of_ne_nil hx
  cases mode with
  | normal =>
    have hdigit : (x ++ a).head?.any isDecimalDigit = (x ++ b).head?.any isDecimalDigit := by
      cases x with
      | nil => cases hab <;> rfl
      | cons d x => rfl
    change ofLanguage _ (c :: (x ++ a)) = ofLanguage _ (c :: (x ++ b))
    unfold ofLanguage
    dsimp only
    rw [hdigit]
  | tag => rfl
  | text => rfl

/-- Text between tags is found there only. -/
theorem mode_of_markupText (h : Opening.of mode braces chars = .markupText) : mode = .text := by
  cases mode with
  | normal =>
    cases chars with
    | nil => cases h
    | cons c l =>
      change ofLanguage _ (c :: l) = _ at h
      unfold ofLanguage at h
      repeat (split at h; · cases h)
      cases h
  | tag =>
    cases chars with
    | nil => cases h
    | cons c l =>
      change ofTag (c :: l) = _ at h
      unfold ofTag at h
      repeat (split at h; · cases h)
      cases h
  | text => rfl

/-- What a text that starts in the given way looks like. -/
inductive Fits : Opening → List Char → Prop where
  /-- Nothing remains. -/
  | eof : Fits .eof []
  /-- A name begins with a name character or an escape. -/
  | word {c : Char} {l : List Char} (h : isNameStart c = true ∨ c = '\\') : Fits .word (c :: l)
  /-- A string begins with its quote. -/
  | string {c : Char} {l : List Char} (h : Read.isQuote c = true) : Fits (.string c) (c :: l)
  /-- A template begins with a back quote. -/
  | head {l : List Char} : Fits (.template true) ('\x60' :: l)
  /-- A later template piece begins with a closing brace. -/
  | later {l : List Char} : Fits (.template false) ('\x7d' :: l)
  /-- A number begins with a digit or a point. -/
  | numeral {c : Char} {l : List Char} (h : isDecimalDigit c = true ∨ c = '.') :
      Fits .numeral (c :: l)
  /-- A private name begins with its sign. -/
  | privateName {l : List Char} : Fits .privateName ('#' :: l)
  /-- A punctuator of the language. -/
  | punctuator {c : Char} {l : List Char} : Fits (.punctuator c) (c :: l)
  /-- A delimiter of markup. -/
  | delimiter {c : Char} {l : List Char} : Fits (.delimiter c) (c :: l)
  /-- A string within a tag begins with its quote. -/
  | tagString {c : Char} {l : List Char} (h : Read.isQuote c = true) : Fits (.tagString c) (c :: l)
  /-- A name within a tag begins with a name character. -/
  | tagName {c : Char} {l : List Char} (h : isNameStart c = true) : Fits .tagName (c :: l)
  /-- Text between tags begins with neither brace nor bracket. -/
  | markupText {c : Char} {l : List Char} (h : (c ≠ '\x7b' && c ≠ '<') = true) :
      Fits .markupText (c :: l)
  /-- Nothing that may stand within a tag. -/
  | illegal {c : Char} {l : List Char} : Fits .illegal (c :: l)

/-- What a text starts with fits its first characters. -/
theorem fits (mode : Mode) (braces : List Brace) (chars : List Char) :
    Fits (Opening.of mode braces chars) chars := by
  cases chars with
  | nil => cases mode <;> exact .eof
  | cons c l =>
    cases mode with
    | normal =>
      change Fits (ofLanguage _ (c :: l)) (c :: l)
      unfold ofLanguage
      dsimp only
      split
      · rename_i hc
        exact .word (by simpa using hc)
      split
      · exact .string ‹_›
      split
      · rename_i hc
        obtain rfl : c = '\x60' := by simpa using hc
        exact .head
      split
      · rename_i hd
        refine .numeral ?_
        rcases Bool.or_eq_true_iff.1 hd with hd | hd
        · exact .inl hd
        · exact .inr (by simpa using (Bool.and_eq_true_iff.1 hd).1)
      split
      · rename_i hc
        obtain rfl : c = '#' := by simpa using hc
        exact .privateName
      split
      · rename_i hb
        obtain rfl : c = '\x7d' := by simpa using (Bool.and_eq_true_iff.1 hb).1
        exact .later
      · exact .punctuator
    | tag =>
      change Fits (ofTag (c :: l)) (c :: l)
      unfold ofTag
      dsimp only
      split
      · exact .delimiter
      split
      · exact .tagString ‹_›
      split
      · exact .tagName ‹_›
      · exact .illegal
    | text =>
      change Fits (ofText (c :: l)) (c :: l)
      unfold ofText
      dsimp only
      split
      · exact .delimiter
      · exact .markupText (by simp_all)

namespace Fits

/-- Every token is read alike where the text behind it parts. -/
theorem isLocal (h : Fits opening chars) : Read.Local guard opening.reader := by
  cases h with
  | eof => exact .pure _
  | word => exact .word
  | string h => exact .string h
  | head => exact (Read.Local.skip 1).bind fun _ => .templatePiece true
  | later => exact (Read.Local.skip 1).bind fun _ => .templatePiece false
  | numeral => exact .numeral
  | privateName => exact .privateName
  | punctuator => exact Read.Local.punctuator.bind fun _ => .pure _
  | delimiter => exact (Read.Local.skip 1).bind fun _ => .pure _
  | tagString h => exact .tagString h
  | tagName => exact .tagName
  | markupText => exact .markupText
  | illegal => exact .throw _

/-- Where something remains, a token takes the first character. -/
theorem takes {c : Char} {l : List Char} (h : Fits opening (c :: l))
    (hr : opening.reader (c :: l) = .ok lexeme rest) : rest <:+ l := by
  cases h with
  | word =>
    have hlen := Read.takes_word hr
    rcases List.suffix_cons_iff.1 ((Read.Local.word : Read.Local (fun _ => true) _).suffix hr) with
      rfl | hs
    · exact absurd hlen (by simp)
    · exact hs
  | string => exact (List.suffix_cons _ _).trans (Read.string_closed hr).1
  | head =>
    obtain ⟨_, _, -, -, hs⟩ := Read.templatePiece_closed
      (show Read.templatePiece true l = _ from hr)
    exact (List.suffix_append _ _).trans hs
  | later =>
    obtain ⟨_, _, -, -, hs⟩ := Read.templatePiece_closed
      (show Read.templatePiece false l = _ from hr)
    exact (List.suffix_append _ _).trans hs
  | numeral hc => exact Read.numeral_suffix hc hr
  | privateName =>
    exact Read.bind_suffix (show (Read.word >>= fun _ => _ : Read Lexeme) l = _ from hr)
      (fun h => (Read.Local.word : Read.Local (fun _ => true) _).suffix h) fun _ => .pure _
  | punctuator =>
    obtain ⟨v, m, hv, h⟩ := Run.bind_eq_ok.1 hr
    obtain ⟨-, rfl⟩ := Run.pure_eq_ok.1 h
    obtain ⟨hp, rfl⟩ := Read.punctuator_eq_ok.1 hv
    obtain ⟨n, hn⟩ := Nat.exists_eq_succ_of_ne_zero (Nat.ne_of_gt (Read.punctuator?_front hp).2)
    rw [hn]
    exact List.drop_suffix n l
  | delimiter =>
    obtain ⟨-, rfl⟩ := Run.pure_eq_ok.1 (show (pure _ : Read Lexeme) l = _ from hr)
    exact List.suffix_refl l
  | tagString hq =>
    exact (Read.Local.tagStringBody hq : Read.Local (fun _ => true) _).suffix (l := l) hr
  | tagName hc =>
    refine Read.bind_suffix hr (fun {u m} h => ?_) fun _ => .pure _
    obtain rfl : (c :: l).dropWhile (fun c => isNamePart c || c == '-') = m := by cases h; rfl
    rw [List.dropWhile_cons, if_pos (by simp [isNamePart_of_isNameStart hc])]
    exact List.dropWhile_suffix _
  | markupText hc =>
    refine Read.bind_suffix hr (fun {u m} h => ?_) fun _ =>
      (Read.Local.decoded _).bind fun _ => .pure _
    obtain rfl : (c :: l).dropWhile (fun c => c ≠ '\x7b' && c ≠ '<') = m := by cases h; rfl
    rw [List.dropWhile_cons, if_pos hc]
    exact List.dropWhile_suffix _
  | illegal => cases hr

/-- A template piece is spelled with its delimiters. -/
theorem template {isHead : Bool} (h : Fits (.template isHead) chars)
    (hr : (Opening.template isHead).reader chars = .ok lexeme rest) :
    ∃ cooked isTail inner, lexeme.value = .template cooked isHead isTail ∧
      chars = (if isHead then '\x60' else '\x7d') :: inner ++ Read.pieceEnd isTail ++ rest := by
  cases h with
  | @head l =>
    obtain ⟨cooked, isTail, hv, -, inner, hs⟩ := Read.templatePiece_closed
      (show Read.templatePiece true l = _ from hr)
    exact ⟨cooked, isTail, inner, hv, by simp [← hs]⟩
  | @later l =>
    obtain ⟨cooked, isTail, hv, -, inner, hs⟩ := Read.templatePiece_closed
      (show Read.templatePiece false l = _ from hr)
    exact ⟨cooked, isTail, inner, hv, by simp [← hs]⟩

end Fits

/-- The kinds of tokens that start in a given way. -/
def kinds : Opening → List TokenKind
  | .eof => [.eof]
  | .word => [.boolean, .null, .keyword, .identifier]
  | .string _ | .tagString _ => [.string]
  | .template _ => [.template]
  | .numeral => [.numeric, .bigint]
  | .privateName => [.privateName]
  | .punctuator _ | .delimiter _ => [.punctuator]
  | .tagName => [.tagName]
  | .markupText => [.markupText]
  | .illegal => []

/-- The way in which a token starts leaves only some kinds for it. -/
theorem Fits.kind (h : Fits opening chars) (hr : opening.reader chars = .ok lexeme rest) :
    lexeme.kind ∈ opening.kinds := by
  cases h with
  | eof =>
    obtain ⟨rfl, -⟩ := Run.pure_eq_ok.1 hr
    decide
  | word =>
    obtain ⟨taken, escaped, -, -, -, rfl⟩ := Read.word_eq_ok.1 hr
    change Read.wordKind _ ∈ _
    unfold Read.wordKind
    split
    · decide
    split
    · decide
    split <;> decide
  | string =>
    rw [(Read.string_closed hr).2]
    exact List.mem_cons_self
  | head =>
    obtain ⟨_, _, -, hk, -⟩ := Read.templatePiece_closed
      (show Read.templatePiece true _ = _ from hr)
    rw [hk]
    decide
  | later =>
    obtain ⟨_, _, -, hk, -⟩ := Read.templatePiece_closed
      (show Read.templatePiece false _ = _ from hr)
    rw [hk]
    decide
  | numeral =>
    rcases Read.yields_numeral hr with hk | hk <;> rw [hk] <;> decide
  | privateName =>
    have hk : Read.Yields (fun v => v.kind = .privateName) Read.privateName :=
      .bind fun _ => .bind fun _ => .pure rfl
    rw [hk hr]
    decide
  | punctuator =>
    have hk : Read.Yields (fun v => v.kind = .punctuator) (Opening.punctuator ‹_›).reader :=
      .bind fun _ => .pure rfl
    rw [hk hr]
    exact List.mem_cons_self
  | delimiter =>
    have hk : Read.Yields (fun v => v.kind = .punctuator) (Opening.delimiter ‹_›).reader :=
      .bind fun _ => .pure rfl
    rw [hk hr]
    exact List.mem_cons_self
  | tagString =>
    have hk : Read.Yields (fun v => v.kind = .string) (Read.tagString ‹_›) :=
      .bind fun _ => .bind fun _ => .bind fun _ => .ite (.throw _)
        (.bind fun _ => .bind fun _ => .pure rfl)
    rw [hk hr]
    exact List.mem_cons_self
  | tagName =>
    have hk : Read.Yields (fun v => v.kind = .tagName) Read.tagName := .bind fun _ => .pure rfl
    rw [hk hr]
    decide
  | markupText =>
    have hk : Read.Yields (fun v => v.kind = .markupText) Read.markupText :=
      .bind fun _ => .bind fun _ => .pure rfl
    rw [hk hr]
    decide
  | illegal => cases hr

end Opening

end Verbatim
