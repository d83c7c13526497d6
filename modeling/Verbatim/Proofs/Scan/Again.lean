import Verbatim.Proofs.Scan.Places
import Verbatim.Proofs.Walk

/-!
# Scanning a token again

A slash is scanned again where a regular expression may stand, and an angle bracket where markup
may. What is scanned then starts where the token started that was seen first. Only comments of web
pages stand in the way: within a tag these do not count, so an angle bracket behind one of them is
not found again; the one that the comment begins with is found, and nothing can be scanned behind
it.

## Main results

* `Verbatim.Scan.next_places`, `Verbatim.Scan.nextRegex_places` — where a token starts and ends.
* `Verbatim.Scan.regex_again` — a regular expression starts where the slash did.
* `Verbatim.Scan.tag_again` — markup starts where the angle bracket did, or ends right there.
-/

namespace Verbatim

/-! ## Where tokens stand -/

/-- A token was scanned: it lies behind the place where scanning started, and the scanner stands
behind it. -/
structure Scanned (s : Scanner) (t : Token) (s' : Scanner) : Prop where
  /-- It lies behind the place where scanning started. -/
  front : s.cursor.position.offset ≤ t.start.offset
  /-- It ends behind its start. -/
  forward : t.start.offset ≤ t.stop.offset
  /-- The scanner stands behind it. -/
  behind : s'.cursor.position.offset = t.stop.offset

namespace Scan

variable {s s' : Scanner} {t : Token}

theorem scanned_of_find {f : Find} (hc : s.cursor.rest = f.lead ++ f.raw ++ f.rest)
    (braces : List Brace) : Scanned s (f.token s) (f.after s braces) := by
  refine ⟨?_, ?_, rfl⟩
  · change _ ≤ (f.front s).position.offset
    rw [(Find.front_spec hc).2]
    exact Nat.le_add_right _ _
  · change (f.front s).position.offset ≤ (f.back s).position.offset
    rw [(Find.back_spec hc).2]
    exact Nat.le_add_right _ _

theorem next_places (h : next s = .ok t s') : Scanned s t s' := by
  obtain ⟨f, hf, rfl, rfl⟩ := next_eq_ok.1 h
  exact scanned_of_find hf.chars _

theorem nextRegex_places (h : nextRegex s = .ok t s') : Scanned s t s' := by
  obtain ⟨f, hf, rfl, rfl⟩ := nextRegex_eq_ok.1 h
  exact scanned_of_find hf.chars _

theorem nextRegex_formed (h : nextRegex s = .ok t s') : t.Formed := by
  have hk := nextRegex_kind h
  exact ⟨fun h => absurd (hk.symm.trans h) nofun, fun h => absurd (hk.symm.trans h) nofun,
    fun h => absurd (hk.symm.trans h) nofun⟩

end Scan

/-! ## The same trivia -/

/-- What begins with a slash begins with no comment of web pages. -/
theorem not_beginsHtml_of_slash {l : List Char} : ¬ BeginsHtml ('/' :: l) := by
  rintro (⟨m, hm⟩ | ⟨m, hm⟩)
  · exact absurd (List.cons.inj hm).1 (by decide)
  · exact absurd (List.cons.inj hm).1 (by decide)

/-- Trivia in front of what is no comment of web pages is the same whether these count or not. -/
theorem Lead.same {html html' atStart : Bool} {chars rest rest' : List Char}
    {pieces pieces' : List Trivium} (h : Lead html atStart chars pieces rest)
    (h' : Lead html' atStart chars pieces' rest') (hr : ¬ BeginsHtml rest)
    (hr' : ¬ BeginsHtml rest') : pieces' = pieces := by
  cases html' with
  | false => exact ((h.of_false h').resolve_right hr').1
  | true =>
    cases html with
    | false => exact ((h'.of_false h).resolve_right hr).1.symm
    | true => exact (h.unique h').1

/-- The text of markup begins with a brace or an angle bracket where it is a punctuator. -/
theorem Find.Next.text_punctuator {f : Find} {s : Scanner} (h : f.Next s) (hm : s.mode = .text)
    (hk : f.lexeme.kind = .punctuator) :
    ∃ c l, f.raw ++ f.rest = c :: l ∧ (c = '\x7b' ∨ c = '<') := by
  have hkind := h.kind
  rw [hk, Find.opening, hm] at hkind
  cases hl : f.raw ++ f.rest with
  | nil =>
    rw [hl] at hkind
    exact absurd hkind (by simp [Opening.of, Opening.ofText, Opening.kinds])
  | cons c l =>
    refine ⟨c, l, rfl, Decidable.byContradiction fun hc => ?_⟩
    have hopening : Opening.of .text s.braces (c :: l) = .markupText := if_neg (by simpa using hc)
    rw [hl, hopening] at hkind
    exact absurd hkind (by simp [Opening.kinds])

namespace Scan

variable {s s₀ s₁ : Scanner} {t t₁ : Token}

/-- A regular expression starts where the slash did that was seen in its place. -/
theorem regex_again {mode : Mode} (h : next s = .ok t s₀) (ht : t.isOneOf ["/", "/="] = true)
    (h' : nextRegex { s with mode } = .ok t₁ s₁) : t₁.start = t.start := by
  obtain ⟨f, hf, rfl, -⟩ := next_eq_ok.1 h
  obtain ⟨g, hg, rfl, -⟩ := nextRegex_eq_ok.1 h'
  obtain ⟨hk, hr⟩ : f.lexeme.kind = .punctuator ∧ (f.raw = ['/'] ∨ f.raw = ['/', '=']) := by
    obtain ⟨hk, hr⟩ := Bool.and_eq_true_iff.1 ht
    refine ⟨of_decide_eq_true hk, ?_⟩
    have hr : (f.token s).raw = "/" ∨ (f.token s).raw = "/=" := by
      simpa [List.contains_eq_mem] using hr
    change String.ofList f.raw = "/" ∨ String.ofList f.raw = "/=" at hr
    exact hr.imp (by simp [← String.toList_inj]) (by simp [← String.toList_inj])
  obtain ⟨l, hslash⟩ : ∃ l, f.raw ++ f.rest = '/' :: l := by
    rcases hr with hr | hr <;> rw [hr] <;> exact ⟨_, rfl⟩
  obtain ⟨l', hslash'⟩ : ∃ l, g.raw ++ g.rest = '/' :: l := by
    obtain ⟨l, hl, -⟩ := Read.regex_takes hg.reads
    exact ⟨l, hl⟩
  suffices hpieces : g.pieces = f.pieces by
    change (g.front _).position = (f.front s).position
    rw [Find.front, Find.front, Find.lead, Find.lead, hpieces]
  have htext : s.mode ≠ .text := by
    intro hm
    obtain ⟨c, m, hc, hcs⟩ := hf.text_punctuator hm hk
    rw [hslash] at hc
    obtain ⟨rfl, -⟩ := List.cons.inj hc
    exact absurd hcs (by decide)
  have hlead := hf.trivia
  rw [if_neg htext, hslash] at hlead
  have hlead' := hg.trivia
  rw [hslash'] at hlead'
  exact hlead.same hlead' not_beginsHtml_of_slash not_beginsHtml_of_slash

/-- Within a tag, nothing is passed over in front of what begins with an exclamation mark or an
angle bracket. -/
theorem tag_find {f : Find} {c : Char} {l : List Char} (hf : f.Next s) (hm : s.mode = .tag)
    (hr : s.cursor.rest = c :: l) (hc : c = '!' ∨ c = '<') :
    f.pieces = [] ∧ f.raw ++ f.rest = c :: l := by
  have hlead := hf.trivia
  have hfalse : s.allowsHtml = false := by simp [Scanner.allowsHtml, hm]
  rw [if_neg (by rw [hm]; decide), hr, hfalse] at hlead
  have hstart : ∀ atStart, Lead false atStart (c :: l) [] (c :: l) := by
    intro atStart
    rcases hc with rfl | rfl <;> cases atStart <;> exact .plain rfl (.nil rfl)
  exact (hstart _).unique hlead

/-- Nothing within a tag begins with an exclamation mark. -/
theorem next_tag_exclamation {l : List Char} (hm : s.mode = .tag) (hr : s.cursor.rest = '!' :: l) :
    next s ≠ .ok t s₀ := by
  intro h
  obtain ⟨f, hf, -, -⟩ := next_eq_ok.1 h
  have hreads := hf.reads
  rw [Find.opening, (tag_find hf hm hr (.inl rfl)).2, hm] at hreads
  cases hreads

/-- Markup starts where the angle bracket did that was seen in its place, or nothing can be scanned
behind its bracket. -/
theorem tag_again (h : next s = .ok t s₀) (ht : t.isPunctuator "<" = true)
    (h' : next { s with mode := .tag } = .ok t₁ s₁) :
    t₁.start = t.start ∧ t₁.isPunctuator "<" = true ∨ ∀ u s₂, next s₁ ≠ .ok u s₂ := by
  have hagain := h'
  obtain ⟨f, hf, rfl, -⟩ := next_eq_ok.1 h
  obtain ⟨g, hg, rfl, rfl⟩ := next_eq_ok.1 h'
  have hsame : g.pieces = f.pieces → (g.token { s with mode := .tag }).start =
    (f.token s).start := by
    intro hpieces
    change (g.front _).position = (f.front s).position
    rw [Find.front, Find.front, Find.lead, Find.lead, hpieces]
  cases hm : s.mode with
  | tag =>
    have hs : ({ s with mode := .tag } : Scanner) = s := by rw [← hm]
    rw [hs, h] at hagain
    injection hagain with hagain
    exact .inl ⟨congrArg (·.start) hagain.symm, hagain ▸ ht⟩
  | text =>
    have htrivia := hf.trivia
    rw [if_pos hm] at htrivia
    have hrest : s.cursor.rest = '<' :: f.rest := by
      rw [hf.chars, Find.lead, htrivia, Find.raw_of_isPunctuator ht]
      rfl
    obtain ⟨hpieces, hchars⟩ := tag_find hg rfl hrest (.inr rfl)
    exact .inl ⟨hsame (hpieces.trans htrivia.symm), isPunctuator_of_tag_angle hg rfl hchars⟩
  | normal =>
    have hangle := next_tag_of_angle hm h ht hagain
    rcases hf.tag_trivia hm hg with ⟨hpieces, -⟩ | hbegins
    · exact .inl ⟨hsame hpieces, hangle⟩
    · refine .inr fun u s₂ => ?_
      have hraw := Find.raw_of_isPunctuator hangle
      obtain ⟨l, hl⟩ : ∃ l, g.rest = '!' :: l := by
        rw [hraw] at hbegins
        rcases hbegins with ⟨m, hm⟩ | ⟨m, hm⟩
        · exact ⟨_, ((List.cons.inj hm).2).symm⟩
        · exact absurd (List.cons.inj hm).1 (by decide)
      refine next_tag_exclamation (l := l) ?_ ?_
      · exact Scanner.past_mode _ _
      · change (g.back _).rest = _
        rw [(Find.back_spec hg.chars).1, hl]

end Scan

end Verbatim
