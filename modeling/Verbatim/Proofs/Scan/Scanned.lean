import Verbatim.Proofs.Scan.Next

/-!
# What is known of a token that was scanned

## Main definitions

* `Verbatim.Token.Formed` — what the kind of a token tells of its spelling.

## Main results

* `Verbatim.Scan.next_shorter`, `Verbatim.Scan.nextRegex_shorter` — scanning takes characters.
* `Verbatim.Scan.next_quiet_ok`, `Verbatim.Scan.next_of_quiet` — comments make no difference.
* `Verbatim.Scan.next_formed` — a token that was scanned is well formed.
* `Verbatim.Scan.next_tag_of_angle` — an angle bracket is one within a tag, too.
-/

namespace Verbatim

/-- What the kind of a token tells of its spelling. -/
structure Token.Formed (t : Token) : Prop where
  /-- A template piece stands between its delimiters. -/
  template : t.kind = .template → ∃ cooked isHead isTail, ∃ inner : String,
    t.value = .template cooked isHead isTail ∧
      t.raw = (if isHead then "\x60" else "\x7d") ++ inner ++ (if isTail then "\x60" else "$\x7b")
  /-- A private name has a decoded text, which is shorter than the spelling with its number sign. -/
  privateName : t.kind = .privateName → ∃ text, t.value = .text text ∧ text.length < t.raw.length
  /-- Text between tags has no trivia in front of it. -/
  markupText : t.kind = .markupText → t.lead = ""

namespace Find

variable {f : Find} {s : Scanner}

theorem after_quiet (braces : List Brace) : f.after s.quiet braces = (f.after s braces).quiet := by
  rw [after, ← s.quiet_past]
  rfl

/-- What the kind of a token tells of its lexeme. -/
theorem kind_eq_eof (h : (f.token s).isEof = true) : f.lexeme.kind = .eof := of_decide_eq_true h

theorem kind_ne_eof (h : (f.token s).isEof = false) : f.lexeme.kind ≠ .eof := of_decide_eq_false h

/-- The characters of a punctuator. -/
theorem raw_of_isPunctuator {spelling : String} (ht : (f.token s).isPunctuator spelling = true) :
    f.raw = spelling.toList := by
  have hr : (f.token s).raw = spelling := (by simpa [Token.isPunctuator] using ht : _ ∧ _).2
  rw [← hr]
  exact String.toList_ofList.symm

namespace Next

theorem fits (s : Scanner) (f : Find) : Opening.Fits (f.opening s) (f.raw ++ f.rest) :=
  Opening.fits ..

variable (h : f.Next s)
include h

theorem kind : f.lexeme.kind ∈ (f.opening s).kinds := (fits s f).kind h.reads

/-- Only the end of the source is spelled by nothing. -/
theorem raw_ne_nil (hk : f.lexeme.kind ≠ .eof) : f.raw ≠ [] := by
  intro hraw
  have hreads := h.reads
  have hfits := fits s f
  have hkind := h.kind
  rw [hraw, List.nil_append] at hreads hfits
  cases hrest : f.rest with
  | nil =>
    rw [hrest] at hfits
    generalize f.opening s = opening at hfits hkind
    cases hfits
    exact hk (by simpa [Opening.kinds] using hkind)
  | cons c l =>
    rw [hrest] at hreads hfits
    have hlen := (hfits.takes hreads).length_le
    simp only [List.length_cons] at hlen
    omega

/-- Behind the end of the source there is nothing. -/
theorem eof (hk : f.lexeme.kind = .eof) : f.raw = [] ∧ f.rest = [] := by
  have hfits := fits s f
  have hkind := h.kind
  rw [hk] at hkind
  generalize f.opening s = opening at hfits hkind
  generalize hchars : f.raw ++ f.rest = chars at hfits
  cases hfits
  · exact List.append_eq_nil_iff.1 hchars
  all_goals simp [Opening.kinds] at hkind

/-- A private name is a word behind a number sign. -/
theorem privateName_word (hk : f.lexeme.kind = .privateName) : ∃ v spelled,
    f.raw = '#' :: spelled ∧ Read.word (spelled ++ f.rest) = .ok v f.rest ∧
      { v with kind := .privateName } = f.lexeme := by
  have hkind := h.kind
  have hreads := h.reads
  have hfits := fits s f
  rw [hk] at hkind
  cases ho : f.opening s <;> rw [ho] at hkind hreads hfits <;>
    simp only [Opening.kinds, List.mem_cons, List.not_mem_nil, or_false, reduceCtorEq] at hkind
  generalize hchars : f.raw ++ f.rest = chars at hreads hfits
  cases hfits with
  | @privateName l =>
    have hrun : Read.privateName ('#' :: l) =
        (Read.word >>= fun v => pure { v with kind := .privateName } : Read Lexeme) l := rfl
    obtain ⟨v, m, hv, hpure⟩ := Run.bind_eq_ok.1 (hrun.symm.trans hreads)
    obtain ⟨hl, rfl⟩ := Run.pure_eq_ok.1 hpure
    obtain ⟨c, spelled, hraw⟩ := List.exists_cons_of_ne_nil (h.raw_ne_nil (by rw [hk]; decide))
    rw [hraw] at hchars
    obtain ⟨rfl, rfl⟩ := List.cons.inj hchars
    exact ⟨v, spelled, hraw, hv, hl⟩

/-- A private name could be spelled as it is meant, and is so unless there is an escape. -/
theorem privateName (hk : f.lexeme.kind = .privateName) : ∃ name,
    f.lexeme.value = .text (String.ofList name) ∧ Read.Stops name.reverse f.rest ∧
      (∀ rest, Read.Stops name.reverse rest →
        Read.privateName ('#' :: name ++ rest) = .ok { f.lexeme with escaped := false } rest) ∧
      ∃ spelled, f.raw = '#' :: spelled ∧ ('\\' ∉ spelled → spelled = name) ∧
        ∀ rest, Parts ('#' :: (spelled ++ f.rest)) ('#' :: (name ++ rest)) := by
  obtain ⟨v, spelled, hraw, hv, hl⟩ := h.privateName_word hk
  have hrun : ∀ l, Read.privateName ('#' :: l) =
      (Read.word >>= fun v => pure { v with kind := .privateName } : Read Lexeme) l := fun _ => rfl
  obtain ⟨name, hvalue, hne, hstops, hagain, hspelled⟩ := Read.word_spelled hv
  refine ⟨name, (congrArg (·.value) hl).symm.trans hvalue, hstops,
    fun rest hrest => ?_, spelled, hraw,
    hspelled spelled rfl, fun rest => ?_⟩
  · rw [← hl, List.cons_append, hrun]
    exact Run.bind_eq_ok.2 ⟨_, _, hagain rest hrest, rfl⟩
  · have hhead : ∀ {l m : List Char} {v}, Read.word l = .ok v m → l.head? ≠ some '!' := by
      intro l m v hl
      obtain ⟨c, l, rfl, hc | hc⟩ := Read.word_head hl <;> rintro ⟨⟩
      · cases hc
      · exact absurd hc (by decide)
    have hname := hhead (hagain [] nofun)
    rw [List.append_nil] at hname
    obtain ⟨c, chars, rfl⟩ := List.exists_cons_of_ne_nil hne
    exact .number (hhead hv) hname

/-- A scanned token has the form of its kind. -/
theorem formed : (f.token s).Formed := by
  have hkind := h.kind
  have hreads := h.reads
  have hfits := fits s f
  refine ⟨fun hk => ?_, fun hk => ?_, fun hk => ?_⟩
  · rw [show f.lexeme.kind = _ from hk] at hkind
    cases ho : f.opening s <;> rw [ho] at hkind hreads hfits <;>
      simp only [Opening.kinds, List.mem_cons, List.not_mem_nil, or_false, reduceCtorEq] at hkind
    rename_i isHead
    obtain ⟨cooked, isTail, inner, hv, hraw⟩ := hfits.template hreads
    refine ⟨cooked, isHead, isTail, String.ofList inner, hv, ?_⟩
    change String.ofList f.raw = _
    rw [List.append_cancel_right hraw]
    cases isHead <;> cases isTail <;> simp [Read.pieceEnd, String.ofList_append,
      ← String.toList_inj]
  · obtain ⟨v, spelled, hraw, hv, hl⟩ := h.privateName_word hk
    obtain ⟨name, hvalue, -, hlen⟩ := Read.word_length hv
    refine ⟨String.ofList name, (congrArg (·.value) hl).symm.trans hvalue, ?_⟩
    rw [show (f.token s).raw = String.ofList f.raw from rfl, hraw]
    simp only [List.length_append, String.length_ofList, List.length_cons] at hlen ⊢
    omega
  · rw [show f.lexeme.kind = _ from hk] at hkind
    have hm : s.mode = .text := by
      cases ho : f.opening s <;> rw [ho] at hkind <;>
        simp only [Opening.kinds, List.mem_cons, List.not_mem_nil, or_false, reduceCtorEq] at hkind
      exact Opening.mode_of_markupText ho
    have htrivia := h.trivia
    rw [if_pos hm] at htrivia
    change String.ofList f.lead = ""
    rw [Find.lead, htrivia]
    rfl

/-- Within a tag there is the same trivia, or it stops in front of a comment of web pages. -/
theorem tag_trivia {g : Find} (hm : s.mode = .normal) (hg : g.Next { s with mode := .tag }) :
    g.pieces = f.pieces ∧ g.raw ++ g.rest = f.raw ++ f.rest ∨ BeginsHtml (g.raw ++ g.rest) := by
  have hlead := h.trivia
  have hlead' := hg.trivia
  rw [if_neg (by rw [hm]; decide)] at hlead
  rw [if_neg (by simp)] at hlead'
  have hfalse : ({ s with mode := .tag } : Scanner).allowsHtml = false := by
    simp [Scanner.allowsHtml]
  rw [hfalse] at hlead'
  exact hlead.of_false hlead'

end Next

theorem next_quiet : f.Next s.quiet ↔ f.Next s :=
  ⟨fun ⟨hc, ht, hr⟩ => ⟨hc, ht, hr⟩, fun ⟨hc, ht, hr⟩ => ⟨hc, ht, hr⟩⟩

theorem regex_quiet : f.Regex s.quiet ↔ f.Regex s :=
  ⟨fun ⟨hc, ht, hr⟩ => ⟨hc, ht, hr⟩, fun ⟨hc, ht, hr⟩ => ⟨hc, ht, hr⟩⟩

/-- A regular expression is spelled by something. -/
theorem Regex.raw_ne_nil (h : f.Regex s) : f.raw ≠ [] := by
  intro hraw
  obtain ⟨l, hl, hs, -⟩ := Read.regex_takes h.reads
  rw [hraw, List.nil_append] at hl
  have hlen := hs.length_le
  rw [hl, List.length_cons] at hlen
  omega

theorem rest_length (hc : s.cursor.rest = f.lead ++ f.raw ++ f.rest) (hr : f.raw ≠ []) :
    f.rest.length < s.cursor.rest.length := by
  have hpos := List.length_pos_iff.2 hr
  rw [hc, List.length_append, List.length_append]
  omega

end Find

namespace Scan

variable {s s' : Scanner} {t : Token}

/-! ## Comments make no difference -/

theorem next_quiet_ok (h : next s = .ok t s') : next s.quiet = .ok t s'.quiet := by
  obtain ⟨f, hf, rfl, rfl⟩ := next_eq_ok.1 h
  exact next_eq_ok.2 ⟨f, Find.next_quiet.2 hf, rfl, (Find.after_quiet _).symm⟩

theorem next_of_quiet (h : next s.quiet = .ok t s') : ∃ r, next s = .ok t r ∧ r.quiet = s' := by
  obtain ⟨f, hf, rfl, rfl⟩ := next_eq_ok.1 h
  exact ⟨_, next_eq_ok.2 ⟨f, Find.next_quiet.1 hf, rfl, rfl⟩, (Find.after_quiet _).symm⟩

theorem nextRegex_quiet_ok (h : nextRegex s = .ok t s') :
    nextRegex s.quiet = .ok t s'.quiet := by
  obtain ⟨f, hf, rfl, rfl⟩ := nextRegex_eq_ok.1 h
  exact nextRegex_eq_ok.2 ⟨f, Find.regex_quiet.2 hf, rfl, (Find.after_quiet _).symm⟩

theorem nextRegex_of_quiet (h : nextRegex s.quiet = .ok t s') :
    ∃ r, nextRegex s = .ok t r ∧ r.quiet = s' := by
  obtain ⟨f, hf, rfl, rfl⟩ := nextRegex_eq_ok.1 h
  exact ⟨_, nextRegex_eq_ok.2 ⟨f, Find.regex_quiet.1 hf, rfl, rfl⟩, (Find.after_quiet _).symm⟩

/-! ## What scanning leaves alone, and what it takes -/

theorem next_mode (h : next s = .ok t s') : s'.mode = s.mode := by
  obtain ⟨f, -, -, rfl⟩ := next_eq_ok.1 h
  exact s.past_mode _

theorem next_isModule (h : next s = .ok t s') : s'.isModule = s.isModule := by
  obtain ⟨f, -, -, rfl⟩ := next_eq_ok.1 h
  exact s.past_isModule _

theorem nextRegex_mode (h : nextRegex s = .ok t s') : s'.mode = s.mode := by
  obtain ⟨f, -, -, rfl⟩ := nextRegex_eq_ok.1 h
  exact s.past_mode _

theorem nextRegex_isModule (h : nextRegex s = .ok t s') : s'.isModule = s.isModule := by
  obtain ⟨f, -, -, rfl⟩ := nextRegex_eq_ok.1 h
  exact s.past_isModule _

theorem next_kind (h : next s = .ok t s') : t.kind ≠ .regex := by
  obtain ⟨f, hf, rfl, -⟩ := next_eq_ok.1 h
  intro hk
  have hkind := hf.kind
  rw [show f.lexeme.kind = _ from hk] at hkind
  cases ho : f.opening s <;> simp [ho, Opening.kinds] at hkind

theorem nextRegex_kind (h : nextRegex s = .ok t s') : t.kind = .regex := by
  obtain ⟨f, hf, rfl, -⟩ := nextRegex_eq_ok.1 h
  have hyields : Read.Yields (fun v => v.kind = .regex) Read.regex :=
    .bind fun _ => .ite (.throw _) (.bind fun _ => .bind fun _ => .bind fun _ => .bind fun _ =>
      .ite (.throw _) (.pure rfl))
  exact hyields hf.reads

theorem next_shorter (h : next s = .ok t s') (ht : t.isEof = false) :
    s'.cursor.rest.length < s.cursor.rest.length := by
  obtain ⟨f, hf, rfl, rfl⟩ := next_eq_ok.1 h
  change (f.back s).rest.length < _
  rw [(Find.back_spec hf.chars).1]
  exact Find.rest_length hf.chars (hf.raw_ne_nil (Find.kind_ne_eof ht))

theorem nextRegex_shorter (h : nextRegex s = .ok t s') :
    s'.cursor.rest.length < s.cursor.rest.length := by
  obtain ⟨f, hf, rfl, rfl⟩ := nextRegex_eq_ok.1 h
  change (f.back s).rest.length < _
  rw [(Find.back_spec hf.chars).1]
  exact Find.rest_length hf.chars hf.raw_ne_nil

theorem next_formed (h : next s = .ok t s') : t.Formed := by
  obtain ⟨f, hf, rfl, -⟩ := next_eq_ok.1 h
  exact hf.formed

/-- What begins with an angle bracket within a tag is the bracket. -/
theorem isPunctuator_of_tag_angle {g : Find} {l : List Char} (hg : g.Next s) (hm : s.mode = .tag)
    (hl : g.raw ++ g.rest = '<' :: l) : (g.token s).isPunctuator "<" = true := by
  have hreads := hg.reads
  rw [Find.opening, hl, hm] at hreads
  obtain ⟨hv, hrest⟩ := Run.pure_eq_ok.1 (show (pure _ : Read Lexeme) l = _ from hreads)
  have hgraw : g.raw = ['<'] := by
    rw [hrest] at hl
    exact List.append_cancel_right (hl.trans rfl)
  change (g.lexeme.kind = .punctuator && String.ofList g.raw == "<") = true
  rw [← hv, hgraw]
  rfl

/-- An angle bracket is one within a tag, too. The trivia in front of it is the same there, or it
stops in front of a comment of web pages. -/
theorem next_tag_of_angle {s₀ s₁ : Scanner} {t₁ : Token} (hm : s.mode = .normal)
    (h : next s = .ok t s₀) (ht : t.isPunctuator "<" = true)
    (h' : next { s with mode := .tag } = .ok t₁ s₁) : t₁.isPunctuator "<" = true := by
  obtain ⟨f, hf, rfl, -⟩ := next_eq_ok.1 h
  obtain ⟨g, hg, rfl, -⟩ := next_eq_ok.1 h'
  have hhead : (g.raw ++ g.rest).head? = some '<' ∨ (g.raw ++ g.rest).head? = some '-' := by
    rcases hf.tag_trivia hm hg with ⟨-, hrest⟩ | ⟨_, he⟩ | ⟨_, he⟩
    · rw [hrest, Find.raw_of_isPunctuator ht]
      exact .inl rfl
    · rw [← he]
      exact .inl rfl
    · rw [← he]
      exact .inr rfl
  rcases hhead with he | he
  · obtain ⟨l, hl⟩ := List.head?_eq_some_iff.1 he
    exact isPunctuator_of_tag_angle hg rfl hl
  · obtain ⟨l, hl⟩ := List.head?_eq_some_iff.1 he
    have hreads := hg.reads
    rw [Find.opening, hl] at hreads
    cases hreads

end Scan

end Verbatim
