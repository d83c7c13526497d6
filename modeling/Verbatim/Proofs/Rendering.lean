import Verbatim.Proofs.Recorded.Statement
import Verbatim.Proofs.Scan.Rendered

/-!
# Rendering and scanning

The text that a literal is rendered as is scanned as one token, which means the literal again: a
string whatever stands behind it, a big integer if nothing runs into it. A regular expression that
was parsed is rendered as it was spelled.

## Main definitions

* `Verbatim.Scan.Takes` — a token is scanned that is spelled by the given text.

## Main results

* `Verbatim.render_inverse` — scanning and rendering are inverse.
-/

namespace Verbatim

open Verbatim.Text

/-! ## Tokens without trivia -/

/-- What begins with such a character is no trivia. -/
structure StartsToken (c : Char) : Prop where
  /-- It is no blank. -/
  notBlank : isBlank c = false
  /-- It ends no line. -/
  notLineEnd : isLineTerminator c = false
  /-- It begins no comment. -/
  noComment : c ∉ ['#', '/', '<', '-']

theorem StartsToken.of_isQuote {c : Char} (h : Read.isQuote c = true) : StartsToken c := by
  obtain rfl | rfl : c = '"' ∨ c = '\x27' := by simpa [Read.isQuote] using h
  · exact ⟨rfl, rfl, by decide⟩
  · exact ⟨rfl, rfl, by decide⟩

/-- What is true of the ten digits is true of a digit. -/
theorem Text.forall_isDecimalDigit {P : Char → Prop}
    (h : ∀ code < 58, 48 ≤ code → P (Char.ofNat code))
    {c : Char} (hc : isDecimalDigit c = true) : P c := by
  obtain ⟨h₀, h₉⟩ : '0' ≤ c ∧ c ≤ '9' := by simpa [isDecimalDigit] using hc
  have hcode := h c.toNat (Nat.lt_succ_of_le h₉) h₀
  rwa [Char.ofNat_toNat] at hcode

theorem StartsToken.of_isDecimalDigit {c : Char} (h : isDecimalDigit c = true) : StartsToken c := by
  obtain ⟨hblank, hline, hcomment⟩ := forall_isDecimalDigit (P := fun c =>
    isBlank c = false ∧ isLineTerminator c = false ∧ c ∉ ['#', '/', '<', '-']) (by decide) h
  exact ⟨hblank, hline, hcomment⟩

/-- A numeral begins with a digit. -/
theorem Opening.of_isDecimalDigit {braces : List Brace} {c : Char} (h : isDecimalDigit c = true)
    (rest : List Char) : Opening.of .normal braces (c :: rest) = .numeral := by
  obtain ⟨hname, hquote⟩ := forall_isDecimalDigit (P := fun c =>
    (isNameStart c || c == '\\') = false ∧ (c == '"' || c == '\x27') = false ∧
    (c == '\x60') = false)
    (by decide) h
  simp [Opening.of, Opening.ofLanguage, hname, hquote, h]

/-- No trivia is in front of what is none. -/
theorem Lead.of_startsToken {html atStart : Bool} {c : Char} (h : StartsToken c)
    (rest : List Char) :
    Lead html atStart (c :: rest) [] (c :: rest) := by
  obtain ⟨hblank, hline, hcomment⟩ := h
  have hcr : c ≠ '\r' := by
    rintro rfl
    cases hline
  have hsigns : c ≠ '#' ∧ c ≠ '/' ∧ c ≠ '<' ∧ c ≠ '-' := by simpa using hcomment
  refine .plain (by simp [List.isPrefixOf, Ne.symm hsigns.1]) (.nil ?_)
  simp [Front.of, List.isPrefixOf, hblank, hline, Ne.symm hcr, hsigns.2.1.symm, hsigns.2.2.1.symm,
    hsigns.2.2.2.symm]

/-- A token is scanned that is spelled by the given text, with nothing in front of it, and scanning
stands behind that text. -/
structure Scan.Takes (s : Scanner) (text : String) (rest : List Char) (t : Token) (s' : Scanner) :
    Prop where
  /-- The token is scanned. -/
  scanned : Scan.next s = .ok t s'
  /-- It is spelled by the text. -/
  raw : t.raw = text
  /-- Nothing is in front of it. -/
  lead : t.lead = ""
  /-- It starts where scanning does. -/
  start : t.start = s.cursor.position
  /-- It ends where the text does. -/
  stop : t.stop = s'.cursor.position
  /-- The rest remains. -/
  rest : s'.cursor.rest = rest

/-- What a reader reads is scanned. -/
theorem Scan.takes_of_reads {s : Scanner} {c : Char} {raw rest : List Char} {v : Lexeme}
    (hmode : s.mode = .normal) (hrest : s.cursor.rest = c :: raw ++ rest) (hc : StartsToken c)
    (hreads : (Opening.of .normal s.braces (c :: raw ++ rest)).reader
      (c :: raw ++ rest) = .ok v rest) :
    ∃ t s', Scan.Takes s (String.ofList (c :: raw)) rest t s' ∧ t.toLexeme = v := by
  let f : Find := ⟨[], c :: raw, rest, v⟩
  have hf : f.Next s := by
    refine ⟨hrest, ?_, ?_⟩
    · rw [if_neg (by simp [hmode]), hrest]
      exact .of_startsToken hc _
    · rw [Find.opening, hmode]
      exact hreads
  refine ⟨f.token s, _, ⟨Scan.next_eq_ok.2 ⟨f, hf, rfl, rfl⟩, rfl, rfl, rfl, rfl, ?_⟩, rfl⟩
  exact (Find.back_spec hf.chars).1

/-! ## Literals -/

/-- A rendered string is scanned as the text that was rendered. -/
theorem scan_string {quote : Char} (hquote : Read.isQuote quote = true) (text : String)
    {s : Scanner}
    {rest : List Char} (hmode : s.mode = .normal)
    (hrest : s.cursor.rest = ((Value.string text).render quote).toList ++ rest) :
    ∃ t s', Scan.Takes s ((Value.string text).render quote) rest t s' ∧ t.kind = .string ∧
      t.text = text ∧ t.octal = false := by
  have hreads := Read.string_quote hquote text rest
  have hrender : (Value.string text).render quote =
      String.ofList (quote :: (quoteBody quote text.toList ++ [quote])) := rfl
  have hquoted : Text.quote quote text = (Value.string text).render quote := rfl
  rw [hquoted, hrender, String.toList_ofList] at hreads
  rw [hrender, String.toList_ofList] at hrest
  have hopening : ∀ l, Opening.of .normal s.braces (quote :: l) = .string quote := by
    obtain rfl | rfl : quote = '"' ∨ quote = '\x27' := by simpa [Read.isQuote] using hquote
    · exact fun _ => rfl
    · exact fun _ => rfl
  obtain ⟨t, s', ht, hlexeme⟩ := Scan.takes_of_reads hmode hrest (.of_isQuote hquote) (by
    rw [List.cons_append, hopening]
    exact hreads)
  obtain ⟨⟨kind, value, octal, escaped⟩, raw, lead, start, stop, lineStart, newlineBefore⟩ := t
  cases hlexeme
  exact ⟨_, s', ht, rfl, rfl, rfl⟩

/-- A rendered big integer is scanned as its value, if nothing runs into it. -/
theorem scan_bigint (n : Nat) (quote : Char) {s : Scanner} {rest : List Char}
    (hmode : s.mode = .normal)
    (hrest : s.cursor.rest = ((Value.bigint n).render quote).toList ++ rest)
    (hends : Read.EndsNumeral rest) :
    ∃ t s', Scan.Takes s ((Value.bigint n).render quote) rest t s' ∧ t.kind = .bigint ∧
      bigint? t.text = some (n : Int) := by
  have hrender : (Value.bigint n).render quote = String.ofList (Nat.toDigits 10 n ++ ['n']) :=
    (String.ofList_append ..).symm
  have hvalue := bigint?_toDigits n
  have hreads := Read.numeral_bigint n hends
  have hdigit : ∀ d ∈ Nat.toDigits 10 n, isDecimalDigit d = true := fun _ => isDecimalDigit_of_mem
  obtain ⟨d, digits, hdigits⟩ := List.exists_cons_of_ne_nil (Nat.toDigits_ne_nil (n := n) (b := 10))
  rw [hdigits] at hrender hvalue hreads hdigit
  rw [hrender, String.toList_ofList] at hrest
  have hd := hdigit d (List.mem_cons_self ..)
  rw [List.cons_append] at hrest
  obtain ⟨t, s', ht, hlexeme⟩ := Scan.takes_of_reads hmode hrest
    (.of_isDecimalDigit hd) (by
      rw [List.cons_append, Opening.of_isDecimalDigit hd, List.append_assoc]
      exact hreads)
  obtain ⟨⟨kind, value, octal, escaped⟩, raw, lead, start, stop, lineStart, newlineBefore⟩ := t
  cases hlexeme
  rw [hrender]
  exact ⟨_, s', ht, rfl, hvalue⟩

/-- Scanning inverts rendering. A rendered string is scanned as one token with its text, whatever
stands behind it, and a rendered big integer as one token with its value, if neither a name nor a
digit stands behind it. In a parsed program, regular expressions are rendered as they are
spelled. -/
theorem render_inverse :
    (∀ (quote : Char) (text : String) (s : Scanner) (rest : List Char),
      Read.isQuote quote = true → s.mode = .normal →
      s.cursor.rest = ((Value.string text).render quote).toList ++ rest →
      ∃ t s', Scan.Takes s ((Value.string text).render quote) rest t s' ∧ t.kind = .string ∧
        t.text = text ∧ t.octal = false) ∧
    (∀ (quote : Char) (n : Nat) (s : Scanner) (rest : List Char), s.mode = .normal →
      s.cursor.rest = ((Value.bigint n).render quote).toList ++ rest →
      rest.head?.any (fun c => isNameStart c || isDecimalDigit c || c == '\\') = false →
      ∃ t s', Scan.Takes s ((Value.bigint n).render quote) rest t s' ∧ t.kind = .bigint ∧
        bigint? t.text = some (n : Int)) ∧
    ∀ (quote : Char) (o : Options) (source : String) (out : Parsed), parse o source = .ok out →
      ∀ (c : Category) (ctx : Context) (x : Tree c), out.program.Contains o ctx x →
      ∀ (lit : Literal) (pattern flags : String), x.literal? = some lit →
      lit.value = .regex pattern flags → lit.value.render quote = lit.raw := by
  refine ⟨fun _ text _ _ hquote => scan_string hquote text,
    fun quote n _ _ => scan_bigint n quote, ?_⟩
  intro quote o source out h c ctx x hx lit pattern flags hlit hvalue
  rw [(hx.records h).spelled lit hlit pattern flags hvalue, hvalue]
  rfl

/-- A NUL in front of a digit, a big integer in front of an operator, and a regular expression with
a slash in a class. -/
theorem render_inverse_nul :
    (∃ t s', Scan.Takes (.start "'\\x001\\''7" false false) ((Value.string "\x001'").render '\x27')
      ['7'] t s' ∧ t.kind = .string ∧ t.text = "\x001'" ∧ t.octal = false) ∧
    (∃ t s', Scan.Takes (.start "120n+" false false) ((Value.bigint (120 : Nat)).render '"')
      ['+'] t s' ∧
      t.kind = .bigint ∧ bigint? t.text = some ((120 : Nat) : Int)) ∧
    ∃ out ctx lit, parse {} "/[/]/g" = .ok out ∧ out.program.Contains {} ctx (.literal lit) ∧
      lit.value = .regex "[/]" "g" ∧ lit.value.render '"' = lit.raw := by
  obtain ⟨hstring, hbigint, hregex⟩ := render_inverse
  have hparse : (parse {} "/[/]/g").toOption.map (·.program.body) =
      some [.exprStmt (.literal { value := .regex "[/]" "g", raw := "/[/]/g" }) none
        .inserted {}] := by
    decide +kernel
  obtain ⟨out, h, hbody⟩ := Except.exists_ok_of_map hparse
  have hx : out.program.Contains {} _ _ :=
    .of_body hbody (List.mem_singleton_self _) (.inPart _ (List.mem_singleton_self _) .whole)
  exact ⟨hstring '\x27' "\x001'" _ ['7'] rfl rfl (by decide),
    hbigint '"' 120 _ ['+'] rfl (by decide) (by decide),
    out, _, _, h, hx, rfl, hregex '"' _ _ out h _ _ _ hx _ "[/]" "g" rfl rfl⟩

end Verbatim
