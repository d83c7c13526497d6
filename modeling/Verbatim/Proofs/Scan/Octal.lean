import Verbatim.Proofs.Scan.Scanned

/-!
# Octal spellings

A numeral with a needless leading zero, and the escape of a digit in a string, are octal or nearly
so, and strict code does without them. The scanner marks the tokens that are spelled so. It meets
the escapes one after the other, and the characters that belong to an escape hold none of their own,
but for the second half of a pair, which is no digit.

## Main definitions

* `Verbatim.Text.hasDigitEscape`, `Verbatim.Text.hasNeedlessZero` — what strict code does without.
* `Verbatim.Token.Plain` — what the mark of a token tells of its spelling.

## Main results

* `Verbatim.Scan.next_plain` — the scanner marks every token of the language that is spelled so.
-/

namespace Verbatim

namespace Text

/-- Whether a digit is escaped somewhere in a text, other than a zero that no digit follows. -/
def hasDigitEscape : List Char → Bool
  | [] => false
  | [_] => false
  | c :: e :: rest =>
    if c = '\\' then Read.isOctalEscape e rest.head? || hasDigitEscape rest
    else hasDigitEscape (e :: rest)

/-- Whether a numeral begins with a zero in front of another digit. -/
def hasNeedlessZero : List Char → Bool
  | c :: d :: _ => c = '0' && isDecimalDigit d
  | _ => false

end Text

open Text

/-- What the mark of a token tells of its spelling. -/
structure Token.Plain (t : Token) : Prop where
  /-- A string stands between quotes. -/
  quoted : t.kind = .string →
    ∃ q inner, Read.isQuote q = true ∧ t.raw.toList = q :: (inner ++ [q])
  /-- A string without the mark has no escape of a digit. -/
  string : t.kind = .string → t.octal = false → hasDigitEscape t.raw.toList = false
  /-- A number without the mark has no needless zero. -/
  number : t.kind = .numeric ∨ t.kind = .bigint → t.octal = false →
    hasNeedlessZero t.raw.toList = false

namespace Read

/-! ## Characters that belong to an escape -/

/-- What stands between two places escapes no digit. -/
def Passes (l m : List Char) : Prop :=
  ∃ y, l = y ++ m ∧ ∀ z, hasDigitEscape (y ++ z) = hasDigitEscape z

namespace Passes

theorem refl (l : List Char) : Passes l l := ⟨[], rfl, fun _ => rfl⟩

theorem trans {l m k : List Char} (h : Passes l m) (h' : Passes m k) : Passes l k := by
  obtain ⟨y, rfl, hy⟩ := h
  obtain ⟨y', rfl, hy'⟩ := h'
  exact ⟨y ++ y', (List.append_assoc ..).symm, fun z => by rw [List.append_assoc, hy, hy']⟩

theorem cons {c : Char} {l : List Char} (hc : c ≠ '\\') : Passes (c :: l) l := by
  refine ⟨[c], rfl, fun z => ?_⟩
  cases z with
  | nil => rfl
  | cons d z => rw [List.singleton_append, hasDigitEscape, if_neg hc]

/-- The beginning of an escape of a code. -/
theorem code {l : List Char} : Passes ('\\' :: 'u' :: l) l :=
  ⟨['\\', 'u'], rfl, fun z => by
    change (if '\\' = '\\' then isOctalEscape 'u' z.head? || hasDigitEscape z else _) = _
    rw [if_pos rfl]
    rfl⟩

/-- Characters that are no backslash. -/
theorem dropWhile {p : Char → Bool} (hp : p '\\' = false) (l : List Char) :
    Passes l (l.dropWhile p) := by
  induction l with
  | nil => exact refl _
  | cons c l ih =>
    rw [List.dropWhile_cons]
    split
    · rename_i hc
      refine (cons ?_).trans ih
      rintro rfl
      exact absurd hc (by simp [hp])
    · exact refl _

end Passes

section

variable {l m : List Char}

/-- Hexadecimal digits escape no digit. -/
theorem passes_hexDigits? {count value : Nat} {v : Option Nat}
    (h : hexDigits? count value l = .ok v m) : Passes l m := by
  induction count generalizing value l with
  | zero =>
    obtain ⟨-, rfl⟩ := Run.pure_eq_ok.1 h
    exact .refl _
  | succ count ih =>
    rw [hexDigits?, peek_bind] at h
    cases hdigit : l.head?.bind (digitValue? 16) with
    | none =>
      rw [hdigit] at h
      obtain ⟨-, rfl⟩ := Run.pure_eq_ok.1 h
      exact .refl _
    | some digit =>
      rw [hdigit] at h
      obtain ⟨c, hc, hd⟩ := Option.bind_eq_some_iff.1 hdigit
      obtain ⟨l, rfl⟩ := List.head?_eq_some_iff.1 hc
      have hdigits : Text.digitValue? 16 '\\' = none := by decide
      refine (Passes.cons ?_).trans (ih (l := l) h)
      rintro rfl
      exact absurd (hdigits.symm.trans hd) (by simp)

/-- A Unicode escape has nothing in it that escapes a digit. -/
theorem passes_unicodeEscape? {v : Option Nat} (h : unicodeEscape? l = .ok v m) : Passes l m := by
  rw [unicodeEscape?_eq] at h
  split at h
  · exact passes_hexDigits? h
  · rename_i hopen
    obtain ⟨l, rfl⟩ : ∃ l', l = '\x7b' :: l' := by
      cases l with
      | nil => simp at hopen
      | cons c l => exact ⟨l, by simpa using hopen⟩
    have hdigits : Passes ('\x7b' :: l) (l.dropWhile (isDigitOf 16)) :=
      (Passes.cons (by decide)).trans (.dropWhile (by decide) l)
    simp only [List.drop_succ_cons, List.drop_zero] at h
    split at h
    · cases h
      exact hdigits
    · rename_i hclose
      cases h
      generalize l.dropWhile (isDigitOf 16) = after at hdigits hclose
      cases after with
      | nil => exact hdigits
      | cons c after =>
        obtain rfl : c = '\x7d' := by
          simp only [List.head?_cons, Option.any_some] at hclose
          simp_all
        exact hdigits.trans (.cons (by decide))

/-- Neither has the escape of a second half, whether it is taken or not. -/
theorem passes_trailingHalf? {v : Option Nat} (h : trailingHalf? l = .ok v m) : Passes l m := by
  change (if !"\\u".toList.isPrefixOf l then Pure.pure none else _ : Read (Option Nat)) l = _ at h
  rw [run_ite] at h
  split at h
  · obtain ⟨-, rfl⟩ := Run.pure_eq_ok.1 h
    exact .refl _
  · rename_i hu
    obtain ⟨before, _, hget, h⟩ := Run.bind_eq_ok.1 h
    cases hget
    obtain ⟨_, _, hskip, h⟩ := Run.bind_eq_ok.1 h
    obtain rfl := Run.modify_eq_ok.1 hskip
    obtain ⟨code, m', hcode, h⟩ := Run.bind_eq_ok.1 h
    split at h
    · obtain ⟨_, _, hset, h⟩ := Run.bind_eq_ok.1 h
      cases hset
      obtain ⟨-, rfl⟩ := Run.pure_eq_ok.1 h
      exact .refl _
    · obtain ⟨-, rfl⟩ := Run.pure_eq_ok.1 h
      obtain ⟨l, rfl⟩ : ∃ l', l = '\\' :: 'u' :: l' := by
        have hfront := List.isPrefixOf_iff_prefix.1
          (by simpa using hu : "\\u".toList.isPrefixOf l = true)
        obtain ⟨l', rfl⟩ := hfront
        exact ⟨l', rfl⟩
      exact Passes.code.trans (passes_unicodeEscape? hcode)

/-- The escapes of both halves of a pair have nothing in them that escapes a digit. -/
theorem passes_stringUnicodeEscape {v : Char} (h : stringUnicodeEscape l = .ok v m) :
    Passes l m := by
  obtain ⟨code, m₁, hcode, h⟩ := Run.bind_eq_ok.1 h
  have hfirst := passes_unicodeEscape? hcode
  cases code with
  | none => exact absurd h Run.throw_ne_ok
  | some unit =>
    dsimp only at h
    split at h
    · obtain ⟨-, rfl⟩ := Run.pure_eq_ok.1 h
      exact hfirst
    · obtain ⟨half, m₂, hhalf, h⟩ := Run.bind_eq_ok.1 h
      obtain rfl : m₂ = m := by
        cases half with
        | none => exact (Run.pure_eq_ok.1 h).2
        | some half => exact (Run.pure_eq_ok.1 h).2
      exact hfirst.trans (passes_trailingHalf? hhalf)

/-! ## Strings -/

/-- The letter of a control character is no digit. -/
theorem isDecimalDigit_of_controlEscape? {c v : Char} (h : controlEscape? c = some v) :
    isDecimalDigit c = false := by
  refine Bool.eq_false_iff.2 fun hc => ?_
  have hbeq : ∀ d, isDecimalDigit d = false → (c == d) = false := by
    refine fun d hd => beq_eq_false_iff_ne.2 fun hcd => ?_
    rw [← hcd, hc] at hd
    cases hd
  have hnone : controlEscape? c = none := by
    simp only [controlEscape?, List.lookup_cons, List.lookup_nil, hbeq 'n' rfl, hbeq 'r' rfl,
      hbeq 't' rfl, hbeq 'b' rfl, hbeq 'f' rfl, hbeq 'v' rfl]
  exact absurd (hnone.symm.trans h) (by simp)

/-- An escape without the mark escapes no digit. -/
theorem stringEscape_plain {c : Char} {v : Char} (h : stringEscape c l = .ok (v, false) m) :
    isOctalEscape c l.head? = false ∧ Passes l m := by
  unfold stringEscape at h
  cases hcontrol : controlEscape? c with
  | some control =>
    rw [hcontrol] at h
    obtain ⟨-, rfl⟩ := Run.pure_eq_ok.1 h
    exact ⟨by simp [isOctalEscape, isDecimalDigit_of_controlEscape? hcontrol], .refl _⟩
  | none =>
    rw [hcontrol] at h
    dsimp only at h
    rw [run_ite] at h
    split at h
    · rename_i hx
      subst hx
      obtain ⟨code, m₁, hcode, h⟩ := Run.bind_eq_ok.1 h
      cases hdecoded : code.bind scalar? with
      | some decoded =>
        rw [hdecoded] at h
        obtain ⟨-, rfl⟩ := Run.pure_eq_ok.1 h
        exact ⟨rfl, passes_hexDigits? hcode⟩
      | none =>
        rw [hdecoded] at h
        exact absurd h Run.throw_ne_ok
    rw [run_ite] at h
    split at h
    · rename_i hu
      subst hu
      obtain ⟨code, m₁, hcode, h⟩ := Run.bind_eq_ok.1 h
      obtain ⟨-, rfl⟩ := Run.pure_eq_ok.1 h
      exact ⟨rfl, passes_stringUnicodeEscape hcode⟩
    change (if c = '0' && !l.head?.any isDecimalDigit then _ else _ : Read _) l = _ at h
    rw [run_ite] at h
    split at h
    · rename_i hzero
      obtain ⟨-, rfl⟩ := Run.pure_eq_ok.1 h
      simp only [Bool.and_eq_true, decide_eq_true_eq] at hzero
      exact ⟨by simp [isOctalEscape, hzero], .refl _⟩
    rw [run_ite] at h
    split at h
    · obtain ⟨_, _, -, h⟩ := Run.bind_eq_ok.1 h
      cases (Run.pure_eq_ok.1 h).1
    · obtain ⟨hv, rfl⟩ := Run.pure_eq_ok.1 h
      exact ⟨by simp [isOctalEscape, (Prod.mk.inj hv).2], .refl _⟩

/-- The characters between a backslash and the place behind its escape, if that has no mark. -/
theorem stringEscaped_plain {taken taken' : List Char} {octal : Bool}
    (h : stringEscaped taken octal l = .ok (taken', false) m) :
    octal = false ∧ ∃ e y, l = e :: (y ++ m) ∧ isOctalEscape e (y ++ m).head? = false ∧
      ∀ z, hasDigitEscape (y ++ z) = hasDigitEscape z := by
  cases l with
  | nil => exact absurd h Run.throw_ne_ok
  | cons e l =>
    change (if isLineTerminator e then _ else _ : Read _) (e :: l) = _ at h
    rw [run_ite] at h
    split at h
    · rename_i hline
      have hdigit : ∀ next, isOctalEscape e next = false := by
        intro next
        have hnot : isDecimalDigit e = false := by
          have hmem : e ∈ ['\n', '\r', '\u2028', '\u2029'] := by
            simpa [isLineTerminator, or_assoc] using hline
          simp only [List.mem_cons, List.not_mem_nil, or_false] at hmem
          rcases hmem with rfl | rfl | rfl | rfl <;> rfl
        simp [isOctalEscape, hnot]
      obtain ⟨_, m₁, hskip, h⟩ := Run.bind_eq_ok.1 h
      obtain ⟨hv, rfl⟩ := Run.pure_eq_ok.1 h
      refine ⟨(Prod.mk.inj hv).2, ?_⟩
      obtain rfl : m₁ = (e :: l).drop (if "\r\n".toList.isPrefixOf (e :: l) then 2 else 1) :=
        Run.modify_eq_ok.1 hskip
      split
      · rename_i hcrlf
        rw [show "\r\n".toList = ['\r', '\n'] from rfl] at hcrlf
        obtain ⟨l', hl'⟩ := List.isPrefixOf_iff_prefix.1 hcrlf
        obtain ⟨rfl, rfl⟩ := List.cons.inj hl'
        obtain ⟨y, hy, hpass⟩ := Passes.cons (c := '\n') (l := l') (by decide)
        exact ⟨'\r', y, congrArg ('\r' :: ·) hy, hdigit _, hpass⟩
      · exact ⟨e, [], rfl, hdigit _, fun _ => rfl⟩
    · obtain ⟨⟨v, isOctal⟩, m₁, hescape, h⟩ := Run.bind_eq_ok.1
        (show (stringEscape e >>= fun _ => _ : Read _) l = _ from h)
      obtain ⟨hv, rfl⟩ := Run.pure_eq_ok.1 h
      obtain ⟨hoctal, hmark⟩ : octal = false ∧ isOctal = false := by
        simpa using (Prod.mk.inj hv).2
      subst hmark
      obtain ⟨hdigit, y, rfl, hy⟩ := stringEscape_plain hescape
      exact ⟨hoctal, e, y, rfl, hdigit, hy⟩

/-- A string without the mark escapes no digit, and the mark is never taken back. -/
theorem stringFrom_plain {quote : Char} {n : Nat} {taken taken' : List Char} {octal : Bool}
    (h : stringFrom quote n taken octal l = .ok (taken', false) m) :
    octal = false ∧ ∃ x, l = x ++ m ∧ x ≠ [] ∧ hasDigitEscape x = false := by
  induction n generalizing taken octal l with
  | zero => cases h
  | succ n ih =>
    rcases l with _ | ⟨c, l⟩
    · cases h
    change (if c = quote then _ else if c = '\\' then _ else if _ then _ else _ : Read _)
      (c :: l) = _ at h
    rw [run_ite, run_ite, run_ite] at h
    split at h
    · obtain ⟨hv, rfl⟩ := Run.pure_eq_ok.1
        (show (Pure.pure _ : Read (List Char × Bool)) l = _ from h)
      exact ⟨(Prod.mk.inj hv).2, [c], rfl, List.cons_ne_nil _ _, rfl⟩
    split at h
    · rename_i hc
      subst hc
      obtain ⟨⟨taken₁, octal₁⟩, m₁, hescaped, h⟩ := Run.bind_eq_ok.1
        (show (stringEscaped taken octal >>= fun _ => _ : Read _) l = _ from h)
      obtain ⟨rfl, x, rfl, hx, hplain⟩ := ih h
      obtain ⟨hoctal, e, y, rfl, hdigit, hy⟩ := stringEscaped_plain hescaped
      refine ⟨hoctal, '\\' :: e :: (y ++ x), by simp, List.cons_ne_nil _ _, ?_⟩
      obtain ⟨d, x, rfl⟩ := List.exists_cons_of_ne_nil hx
      have hhead : (y ++ d :: x).head? = (y ++ (d :: x ++ m)).head? := by
        cases y <;> rfl
      rw [hasDigitEscape, if_pos rfl, hhead, hdigit, hy, hplain]
      rfl
    split at h
    · cases h
    · rename_i hc _
      obtain ⟨hoctal, x, rfl, hx, hplain⟩ := ih (l := l) h
      obtain ⟨d, x, rfl⟩ := List.exists_cons_of_ne_nil hx
      refine ⟨hoctal, c :: d :: x, rfl, List.cons_ne_nil _ _, ?_⟩
      rw [hasDigitEscape, if_neg hc, hplain]

/-- A string ends with its quote, and without the mark it escapes no digit. -/
theorem string_plain {quote : Char} {x : List Char} {v : Lexeme} (hq : isQuote quote = true)
    (h : string quote (quote :: (x ++ m)) = .ok v m) :
    (∃ inner, x = inner ++ [quote]) ∧ (v.octal = false → hasDigitEscape (quote :: x) = false) := by
  obtain ⟨u, m₁, hu, hv⟩ := Run.bind_eq_ok.1
    (show (stringFrom quote ((x ++ m).length + 1) [] false >>= fun _ => _ : Read Lexeme)
      (x ++ m) = _
      from h)
  obtain ⟨rfl, rfl⟩ := Run.pure_eq_ok.1 hv
  obtain ⟨inner, hinner⟩ := stringFrom_closed hu
  have hx : x = inner ++ [quote] := by
    refine List.append_cancel_right (hinner.symm.trans ?_)
    rw [List.append_assoc, List.singleton_append]
  refine ⟨⟨inner, hx⟩, fun hoctal => ?_⟩
  obtain ⟨taken, octal⟩ := u
  obtain rfl : octal = false := hoctal
  obtain ⟨-, y, hy, -, hplain⟩ := stringFrom_plain hu
  obtain rfl : x = y := List.append_cancel_right hy
  have hquote : quote ≠ '\\' := by
    rintro rfl
    exact absurd hq (by decide)
  obtain ⟨d, x, rfl⟩ := List.exists_cons_of_ne_nil
    (hx ▸ List.append_ne_nil_of_right_ne_nil _ (by simp))
  rw [hasDigitEscape, if_neg hquote, hplain]

/-! ## Numerals -/

theorem yields_legacyNumeral : Yields (fun v => v.octal = true) legacyNumeral :=
  .bind fun _ => .ite (.bind fun _ => .pure rfl) (.bind fun _ => .bind fun _ => .pure rfl)

/-- A numeral without the mark has no needless zero. -/
theorem numeral_plain {x : List Char} {v : Lexeme} (h : numeral (x ++ m) = .ok v m)
    (hv : v.octal = false) : hasNeedlessZero x = false := by
  rcases x with _ | ⟨c, _ | ⟨d, x⟩⟩
  · rfl
  · rfl
  by_cases hc : c = '0'
  · subst hc
    by_cases hd : isDecimalDigit d = true
    · have hletter : ∀ c ∈ ['x', 'X', 'o', 'O', 'b', 'B'], d ≠ c := by
        rintro c hc rfl
        have hnone : ∀ c ∈ ['x', 'X', 'o', 'O', 'b', 'B'], isDecimalDigit c = false := by
          simp [isDecimalDigit]
        exact absurd (hd.symm.trans (hnone d hc)) (by decide)
      simp only [List.forall_mem_cons] at hletter
      have hlegacy : (zeroNumeral d : Read Lexeme) = legacyNumeral := by
        simp [zeroNumeral, hletter, hd]
      change zeroNumeral d ('0' :: d :: (x ++ m)) = _ at h
      rw [hlegacy] at h
      exact absurd ((yields_legacyNumeral h).symm.trans hv) (by decide)
    · simp [hasNeedlessZero, hd]
  · simp [hasNeedlessZero, hc]

end

end Read

/-! ## Tokens -/

/-- A string of the language is none within a tag. -/
theorem Opening.of_normal_ne {braces : List Brace} {chars : List Char} {q : Char} :
    Opening.of .normal braces chars ≠ .tagString q := by
  intro h
  cases chars with
  | nil => cases h
  | cons c l =>
    change ofLanguage _ (c :: l) = _ at h
    unfold ofLanguage at h
    repeat (split at h; · cases h)
    cases h

namespace Scan

variable {s s' : Scanner} {t : Token}

/-- The scanner marks every token of the language with an octal spelling. -/
theorem next_plain (h : next s = .ok t s') (hm : s.mode = .normal) : t.Plain := by
  obtain ⟨f, hf, rfl, -⟩ := next_eq_ok.1 h
  have hkind := hf.kind
  have hreads := hf.reads
  have hfits := Find.Next.fits s f
  have hraw : (f.token s).raw.toList = f.raw := String.toList_ofList
  have hstring : f.lexeme.kind = .string → (∃ q inner, Read.isQuote q = true ∧
      f.raw = q :: (inner ++ [q])) ∧ (f.lexeme.octal = false → hasDigitEscape f.raw = false) := by
    intro hk
    have hne : ∀ q, f.opening s ≠ .tagString q := by
      intro q ho
      rw [Find.opening, hm] at ho
      exact Opening.of_normal_ne ho
    rw [hk] at hkind
    cases ho : f.opening s <;> rw [ho] at hkind hfits hreads hne <;>
      simp only [Opening.kinds, List.mem_cons, List.not_mem_nil, or_false, reduceCtorEq] at hkind
    case tagString q => exact absurd rfl (hne q)
    case string q =>
      obtain ⟨c, x, hcx⟩ := List.exists_cons_of_ne_nil (hf.raw_ne_nil (by rw [hk]; decide))
      rw [hcx] at hfits hreads ⊢
      obtain ⟨rfl, hq⟩ : c = q ∧ Read.isQuote q = true := by
        cases hfits with
        | string hq => exact ⟨rfl, hq⟩
      obtain ⟨⟨inner, rfl⟩, hplain⟩ := Read.string_plain hq hreads
      exact ⟨⟨c, inner, hq, rfl⟩, hplain⟩
  have hnumber : f.lexeme.kind = .numeric ∨ f.lexeme.kind = .bigint → f.lexeme.octal = false →
      hasNeedlessZero f.raw = false := by
    intro hk
    have ho : f.opening s = .numeral := by
      rcases hk with hk | hk <;> rw [hk] at hkind <;> cases ho : f.opening s <;>
        rw [ho] at hkind <;>
        first
        | rfl
        | simp [Opening.kinds] at hkind
    rw [ho] at hreads
    exact Read.numeral_plain hreads
  refine ⟨fun hk => ?_, fun hk ho => ?_, fun hk ho => ?_⟩
  · rw [hraw]
    exact (hstring hk).1
  · rw [hraw]
    exact (hstring hk).2 ho
  · rw [hraw]
    exact hnumber hk ho

end Scan

end Verbatim
