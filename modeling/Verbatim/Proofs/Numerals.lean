import Mathlib.Tactic.ByContra
import Verbatim.Proofs.Scan.Single

/-!
# The grammar of numerals

What a numeral is can be said without reading one: digits with separators between them, a fraction
and an exponent, a radix or the sign of a big integer. A source is read as one numeral and nothing
else exactly if it is spelled like that, with one liberty: behind a leading zero a separator may
stand.

## Main definitions

* `Verbatim.IsNumeral` — how numerals are spelled, given what the whole digits of a decimal one are.
* `Verbatim.IsPlainWhole`, `Verbatim.IsZeroSeparated` — whole digits without a needless zero, and
  those with a separator behind a zero.

## Main results

* `Verbatim.scan_numeral_iff` — the sources that are one numeral.
* `Verbatim.scan_numeral_zero_separated` — one of them has a separator behind a leading zero.
-/

namespace Verbatim

open Verbatim.Text

/-! ## Spellings -/

/-- Digits in a radix with single separators between them. -/
inductive DigitRun (radix : Nat) : List Char → Prop where
  /-- One digit. -/
  | single {c : Char} (h : isDigitOf radix c = true) : DigitRun radix [c]
  /-- A digit in front of others. -/
  | cons {c : Char} {rest : List Char} (h : isDigitOf radix c = true) (hr : DigitRun radix rest) :
    DigitRun radix (c :: rest)
  /-- A digit with a separator behind it. -/
  | separated {c : Char} {rest : List Char} (h : isDigitOf radix c = true)
    (hr : DigitRun radix rest) : DigitRun radix (c :: '_' :: rest)

/-- An optional fraction. -/
inductive IsFraction : List Char → Prop where
  /-- There is none. -/
  | absent : IsFraction []
  /-- A point without digits. -/
  | point : IsFraction ['.']
  /-- A point with digits. -/
  | digits {digits : List Char} (h : DigitRun 10 digits) : IsFraction ('.' :: digits)

/-- An optional exponent. -/
inductive IsExponent : List Char → Prop where
  /-- There is none. -/
  | absent : IsExponent []
  /-- An exponent without a sign. -/
  | unsigned {mark : Char} {digits : List Char} (hm : mark = 'e' ∨ mark = 'E')
    (h : DigitRun 10 digits) : IsExponent (mark :: digits)
  /-- An exponent with a sign. -/
  | signed {mark sign : Char} {digits : List Char} (hm : mark = 'e' ∨ mark = 'E')
    (hs : sign = '+' ∨ sign = '-') (h : DigitRun 10 digits) : IsExponent (mark :: sign :: digits)

/-- The radix that a letter behind a zero names. -/
def radixOf? : Char → Option Nat
  | 'x' | 'X' => some 16
  | 'o' | 'O' => some 8
  | 'b' | 'B' => some 2
  | _ => none

/-- How numerals are spelled, given what the whole digits of a decimal numeral are. -/
inductive IsNumeral (IsWhole : List Char → Prop) : List Char → Prop where
  /-- A decimal numeral with whole digits. -/
  | decimal {whole fraction exponent : List Char} (hw : IsWhole whole) (hf : IsFraction fraction)
    (he : IsExponent exponent) : IsNumeral IsWhole (whole ++ fraction ++ exponent)
  /-- A decimal numeral that begins with its point. -/
  | fractional {digits exponent : List Char} (hd : DigitRun 10 digits) (he : IsExponent exponent) :
    IsNumeral IsWhole ('.' :: digits ++ exponent)
  /-- A big integer. -/
  | big {whole : List Char} (hw : IsWhole whole) : IsNumeral IsWhole (whole ++ ['n'])
  /-- An integer in a radix, big or not. -/
  | inRadix {letter : Char} {radix : Nat} {digits suffix : List Char}
    (hl : radixOf? letter = some radix) (hd : DigitRun radix digits)
    (hs : suffix = [] ∨ suffix = ['n']) : IsNumeral IsWhole ('0' :: letter :: digits ++ suffix)
  /-- An octal integer that has a zero in front. -/
  | octal {digits : List Char} (hne : digits ≠ []) (hd : ∀ c ∈ digits, isOctalDigit c = true) :
    IsNumeral IsWhole ('0' :: digits)
  /-- A decimal numeral that has a zero in front and could not be octal. -/
  | legacy {digits fraction exponent : List Char} (hd : ∀ c ∈ digits, isDecimalDigit c = true)
    (hn : '8' ∈ digits ∨ '9' ∈ digits) (hf : IsFraction fraction) (he : IsExponent exponent) :
    IsNumeral IsWhole ('0' :: digits ++ fraction ++ exponent)

/-- Whole digits without a needless zero: a zero, or digits of which the first is none. -/
def IsPlainWhole (whole : List Char) : Prop :=
  whole = ['0'] ∨ DigitRun 10 whole ∧ whole.head? ≠ some '0'

/-- Digits behind a zero and a separator. -/
def IsZeroSeparated (whole : List Char) : Prop :=
  ∃ digits, whole = '0' :: '_' :: digits ∧ DigitRun 10 digits

/-! ## Digits -/

/-- The digits of radix ten are the decimal digits. -/
theorem Text.isDigitOf_ten : isDigitOf 10 = isDecimalDigit := by
  funext c
  by_cases h : isDecimalDigit c = true
  · rw [isDigitOf, digitValue?_of_isDecimalDigit h, h]
    rfl
  · have hdigit : ¬ (('0' ≤ c && c ≤ '9') = true) := h
    have hletter : ∀ value, ((some (value + 10)).filter (· < 10)).isSome = false := by simp
    rw [Bool.eq_false_iff.2 h, isDigitOf, digitValue?, digitValue, if_neg hdigit]
    split
    · exact hletter _
    · split
      · exact hletter _
      · rfl

/-- A separator is no digit. -/
theorem Text.isDigitOf_separator (radix : Nat) : isDigitOf radix '_' = false := by
  simp [isDigitOf, digitValue?, show digitValue '_' = none from rfl]

theorem DigitRun.ne_nil {radix : Nat} {digits : List Char} (h : DigitRun radix digits) :
    digits ≠ [] := by
  cases h <;> exact List.cons_ne_nil _ _

/-- Digits begin with a digit. -/
theorem DigitRun.head {radix : Nat} {digits : List Char} (h : DigitRun radix digits)
    (rest : List Char) : (digits ++ rest).head?.any (isDigitOf radix) = true := by
  cases h <;> exact ‹isDigitOf radix _ = true›

/-- Nothing that follows digits continues them. -/
def EndsDigits (radix : Nat) (rest : List Char) : Prop :=
  rest.head?.any (fun c => c == '_' || isDigitOf radix c) = false

namespace Read

variable {radix : Nat} {l m : List Char}

/-- Digits are passed over. -/
theorem digitsFrom_of_run {digits : List Char} (h : DigitRun radix digits) (hm : EndsDigits radix m)
    (afterDigit : Bool) : digitsFrom radix afterDigit (digits ++ m) = (true, m) := by
  have hstop : digitsFrom radix true m = (true, m) := by
    cases m with
    | nil => rfl
    | cons c m =>
      obtain ⟨hs, hd⟩ : (c == '_') = false ∧ isDigitOf radix c = false := Bool.or_eq_false_iff.1 hm
      rw [digitsFrom, if_neg (by simpa using hs), if_neg (by simp [hd])]
  have hne : ∀ {c}, isDigitOf radix c = true → c ≠ '_' := by
    rintro _ h rfl
    exact absurd h (by simp [isDigitOf_separator])
  induction h generalizing afterDigit with
  | single h => rwa [List.singleton_append, digitsFrom, if_neg (hne h), if_pos h]
  | cons h _ ih => rw [List.cons_append, digitsFrom, if_neg (hne h), if_pos h, ih]
  | @separated c rest h hr ih =>
    rw [List.cons_append, digitsFrom, if_neg (hne h), if_pos h, List.cons_append,
      digitsFrom, if_pos rfl,
      hr.head, Bool.and_true, if_pos rfl, ih]

/-- What is passed over are digits, perhaps behind a separator. -/
theorem run_of_digitsFrom {afterDigit : Bool} (h : digitsFrom radix afterDigit l = (true, m)) :
    EndsDigits radix m ∧ ∃ digits, l = digits ++ m ∧ (digits = [] ∨ DigitRun radix digits ∨
      afterDigit = true ∧ ∃ rest, digits = '_' :: rest ∧ DigitRun radix rest) := by
  induction l generalizing afterDigit with
  | nil =>
    cases h
    exact ⟨rfl, [], rfl, .inl rfl⟩
  | cons c l ih =>
    rw [digitsFrom] at h
    split at h
    · rename_i hc
      subst hc
      split at h
      · rename_i hd
        obtain ⟨rfl, hhead⟩ := Bool.and_eq_true_iff.1 hd
        obtain ⟨hm, digits, rfl, rfl | hr | ⟨hfalse, -⟩⟩ := ih h
        · -- A digit follows the separator, so something is passed over behind it.
          rw [List.nil_append] at hhead
          cases m with
          | nil => cases hhead
          | cons d m => exact absurd hhead (by simp [(Bool.or_eq_false_iff.1 hm).2])
        · exact ⟨hm, '_' :: digits, rfl, .inr (.inr ⟨rfl, digits, rfl, hr⟩)⟩
        · cases hfalse
      · cases h
    split at h
    · rename_i hne hc
      obtain ⟨hm, digits, rfl, rfl | hr | ⟨-, rest, rfl, hr⟩⟩ := ih h
      · exact ⟨hm, [c], rfl, .inr (.inl (.single hc))⟩
      · exact ⟨hm, c :: digits, rfl, .inr (.inl (.cons hc hr))⟩
      · exact ⟨hm, c :: '_' :: rest, rfl, .inr (.inl (.separated hc hr))⟩
    · rename_i hne hc
      cases h
      refine ⟨?_, [], rfl, .inl rfl⟩
      change (c == '_' || isDigitOf radix c) = false
      rw [Bool.eq_false_iff.2 hc, Bool.or_false]
      exact beq_eq_false_iff_ne.2 hne

theorem digits_of_run {digits : List Char} (h : DigitRun radix digits) (hm : EndsDigits radix m) :
    Read.digits radix (digits ++ m) = .ok () m :=
  digits_eq_ok.2 (digitsFrom_of_run h hm false)

theorem run_of_digits {v : Unit} (h : Read.digits radix l = .ok v m) :
    EndsDigits radix m ∧ ∃ digits, l = digits ++ m ∧ (digits = [] ∨ DigitRun radix digits) := by
  obtain ⟨hm, digits, hl, hd | hd | ⟨hfalse, -⟩⟩ := run_of_digitsFrom (digits_eq_ok.1 h)
  · exact ⟨hm, digits, hl, .inl hd⟩
  · exact ⟨hm, digits, hl, .inr hd⟩
  · cases hfalse

/-- Where a digit comes first, digits are read. -/
theorem run_of_digits_head {v : Unit} (h : Read.digits radix l = .ok v m)
    (hl : l.head?.any (isDigitOf radix) = true) :
    EndsDigits radix m ∧ ∃ digits, l = digits ++ m ∧ DigitRun radix digits := by
  obtain ⟨hm, digits, rfl, rfl | hd⟩ := run_of_digits h
  · cases m with
    | nil => cases hl
    | cons c m => exact absurd hl (by simp [(Bool.or_eq_false_iff.1 hm).2])
  · exact ⟨hm, digits, rfl, hd⟩

/-! ## Fractions and exponents -/

theorem peekIs_bind {α : Type} (p : Char → Bool) (f : Bool → Read α) (l : List Char) :
    (peekIs p >>= f) l = f (l.head?.any p) l := rfl

/-- What is read as a fraction is one. It is absent where no point comes, and it has digits where
some come. -/
theorem isFraction_of_fraction {hasPoint : Bool} (h : fraction l = .ok hasPoint m) :
    hasPoint = false ∧ l = m ∧ l.head? ≠ some '.' ∨
    hasPoint = true ∧ ∃ digits, l = '.' :: digits ++ m ∧
      (digits = [] ∧ m.head?.any isDecimalDigit = false ∨ DigitRun 10 digits) := by
  have hrun : fraction l = (if !(l.head?.any (· == '.')) then pure false else
      skip 1 >>= fun _ => peekIs isDecimalDigit >>= fun isDigit =>
        if isDigit then Read.digits 10 >>= fun _ => pure true else pure true : Read Bool) l := rfl
  rw [hrun, run_ite] at h
  split at h
  · rename_i hpoint
    obtain ⟨rfl, rfl⟩ := Run.pure_eq_ok.1 h
    refine .inl ⟨rfl, rfl, fun hhead => ?_⟩
    simp [hhead] at hpoint
  · rename_i hpoint
    obtain ⟨l, rfl⟩ : ∃ rest, l = '.' :: rest := by
      cases l with
      | nil => exact absurd rfl hpoint
      | cons c rest => exact ⟨rest, by simpa using hpoint⟩
    rw [skip_bind, peekIs_bind, run_ite] at h
    change (if l.head?.any isDecimalDigit = true then _ else _) = _ at h
    split at h
    · rename_i hd
      obtain ⟨_, _, hdigits, h⟩ := Run.bind_eq_ok.1 h
      obtain ⟨rfl, rfl⟩ := Run.pure_eq_ok.1 h
      rw [← isDigitOf_ten] at hd
      obtain ⟨-, digits, rfl, hspelled⟩ := run_of_digits_head hdigits hd
      exact .inr ⟨rfl, digits, rfl, .inr hspelled⟩
    · rename_i hd
      obtain ⟨rfl, rfl⟩ := Run.pure_eq_ok.1 h
      exact .inr ⟨rfl, [], rfl, .inl ⟨rfl, Bool.eq_false_iff.2 hd⟩⟩

/-- A well formed fraction is read up to the text behind it. -/
theorem fraction_of_isFraction {fraction : List Char} (h : IsFraction fraction)
    (hm : EndsDigits 10 m) (hpoint : m.head? ≠ some '.') :
    Read.fraction (fraction ++ m) = .ok (!fraction.isEmpty) m := by
  cases h with
  | absent =>
    cases m with
    | nil => rfl
    | cons c m =>
      have hc : (c == '.') = false := beq_eq_false_iff_ne.2 fun h => hpoint (congrArg some h)
      change (if !(c == '.') then pure false else _ : Read Bool) (c :: m) = _
      rw [hc]
      rfl
  | point =>
    have hd : m.head?.any isDecimalDigit = false := by
      cases m with
      | nil => rfl
      | cons c m => exact isDigitOf_ten ▸ (Bool.or_eq_false_iff.1 hm).2
    change (if m.head?.any isDecimalDigit then _ else pure true : Read Bool) m = _
    rw [hd]
    rfl
  | @digits digits h =>
    have hd := h.head m
    rw [isDigitOf_ten] at hd
    change (if (digits ++ m).head?.any isDecimalDigit then Read.digits 10 >>= fun _ => pure true
      else pure true : Read Bool) (digits ++ m) = _
    rw [hd]
    exact Run.bind_eq_ok.2 ⟨(), m, digits_of_run h hm, rfl⟩

/-- What is read of an exponent behind its sign. -/
def exponentDigits : Read Bool := do
  if !(← peekIs isDecimalDigit) then throw .illegalToken
  Read.digits 10
  return true

/-- Behind the sign of an exponent, digits are read. -/
theorem run_of_exponentDigits {hasMark : Bool} (h : exponentDigits l = .ok hasMark m) :
    hasMark = true ∧ ∃ digits, l = digits ++ m ∧ DigitRun 10 digits := by
  change (if !(l.head?.any isDecimalDigit) then throw .illegalToken >>= fun _ => _
    else Read.digits 10 >>= fun _ => pure true : Read Bool) l = _ at h
  rw [run_ite] at h
  split at h
  · cases h
  · rename_i hd
    rw [Bool.not_eq_true', Bool.not_eq_false, ← isDigitOf_ten] at hd
    obtain ⟨_, _, hdigits, h⟩ := Run.bind_eq_ok.1 h
    obtain ⟨rfl, rfl⟩ := Run.pure_eq_ok.1 h
    exact ⟨rfl, (run_of_digits_head hdigits hd).2⟩

/-- What is read as an exponent is one. -/
theorem isExponent_of_exponent {hasMark : Bool} (h : exponent l = .ok hasMark m) :
    ∃ exponent, l = exponent ++ m ∧ IsExponent exponent ∧ (hasMark = false → exponent = []) := by
  have hrun : exponent l = (if !(l.head?.any fun c => c == 'e' || c == 'E') then pure false else
      skip 1 >>= fun _ => peekIs (fun c => c == '+' || c == '-') >>= fun isSign =>
        if isSign then skip 1 >>= fun _ => exponentDigits else exponentDigits : Read Bool) l := rfl
  rw [hrun, run_ite] at h
  split at h
  · obtain ⟨rfl, rfl⟩ := Run.pure_eq_ok.1 h
    exact ⟨[], rfl, .absent, fun _ => rfl⟩
  · rename_i hseen
    obtain ⟨mark, l, rfl, hmark⟩ : ∃ mark rest, l = mark :: rest ∧ (mark = 'e' ∨ mark = 'E') := by
      cases l with
      | nil => exact absurd rfl hseen
      | cons c rest => exact ⟨c, rest, rfl, by simpa [Decidable.or_iff_not_imp_left] using hseen⟩
    rw [skip_bind, peekIs_bind, run_ite] at h
    change (if l.head?.any _ = true then _ else _) = _ at h
    split at h
    · rename_i hseen
      obtain ⟨sign, l, rfl, hsign⟩ : ∃ sign rest, l = sign :: rest ∧ (sign = '+' ∨ sign = '-') := by
        cases l with
        | nil => cases hseen
        | cons c rest => exact ⟨c, rest, rfl, by simpa using hseen⟩
      obtain ⟨rfl, digits, rfl, hd⟩ := run_of_exponentDigits h
      exact ⟨mark :: sign :: digits, rfl, .signed hmark hsign hd, nofun⟩
    · obtain ⟨rfl, digits, rfl, hd⟩ := run_of_exponentDigits h
      exact ⟨mark :: digits, rfl, .unsigned hmark hd, nofun⟩

theorem exponentDigits_of_run {digits : List Char} (h : DigitRun 10 digits) (hm : EndsDigits 10 m) :
    exponentDigits (digits ++ m) = .ok true m := by
  have hd := h.head m
  rw [isDigitOf_ten] at hd
  change (if !((digits ++ m).head?.any isDecimalDigit) then throw .illegalToken >>= fun _ => _
    else Read.digits 10 >>= fun _ => pure true : Read Bool) (digits ++ m) = _
  rw [hd]
  exact Run.bind_eq_ok.2 ⟨(), m, digits_of_run h hm, rfl⟩

/-- An exponent is read, if nothing that follows continues it or is one. -/
theorem exponent_of_isExponent {exponent : List Char} (h : IsExponent exponent)
    (hm : EndsDigits 10 m) (hmark : m.head?.any (fun c => c == 'e' || c == 'E') = false) :
    Read.exponent (exponent ++ m) = .ok (!exponent.isEmpty) m := by
  cases h with
  | absent =>
    change (if !(m.head?.any fun c => c == 'e' || c == 'E') then pure false else _
      : Read Bool) m = _
    rw [hmark]
    rfl
  | @unsigned mark digits hc h =>
    have hsign : (digits ++ m).head?.any (fun c => c == '+' || c == '-') = false := by
      have hd := h.head m
      rw [isDigitOf_ten] at hd
      cases hl : digits ++ m with
      | nil => rfl
      | cons c l =>
        rw [hl] at hd
        refine Bool.eq_false_iff.2 fun hc => ?_
        obtain rfl | rfl : c = '+' ∨ c = '-' := by simpa using hc
        · exact absurd (show isDecimalDigit '+' = true from hd) (by decide)
        · exact absurd (show isDecimalDigit '-' = true from hd) (by decide)
    have hrun : Read.exponent (mark :: digits ++ m) =
        (if (digits ++ m).head?.any (fun c => c == '+' || c == '-') then
          skip 1 >>= fun _ => exponentDigits else exponentDigits : Read Bool) (digits ++ m) := by
      rcases hc with rfl | rfl <;> rfl
    rw [hrun, hsign]
    exact exponentDigits_of_run h hm
  | @signed mark sign digits hc hs h =>
    have hrun : Read.exponent (mark :: sign :: digits ++ m) = exponentDigits (digits ++ m) := by
      rcases hc with rfl | rfl <;> rcases hs with rfl | rfl <;> rfl
    rw [hrun]
    exact exponentDigits_of_run h hm

/-! ## Decimal numerals -/

theorem endsDigits_of_isExponent {exponent : List Char} (h : IsExponent exponent) :
    EndsDigits 10 exponent ∧ exponent.head? ≠ some '.' := by
  have hmark : ∀ {mark : Char} {l : List Char}, mark = 'e' ∨ mark = 'E' →
      EndsDigits 10 (mark :: l) ∧ (mark :: l).head? ≠ some '.' := by
    rintro _ l (rfl | rfl) <;> exact ⟨rfl, by simp⟩
  cases h with
  | absent => exact ⟨rfl, nofun⟩
  | unsigned hm => exact hmark hm
  | signed hm => exact hmark hm

/-- What follows whole digits begins with neither a digit nor the letter of a radix. -/
theorem head_of_isFraction {fraction exponent : List Char} (hf : IsFraction fraction)
    (he : IsExponent exponent) : ∀ c ∈ (fraction ++ exponent).head?,
      isDecimalDigit c = false ∧ radixOf? c = none := by
  have hmark : ∀ {mark : Char} {l : List Char}, mark = 'e' ∨ mark = 'E' →
      ∀ c ∈ (mark :: l).head?, isDecimalDigit c = false ∧ radixOf? c = none := by
    rintro _ l (rfl | rfl) c ⟨⟩ <;> exact ⟨rfl, rfl⟩
  cases hf with
  | absent =>
    cases he with
    | absent => exact nofun
    | unsigned hm => exact hmark hm
    | signed hm => exact hmark hm
  | point | digits =>
    rintro c ⟨⟩
    exact ⟨rfl, rfl⟩

/-- What is read behind whole digits are a fraction and an exponent. -/
theorem isFraction_of_decimalTail {isWhole : Bool} (h : decimalTail l = .ok isWhole m) :
    ∃ fraction exponent, l = fraction ++ exponent ++ m ∧ IsFraction fraction ∧ IsExponent exponent ∧
      (isWhole = true → fraction = [] ∧ exponent = []) ∧
      (l.head? = some '.' → l.tail.head?.any isDecimalDigit = true →
        ∃ digits, fraction = '.' :: digits ∧ DigitRun 10 digits) := by
  obtain ⟨hasPoint, l₁, hfraction, h⟩ := Run.bind_eq_ok.1 h
  obtain ⟨hasMark, l₂, hexponent, h⟩ := Run.bind_eq_ok.1 h
  obtain ⟨rfl, rfl⟩ := Run.pure_eq_ok.1 h
  obtain ⟨exponent, rfl, he, hempty⟩ := isExponent_of_exponent hexponent
  rcases isFraction_of_fraction hfraction with ⟨rfl, rfl, hpoint⟩ | ⟨rfl, digits, rfl, hdigits⟩
  · exact ⟨[], exponent, rfl, .absent, he, fun h => ⟨rfl, hempty (by simpa using h)⟩,
      fun hhead => absurd hhead hpoint⟩
  · refine ⟨'.' :: digits, exponent, by simp, ?_, he, nofun, fun _ hd => ?_⟩
    · rcases hdigits with ⟨rfl, -⟩ | hd
      · exact .point
      · exact .digits hd
    · rcases hdigits with ⟨rfl, hnone⟩ | hd'
      · exact absurd (hnone.symm.trans hd) Bool.false_ne_true
      · exact ⟨digits, rfl, hd'⟩

theorem decimalTail_of_isFraction {fraction exponent : List Char} (hf : IsFraction fraction)
    (he : IsExponent exponent) :
    decimalTail (fraction ++ exponent) = .ok (fraction.isEmpty && exponent.isEmpty) [] := by
  obtain ⟨hends, hpoint⟩ := endsDigits_of_isExponent he
  have hexponent := exponent_of_isExponent (m := []) he rfl rfl
  rw [List.append_nil] at hexponent
  refine Run.bind_eq_ok.2 ⟨_, _, fraction_of_isFraction hf hends hpoint, ?_⟩
  refine Run.bind_eq_ok.2 ⟨_, _, hexponent, ?_⟩
  rw [Bool.not_not, Bool.not_not]
  rfl

theorem numeralEnd_eq_ok {v : Unit} : numeralEnd l = .ok v m ↔ l = m ∧ EndsNumeral l := by
  change (if l.head?.any (fun c => isNameStart c || isDecimalDigit c || c == '\\') then
    throw .illegalToken else pure () : Read Unit) l = _ ↔ _
  rw [run_ite]
  split
  · rename_i hruns
    exact ⟨fun h => absurd h Run.throw_ne_ok,
      fun h => absurd (h.2.symm.trans hruns) Bool.false_ne_true⟩
  · rename_i hends
    rw [Run.pure_eq_ok]
    exact ⟨fun h => ⟨h.2, Bool.eq_false_iff.2 hends⟩, fun h => ⟨rfl, h.1⟩⟩

/-- A big integer ends with its suffix. -/
theorem bigint_eq_ok (spelling : List Char) (c : Char) :
    (∃ v, bigint spelling (c :: l) = .ok v []) ↔ l = [] := by
  constructor
  · rintro ⟨v, h⟩
    obtain ⟨_, _, hskip, h⟩ := Run.bind_eq_ok.1 h
    rw [Run.modify_eq_ok.1 hskip] at h
    obtain ⟨_, _, hend, h⟩ := Run.bind_eq_ok.1 h
    obtain ⟨-, rfl⟩ := Run.pure_eq_ok.1 h
    exact (numeralEnd_eq_ok.1 hend).1
  · rintro rfl
    exact ⟨_, rfl⟩

/-- How a text may begin that is read as a numeral. -/
def BeginsNumeral (l : List Char) : Prop :=
  l.head?.any isDecimalDigit = true ∨
    l.head? = some '.' ∧ l.tail.head?.any isDecimalDigit = true

/-- What is read as a decimal numeral is one. -/
theorem isNumeral_of_decimalNumeral {v : Lexeme} {IsWhole : List Char → Prop}
    (h : decimalNumeral l = .ok v []) (hl : BeginsNumeral l)
    (hwhole : ∀ whole, DigitRun 10 whole → whole <+: l → IsWhole whole) : IsNumeral IsWhole l := by
  obtain ⟨⟨isWhole, spelling⟩, l₁, hspelled, h⟩ := Run.bind_eq_ok.1 h
  obtain ⟨hread, -⟩ := spelled_eq_ok.1 hspelled
  change (if !(l.head?.any (· == '.')) then Read.digits 10 >>= fun _ => decimalTail
    else decimalTail : Read Bool) l = _ at hread
  change (if (isWhole && l₁.head?.any (· == 'n')) = true then bigint spelling else
    numeralEnd >>= fun _ => pure _ : Read Lexeme) l₁ = _ at h
  -- Behind the tail there is the suffix of a big integer or nothing.
  have hrest : l₁ = [] ∨ isWhole = true ∧ l₁ = ['n'] := by
    rw [run_ite] at h
    split at h
    · rename_i hbig
      obtain ⟨hisWhole, hn⟩ := Bool.and_eq_true_iff.1 hbig
      obtain ⟨rest, rfl⟩ := eq_cons_of_head hn
      exact .inr ⟨hisWhole, by rw [(bigint_eq_ok _ _).1 ⟨_, h⟩]⟩
    · obtain ⟨_, _, hend, h⟩ := Run.bind_eq_ok.1 h
      obtain ⟨-, rfl⟩ := Run.pure_eq_ok.1 h
      exact .inl (numeralEnd_eq_ok.1 hend).1
  rw [run_ite] at hread
  split at hread
  · rename_i hpoint
    obtain ⟨_, l₂, hdigits, htail⟩ := Run.bind_eq_ok.1 hread
    have hdigit : l.head?.any (isDigitOf 10) = true := by
      rw [isDigitOf_ten]
      refine hl.resolve_right fun h => ?_
      simp [h.1] at hpoint
    obtain ⟨-, whole, rfl, hrun⟩ := run_of_digits_head hdigits hdigit
    obtain ⟨fraction, exponent, rfl, hf, he, hempty, -⟩ := isFraction_of_decimalTail htail
    have hw := hwhole whole hrun (List.prefix_append _ _)
    rcases hrest with rfl | ⟨hisWhole, rfl⟩
    · rw [List.append_nil, ← List.append_assoc]
      exact .decimal hw hf he
    · obtain ⟨rfl, rfl⟩ := hempty hisWhole
      exact .big hw
  · rename_i hpoint
    rw [Bool.not_eq_true', Bool.not_eq_false] at hpoint
    obtain ⟨rest, rfl⟩ := eq_cons_of_head hpoint
    obtain ⟨fraction, exponent, heq, -, he, hempty, hdigits⟩ := isFraction_of_decimalTail hread
    obtain ⟨digits, rfl, hd⟩ :=
      hdigits rfl (hl.resolve_left fun h => absurd (show isDecimalDigit '.' = true from h)
        (by decide)).2
    rcases hrest with rfl | ⟨hisWhole, rfl⟩
    · rw [heq, List.append_nil]
      exact .fractional hd he
    · cases (hempty hisWhole).1

/-- A decimal numeral is read. -/
theorem decimalNumeral_of_tail {whole fraction exponent : List Char}
    (hw : whole = [] ∧ fraction.head? = some '.' ∨ DigitRun 10 whole) (hf : IsFraction fraction)
    (he : IsExponent exponent) : ∃ v, decimalNumeral (whole ++ fraction ++ exponent) =
    .ok v [] := by
  have htail := decimalTail_of_isFraction hf he
  have hread : (if !((whole ++ (fraction ++ exponent)).head?.any (· == '.')) then
      Read.digits 10 >>= fun _ => decimalTail else decimalTail : Read Bool)
      (whole ++ (fraction ++ exponent)) = .ok (fraction.isEmpty && exponent.isEmpty) [] := by
    rcases hw with ⟨rfl, hpoint⟩ | hw
    · have hhead : (fraction ++ exponent).head?.any (· == '.') = true := by
        simp [hpoint]
      rw [List.nil_append, hhead]
      exact htail
    · have hends : EndsDigits 10 (fraction ++ exponent) := by
        cases hf with
        | absent => exact (endsDigits_of_isExponent he).1
        | point => rfl
        | digits => rfl
      have hhead : (whole ++ (fraction ++ exponent)).head?.any (· == '.') = false := by
        have hd := hw.head (fraction ++ exponent)
        refine Bool.eq_false_iff.2 fun hpoint => ?_
        obtain ⟨rest, hrest⟩ := eq_cons_of_head hpoint
        rw [hrest, isDigitOf_ten] at hd
        exact absurd (show isDecimalDigit '.' = true from hd) (by decide)
      rw [hhead]
      exact Run.bind_eq_ok.2 ⟨(), _, digits_of_run hw hends, htail⟩
  rw [List.append_assoc]
  generalize whole ++ (fraction ++ exponent) = chars at hread ⊢
  refine ⟨{ kind := .numeric, value := .number (decimalValue (withoutSeparators chars)) },
    Run.bind_eq_ok.2 ⟨(fraction.isEmpty && exponent.isEmpty, chars), [],
      spelled_eq_ok.2 ⟨hread, by simp⟩, ?_⟩⟩
  cases fraction.isEmpty && exponent.isEmpty <;> rfl

/-- A big integer in decimal digits is read. -/
theorem decimalNumeral_of_big {whole : List Char} (hw : DigitRun 10 whole) :
    ∃ v, decimalNumeral (whole ++ ['n']) = .ok v [] := by
  have hread : (if !((whole ++ ['n']).head?.any (· == '.')) then
      Read.digits 10 >>= fun _ => decimalTail else decimalTail : Read Bool)
      (whole ++ ['n']) = .ok true ['n'] := by
    have hhead : (whole ++ ['n']).head?.any (· == '.') = false := by
      have hd := hw.head ['n']
      refine Bool.eq_false_iff.2 fun hpoint => ?_
      obtain ⟨rest, hrest⟩ := eq_cons_of_head hpoint
      rw [hrest, isDigitOf_ten] at hd
      exact absurd (show isDecimalDigit '.' = true from hd) (by decide)
    rw [hhead]
    exact Run.bind_eq_ok.2 ⟨(), _, digits_of_run hw rfl, rfl⟩
  obtain ⟨v, hv⟩ := (bigint_eq_ok whole 'n').2 rfl
  refine ⟨v, Run.bind_eq_ok.2 ⟨(_, _), ['n'], spelled_eq_ok.2 ⟨hread, ?_⟩, hv⟩⟩
  simp

/-! ## Numerals in a radix -/

/-- What is read of a numeral in a radix behind its digits. -/
def radixEnd (radix : Nat) (letter : Char) (spelling : List Char) : Read Lexeme := do
  if spelling.isEmpty then throw .illegalToken
  if ← peekIs (· == 'n') then bigint ('0' :: letter :: spelling)
  else
    numeralEnd
    return { kind := .numeric
             value := .number (Double.ofDigits radix (spelling.filterMap (digitValue? radix))) }

/-- What is read as a numeral in a radix is one. -/
theorem isNumeral_of_radixNumeral {v : Lexeme} {letter : Char} {IsWhole : List Char → Prop}
    (h : radixNumeral radix letter ('0' :: letter :: l) = .ok v [])
    (hl : radixOf? letter = some radix) : IsNumeral IsWhole ('0' :: letter :: l) := by
  obtain ⟨_, _, hjump, hdigits⟩ := Run.bind_eq_ok.1 h
  have hmid : _ = l := Run.modify_eq_ok.1 hjump
  rw [hmid] at hdigits
  obtain ⟨⟨⟨⟩, spelling⟩, l₁, hspelled, hend⟩ := Run.bind_eq_ok.1 hdigits
  obtain ⟨hread, hspelling⟩ := spelled_eq_ok.1 hspelled
  obtain ⟨-, digits, hl', hd⟩ := run_of_digits hread
  change l = digits ++ l₁ at hl'
  subst hl'
  obtain rfl : spelling = digits := by simpa using hspelling
  have hend : radixEnd radix letter spelling l₁ = .ok v [] := hend
  have hrun : radixEnd radix letter spelling = if spelling.isEmpty = true then
      throw .illegalToken >>= fun _ => _ else peekIs (· == 'n') >>= fun isBig =>
        if isBig = true then bigint _ else numeralEnd >>= fun _ => pure _ := rfl
  rw [hrun, run_ite] at hend
  split at hend
  · cases hend
  · rename_i hne
    have hd := hd.resolve_left fun hnil => hne (by rw [hnil]; rfl)
    rw [peekIs_bind, run_ite] at hend
    split at hend
    · rename_i hn
      obtain ⟨rest, rfl⟩ := eq_cons_of_head hn
      rw [(bigint_eq_ok _ _).1 ⟨_, hend⟩]
      exact .inRadix hl hd (.inr rfl)
    · obtain ⟨_, _, hend, hpure⟩ := Run.bind_eq_ok.1 hend
      obtain ⟨-, rfl⟩ := Run.pure_eq_ok.1 hpure
      rw [(numeralEnd_eq_ok.1 hend).1]
      exact .inRadix hl hd (.inl rfl)

/-- A numeral in a radix is read. -/
theorem radixNumeral_of_run {letter : Char} {digits suffix : List Char}
    (hl : radixOf? letter = some radix) (hd : DigitRun radix digits)
    (hs : suffix = [] ∨ suffix = ['n']) :
    ∃ v, radixNumeral radix letter ('0' :: letter :: digits ++ suffix) = .ok v [] := by
  have hends : EndsDigits radix suffix := by
    rcases hs with rfl | rfl
    · rfl
    · unfold radixOf? at hl
      split at hl <;> cases hl <;> rfl
  have hspelled : spelled (Read.digits radix) (digits ++ suffix) = .ok ((), digits) suffix :=
    spelled_eq_ok.2 ⟨digits_of_run hd hends, by simp⟩
  have hrun : ∀ v, radixEnd radix letter digits suffix = .ok v [] →
      radixNumeral radix letter ('0' :: letter :: digits ++ suffix) = .ok v [] :=
    fun v h => Run.bind_eq_ok.2 ⟨(), _, rfl, Run.bind_eq_ok.2 ⟨_, _, hspelled, h⟩⟩
  obtain ⟨c, digits, rfl⟩ := List.exists_cons_of_ne_nil hd.ne_nil
  rcases hs with rfl | rfl
  · exact ⟨_, hrun _ rfl⟩
  · exact ⟨_, hrun _ rfl⟩

/-! ## Numerals with a zero in front -/

/-- What is read of a numeral with a needless zero behind its whole digits. -/
def legacyEnd (whole : List Char) : Read Lexeme := do
  if whole.all isOctalDigit then
    numeralEnd
    let value := Double.ofDigits 8 (whole.filterMap (digitValue? 8))
    return { kind := .numeric, value := .number value, octal := true }
  else
    let (_, tail) ← spelled decimalTail
    numeralEnd
    let value := decimalValue (withoutSeparators (whole ++ tail))
    return { kind := .numeric, value := .number value, octal := true }

/-- The whole digits of a numeral with a needless zero are all digits that come first. -/
theorem legacyNumeral_append {whole tail : List Char} (hw : ∀ c ∈ whole, isDecimalDigit c = true)
    (ht : ∀ c ∈ tail.head?, isDecimalDigit c = false) :
    legacyNumeral (whole ++ tail) = legacyEnd whole tail := by
  have hrun : legacyNumeral (whole ++ tail) = legacyEnd ((whole ++ tail).takeWhile isDecimalDigit)
    ((whole ++ tail).dropWhile isDecimalDigit) := rfl
  have htail : tail.takeWhile isDecimalDigit = [] ∧ tail.dropWhile isDecimalDigit = tail := by
    cases tail with
    | nil => exact ⟨rfl, rfl⟩
    | cons c l =>
      have hc : ¬ isDecimalDigit c = true := Bool.eq_false_iff.1 (ht c rfl)
      exact ⟨List.takeWhile_cons_of_neg hc, List.dropWhile_cons_of_neg hc⟩
  rw [hrun, List.takeWhile_append_of_pos hw, List.dropWhile_append_of_pos hw, htail.1, htail.2,
    List.append_nil]

/-- What is read as a numeral with a needless zero is one. -/
theorem isNumeral_of_legacyNumeral {v : Lexeme} {IsWhole : List Char → Prop} {second : Char}
    (h : legacyNumeral ('0' :: second :: l) = .ok v []) (hsecond : isDecimalDigit second = true) :
    IsNumeral IsWhole ('0' :: second :: l) := by
  obtain ⟨more, tail, rfl, hmore, ht⟩ : ∃ more tail, l = more ++ tail ∧
      (∀ c ∈ more, isDecimalDigit c = true) ∧ ∀ c ∈ tail.head?, isDecimalDigit c = false := by
    refine ⟨_, _, List.takeWhile_append_dropWhile.symm, List.all_eq_true.1 List.all_takeWhile, ?_⟩
    intro c hc
    have hnot := List.head?_dropWhile_not isDecimalDigit l
    rw [Option.mem_def.1 hc] at hnot
    simpa using hnot
  have hdigits : ∀ c ∈ second :: more, isDecimalDigit c = true :=
    List.forall_mem_cons.2 ⟨hsecond, hmore⟩
  have hall : ∀ c ∈ '0' :: second :: more, isDecimalDigit c = true :=
    List.forall_mem_cons.2 ⟨rfl, hdigits⟩
  have hend : legacyEnd ('0' :: second :: more) tail = .ok v [] :=
    (legacyNumeral_append hall ht).symm.trans h
  have hrun : legacyEnd ('0' :: second :: more) =
      if ('0' :: second :: more).all isOctalDigit = true then numeralEnd >>= fun _ => pure _ else
        spelled decimalTail >>= fun _ => numeralEnd >>= fun _ => pure _ := rfl
  rw [hrun, run_ite] at hend
  split at hend
  · rename_i hoctal
    obtain ⟨_, _, hend, hpure⟩ := Run.bind_eq_ok.1 hend
    obtain ⟨-, rfl⟩ := Run.pure_eq_ok.1 hpure
    rw [(numeralEnd_eq_ok.1 hend).1, List.append_nil]
    exact .octal (List.cons_ne_nil _ _) fun c hc =>
      List.all_eq_true.1 hoctal c (List.mem_cons_of_mem _ hc)
  · rename_i hoctal
    obtain ⟨_, l₁, hspelled, hend⟩ := Run.bind_eq_ok.1 hend
    obtain ⟨_, _, hend, hpure⟩ := Run.bind_eq_ok.1 hend
    obtain ⟨-, rfl⟩ := Run.pure_eq_ok.1 hpure
    rw [(numeralEnd_eq_ok.1 hend).1] at hspelled
    obtain ⟨fraction, exponent, rfl, hf, he, -⟩ :=
      isFraction_of_decimalTail (spelled_eq_ok.1 hspelled).1
    have hchars : '0' :: second :: (more ++ (fraction ++ exponent ++ [])) =
        '0' :: (second :: more) ++ fraction ++ exponent := by simp
    rw [hchars]
    refine .legacy hdigits ?_ hf he
    by_contra hnone
    rw [not_or] at hnone
    refine hoctal (List.all_eq_true.2 (List.forall_mem_cons.2 ⟨rfl, fun c hc => ?_⟩))
    have hcases : isDecimalDigit c = true → isOctalDigit c = true ∨ c = '8' ∨ c = '9' :=
      forall_isDecimalDigit (P := fun c => isOctalDigit c = true ∨ c = '8' ∨ c = '9') (by decide)
    rcases hcases (hdigits c hc) with h | rfl | rfl
    · exact h
    · exact absurd hc hnone.1
    · exact absurd hc hnone.2

theorem isDecimalDigit_of_isOctalDigit {c : Char} (h : isOctalDigit c = true) :
    isDecimalDigit c = true := by
  obtain ⟨h₀, h₇⟩ : '0' ≤ c ∧ c ≤ '7' := by simpa [isOctalDigit] using h
  have h₉ : c ≤ '9' := Char.le_trans h₇ (by decide)
  simp [isDecimalDigit, h₀, h₉]

/-- An octal numeral with a zero in front is read. -/
theorem legacyNumeral_of_octal {digits : List Char} (hd : ∀ c ∈ digits, isOctalDigit c = true) :
    ∃ v, legacyNumeral digits = .ok v [] := by
  have hrun : legacyNumeral (digits ++ []) = legacyEnd digits [] :=
    legacyNumeral_append (fun c hc => isDecimalDigit_of_isOctalDigit (hd c hc)) nofun
  rw [List.append_nil] at hrun
  rw [hrun, legacyEnd, List.all_eq_true.2 hd]
  exact ⟨_, rfl⟩

/-- A decimal numeral with a zero in front is read. -/
theorem legacyNumeral_of_tail {digits fraction exponent : List Char}
    (hd : ∀ c ∈ digits, isDecimalDigit c = true) (hn : '8' ∈ digits ∨ '9' ∈ digits)
    (hf : IsFraction fraction) (he : IsExponent exponent) :
    ∃ v, legacyNumeral (digits ++ fraction ++ exponent) = .ok v [] := by
  have hoctal : digits.all isOctalDigit = false := by
    refine Bool.eq_false_iff.2 fun hall => ?_
    rcases hn with h | h
    · exact absurd (List.all_eq_true.1 hall _ h) (by decide)
    · exact absurd (List.all_eq_true.1 hall _ h) (by decide)
  have htail : spelled decimalTail (fraction ++ exponent) =
      .ok (fraction.isEmpty && exponent.isEmpty, fraction ++ exponent) [] :=
    spelled_eq_ok.2 ⟨decimalTail_of_isFraction hf he, (List.take_of_length_le (Nat.le_refl _)).symm⟩
  rw [List.append_assoc, legacyNumeral_append hd fun c hc => (head_of_isFraction hf he c hc).1,
    legacyEnd, hoctal]
  exact ⟨_, Run.bind_eq_ok.2 ⟨_, [], htail, rfl⟩⟩

/-! ## Numerals -/

/-- The character behind a zero decides how a numeral goes on. -/
theorem zeroNumeral_eq (second : Char) : (zeroNumeral second : Read Lexeme) =
    match radixOf? second with
    | some radix => radixNumeral radix second
    | none => if isDecimalDigit second then legacyNumeral else decimalNumeral := by
  by_cases h : second = 'x' ∨ second = 'X' ∨ second = 'o' ∨ second = 'O' ∨ second = 'b' ∨
    second = 'B'
  · rcases h with rfl | rfl | rfl | rfl | rfl | rfl <;> rfl
  · have hnone : radixOf? second = none := by
      unfold radixOf?
      split <;> simp_all
    simp only [not_or] at h
    simp [hnone, zeroNumeral, h]

/-- Behind a zero and a digit, a numeral has a needless zero. -/
theorem zeroNumeral_of_isDecimalDigit {second : Char} (h : isDecimalDigit second = true) :
    zeroNumeral second l = legacyNumeral l := by
  have hradix : radixOf? second = none :=
    forall_isDecimalDigit (P := fun c => radixOf? c = none) (by decide) h
  rw [zeroNumeral_eq, hradix, h]
  rfl

/-- A numeral without a radix or a needless zero is read as a decimal one. -/
theorem numeral_eq_decimalNumeral (h : ∀ second rest, l = '0' :: second :: rest →
    radixOf? second = none ∧ isDecimalDigit second = false) : numeral l = decimalNumeral l := by
  match l, h with
  | [], _ => rfl
  | c :: rest, h =>
    by_cases hc : c = '0'
    · subst hc
      cases rest with
      | nil => rfl
      | cons second rest =>
        obtain ⟨hradix, hdigit⟩ := h second rest rfl
        change zeroNumeral second _ = _
        rw [zeroNumeral_eq, hradix, hdigit]
        rfl
    · change (if (c == '0') = true then _ else decimalNumeral : Read Lexeme) (c :: rest) = _
      rw [if_neg (by simpa using hc)]

/-- Whole digits that begin with a zero which no digit follows. -/
theorem isWhole_of_zero {whole rest : List Char} {second : Char} (hr : DigitRun 10 whole)
    (hw : whole <+: '0' :: second :: rest) (hsecond : isDecimalDigit second = false) :
    IsPlainWhole whole ∨ IsZeroSeparated whole := by
  cases hr with
  | single =>
    obtain ⟨rfl, -⟩ := List.cons_prefix_cons.1 hw
    exact .inl (.inl rfl)
  | @cons c digits hc hd =>
    obtain ⟨rfl, hw⟩ := List.cons_prefix_cons.1 hw
    obtain ⟨rest', hrest⟩ := hw
    have hhead := hd.head rest'
    rw [show digits ++ rest' = second :: rest from List.tail_eq_of_cons_eq hrest,
      isDigitOf_ten] at hhead
    exact absurd (hsecond.symm.trans hhead) Bool.false_ne_true
  | @separated c digits hc hd =>
    obtain ⟨rfl, -⟩ := List.cons_prefix_cons.1 hw
    exact .inr ⟨digits, rfl, hd⟩

/-- What is read as a numeral is one. -/
theorem isNumeral_of_numeral {v : Lexeme} (h : numeral l = .ok v []) (hl : BeginsNumeral l) :
    IsNumeral (fun whole => IsPlainWhole whole ∨ IsZeroSeparated whole) l := by
  by_cases hzero : ∃ second rest, l = '0' :: second :: rest
  · obtain ⟨second, rest, rfl⟩ := hzero
    change zeroNumeral second _ = _ at h
    rw [zeroNumeral_eq] at h
    cases hradix : radixOf? second with
    | some radix =>
      rw [hradix] at h
      exact isNumeral_of_radixNumeral h hradix
    | none =>
      rw [hradix] at h
      cases hsecond : isDecimalDigit second with
      | true =>
        rw [hsecond] at h
        exact isNumeral_of_legacyNumeral h hsecond
      | false =>
        rw [hsecond] at h
        exact isNumeral_of_decimalNumeral h hl fun whole hr hw => isWhole_of_zero hr hw hsecond
  · rw [numeral_eq_decimalNumeral fun second rest hl => absurd ⟨second, rest, hl⟩ hzero] at h
    refine isNumeral_of_decimalNumeral h hl fun whole hr hw => .inl ?_
    by_cases hhead : whole.head? = some '0'
    · obtain ⟨rest, hrest⟩ := hw
      cases whole with
      | nil => cases hhead
      | cons c digits =>
        cases hhead
        -- Nothing follows the zero.
        have hnil : digits ++ rest = [] := by
          cases htail : digits ++ rest with
          | nil => rfl
          | cons second l =>
            exact absurd ⟨second, l, by rw [← hrest, List.cons_append, htail]⟩ hzero
        rw [(List.append_eq_nil_iff.1 hnil).1]
        exact .inl rfl
    · exact .inr ⟨hr, hhead⟩

/-- Behind the whole digits of a decimal numeral that is no zero alone, nothing names a radix. -/
theorem decimalNumeral_of_isWhole {whole : List Char} (tail : List Char)
    (hw : IsPlainWhole whole ∨ IsZeroSeparated whole)
    (ht : ∀ c ∈ tail.head?, isDecimalDigit c = false ∧ radixOf? c = none) :
    DigitRun 10 whole ∧ numeral (whole ++ tail) = decimalNumeral (whole ++ tail) := by
  rcases hw with (rfl | ⟨hr, hhead⟩) | ⟨digits, rfl, hd⟩
  · refine ⟨.single (by decide), numeral_eq_decimalNumeral fun second rest hl => ?_⟩
    obtain rfl : tail = second :: rest := List.tail_eq_of_cons_eq hl
    exact (ht second rfl).symm
  · refine ⟨hr, numeral_eq_decimalNumeral fun second rest hl => ?_⟩
    cases whole with
    | nil => exact absurd rfl hr.ne_nil
    | cons c digits => exact absurd (congrArg some (List.head_eq_of_cons_eq hl)) hhead
  · exact ⟨.separated (by decide) hd, numeral_eq_decimalNumeral fun second rest hl =>
      by cases hl; decide⟩

/-- A numeral is read. -/
theorem numeral_of_isNumeral
    (h : IsNumeral (fun whole => IsPlainWhole whole ∨ IsZeroSeparated whole) l) :
    ∃ v, numeral l = .ok v [] := by
  cases h with
  | @decimal whole fraction exponent hw hf he =>
    obtain ⟨hr, hrun⟩ := decimalNumeral_of_isWhole _ hw (head_of_isFraction hf he)
    rw [List.append_assoc, hrun, ← List.append_assoc]
    exact decimalNumeral_of_tail (.inr hr) hf he
  | @fractional digits exponent hd he =>
    change ∃ v, decimalNumeral ([] ++ '.' :: digits ++ exponent) = .ok v []
    exact decimalNumeral_of_tail (.inl ⟨rfl, rfl⟩) (.digits hd) he
  | @big whole hw =>
    obtain ⟨hr, hrun⟩ := decimalNumeral_of_isWhole ['n'] hw (by
      rintro c ⟨⟩
      exact ⟨rfl, rfl⟩)
    rw [hrun]
    exact decimalNumeral_of_big hr
  | @inRadix letter radix digits suffix hl hd hs =>
    obtain ⟨v, hv⟩ := radixNumeral_of_run hl hd hs
    refine ⟨v, ?_⟩
    change zeroNumeral letter _ = _
    rw [zeroNumeral_eq, hl]
    exact hv
  | @octal digits hne hd =>
    obtain ⟨second, rest, rfl⟩ := List.exists_cons_of_ne_nil hne
    have hsecond := isDecimalDigit_of_isOctalDigit (hd second (List.mem_cons_self ..))
    have hall : ∀ c ∈ '0' :: second :: rest, isOctalDigit c = true :=
      List.forall_mem_cons.2 ⟨rfl, hd⟩
    obtain ⟨v, hv⟩ := legacyNumeral_of_octal hall
    exact ⟨v, (zeroNumeral_of_isDecimalDigit hsecond).trans hv⟩
  | @legacy digits fraction exponent hd hn hf he =>
    obtain ⟨second, rest, rfl⟩ : ∃ second rest, digits = second :: rest :=
      List.exists_cons_of_ne_nil (by rintro rfl; simp at hn)
    have hsecond := hd second (List.mem_cons_self ..)
    have hall : ∀ c ∈ '0' :: second :: rest, isDecimalDigit c = true :=
      List.forall_mem_cons.2 ⟨rfl, hd⟩
    obtain ⟨v, hv⟩ := legacyNumeral_of_tail hall
      (hn.imp (List.mem_cons_of_mem _) (List.mem_cons_of_mem _)) hf he
    exact ⟨v, (zeroNumeral_of_isDecimalDigit hsecond).trans hv⟩

end Read

/-! ## Sources that are a numeral -/

/-- A text of the language is scanned as a numeral where one may begin. -/
theorem Opening.of_normal_eq_numeral {braces : List Brace} {chars : List Char} :
    Opening.of .normal braces chars = .numeral ↔ Read.BeginsNumeral chars := by
  constructor
  · intro h
    cases chars with
    | nil => cases h
    | cons c l =>
      by_contra hbegins
      have hnone : (isDecimalDigit c || (c == '.' && l.head?.any isDecimalDigit)) = false := by
        simpa [Read.BeginsNumeral] using hbegins
      change ofLanguage _ (c :: l) = _ at h
      unfold ofLanguage at h
      dsimp only at h
      rw [hnone, if_neg Bool.false_ne_true] at h
      repeat (split at h; · cases h)
      cases h
  · rintro (h | ⟨hc, hd⟩)
    · cases chars with
      | nil => cases h
      | cons c l => exact Opening.of_isDecimalDigit h l
    · cases chars with
      | nil => cases hc
      | cons c l =>
        cases hc
        change ofLanguage _ ('.' :: l) = _
        unfold ofLanguage
        simp only [show l.head?.any isDecimalDigit = true from hd]
        rfl

theorem StartsToken.of_beginsNumeral {c : Char} {l : List Char} (h : Read.BeginsNumeral (c :: l)) :
    StartsToken c := by
  rcases h with h | ⟨hc, -⟩
  · exact .of_isDecimalDigit h
  · cases hc
    exact ⟨rfl, rfl, by decide⟩

/-- A numeral begins as numerals do. -/
theorem IsNumeral.begins {IsWhole : List Char → Prop} {l : List Char} (h : IsNumeral IsWhole l)
    (hwhole : ∀ whole, IsWhole whole → DigitRun 10 whole) : Read.BeginsNumeral l := by
  have hhead : ∀ {whole}, IsWhole whole → ∀ rest,
    (whole ++ rest).head?.any isDecimalDigit = true := by
    intro whole hw rest
    rw [← isDigitOf_ten]
    exact (hwhole whole hw).head rest
  cases h with
  | decimal hw => exact .inl (by rw [List.append_assoc]; exact hhead hw _)
  | @fractional digits exponent hd =>
    refine .inr ⟨rfl, ?_⟩
    rw [← isDigitOf_ten]
    exact hd.head exponent
  | big hw => exact .inl (hhead hw _)
  | inRadix => exact .inl rfl
  | octal => exact .inl rfl
  | legacy => exact .inl rfl

/-- The sources that are one numeral. A source is scanned as a number, and nothing else, exactly if
it is spelled like a numeral, where whole digits may also be a zero and digits behind a
separator. -/
theorem scan_numeral_iff (isModule keepsComments : Bool) (source : String) :
    (Scanner.start source isModule keepsComments).IsOneToken
      (fun t => (t.kind = .numeric ∨ t.kind = .bigint) ∧ t.raw = source) ↔
    IsNumeral (fun whole => IsPlainWhole whole ∨ IsZeroSeparated whole) source.toList := by
  constructor
  · intro h
    obtain ⟨v, hreads, hk, hkind⟩ :=
      Scanner.IsOneToken.reads (P := fun v => v.kind = .numeric ∨ v.kind = .bigint) h
    have hopening : Opening.of .normal [] source.toList = .numeral := by
      rcases hk with hk | hk <;> rw [hk] at hkind <;>
        cases ho : Opening.of .normal [] source.toList <;> rw [ho] at hkind <;>
        first
        | rfl
        | simp [Opening.kinds] at hkind
    rw [hopening] at hreads
    exact Read.isNumeral_of_numeral hreads (Opening.of_normal_eq_numeral.1 hopening)
  · intro h
    have hwhole : ∀ whole, IsPlainWhole whole ∨ IsZeroSeparated whole → DigitRun 10 whole :=
      fun whole hw => (Read.decimalNumeral_of_isWhole [] hw fun _ h => by cases h).1
    have hbegins := h.begins hwhole
    obtain ⟨v, hv⟩ := Read.numeral_of_isNumeral h
    obtain ⟨c, l, hchars⟩ : ∃ c l, source.toList = c :: l := by
      cases hl : source.toList with
      | nil =>
        rw [hl] at hbegins
        rcases hbegins with h | ⟨h, -⟩ <;> cases h
      | cons c l => exact ⟨c, l, rfl⟩
    rw [hchars] at hbegins hv
    refine Scanner.isOneToken_of_reads (P := fun v => v.kind = .numeric ∨ v.kind = .bigint) hchars
      (.of_beginsNumeral hbegins) (v := v) ?_ (Read.yields_numeral hv)
    rw [Opening.of_normal_eq_numeral.2 hbegins]
    exact hv

/-- In a plain numeral, no separator stands behind a leading zero. -/
theorem IsNumeral.ne_zero_separated {l : List Char} (h : IsNumeral IsPlainWhole l)
    (rest : List Char) :
    l ≠ '0' :: '_' :: rest := by
  have hwhole : ∀ {whole tail : List Char}, IsPlainWhole whole → tail.head? ≠ some '_' →
      whole ++ tail ≠ '0' :: '_' :: rest := by
    rintro whole tail (rfl | ⟨hr, hhead⟩) ht heq
    · obtain rfl : tail = '_' :: rest := List.tail_eq_of_cons_eq heq
      exact ht rfl
    · cases whole with
      | nil => exact hr.ne_nil rfl
      | cons c digits => exact hhead (congrArg some (List.head_eq_of_cons_eq heq))
  have hdigits : ∀ {digits tail : List Char}, digits ≠ [] →
    (∀ c ∈ digits, isDecimalDigit c = true) →
      '0' :: digits ++ tail ≠ '0' :: '_' :: rest := by
    intro digits tail hne hd heq
    obtain ⟨c, digits, rfl⟩ := List.exists_cons_of_ne_nil hne
    obtain rfl : c = '_' := List.head_eq_of_cons_eq (List.tail_eq_of_cons_eq heq)
    exact absurd (hd '_' List.mem_cons_self) (by decide)
  cases h with
  | @decimal whole fraction exponent hw hf he =>
    rw [List.append_assoc]
    refine hwhole hw ?_
    cases hf with
    | absent =>
      cases he with
      | absent => exact nofun
      | unsigned hm => rcases hm with rfl | rfl <;> simp
      | signed hm => rcases hm with rfl | rfl <;> simp
    | point => simp
    | digits => simp
  | fractional => exact fun heq => absurd (List.head_eq_of_cons_eq heq) (by decide)
  | big hw => exact hwhole hw (by decide)
  | @inRadix letter radix digits suffix hl =>
    intro heq
    obtain rfl : letter = '_' := List.head_eq_of_cons_eq (List.tail_eq_of_cons_eq heq)
    cases hl
  | @octal digits hne hd =>
    rw [← List.append_nil ('0' :: digits)]
    exact hdigits hne fun c hc => Read.isDecimalDigit_of_isOctalDigit (hd c hc)
  | @legacy digits fraction exponent hd hn =>
    rw [List.append_assoc]
    exact hdigits (by rintro rfl; simp at hn) hd

/-- A separator behind a leading zero: one numeral, and none that is spelled plainly. -/
theorem scan_numeral_zero_separated :
    (Scanner.start "0_1" false false).IsOneToken
      (fun t => (t.kind = .numeric ∨ t.kind = .bigint) ∧ t.raw = "0_1") ∧
    ¬ IsNumeral IsPlainWhole "0_1".toList := by
  refine ⟨(scan_numeral_iff false false "0_1").2 ?_, fun h => ?_⟩
  · change IsNumeral _ (['0', '_', '1'] ++ [] ++ [])
    exact .decimal (.inr ⟨['1'], rfl, .single rfl⟩) .absent .absent
  · exact h.ne_zero_separated ['1'] rfl

end Verbatim
