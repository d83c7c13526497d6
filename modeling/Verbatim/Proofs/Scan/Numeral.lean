import Verbatim.Proofs.Scan.Read
import Verbatim.Scan.Numeral

/-!
# Numerals are read alike where texts part

## Main results

* `Verbatim.Read.Local.numeral` — numerals are read alike.
* `Verbatim.Read.numeral_suffix` — a numeral takes its first character.
-/

namespace Verbatim.Read

open Verbatim.Text

variable {guard : Char → Bool}

/-! ## Digits -/

/-- What is left behind digits is an end of the text. -/
theorem digitsFrom_suffix (radix : Nat) (afterDigit : Bool) (l : List Char) :
    (digitsFrom radix afterDigit l).2 <:+ l := by
  induction l generalizing afterDigit with
  | nil => exact List.suffix_refl _
  | cons c l ih =>
    unfold digitsFrom
    split
    · split
      · exact (ih _).trans (List.suffix_cons ..)
      · exact List.suffix_refl _
    · split
      · exact (ih _).trans (List.suffix_cons ..)
      · exact List.suffix_refl _

theorem digits_eq_ok {radix : Nat} {l m : List Char} {v : Unit} :
    digits radix l = .ok v m ↔ digitsFrom radix false l = (true, m) := by
  change (if !(digitsFrom radix false l).1 then MonadExcept.throw .illegalToken
    else Pure.pure () : Read Unit) (digitsFrom radix false l).2 = _ ↔ _
  rw [run_ite]
  cases hd : digitsFrom radix false l with
  | mk wellPlaced rest =>
    cases wellPlaced with
    | false => exact ⟨fun h => absurd h Run.throw_ne_ok, nofun⟩
    | true =>
      rw [if_neg (by simp), Run.pure_eq_ok, Prod.mk.injEq]
      exact ⟨fun h => ⟨rfl, h.2⟩, fun h => ⟨rfl, h.2⟩⟩

/-- Well placed digits end alike where texts part. -/
theorem digitsFrom_same {radix : Nat} {afterDigit : Bool} {x y a b : List Char} (hab : Parts a b)
    (h : digitsFrom radix afterDigit (x ++ a) = (true, y ++ a)) :
    digitsFrom radix afterDigit (x ++ b) = (true, y ++ b) := by
  induction x generalizing afterDigit with
  | nil =>
    have hstop : ∀ l l' : List Char, Parts l l' →
        digitsFrom radix afterDigit l = (true, l) ∧ digitsFrom radix afterDigit l' =
          (true, l') := by
      intro l l' hl
      have hdigit : ∀ c, digitValue c = none → isDigitOf radix c = false := by
        intro c hc
        rw [isDigitOf, digitValue?, hc]
        rfl
      have hsign : ∀ {c : Char} (l), c ≠ '_' → digitValue c = none →
          digitsFrom radix afterDigit (c :: l) = (true, c :: l) := by
        intro c l hc hv
        simp [digitsFrom, hc, hdigit c hv]
      cases hl with
      | number | piece => exact ⟨hsign _ (by decide) rfl, hsign _ (by decide) rfl⟩
      | sign hc =>
        rcases hc with rfl | rfl <;> exact ⟨hsign _ (by decide) rfl, hsign _ (by decide) rfl⟩
    rw [List.nil_append, (hstop _ _ hab).1] at h
    obtain rfl : y = [] := by simpa using congrArg (·.2.length) h
    exact (hstop _ _ hab).2
  | cons c x ih =>
    simp only [List.cons_append, digitsFrom] at h ⊢
    split at h
    · rename_i hc
      subst hc
      split at h
      · rename_i hd
        cases x with
        | nil =>
          have hnone : ∀ l l' : List Char, Parts l l' → l.head?.any (isDigitOf radix) = false := by
            intro l l' hl
            cases hl with
            | number | piece => rfl
            | sign hc => rcases hc with rfl | rfl <;> rfl
          simp [hnone _ _ hab] at hd
        | cons d x =>
          rw [if_pos rfl]
          exact (if_pos hd).trans (ih h)
      · cases h
    · rw [if_neg ‹_›]
      split at h
      · rw [if_pos ‹_›]
        exact ih h
      · rw [if_neg ‹_›]
        obtain rfl : c :: x = y := List.append_cancel_right (congrArg Prod.snd h)
        rfl

namespace Local

theorem digits (radix : Nat) : Local guard (Read.digits radix) := by
  refine ⟨fun {l m v} h => ?_, fun {x y a b v} hab _ h => ?_⟩
  · have hl := digitsFrom_suffix radix false l
    rwa [digits_eq_ok.1 h] at hl
  · exact digits_eq_ok.2 (digitsFrom_same hab (digits_eq_ok.1 h))

theorem numeralEnd : Local guard Read.numeralEnd := by
  unfold Read.numeralEnd
  exact (peekIs fun _ => by decide).bind fun _ => ite (throw _) (pure _)

theorem bigint (spelling : List Char) : Local guard (Read.bigint spelling) := by
  unfold Read.bigint
  exact (skip 1).bind fun _ => numeralEnd.bind fun _ => pure _

theorem fraction : Local guard Read.fraction := by
  unfold Read.fraction
  refine (peekIs fun _ => rfl).bind fun _ => ite (pure _) ((skip 1).bind fun _ => ?_)
  exact (peekIs fun _ => rfl).bind fun _ => ite ((digits 10).bind fun _ => pure _) (pure _)

theorem exponent : Local guard Read.exponent := by
  unfold Read.exponent
  refine (peekIs fun _ => rfl).bind fun _ => ite (pure _) ((skip 1).bind fun _ => ?_)
  refine (peekIs fun _ => rfl).bind fun _ => ?_
  have hdigits : Local guard (do
      if !(← Read.peekIs isDecimalDigit) then MonadExcept.throw .illegalToken
      Read.digits 10
      return true) :=
    (peekIs fun _ => rfl).bind fun _ => ite (throw _) ((digits 10).bind fun _ => pure _)
  exact ite ((skip 1).bind fun _ => hdigits) hdigits

theorem decimalTail : Local guard Read.decimalTail :=
  fraction.bind fun _ => exponent.bind fun _ => pure _

theorem decimalNumeral : Local guard Read.decimalNumeral := by
  unfold Read.decimalNumeral
  have hspelled : Local guard (do
      if !(← Read.peekIs (· == '.')) then Read.digits 10
      Read.decimalTail) :=
    (peekIs fun _ => rfl).bind fun _ => ite ((digits 10).bind fun _ => decimalTail) decimalTail
  refine (spelled hspelled).bind fun (isWhole, spelling) => ?_
  refine (peekIs fun _ => rfl).bind fun _ => ite (bigint _) ?_
  exact numeralEnd.bind fun _ => pure _

theorem legacyNumeral : Local guard Read.legacyNumeral := by
  unfold Read.legacyNumeral
  refine (takeWhile fun _ => by decide).bind fun whole => ite ?_ ?_
  · exact numeralEnd.bind fun _ => pure _
  · exact (spelled decimalTail).bind fun _ => numeralEnd.bind fun _ => pure _

theorem radixNumeral (radix : Nat) (letter : Char) : Local guard
    (Read.radixNumeral radix letter) := by
  unfold Read.radixNumeral
  refine (skip 2).bind fun _ => (spelled (digits radix)).bind fun (_, spelling) => ?_
  refine ite (throw _) ((peekIs fun _ => rfl).bind fun _ => ite (bigint _) ?_)
  exact numeralEnd.bind fun _ => pure _

theorem zeroNumeral (second : Char) : Local guard (Read.zeroNumeral second) :=
  ite (radixNumeral _ _) (ite (radixNumeral _ _) (ite (radixNumeral _ _)
    (ite legacyNumeral decimalNumeral)))

/-- A numeral is read alike where the text behind it parts; each radix has its own digits. -/
theorem numeral : Local guard Read.numeral := by
  have hother : ∀ {l : List Char}, l.head?.any (· == '0') = false →
      Read.numeral l = Read.decimalNumeral l := by
    intro l h
    change (if l.head?.any (· == '0') = true then _ else _ : Read Lexeme) l = _
    rw [run_ite, h]
    rfl
  refine ⟨fun {l m v} h => ?_, fun {x y a b v} hab hg h => ?_⟩
  · rcases l with _ | ⟨c, l⟩
    · exact (decimalNumeral : Local guard _).suffix h
    · by_cases hc : c = '0'
      · subst hc
        cases l with
        | nil => exact (decimalNumeral : Local guard _).suffix h
        | cons d l => exact (zeroNumeral d : Local guard _).suffix h
      · rw [hother (by simpa using hc)] at h
        exact (decimalNumeral : Local guard _).suffix h
  · rcases x with _ | ⟨c, x⟩
    · have hhead : ∀ l l' : List Char, Parts l l' →
          l.head?.any (· == '0') = false ∧ l'.head?.any (· == '0') = false := by
        intro l l' hl
        cases hl with
        | number | piece => exact ⟨rfl, rfl⟩
        | sign hc => rcases hc with rfl | rfl <;> exact ⟨rfl, rfl⟩
      rw [List.nil_append] at h ⊢
      rw [hother (hhead a b hab).1] at h
      rw [hother (hhead a b hab).2]
      exact decimalNumeral.same (x := []) hab hg h
    · by_cases hc : c = '0'
      · subst hc
        cases x with
        | nil =>
          have hzero : ∀ {l l' : List Char}, Parts l l' →
              Read.numeral ('0' :: l) = Read.decimalNumeral ('0' :: l) ∧
              Read.numeral ('0' :: l') = Read.decimalNumeral ('0' :: l') := by
            intro l l' hl
            cases hl with
            | number | piece => exact ⟨rfl, rfl⟩
            | sign hc => rcases hc with rfl | rfl <;> exact ⟨rfl, rfl⟩
          rw [List.cons_append, List.nil_append] at h ⊢
          rw [(hzero hab).1] at h
          rw [(hzero hab).2]
          exact decimalNumeral.same (x := ['0']) hab hg h
        | cons d x => exact (zeroNumeral d).same (x := '0' :: d :: x) hab hg h
      · rw [hother (by simpa using hc)] at h ⊢
        exact decimalNumeral.same (x := c :: x) hab hg h

end Local

/-! ## What a numeral takes -/

/-- A digit is taken by the reader of digits. -/
theorem digits_suffix {radix : Nat} {c : Char} {l m : List Char} {v : Unit}
    (hc : isDigitOf radix c = true) (h : digits radix (c :: l) = .ok v m) : m <:+ l := by
  have hne : c ≠ '_' := by
    rintro rfl
    exact absurd hc (by simp [isDigitOf, digitValue?, show digitValue '_' = none from rfl])
  have hd := digits_eq_ok.1 h
  rw [digitsFrom, if_neg hne, if_pos hc] at hd
  have hl := digitsFrom_suffix radix true l
  rwa [hd] at hl

/-- A decimal numeral takes its first character. -/
theorem decimalNumeral_suffix {c : Char} {l m : List Char} {v : Lexeme}
    (hc : isDecimalDigit c = true ∨ c = '.') (h : decimalNumeral (c :: l) = .ok v m) : m <:+ l := by
  have hdigit : isDecimalDigit c = true → isDigitOf 10 c = true := by
    intro h
    obtain ⟨h₀, h₉⟩ : '0' ≤ c ∧ c ≤ '9' := by simpa [isDecimalDigit] using h
    have hle : c.toNat ≤ 57 := h₉
    simp only [isDigitOf, digitValue?, digitValue, h₀, h₉, decide_true, Bool.and_self, if_true]
    simp only [Option.filter_some, show '0'.toNat = 48 from rfl]
    rw [if_pos (by simp; omega)]
    rfl
  have hspelled : ∀ {u m}, spelled (do
      if !(← peekIs (· == '.')) then digits 10
      decimalTail) (c :: l) = .ok u m → m <:+ l := by
    intro u m h
    obtain ⟨before, _, h₀, h⟩ := Run.bind_eq_ok.1 h
    cases h₀
    obtain ⟨isWhole, m₁, hb, h₁⟩ := Run.bind_eq_ok.1 h
    obtain ⟨after, _, h₂, h₁⟩ := Run.bind_eq_ok.1 h₁
    cases h₂
    obtain ⟨-, rfl⟩ := Run.pure_eq_ok.1 h₁
    by_cases hdot : c = '.'
    · subst hdot
      refine bind_suffix (show (fraction >>= fun _ => _ : Read Bool) ('.' :: l) = _ from hb)
        (fun {u m} hf => ?_) fun _ => Local.exponent.bind fun _ => .pure _
      refine bind_suffix (show (skip 1 >>= fun _ => _ : Read Bool) ('.' :: l) = _ from hf)
        (fun hs => ?_) fun _ => ?_
      · rw [Run.modify_eq_ok.1 hs]
        exact List.suffix_refl _
      · exact (Local.peekIs (p := isDecimalDigit) fun _ => rfl).bind fun _ =>
          .ite ((Local.digits 10).bind fun _ => .pure _) (.pure _)
    · have hc : isDecimalDigit c = true := by simpa [hdot] using hc
      change (if !(c == '.') then digits 10 >>= fun _ => decimalTail else decimalTail)
        (c :: l) = _ at hb
      rw [run_ite, if_pos (by simp [hdot])] at hb
      exact bind_suffix hb (digits_suffix (hdigit hc)) fun _ => Local.decimalTail
  refine bind_suffix h hspelled fun (isWhole, spelling) => ?_
  refine (Local.peekIs fun _ => rfl).bind fun _ => .ite (.bigint _) ?_
  exact Local.numeralEnd.bind fun _ => .pure _

/-- A numeral takes its first character. -/
theorem numeral_suffix {c : Char} {l m : List Char} {v : Lexeme}
    (hc : isDecimalDigit c = true ∨ c = '.') (h : numeral (c :: l) = .ok v m) : m <:+ l := by
  have hradix : ∀ {radix d l}, radixNumeral radix d (c :: l) = .ok v m → m <:+ l := by
    intro radix d l h
    refine bind_suffix (show (skip 2 >>= fun _ => _ : Read Lexeme) (c :: l) = _ from h)
      (fun hs => ?_) fun _ => (Local.spelled (.digits radix)).bind fun (_, spelling) => ?_
    · rw [Run.modify_eq_ok.1 hs]
      exact List.drop_suffix 1 l
    · refine .ite (.throw _) ((Local.peekIs fun _ => rfl).bind fun _ => .ite (.bigint _) ?_)
      exact Local.numeralEnd.bind fun _ => .pure _
  by_cases hz : c = '0'
  · subst hz
    rcases l with _ | ⟨d, l⟩
    · exact decimalNumeral_suffix hc h
    · change (if _ then _ else if _ then _ else if _ then _ else if _ then _ else _ : Read Lexeme)
        ('0' :: d :: l) = _ at h
      simp only [run_ite] at h
      split at h
      · exact hradix h
      split at h
      · exact hradix h
      split at h
      · exact hradix h
      split at h
      · refine bind_suffix h (fun {u m} ht => ?_) fun whole => .ite ?_ ?_
        · obtain rfl : ('0' :: d :: l).dropWhile isDecimalDigit = m := by cases ht; rfl
          exact List.dropWhile_suffix (l := d :: l) _
        · exact Local.numeralEnd.bind fun _ => .pure _
        · exact (Local.spelled .decimalTail).bind fun _ => Local.numeralEnd.bind fun _ => .pure _
      · exact decimalNumeral_suffix hc h
  · change (if c == '0' then _ else decimalNumeral) (c :: l) = _ at h
    rw [run_ite, if_neg (by simpa using hz)] at h
    exact decimalNumeral_suffix hc h

/-- A numeral is a number or a big integer. -/
theorem yields_numeral : Yields (fun v => v.kind = .numeric ∨ v.kind = .bigint) numeral := by
  have hbig : ∀ spelling, Yields (fun v => v.kind = .numeric ∨ v.kind = .bigint)
    (bigint spelling) :=
    fun _ => .bind fun _ => .bind fun _ => .pure (.inr rfl)
  have hdecimal : Yields (fun v => v.kind = .numeric ∨ v.kind = .bigint) decimalNumeral :=
    .bind fun _ => .bind fun _ => .ite (hbig _) (.bind fun _ => .pure (.inl rfl))
  have hradix : ∀ radix letter,
      Yields (fun v => v.kind = .numeric ∨ v.kind = .bigint) (radixNumeral radix letter) :=
    fun _ _ => .bind fun _ => .bind fun _ => .ite (.throw _) (.bind fun _ => .ite (hbig _)
      (.bind fun _ => .pure (.inl rfl)))
  have hlegacy : Yields (fun v => v.kind = .numeric ∨ v.kind = .bigint) legacyNumeral :=
    .bind fun _ => .ite (.bind fun _ => .pure (.inl rfl))
      (.bind fun _ => .bind fun _ => .pure (.inl rfl))
  refine .bind fun _ => .ite (.bind fun second => ?_) hdecimal
  split
  · exact .ite (hradix _ _) (.ite (hradix _ _) (.ite (hradix _ _) (.ite hlegacy hdecimal)))
  · exact hdecimal

end Verbatim.Read
