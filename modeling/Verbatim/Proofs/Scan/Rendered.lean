import Verbatim.Grammar.Literal
import Verbatim.Proofs.Scan.Next
import Verbatim.Text.Quoted

/-!
# Rendered literals are read back

A rendered string is read as the text that was rendered, and a rendered big integer as its value,
whatever stands behind them, as long as nothing continues the integer.

## Main results

* `Verbatim.Read.string_quote` — a quoted text is read back.
* `Verbatim.Read.numeral_bigint` — a big integer is read back.
* `Verbatim.Text.bigint?_toDigits` — the digits of a number have its value.
-/

namespace Verbatim

open Verbatim.Text

/-! ## How characters are escaped -/

namespace Text

/-- The two digits of a control character. -/
def digitPair (c : Char) : List Char := if c.toNat < 0x10 then '0' :: hexDigits c else hexDigits c

/-- How a character of a string is written. -/
inductive Escapes (quote c : Char) (next : Option Char) : List Char → Prop where
  /-- As it is. -/
  | itself (notBackslash : c ≠ '\\') (notQuote : c ≠ quote) (inLine : c ≠ '\n' ∧ c ≠ '\r') :
    Escapes quote c next [c]
  /-- Behind a backslash. -/
  | backslash (h : c = '\\' ∨ c = quote) : Escapes quote c next ['\\', c]
  /-- By a letter. -/
  | letter {l : Char} (h : (l, c) ∈ [('n', '\n'), ('r', '\r'), ('t', '\t')]) :
    Escapes quote c next ['\\', l]
  /-- By a zero, where no digit follows. -/
  | zero (h : c = '\x00') (noDigit : next.any isDecimalDigit = false) : Escapes quote c
      next ['\\', '0']
  /-- By two digits. -/
  | pair (h : c.toNat < 0x20) : Escapes quote c next ('\\' :: 'x' :: digitPair c)
  /-- By four digits. -/
  | four (h : c = '\u2028' ∨ c = '\u2029') : Escapes quote c next ('\\' :: 'u' :: hexDigits c)

section

variable (quote c : Char) (next : Option Char)

/-- What a character is written as in a string stands for it. -/
theorem escapes_escape : Escapes quote c next (escape quote c next) := by
  unfold escape
  refine iteInduction (fun h => ?_) fun hbackslash => ?_
  · subst h
    exact .backslash (.inl rfl)
  refine iteInduction (fun h => .letter (by simp [h])) fun hfeed => ?_
  refine iteInduction (fun h => .letter (by simp [h])) fun hreturn => ?_
  refine iteInduction (fun h => .letter (by simp [h])) fun _ => ?_
  refine iteInduction (fun h => ?_) fun _ => ?_
  · subst h
    exact .four (.inl rfl)
  refine iteInduction (fun h => ?_) fun _ => ?_
  · subst h
    exact .four (.inr rfl)
  refine iteInduction (fun h => ?_) fun _ => ?_
  · subst h
    exact iteInduction (fun _ => .pair (by decide)) fun hnext =>
      .zero rfl (Bool.eq_false_iff.2 hnext)
  refine iteInduction (fun h => .backslash (.inr h)) fun hquote => ?_
  refine iteInduction (fun h => ?_) fun hlow => iteInduction (fun h => ?_) fun _ => ?_
  · have hpair : Escapes quote c next _ := .pair (Nat.lt_trans h (by decide))
    rwa [digitPair, if_pos h] at hpair
  · have hpair : Escapes quote c next _ := .pair h
    rwa [digitPair, if_neg hlow] at hpair
  · exact .itself hbackslash hquote ⟨hfeed, hreturn⟩

theorem escape_ne_nil : escape quote c next ≠ [] := by
  have h := escapes_escape quote c next
  generalize escape quote c next = written at h
  cases h <;> exact List.cons_ne_nil _ _

/-- What is escaped begins with a digit only if it is that digit. -/
theorem escape_head? {d : Char} (h : (escape quote c next).head? = some d) : d = c ∨ d = '\\' := by
  have hwritten := escapes_escape quote c next
  generalize escape quote c next = written at h hwritten
  cases hwritten with
  | itself => exact .inl (Option.some.inj h).symm
  | backslash | letter | zero | pair | four => exact .inr (Option.some.inj h).symm

end

theorem length_le_quoteBody (quote : Char) (text : List Char) :
    text.length ≤ (quoteBody quote text).length := by
  induction text with
  | nil => exact Nat.zero_le _
  | cons c rest ih =>
    have hpos := List.length_pos_iff.2 (escape_ne_nil quote c rest.head?)
    rw [quoteBody, List.length_append, List.length_cons]
    omega

/-- Behind a character that no digit follows, no digit is written. -/
theorem quoteBody_head? {quote : Char} (hq : isDecimalDigit quote = false) {text rest : List Char}
    (h : text.head?.any isDecimalDigit = false) :
    (quoteBody quote text ++ quote :: rest).head?.any isDecimalDigit = false := by
  cases text with
  | nil => simpa [quoteBody] using hq
  | cons c tail =>
    obtain ⟨d, written, hwritten⟩ := List.exists_cons_of_ne_nil (escape_ne_nil quote c tail.head?)
    rw [quoteBody, hwritten]
    obtain rfl | rfl := escape_head? quote c tail.head? (congrArg List.head? hwritten)
    · exact h
    · rfl

end Text

/-! ## Escapes are read back -/

namespace Read

/-- Two digits have the value that they spell. -/
theorem hexDigits?_pair {a b : Char} {x y : Nat} (ha : digitValue? 16 a = some x)
    (hb : digitValue? 16 b = some y) (rest : List Char) :
    hexDigits? 2 0 (a :: b :: rest) = .ok (some (x * 16 + y)) rest := by
  rw [hexDigits?, peek_bind, List.head?_cons, Option.bind_some, ha]
  change hexDigits? 1 (0 * 16 + x) (b :: rest) = _
  rw [hexDigits?, peek_bind, List.head?_cons, Option.bind_some, hb, Nat.zero_mul, Nat.zero_add]
  rfl

theorem digitPair_values : ∀ code < 0x20, (digitPair (Char.ofNat code)).map (digitValue? 16) =
    [some (code / 16), some (code % 16)] := by decide +kernel

/-- A control character is read from its two digits. -/
theorem hexDigits?_digitPair {c : Char} (h : c.toNat < 0x20) (rest : List Char) :
    hexDigits? 2 0 (digitPair c ++ rest) = .ok (some c.toNat) rest := by
  have hvalues := digitPair_values c.toNat h
  rw [Char.ofNat_toNat] at hvalues
  match hpair : digitPair c with
  | [a, b] =>
    rw [hpair] at hvalues
    obtain ⟨ha, hb⟩ : digitValue? 16 a = _ ∧ digitValue? 16 b = _ := by simpa using hvalues
    refine (hexDigits?_pair ha hb rest).trans ?_
    rw [Nat.div_add_mod']
  | [] | [_] | _ :: _ :: _ :: _ => simp [hpair] at hvalues

/-- An escape is read as the character that it is for. -/
theorem stringEscaped_of {taken l m : List Char} {octal : Bool} {e c : Char}
    (he : isLineTerminator e = false) (h : stringEscape e l = .ok (c, false) m) :
    stringEscaped taken octal (e :: l) = .ok (c :: taken, octal) m := by
  rw [stringEscaped, peek_bind, List.head?_cons]
  dsimp only
  rw [if_neg (by simp [he])]
  change (stringEscape e >>= fun v => pure (v.1 :: taken, octal || v.2) : Read _) l = _
  refine Run.bind_eq_ok.2 ⟨_, _, h, ?_⟩
  rw [Bool.or_false]
  rfl

/-- How a string goes on, by its first character. -/
theorem stringFrom_cons {quote c : Char} {n : Nat} {taken l : List Char} {octal : Bool} :
    stringFrom quote (n + 1) taken octal (c :: l) =
      if c = quote then .ok (taken, octal) l
      else if c = '\\' then
        (stringEscaped taken octal >>= fun v => stringFrom quote n v.1 v.2) l
      else if c = '\n' || c = '\r' then .error .illegalToken (c :: l)
      else stringFrom quote n (c :: taken) octal l := by
  change (if c = quote then _ else if c = '\\' then _ else if _ then _ else _ : Read _) (c :: l) = _
  rw [run_ite, run_ite, run_ite]
  rfl

section

variable {quote c : Char} {n : Nat} {taken rest : List Char} {octal : Bool}

/-- A string goes on behind an escape. -/
theorem stringFrom_escaped {e : Char} {l : List Char} (hq : '\\' ≠ quote)
    (he : isLineTerminator e = false) (h : stringEscape e l = .ok (c, false) rest) :
    stringFrom quote (n + 1) taken octal ('\\' :: e :: l) =
      stringFrom quote n (c :: taken) octal rest := by
  rw [stringFrom_cons, if_neg hq, if_pos rfl]
  change EStateM.bind _ _ _ = _
  unfold EStateM.bind
  rw [stringEscaped_of he h]

theorem scalar?_toNat (c : Char) : scalar? c.toNat = some c := by
  rw [scalar?, dif_pos (show c.toNat.isValidChar from c.valid)]
  exact congrArg some (Char.ext rfl)

/-- A character that is written in any of the ways is read back. -/
theorem stringFrom_escapes {next : Option Char} {written : List Char} (hq : isQuote quote = true)
    (h : Escapes quote c next written)
    (hrest : next.any isDecimalDigit = false → rest.head?.any isDecimalDigit = false) :
    stringFrom quote (n + 1) taken octal (written ++ rest) =
      stringFrom quote n (c :: taken) octal rest := by
  have hbackslash : '\\' ≠ quote := by
    rintro rfl
    cases hq
  cases h with
  | itself notBackslash notQuote inLine =>
    rw [List.singleton_append, stringFrom_cons, if_neg notQuote, if_neg notBackslash,
      if_neg (by simp [inLine])]
  | backslash h =>
    have hc : c = '\\' ∨ c = '"' ∨ c = '\x27' :=
      h.imp_right fun hc => by simpa [isQuote, ← hc] using hq
    obtain rfl | rfl | rfl := hc <;> exact stringFrom_escaped hbackslash rfl rfl
  | letter h =>
    obtain ⟨rfl, rfl⟩ | ⟨rfl, rfl⟩ | ⟨rfl, rfl⟩ : _ ∨ _ ∨ _ := by simpa using h
    all_goals exact stringFrom_escaped hbackslash rfl rfl
  | zero hc noDigit =>
    subst hc
    refine stringFrom_escaped hbackslash rfl ?_
    change (if (!rest.head?.any isDecimalDigit) = true then _ else _ : Read _) rest = _
    rw [if_pos (by rw [hrest noDigit]; rfl)]
    rfl
  | pair h =>
    refine stringFrom_escaped hbackslash rfl
      (Run.bind_eq_ok.2 ⟨_, _, hexDigits?_digitPair h rest, ?_⟩)
    rw [Option.bind_some, scalar?_toNat]
    rfl
  | four h =>
    obtain rfl | rfl := h <;> exact stringFrom_escaped hbackslash rfl rfl

/-- The characters of a string are read back, up to its quote. -/
theorem stringFrom_quoteBody {text : List Char} (hq : isQuote quote = true) (hn : text.length < n) :
    stringFrom quote n taken octal (quoteBody quote text ++ quote :: rest) =
      .ok (text.reverse ++ taken, octal) rest := by
  have hdigit : isDecimalDigit quote = false := by
    obtain rfl | rfl : quote = '"' ∨ quote = '\x27' := by simpa [isQuote] using hq
    · rfl
    · rfl
  induction text generalizing n taken with
  | nil =>
    obtain ⟨n, rfl⟩ := Nat.exists_eq_succ_of_ne_zero (Nat.ne_zero_of_lt hn)
    exact stringFrom_cons.trans (if_pos rfl)
  | cons c text ih =>
    obtain ⟨n, rfl⟩ := Nat.exists_eq_succ_of_ne_zero (Nat.ne_zero_of_lt hn)
    rw [quoteBody, List.append_assoc,
      stringFrom_escapes hq (escapes_escape ..) (quoteBody_head? hdigit),
        ih (Nat.lt_of_succ_lt_succ hn),
      List.reverse_cons, List.append_assoc]
    rfl

/-- A quoted text is read back, whatever stands behind it. -/
theorem string_quote (hq : isQuote quote = true) (text : String) (rest : List Char) :
    string quote ((Text.quote quote text).toList ++ rest) =
      .ok { kind := .string, value := .text text } rest := by
  have htext : (Text.quote quote text).toList ++ rest =
      quote :: (quoteBody quote text.toList ++ quote :: rest) := by
    simp [Text.quote]
  have hfuel : text.toList.length < (quoteBody quote text.toList ++ quote :: rest).length + 1 := by
    have hlength := length_le_quoteBody quote text.toList
    rw [List.length_append]
    omega
  rw [htext]
  change (stringFrom quote _ [] false >>= _) (quoteBody quote text.toList ++ quote :: rest) = _
  refine Run.bind_eq_ok.2 ⟨_, rest, stringFrom_quoteBody hq hfuel, ?_⟩
  exact Run.pure_eq_ok.2 ⟨by simp, rfl⟩

end

end Read

/-! ## Big integers -/

namespace Text

theorem isDecimalDigit_of_mem {n : Nat} {c : Char} (h : c ∈ Nat.toDigits 10 n) :
    isDecimalDigit c = true := by
  have hdigit := Nat.isDigit_of_mem_toDigits (by decide) (by decide) h
  simpa [isDecimalDigit, Char.isDigit, Char.le_def] using hdigit

/-- The value of a decimal digit. -/
theorem digitValue?_of_isDecimalDigit {c : Char} (h : isDecimalDigit c = true) :
    digitValue? 10 c = some (c.toNat - '0'.toNat) := by
  obtain ⟨h₀, h₉⟩ : '0' ≤ c ∧ c ≤ '9' := by simpa [isDecimalDigit] using h
  have hle : c.toNat ≤ 57 := h₉
  simp only [digitValue?, digitValue, h₀, h₉, decide_true, Bool.and_self, if_true]
  exact Option.filter_eq_some_iff.2 ⟨rfl, by simp; omega⟩

/-- The first digit of a number is no zero, unless the number is. -/
theorem toDigits_head?_ne {n : Nat} (hn : n ≠ 0) : (Nat.toDigits 10 n).head? ≠ some '0' := by
  have hdigit : ∀ n < 10, n ≠ 0 → some (Nat.digitChar n) ≠ some '0' := by decide
  induction n using Nat.strongRecOn with
  | ind n ih =>
    by_cases hlt : n < 10
    · rw [Nat.toDigits_of_lt_base hlt]
      exact hdigit n hlt hn
    · have hdiv := ih (n / 10) (Nat.div_lt_self (Nat.pos_of_ne_zero hn) (by decide)) (by omega)
      rw [Nat.toDigits_of_base_le (by decide) (Nat.le_of_not_lt hlt)]
      obtain ⟨c, rest, hdigits⟩ := List.exists_cons_of_ne_nil
        (Nat.toDigits_ne_nil (n := n / 10) (b := 10))
      rw [hdigits] at hdiv ⊢
      exact hdiv

/-- Decimal digits spell what they are worth. -/
theorem numberOf_eq {digits : List Char} (h : ∀ c ∈ digits, isDecimalDigit c = true) :
    numberOf 10 digits = Nat.ofDigitChars 10 digits 0 := by
  unfold numberOf
  generalize 0 = value
  induction digits generalizing value with
  | nil => rfl
  | cons c digits ih =>
    obtain ⟨hc, hdigits⟩ := List.forall_mem_cons.1 h
    rw [List.filterMap_cons, digitValue?_of_isDecimalDigit hc, Nat.ofDigitChars_cons]
    exact (ih hdigits _).trans (by rw [Nat.mul_comm])

/-- A number is no mark of a radix. -/
theorem bigint?_of_digits {digits : List Char} (hne : digits ≠ [])
    (h : ∀ c ∈ digits, isDecimalDigit c = true) :
    bigint? (String.ofList digits) = some (Nat.ofDigitChars 10 digits 0 : Int) := by
  have hall : digits.all (isDigitOf 10) = true := List.all_eq_true.2 fun c hc => by
    rw [isDigitOf, digitValue?_of_isDecimalDigit (h c hc)]
    rfl
  have hletter : ∀ (c : Char) rest, isDecimalDigit c = false → digits ≠ '0' :: c :: rest := by
    rintro c rest hc rfl
    rw [h c (by simp)] at hc
    cases hc
  unfold bigint?
  rw [String.toList_ofList]
  split
  rename_i radix spelled hradix
  split at hradix
  case h_7 =>
    obtain ⟨rfl, rfl⟩ := Prod.mk.inj hradix
    rw [if_neg (by simp [hne, hall]), numberOf_eq h]
  all_goals exact absurd rfl (hletter _ _ rfl)

/-- The digits of a number have its value. -/
theorem bigint?_toDigits (n : Nat) : bigint? (String.ofList (Nat.toDigits 10 n)) = some
    (n : Int) := by
  rw [bigint?_of_digits Nat.toDigits_ne_nil fun c hc => isDecimalDigit_of_mem hc,
    Nat.ofDigitChars_ten_toDigits]

end Text

namespace Read

variable {digits rest : List Char}

/-- Digits are passed up to what is none. -/
theorem digits_all {c : Char} (h : ∀ d ∈ digits, isDecimalDigit d = true)
    (hc : digitValue? 10 c = none)
    (hs : c ≠ '_') : Read.digits 10 (digits ++ c :: rest) = .ok () (c :: rest) := by
  refine digits_eq_ok.2 ?_
  generalize false = afterDigit
  induction digits generalizing afterDigit with
  | nil =>
    rw [List.nil_append, digitsFrom, if_neg hs, if_neg (by simp [isDigitOf, hc])]
  | cons d digits ih =>
    obtain ⟨hd, hdigits⟩ := List.forall_mem_cons.1 h
    have hne : d ≠ '_' := by
      rintro rfl
      cases hd
    rw [List.cons_append, digitsFrom, if_neg hne,
      if_pos (by rw [isDigitOf, digitValue?_of_isDecimalDigit hd]; rfl)]
    exact ih hdigits _

/-- Whether nothing that follows a numeral runs into it. -/
def EndsNumeral (rest : List Char) : Prop :=
  rest.head?.any (fun c => isNameStart c || isDecimalDigit c || c == '\\') = false

/-- A big integer is read as its digits. -/
theorem bigint_of_digits (h : ∀ d ∈ digits, isDecimalDigit d = true) (hrest : EndsNumeral rest) :
    bigint digits ('n' :: rest) =
      .ok { kind := .bigint, value := .text (String.ofList digits) } rest := by
  have hplain : withoutSeparators digits = digits := List.filter_eq_self.2 fun d hd => by
    have hne : d ≠ '_' := by
      rintro rfl
      exact absurd (h _ hd) (by decide)
    simpa using hne
  change (numeralEnd >>= _) rest = _
  refine Run.bind_eq_ok.2 ⟨(), rest, ?_, ?_⟩
  · change (if rest.head?.any _ = true then _ else _ : Read Unit) rest = _
    rw [hrest]
    rfl
  · rw [hplain]
    rfl

/-- A big integer without a needless zero is read as its digits. -/
theorem decimalNumeral_of_digits (h : ∀ d ∈ digits, isDecimalDigit d = true)
    (hrest : EndsNumeral rest)
    (hne : digits ≠ []) : decimalNumeral (digits ++ 'n' :: rest) =
      .ok { kind := .bigint, value := .text (String.ofList digits) } rest := by
  have hdot : (digits ++ 'n' :: rest).head?.any (· == '.') = false := by
    cases digits with
    | nil => exact absurd rfl hne
    | cons d digits =>
      refine beq_eq_false_iff_ne.2 ?_
      rintro rfl
      exact absurd (h _ (List.mem_cons_self ..)) (by decide)
  have hspelled : spelled (do
      if !(← peekIs (· == '.')) then Read.digits 10
      decimalTail) (digits ++ 'n' :: rest) = .ok (true, digits) ('n' :: rest) := by
    refine spelled_eq_ok.2 ⟨?_, by simp⟩
    change (if !((digits ++ 'n' :: rest).head?.any (· == '.')) then Read.digits 10 >>=
      fun _ => decimalTail
      else decimalTail : Read Bool) (digits ++ 'n' :: rest) = _
    rw [run_ite, hdot]
    exact Run.bind_eq_ok.2 ⟨(), _, digits_all h rfl (by decide), rfl⟩
  exact Run.bind_eq_ok.2 ⟨_, _, hspelled, bigint_of_digits h hrest⟩

/-- A big integer is read as the digits of its value. -/
theorem numeral_bigint (n : Nat) (hrest : EndsNumeral rest) :
    numeral (Nat.toDigits 10 n ++ 'n' :: rest) =
      .ok { kind := .bigint, value := .text (String.ofList (Nat.toDigits 10 n)) } rest := by
  have hdecimal := decimalNumeral_of_digits (fun d hd => isDecimalDigit_of_mem (n := n) hd) hrest
    Nat.toDigits_ne_nil
  by_cases hn : n = 0
  · subst hn
    exact hdecimal
  · obtain ⟨d, digits, hdigits⟩ := List.exists_cons_of_ne_nil
      (Nat.toDigits_ne_nil (n := n) (b := 10))
    have hzero := toDigits_head?_ne hn
    rw [hdigits] at hdecimal hzero ⊢
    change (if (d == '0') = true then _ else decimalNumeral : Read Lexeme)
      (d :: digits ++ 'n' :: rest) = _
    rw [run_ite, if_neg fun hd => hzero (congrArg some (beq_iff_eq.1 hd))]
    exact hdecimal

end Read

end Verbatim
