import Verbatim.Proofs.Scan.Word
import Verbatim.Scan.Quotation

/-!
# Strings and template pieces are read alike where texts part

A string or template piece ends with a delimiter of its own, so nothing behind it counts. Within it,
what counts stands in front of the delimiter.

## Main results

* `Verbatim.Read.Local.string`, `Verbatim.Read.Local.templatePiece` — both are read alike.
* `Verbatim.Read.string_closed`, `Verbatim.Read.templatePiece_closed` — both end with their
  delimiters.
-/

namespace Verbatim.Read

open Verbatim.Text

variable {guard : Char → Bool}

/-! ## Strings -/

/-- The two quotes. -/
def isQuote (c : Char) : Bool := c == '"' || c == '\x27'

/-- A text that does not continue an escape. -/
def EndsEscape (tail : List Char) : Prop :=
  ∀ c ∈ tail.head?, digitValue? 16 c = none ∧ c ≠ '\x7b' ∧ c ≠ '\x7d'

/-- A quote ends an escape. -/
theorem EndsEscape.quote {q : Char} (hq : isQuote q = true) (l : List Char) :
    EndsEscape (q :: l) := by
  rintro c ⟨⟩
  obtain rfl | rfl : q = '"' ∨ q = '\x27' := by simpa [isQuote] using hq
  · exact ⟨rfl, by decide⟩
  · exact ⟨rfl, by decide⟩

/-- Digits of an escape end in front of what does not continue them. -/
theorem hexDigits?_ends (count value : Nat) (x : List Char) : ∃ code y, y <:+ x ∧
    ∀ tail, EndsEscape tail → hexDigits? count value (x ++ tail) = .ok code (y ++ tail) := by
  induction count generalizing value x with
  | zero => exact ⟨_, x, List.suffix_refl x, fun _ _ => rfl⟩
  | succ count ih =>
    cases x with
    | nil =>
      refine ⟨none, [], List.suffix_refl _, fun tail ht => ?_⟩
      have hnone : tail.head?.bind (digitValue? 16) = none := by
        cases tail with
        | nil => rfl
        | cons c l => exact (ht c rfl).1
      rw [hexDigits?, peek_bind, List.nil_append, hnone]
      rfl
    | cons c x =>
      cases hd : digitValue? 16 c with
      | none =>
        refine ⟨none, c :: x, List.suffix_refl _, fun tail _ => ?_⟩
        rw [hexDigits?, peek_bind, List.cons_append, List.head?_cons, Option.bind_some, hd]
        rfl
      | some digit =>
        obtain ⟨code, y, hy, h⟩ := ih (value * 16 + digit) x
        refine ⟨code, y, hy.trans (List.suffix_cons c x), fun tail ht => ?_⟩
        rw [hexDigits?, peek_bind, List.cons_append, List.head?_cons, Option.bind_some, hd]
        exact h tail ht

/-- Digits end in front of what does not continue an escape. -/
theorem EndsEscape.span {tail : List Char} (ht : EndsEscape tail) (x : List Char) :
    (x ++ tail).takeWhile (isDigitOf 16) = x.takeWhile (isDigitOf 16) ∧
    (x ++ tail).dropWhile (isDigitOf 16) = x.dropWhile (isDigitOf 16) ++ tail := by
  induction x with
  | nil =>
    cases tail with
    | nil => exact ⟨rfl, rfl⟩
    | cons c l =>
      have hc : ¬ isDigitOf 16 c = true := by simp [isDigitOf, (ht c rfl).1]
      exact ⟨List.takeWhile_cons_of_neg hc, List.dropWhile_cons_of_neg hc⟩
  | cons c x ih =>
    by_cases hc : isDigitOf 16 c = true
    · simp only [List.cons_append, List.takeWhile_cons_of_pos hc, List.dropWhile_cons_of_pos hc, ih,
        and_self]
    · simp only [List.cons_append, List.takeWhile_cons_of_neg hc,
        List.dropWhile_cons_of_neg hc, and_self]

/-- A Unicode escape ends in front of what does not continue it. -/
theorem unicodeEscape?_ends (x : List Char) : ∃ code y, y <:+ x ∧
    ∀ tail, EndsEscape tail → unicodeEscape? (x ++ tail) = .ok code (y ++ tail) := by
  have hsign : ∀ {sign : Char} {tail y : List Char}, EndsEscape tail →
    sign = '\x7b' ∨ sign = '\x7d' →
      (y ++ tail).head?.any (· == sign) = y.head?.any (· == sign) := by
    intro sign tail y ht hs
    cases y with
    | cons => rfl
    | nil =>
      cases tail with
      | nil => rfl
      | cons c l =>
        obtain ⟨-, h₁, h₂⟩ := ht c rfl
        rcases hs with rfl | rfl
        · exact beq_eq_false_iff_ne.2 h₁
        · exact beq_eq_false_iff_ne.2 h₂
  by_cases hopen : x.head?.any (· == '\x7b') = true
  · obtain ⟨c, x, rfl⟩ : ∃ c l, x = c :: l := by
      cases x with
      | nil => cases hopen
      | cons c l => exact ⟨c, l, rfl⟩
    have hdrop : x.dropWhile (isDigitOf 16) <:+ c :: x :=
      (List.dropWhile_suffix _).trans (List.suffix_cons c x)
    have hrun : ∀ tail, EndsEscape tail → unicodeEscape? (c :: x ++ tail) =
        if (x.takeWhile (isDigitOf 16)).isEmpty ||
            0x10FFFF < numberOf 16 (x.takeWhile (isDigitOf 16)) ||
            !(x.dropWhile (isDigitOf 16)).head?.any (· == '\x7d') then
          .ok none (x.dropWhile (isDigitOf 16) ++ tail)
        else .ok (some (numberOf 16 (x.takeWhile (isDigitOf 16))))
          ((x.dropWhile (isDigitOf 16) ++ tail).drop 1) := by
      intro tail ht
      rw [unicodeEscape?_eq, hsign ht (.inl rfl), hopen, if_neg (by decide)]
      simp only [List.cons_append, List.drop_succ_cons, List.drop_zero, (ht.span x).1,
        (ht.span x).2,
        hsign ht (.inr rfl)]
    split at hrun
    · exact ⟨none, _, hdrop, hrun⟩
    · rename_i hclosed
      cases hy : x.dropWhile (isDigitOf 16) with
      | nil => simp [hy] at hclosed
      | cons d y =>
        rw [hy] at hdrop hrun
        exact ⟨_, y, (List.suffix_cons d y).trans hdrop, hrun⟩
  · obtain ⟨code, y, hy, h⟩ := hexDigits?_ends 4 0 x
    refine ⟨code, y, hy, fun tail ht => ?_⟩
    rw [unicodeEscape?_eq, hsign ht (.inl rfl), if_pos (by simp [hopen])]
    exact h tail ht

/-- The second half of a pair is read behind the start of an escape. Unless it is one, the state is
what it was. -/
theorem trailingHalf?_run {σ : Type} [Readable σ] (s : σ) : trailingHalf? s =
    if !"\\u".toList.isPrefixOf (Readable.rest s) then .ok none s
    else match (jump 2 >>= fun _ => unicodeEscape? : ReadOn σ (Option Nat)) s with
      | .ok code s' => if (code.filter isTrailing).isNone then .ok none s
        else .ok (code.filter isTrailing) s'
      | .error e s' => .error e s' := by
  have hite : ∀ {c : Prop} [Decidable c] (r r' : ReadOn σ (Option Nat)),
      (if c then r else r') s = if c then r s else r' s := by
    intro c _ r r'
    split <;> rfl
  change (if !"\\u".toList.isPrefixOf (Readable.rest s) then pure none
    else _ : ReadOn σ (Option Nat)) s = _
  rw [hite]
  congr 1
  change EStateM.bind unicodeEscape? _ (Readable.jump 2 s) =
    match (unicodeEscape? : ReadOn σ (Option Nat)) (Readable.jump 2 s) with
    | .ok code s' => _
    | .error e s' => _
  unfold EStateM.bind
  cases unicodeEscape? (Readable.jump 2 s) with
  | error e s' => rfl
  | ok code s' =>
    dsimp only
    generalize code.filter isTrailing = half
    cases half <;> rfl

/-- The second half of a pair, from the text that begins with its escape. -/
theorem trailingHalf?_eq (l : List Char) : trailingHalf? l =
    if !"\\u".toList.isPrefixOf l then .ok none l
    else match unicodeEscape? (l.drop 2) with
      | .ok code m => if (code.filter isTrailing).isNone then .ok none l
        else .ok (code.filter isTrailing) m
      | .error e m => .error e m := by
  have hjump : (jump 2 >>= fun _ => unicodeEscape? : Read (Option Nat)) l =
      unicodeEscape? (l.drop 2) := rfl
  rw [trailingHalf?_run, hjump]
  cases unicodeEscape? (l.drop 2) <;> rfl

namespace Local

/-- An escape that might be that of a second half ends in front of a quote, wherever the texts part.
-/
theorem trailingHalf? : Local isQuote Read.trailingHalf? := by
  have hesc : Local isQuote Read.unicodeEscape? := unicodeEscape? ⟨'"', rfl⟩
  have hsuffix : ∀ {l m : List Char} {v}, Read.trailingHalf? l = .ok v m → m <:+ l := by
    intro l m v h
    rw [trailingHalf?_eq] at h
    split at h
    · cases h
      exact List.suffix_refl _
    · split at h
      · rename_i hcode
        split at h
        · cases h
          exact List.suffix_refl _
        · cases h
          exact (hesc.suffix hcode).trans (List.drop_suffix _ _)
      · cases h
  refine ⟨hsuffix, fun {x y a b v} hab hg h => ?_⟩
  obtain ⟨w, hw⟩ := hsuffix h
  rw [← List.append_assoc] at hw
  obtain rfl := List.append_cancel_right hw
  have hblunt : Blunt "\\u".toList := ⟨by simp, by simp⟩
  have hp : "\\u".toList.isPrefixOf (w ++ y ++ a) = "\\u".toList.isPrefixOf (w ++ y ++ b) :=
    hab.isPrefixOf_eq (hblunt.drop _)
  rw [trailingHalf?_eq] at h ⊢
  rw [← hp]
  split at h
  · rw [if_pos ‹_›]
    obtain ⟨rfl, hy⟩ : none = v ∧ w ++ y ++ a = y ++ a := by simpa using h
    rw [List.append_cancel_right hy]
  · rw [if_neg ‹_›]
    rename_i hpre
    -- The escape ends in front of a quote, which stands in front of the place where texts part.
    obtain ⟨q, hqy, hq⟩ := hg '"' rfl
    obtain ⟨x, hx, hqx⟩ : ∃ x, w ++ y = '\\' :: 'u' :: x ∧ q ∈ x := by
      have hqx : q ∈ w ++ y := List.mem_append_right _ hqy
      rcases hxy : w ++ y with _ | ⟨c, _ | ⟨d, x⟩⟩
      · simp [hxy] at hqx
      · rw [hxy] at hpre
        cases hab with
        | number | piece => simp [List.isPrefixOf] at hpre
        | sign hc => rcases hc with rfl | rfl <;> simp [List.isPrefixOf] at hpre
      · rw [hxy] at hpre hqx
        obtain ⟨rfl, rfl⟩ : '\\' = c ∧ 'u' = d := by simpa [List.isPrefixOf] using hpre
        refine ⟨x, rfl, ?_⟩
        rcases List.mem_cons.1 hqx with rfl | hqx
        · exact absurd hq (by decide)
        · rcases List.mem_cons.1 hqx with rfl | hqx
          · exact absurd hq (by decide)
          · exact hqx
    obtain ⟨u, z, rfl⟩ := List.append_of_mem hqx
    obtain ⟨code, y', -, hends⟩ := unicodeEscape?_ends u
    have hcode := hends (q :: (z ++ a)) (.quote hq _)
    have ha : ('\\' :: 'u' :: (u ++ q :: z) ++ a).drop 2 = u ++ q :: (z ++ a) := by simp
    have hb : ('\\' :: 'u' :: (u ++ q :: z) ++ b).drop 2 = u ++ q :: z ++ b := by simp
    have hcode' : Read.unicodeEscape? (u ++ q :: z ++ b) = .ok code (y' ++ q :: z ++ b) :=
      hesc.same hab (.of_mem (List.mem_append_right _ List.mem_cons_self) hq) (by simpa using hcode)
    rw [hx, ha, hcode] at h
    rw [hx, hb, hcode']
    dsimp only at h ⊢
    split at h
    · rw [if_pos ‹_›]
      obtain ⟨rfl, hy⟩ := EStateM.Result.ok.inj h
      rw [List.append_cancel_right hy]
    · rw [if_neg ‹_›]
      obtain ⟨rfl, hy⟩ := EStateM.Result.ok.inj h
      rw [List.append_cancel_right (show y' ++ q :: z ++ a = y ++ a by simpa using hy)]

theorem stringUnicodeEscape : Local isQuote Read.stringUnicodeEscape := by
  unfold Read.stringUnicodeEscape
  refine (unicodeEscape? ⟨'"', rfl⟩).bind fun unit => ?_
  split
  · exact throw _
  · refine ite (pure _) (trailingHalf?.bind fun half => ?_)
    split
    · exact pure _
    · exact pure _

theorem octalEscape (count value : Nat) : Local guard (Read.octalEscape count value) := by
  induction count generalizing value with
  | zero => exact pure _
  | succ count ih =>
    unfold Read.octalEscape
    refine peek (fun c => ?_) fun _ {l l' v} h => ?_
    · split
      · exact pure _
      · exact (skip 1).bind fun _ => ih _
    · obtain ⟨rfl, -⟩ := Run.pure_eq_ok.1 (show (Pure.pure value : Read Nat) _ = _ from h)
      rfl

theorem stringEscape (c : Char) : Local isQuote (Read.stringEscape c) := by
  unfold Read.stringEscape
  split
  · exact pure _
  · refine ite ((hexDigits? 2 0).bind fun code => ?_) (ite ?_ ?_)
    · split
      · exact pure _
      · exact throw _
    · exact stringUnicodeEscape.bind fun _ => pure _
    · refine (peekIs fun _ => rfl).bind fun _ => ite (pure _) (ite ?_ (pure _))
      exact (octalEscape _ _).bind fun _ => pure _

theorem stringEscaped (taken : List Char) (octal : Bool) :
    Local isQuote (Read.stringEscaped taken octal) := by
  unfold Read.stringEscaped
  refine peek (fun c => ?_) fun h => absurd (h '"') (by decide)
  split
  · exact throw _
  · refine ite (skipLineTerminator.bind fun _ => pure _) ?_
    exact (skip 1).bind fun _ => (stringEscape _).bind fun _ => pure _

end Local

/-- The end of a string literal is its quote. -/
theorem stringFrom_closed {quote : Char} {n : Nat} {taken : List Char} {octal : Bool}
    {l m : List Char} {v : List Char × Bool} (h : stringFrom quote n taken octal l = .ok v m) :
    quote :: m <:+ l := by
  induction n generalizing taken octal l with
  | zero => cases h
  | succ n ih =>
    rcases l with _ | ⟨c, l⟩
    · cases h
    change (if c = quote then _ else if c = '\\' then _ else if _ then _ else _ : Read _)
      (c :: l) = _ at h
    rw [run_ite, run_ite, run_ite] at h
    split at h
    · rename_i hc
      obtain ⟨-, rfl⟩ := Run.pure_eq_ok.1
        (show (Pure.pure _ : Read (List Char × Bool)) l = _ from h)
      exact hc ▸ List.suffix_refl _
    · refine List.IsSuffix.trans ?_ (List.suffix_cons c l)
      split at h
      · obtain ⟨_, m₁, h₁, h⟩ := Run.bind_eq_ok.1
          (show (stringEscaped taken octal >>= fun _ => _ : Read _) l = _ from h)
        exact (ih h).trans ((Local.stringEscaped taken octal).suffix h₁)
      · split at h
        · cases h
        · exact ih (l := l) h

/-- A string ends with its quote, and reads no further. -/
theorem Local.stringFrom {quote : Char} (hq : isQuote quote = true) (n : Nat) (taken : List Char)
    (octal : Bool) : Local guard (Read.stringFrom quote n taken octal) := by
  have htakes : Takes 1 (Read.stringFrom quote n taken octal) :=
    fun _ _ _ h => (stringFrom_closed h).length_le
  induction n generalizing taken octal with
  | zero => exact throw _
  | succ n ih =>
    have ih := fun taken octal => ih taken octal fun _ _ _ h => (stringFrom_closed h).length_le
    unfold Read.stringFrom at htakes ⊢
    refine peekTakes (fun c => ?_) htakes
    split
    · exact throw _
    · refine ite ((skip 1).bind fun _ => pure _) (ite ?_ (ite (throw _) ?_))
      · refine (skip 1).bind fun _ => bindWith (stringEscaped taken octal) (fun _ => ih _ _) ?_
        intro v u w y a h _
        obtain ⟨s, hs⟩ := stringFrom_closed h
        refine .of_mem (c := quote) (List.mem_append_left _ ?_) hq
        rw [← List.append_cancel_right
          (show s ++ [quote] ++ (y ++ a) = w ++ (y ++ a) by simpa using hs)]
        exact List.mem_append_right _ List.mem_cons_self
      · exact (skip 1).bind fun _ => ih _ _

/-- More steps than characters make no difference to a string. -/
theorem stringFrom_fuel {quote : Char} {n k : Nat} {taken l : List Char} {octal : Bool}
    (hn : l.length < n) (hk : l.length < k) :
    Read.stringFrom quote n taken octal l = Read.stringFrom quote k taken octal l := by
  induction n generalizing k l taken octal with
  | zero => exact absurd hn (Nat.not_lt_zero _)
  | succ n ih =>
    obtain ⟨k, rfl⟩ := Nat.exists_eq_succ_of_ne_zero (Nat.ne_zero_of_lt hk)
    rcases l with _ | ⟨c, l⟩
    · rfl
    simp only [List.length_cons] at hn hk
    change (if c = quote then _ else if c = '\\' then _ else if _ then _ else _ : Read _) (c :: l) =
      (if c = quote then _ else if c = '\\' then _ else if _ then _ else _ : Read _) (c :: l)
    simp only [run_ite]
    congr 2
    · change (stringEscaped taken octal >>= fun v => stringFrom quote n v.1 v.2) l =
        (stringEscaped taken octal >>= fun v => stringFrom quote k v.1 v.2) l
      refine bind_congr fun _ m h => ih ?_ ?_ <;>
        · have hlen := ((Local.stringEscaped taken octal).suffix h).length_le
          omega
    · congr 1
      exact ih (l := l) (by omega) (by omega)

theorem Local.string {quote : Char} (hq : isQuote quote = true) :
    Local guard (Read.string quote) := by
  have h : Local guard _ := bounded 1
    (r := fun n => Read.stringFrom quote n [] false >>= fun v => Pure.pure
      { kind := .string, value := .text (String.ofList v.1.reverse), octal := v.2 : Lexeme })
    (fun n => (Local.stringFrom hq n _ _).bind fun _ => pure _) fun {n l} hn => by
      change EStateM.bind _ _ l = EStateM.bind _ _ l
      unfold EStateM.bind
      rw [stringFrom_fuel (k := l.length + 1) hn (Nat.lt_succ_self _)]
  exact (skip 1).bind fun _ => h

/-- A string literal begins and ends with its quote. -/
theorem string_closed {quote c : Char} {l m : List Char} {v : Lexeme}
    (h : string quote (c :: l) = .ok v m) : quote :: m <:+ l ∧ v.kind = .string := by
  obtain ⟨u, m₁, hu, hv⟩ := Run.bind_eq_ok.1
    (show (stringFrom quote (l.length + 1) [] false >>= fun _ => _ : Read Lexeme) l = _ from h)
  obtain ⟨rfl, rfl⟩ := Run.pure_eq_ok.1 hv
  exact ⟨stringFrom_closed hu, rfl⟩

/-! ## Templates -/

namespace Local

theorem templateEscape (c : Char) : Local (fun _ => true) (Read.templateEscape c) := by
  unfold Read.templateEscape
  split
  · exact pure _
  · refine ite ((hexDigits? 2 0).bind fun _ => pure _) (ite ?_ ?_)
    · exact (unicodeEscape? ⟨'u', rfl⟩).bind fun _ => pure _
    · exact (peekIs fun _ => rfl).bind fun _ => ite (pure _) (ite (pure _) (pure _))

theorem pieceEscape (piece : Piece) : Local (fun _ => true) piece.escape := by
  unfold Piece.escape
  refine peek (fun c => ?_) fun h => absurd (h 'u') (by decide)
  split
  · exact throw _
  · refine ite (skipLineTerminator.bind fun _ => pure _) ?_
    refine (skip 1).bind fun _ => peek (fun _ => ?_) fun h => absurd (h 'u') (by decide)
    refine (templateEscape _).bind fun decoded => ?_
    split
    · exact pure _
    · exact pure _

end Local

/-- How a template piece goes on, by its first character. -/
theorem pieceFrom_cons {n : Nat} {piece : Piece} {c : Char} {l : List Char} :
    pieceFrom (n + 1) piece (c :: l) =
      if c = '\x60' then .ok (piece, true) l
      else if c = '$' ∧ l.head? = some '\x7b' then .ok (piece, false) (l.drop 1)
      else if c = '\\' then (piece.escape >>= pieceFrom n) l
      else if c = '\r' then
        (skipLineTerminator >>= fun _ => pieceFrom n (piece.push '\n')) (c :: l)
      else pieceFrom n (piece.push c) l := by
  change (if c = '\x60' then _ else Read.peekSecond >>= fun second =>
    if c = '$' && second = some '\x7b' then _ else if c = '\\' then _
      else if c = '\r' then _ else _ : Read (Piece × Bool)) (c :: l) = _
  rw [run_ite, peekSecond_bind, run_ite, run_ite, run_ite]
  simp only [Bool.and_eq_true, decide_eq_true_eq]
  rfl

/-- The delimiter at the end of a template piece. -/
def pieceEnd (isTail : Bool) : List Char := if isTail then ['\x60'] else ['$', '\x7b']

/-- The end of a template piece is its delimiter. -/
theorem pieceFrom_closed {n : Nat} {piece : Piece} {l m : List Char} {v : Piece × Bool}
    (h : pieceFrom n piece l = .ok v m) : pieceEnd v.2 ++ m <:+ l := by
  induction n generalizing piece l with
  | zero => cases h
  | succ n ih =>
    rcases l with _ | ⟨c, l⟩
    · cases h
    rw [pieceFrom_cons] at h
    split at h
    · rename_i hc
      cases h
      subst hc
      exact List.suffix_refl _
    split at h
    · rename_i hc
      cases h
      obtain ⟨rfl, hl⟩ := hc
      cases l with
      | nil => cases hl
      | cons d l =>
        cases hl
        exact List.suffix_refl _
    refine List.IsSuffix.trans ?_ (List.suffix_cons c l)
    split at h
    · obtain ⟨_, m₁, h₁, h⟩ := Run.bind_eq_ok.1 h
      exact (ih h).trans ((Local.pieceEscape piece).suffix h₁)
    split at h
    · obtain ⟨_, m₁, h₁, h⟩ := Run.bind_eq_ok.1 h
      exact (ih h).trans (skipLineTerminator_suffix h₁)
    · exact ih h

theorem takes_pieceFrom (n : Nat) (piece : Piece) : Takes 1 (pieceFrom n piece) := by
  intro l m v h
  have hlen := (pieceFrom_closed h).length_le
  have hend : 1 ≤ (pieceEnd v.2).length := by
    unfold pieceEnd
    split <;> decide
  rw [List.length_append] at hlen
  omega

/-- More steps than characters make no difference to a template piece. -/
theorem pieceFrom_fuel {n k : Nat} {piece : Piece} {l : List Char} (hn : l.length < n)
    (hk : l.length < k) : pieceFrom n piece l = pieceFrom k piece l := by
  induction n generalizing k l piece with
  | zero => exact absurd hn (Nat.not_lt_zero _)
  | succ n ih =>
    obtain ⟨k, rfl⟩ := Nat.exists_eq_succ_of_ne_zero (Nat.ne_zero_of_lt hk)
    rcases l with _ | ⟨c, l⟩
    · rfl
    simp only [List.length_cons] at hn hk
    rw [pieceFrom_cons, pieceFrom_cons]
    congr 3
    · refine bind_congr fun _ m h => ih ?_ ?_ <;>
        · have hlen := ((Local.pieceEscape piece).suffix h).length_le
          omega
    · congr 1
      · refine bind_congr fun _ m h => ih ?_ ?_ <;>
          · have hlen := (show m <:+ l from skipLineTerminator_suffix h).length_le
            omega
      · exact ih (by omega) (by omega)

namespace Local

/-- A template piece ends with a delimiter of its own, and reads no further. -/
theorem pieceFrom (n : Nat) (piece : Piece) : Local guard (Read.pieceFrom n piece) := by
  induction n generalizing piece with
  | zero => exact throw _
  | succ n ih =>
    have htakes := takes_pieceFrom (n + 1) piece
    unfold Read.pieceFrom at htakes ⊢
    refine peekTakes (fun c => ?_) htakes
    split
    · exact throw _
    · refine ite ((skip 1).bind fun _ => pure _) (peekSecondTakes (fun d => ?_) ?_)
      · refine ite ((skip 2).bind fun _ => pure _) (ite ?_ (ite ?_ ?_))
        · exact (skip 1).bind fun _ => bindTakes (pieceEscape piece) (fun _ => ih _)
            fun _ => takes_pieceFrom _ _
        · exact skipLineTerminator.bind fun _ => ih _
        · exact (skip 1).bind fun _ => ih _
      · -- Whatever is taken first, the end of the piece is behind it.
        intro l m v h
        rw [peekSecond_bind, run_ite, run_ite, run_ite] at h
        have hdrop : ∀ {k : Nat} {piece : Piece} {m₁ : List Char}, m₁ <:+ l.drop 1 →
            Read.pieceFrom k piece m₁ = .ok v m → m.length + 2 ≤ l.length := by
          intro k piece m₁ h₁ h
          have h₁ := h₁.length_le
          have h := takes_pieceFrom _ _ h
          rw [List.length_drop] at h₁
          omega
        split at h
        · rename_i hd
          rcases l with _ | ⟨e, _ | ⟨f, l⟩⟩
          · simp at hd
          · simp at hd
          · cases h
            exact Nat.le_refl _
        split at h
        · obtain ⟨_, m₁, h₁, h⟩ := Run.bind_eq_ok.1
            (show (piece.escape >>= Read.pieceFrom n) (l.drop 1) = _ from h)
          exact hdrop ((pieceEscape piece).suffix h₁) h
        split at h
        · obtain ⟨_, m₁, h₁, h⟩ := Run.bind_eq_ok.1 h
          exact hdrop (skipLineTerminator_suffix h₁) h
        · exact hdrop (List.suffix_refl _) h

theorem templatePiece (isHead : Bool) : Local guard (Read.templatePiece isHead) := by
  have h : Local guard _ := bounded 1
    (r := fun n => Read.pieceFrom n {} >>= fun v => Pure.pure
      { kind := .template, octal := v.1.octal, value := .template
          (if v.1.isValid then some (String.ofList v.1.taken.reverse) else none) isHead
          v.2 : Lexeme })
    (fun n => (pieceFrom n _).bind fun _ => pure _) fun {n l} hn => by
      change EStateM.bind _ _ l = EStateM.bind _ _ l
      unfold EStateM.bind
      rw [pieceFrom_fuel (k := l.length + 1) hn (Nat.lt_succ_self _)]
  exact h

end Local

/-- A template piece ends with its delimiter. -/
theorem templatePiece_closed {isHead : Bool} {l m : List Char} {v : Lexeme}
    (h : templatePiece isHead l = .ok v m) : ∃ cooked isTail,
      v.value = .template cooked isHead isTail ∧ v.kind = .template ∧
        pieceEnd isTail ++ m <:+ l := by
  obtain ⟨u, m₁, hu, hv⟩ := Run.bind_eq_ok.1
    (show (pieceFrom (l.length + 1) {} >>= fun _ => _ : Read Lexeme) l = _ from h)
  obtain ⟨rfl, rfl⟩ := Run.pure_eq_ok.1 hv
  exact ⟨_, _, rfl, rfl, pieceFrom_closed hu⟩

end Verbatim.Read
