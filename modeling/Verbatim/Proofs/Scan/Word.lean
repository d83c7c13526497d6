import Verbatim.Proofs.Scan.Read
import Verbatim.Scan.Word

/-!
# Names are read alike where texts part

## Main results

* `Verbatim.Read.Local.word`, `Verbatim.Read.Local.privateName` — words and private names are read
  alike.
* `Verbatim.Read.word_eq_ok` — what is read as a word.
* `Verbatim.Read.nameFrom_fuel` — more steps than characters make no difference.
-/

namespace Verbatim.Read

open Verbatim.Text

variable {guard : Char → Bool}

/-! ## Escapes -/

/-- A Unicode escape, by whether it has braces. -/
theorem unicodeEscape?_eq (l : List Char) : Read.unicodeEscape? l =
    if !l.head?.any (· == '\x7b') then Read.hexDigits? 4 0 l
    else
      let digits := (l.drop 1).takeWhile (isDigitOf 16)
      let after := (l.drop 1).dropWhile (isDigitOf 16)
      if digits.isEmpty || 0x10FFFF < numberOf 16 digits || !after.head?.any (· == '\x7d') then
        .ok none after
      else .ok (some (numberOf 16 digits)) (after.drop 1) := by
  unfold Read.unicodeEscape?
  change (if !l.head?.any (· == '\x7b') then Read.hexDigits? 4 0 else _ : Read (Option Nat)) l = _
  rw [run_ite]
  congr 1
  change (if _ then Pure.pure none else _ : Read (Option Nat)) ((l.drop 1).dropWhile _) = _
  rw [run_ite]
  rfl

namespace Local

theorem hexDigits? (count value : Nat) : Local guard (Read.hexDigits? count value) := by
  induction count generalizing value with
  | zero => exact pure _
  | succ count ih =>
    unfold Read.hexDigits?
    refine peek (fun c => ?_) fun _ => ?_
    · split
      · exact pure _
      · exact (skip 1).bind fun _ => ih _
    · intro l l' v h
      obtain ⟨rfl, -⟩ := Run.pure_eq_ok.1 (show (Pure.pure none : Read (Option Nat)) _ = _ from h)
      rfl

theorem unicodeEscape? (hg : ∃ c, guard c = true) : Local guard Read.unicodeEscape? := by
  have hne : ¬ ∀ c, guard c = false := fun h => by
    obtain ⟨c, hc⟩ := hg
    exact absurd (h c) (by simp [hc])
  unfold Read.unicodeEscape?
  refine (peekIs fun _ => rfl).bind fun brace => ite (hexDigits? 4 0) ?_
  refine (skip 1).bind fun _ => (takeWhile fun _ => by decide).bind fun digits => ?_
  refine (peekIs fun h => absurd h hne).bind fun closed => ite (pure _) ?_
  exact (skip 1).bind fun _ => pure _

/-- A Unicode escape that is one is so whatever stands behind it. -/
theorem unicodeEscape?_some {x y a b : List Char} {code : Nat} (hab : Parts a b)
    (h : Read.unicodeEscape? (x ++ a) = .ok (some code) (y ++ a)) :
    Read.unicodeEscape? (x ++ b) = .ok (some code) (y ++ b) := by
  cases x with
  | nil =>
    -- No sign is a digit or a brace that opens.
    cases hab with
    | number | piece => cases h
    | sign hc => rcases hc with rfl | rfl <;> cases h
  | cons c x =>
    rw [unicodeEscape?_eq] at h ⊢
    simp only [List.cons_append, List.head?_cons, List.drop_succ_cons, List.drop_zero] at h ⊢
    split at h
    · rw [if_pos ‹_›]
      exact (hexDigits? 4 0 : Local (fun _ => false) _).same (x := c :: x) hab .free h
    · rw [if_neg ‹_›]
      split at h
      · cases h
      · rename_i hc
        obtain ⟨hcode, hdrop⟩ :
            numberOf 16 ((x ++ a).takeWhile (isDigitOf 16)) = code ∧
              ((x ++ a).dropWhile (isDigitOf 16)).drop 1 = y ++ a := by
          simpa using h
        have hclose : (x ++ a).dropWhile (isDigitOf 16) = '\x7d' :: y ++ a := by
          cases hd : (x ++ a).dropWhile (isDigitOf 16) with
          | nil => simp [hd] at hc
          | cons d l =>
            obtain rfl : d = '\x7d' := (by simpa [hd] using hc : _ ∧ d = '\x7d').2
            rw [hd] at hdrop
            rw [List.cons_append, ← hdrop]
            rfl
        obtain ⟨hd', ht'⟩ := hab.span_eq (fun _ => by decide) hclose
        rw [ht', hd']
        rw [hclose] at hc
        simp only [List.cons_append, List.head?_cons, List.drop_succ_cons, List.drop_zero] at hc ⊢
        rw [if_neg hc, hcode]

/-! ## Names -/

/-- An escape in a name, behind its backslash. -/
theorem nameEscapeBody (taken : List Char) :
    Local guard (do
      if !(← Read.peekIs (· == 'u')) then MonadExcept.throw .invalidUnicodeEscape
      Read.skip 1
      match ((← Read.unicodeEscape?).bind scalar?).filter (mayContinue taken) with
      | some c => return c
      | none => MonadExcept.throw .invalidUnicodeEscape) := by
  refine (peekIs fun _ => rfl).bind fun isU => ite (throw _) ((skip 1).bind fun _ => ?_)
  have hf : ∀ code : Option Nat, Local guard
      (match (code.bind scalar?).filter (mayContinue taken) with
        | some c => Pure.pure c
        | none => MonadExcept.throw .invalidUnicodeEscape : Read Char) := by
    intro code
    split
    · exact pure _
    · exact throw _
  refine ⟨fun h => ?_, fun {x y a b v} hab hg h => ?_⟩
  · obtain ⟨code, m, hc, hv⟩ := Run.bind_eq_ok.1 h
    exact ((hf code).suffix hv).trans
      ((unicodeEscape? ⟨'u', rfl⟩ : Local (fun _ => true) _).suffix hc)
  · obtain ⟨code, m, hc, hv⟩ := Run.bind_eq_ok.1 h
    obtain ⟨w, rfl⟩ := (hf code).suffix hv
    rw [← List.append_assoc] at hc hv
    cases code with
    | none => cases hv
    | some code =>
      exact Run.bind_eq_ok.2 ⟨_, _, unicodeEscape?_some hab hc, (hf _).same hab hg hv⟩

theorem nameEscape (taken : List Char) : Local guard (Read.nameEscape taken) :=
  (skip 1).bind fun _ => nameEscapeBody taken

/-- A name ends at the first character that does not continue it. -/
theorem nameFrom (fuel : Nat) (taken : List Char) (escaped : Bool) :
    Local guard (Read.nameFrom fuel taken escaped) := by
  induction fuel generalizing taken escaped with
  | zero => exact pure _
  | succ fuel ih =>
    unfold Read.nameFrom
    refine peek (fun c => ?_) fun _ {l l' v} h => ?_
    · split
      · exact (nameEscape taken).bind fun c => ih _ _
      · exact ite ((skip 1).bind fun _ => ih _ _) (pure _)
      · exact pure _
    · have hstop : mayContinue taken '\x60' = false ∧ mayContinue taken '\x7d' = false := by
        unfold mayContinue
        split <;> exact ⟨rfl, rfl⟩
      change (if mayContinue taken '\x60' = true then _ else _ : Read _) _ = _ at h
      change (if mayContinue taken '\x7d' = true then _ else _ : Read _) _ = _
      rw [run_ite, if_neg (by simp [hstop])] at h ⊢
      obtain ⟨rfl, -⟩ := Run.pure_eq_ok.1 h
      rfl

end Local

/-- An escape in a name takes its backslash. -/
theorem takes_nameEscape (taken : List Char) : Takes 1 (nameEscape taken) :=
  Takes.skip_bind (Local.nameEscapeBody taken : Local (fun _ => false) _).takes_zero nofun

theorem nameFrom_cons {n : Nat} {taken l : List Char} {escaped : Bool} {c : Char} (hc : c ≠ '\\') :
    nameFrom (n + 1) taken escaped (c :: l) =
      if mayContinue taken c then nameFrom n (c :: taken) escaped l
      else .ok (taken, escaped) (c :: l) := by
  rw [nameFrom, peek_bind, List.head?_cons]
  simp only
  exact run_ite ..

/-- More steps than characters make no difference to a name. -/
theorem nameFrom_fuel {n k : Nat} {taken l : List Char} {escaped : Bool} (hn : l.length ≤ n)
    (hk : l.length ≤ k) : nameFrom n taken escaped l = nameFrom k taken escaped l := by
  induction n generalizing k l taken escaped with
  | zero =>
    obtain rfl := List.length_eq_zero_iff.1 (Nat.le_zero.1 hn)
    cases k <;> rfl
  | succ n ih =>
    rcases l with _ | ⟨c, l⟩
    · cases k <;> rfl
    · obtain ⟨k, rfl⟩ := Nat.exists_eq_succ_of_ne_zero (Nat.ne_zero_of_lt hk)
      simp only [List.length_cons] at hn hk
      by_cases hc : c = '\\'
      · subst hc
        change (nameEscape taken >>= fun c => nameFrom n (c :: taken) true) _ =
          (nameEscape taken >>= fun c => nameFrom k (c :: taken) true) _
        refine bind_congr fun c m hm => ih ?_ ?_ <;>
          · have hlen := takes_nameEscape _ hm
            simp only [List.length_cons] at hlen
            omega
      · rw [nameFrom_cons hc, nameFrom_cons hc, ih (k := k) (by omega) (by omega)]

namespace Local

theorem name : Local guard Read.name := by
  have h : Local guard _ := bounded 0
    (r := fun n => Read.nameFrom n [] false >>= fun v => Pure.pure (v.1.reverse, v.2))
    (fun n => (nameFrom n _ _).bind fun _ => pure _) fun {n l} hn => by
      change EStateM.bind _ _ l = EStateM.bind _ _ l
      unfold EStateM.bind
      rw [nameFrom_fuel (k := l.length) hn (Nat.le_refl _)]
      rfl
  exact h

theorem word : Local guard Read.word := by
  unfold Read.word
  refine name.bind fun (chars, escaped) => ite (throw _) ?_
  exact ite (throw _) (pure _)

theorem privateName : Local guard Read.privateName := by
  unfold Read.privateName
  exact (skip 1).bind fun _ => word.bind fun _ => pure _

end Local

/-! ## What a word takes -/

/-- Each character of a name takes at least one. -/
theorem nameFrom_length {n : Nat} {taken l m : List Char} {escaped : Bool} {v : List Char × Bool}
    (h : nameFrom n taken escaped l = .ok v m) :
    v.1.length + m.length ≤ taken.length + l.length := by
  induction n generalizing taken escaped l with
  | zero =>
    obtain ⟨rfl, rfl⟩ := Run.pure_eq_ok.1 h
    exact Nat.le_refl _
  | succ n ih =>
    rcases l with _ | ⟨c, l⟩
    · cases h
      exact Nat.le_refl _
    by_cases hc : c = '\\'
    · subst hc
      obtain ⟨d, m₁, h₁, h⟩ := Run.bind_eq_ok.1
        (show (nameEscape taken >>= fun c => nameFrom n (c :: taken) true) _ = _ from h)
      have hlen := takes_nameEscape _ h₁
      have hle := ih h
      simp only [List.length_cons] at hle hlen ⊢
      omega
    · rw [nameFrom_cons hc] at h
      split at h
      · have hle := ih h
        simp only [List.length_cons] at hle ⊢
        omega
      · cases h
        exact Nat.le_refl _

/-- A word is a name that is not empty, and no reserved word if it is spelled with escapes. -/
theorem word_eq_ok {l m : List Char} {v : Lexeme} : word l = .ok v m ↔
    ∃ taken escaped, nameFrom l.length [] false l = .ok (taken, escaped) m ∧ taken ≠ [] ∧
      (escaped = true → wordKind (String.ofList taken.reverse) = .identifier) ∧
      v = { kind := wordKind (String.ofList taken.reverse)
            value := .text (String.ofList taken.reverse), escaped } := by
  change EStateM.bind (EStateM.bind (nameFrom l.length [] false) _) _ l = _ ↔ _
  unfold EStateM.bind
  cases nameFrom l.length [] false l with
  | error e m => exact ⟨nofun, nofun⟩
  | ok u m =>
    obtain ⟨taken, escaped⟩ := u
    change (if taken.reverse.isEmpty then _ else if _ then _ else _ : Read Lexeme) m = _ ↔ _
    rw [run_ite, run_ite]
    rcases taken with _ | ⟨c, taken⟩
    · constructor
      · rintro ⟨⟩
      · rintro ⟨_, _, ⟨⟩, hne, -⟩
        exact absurd rfl hne
    rw [if_neg (by simp)]
    split
    · rename_i hesc
      refine ⟨fun h => (by cases h), ?_⟩
      rintro ⟨_, _, ⟨⟩, -, hid, -⟩
      simp only [Bool.and_eq_true, decide_eq_true_eq] at hesc
      exact absurd (hid hesc.1) hesc.2
    · rename_i hesc
      rw [Run.pure_eq_ok]
      constructor
      · rintro ⟨rfl, rfl⟩
        refine ⟨_, _, rfl, List.cons_ne_nil _ _, fun he => ?_, rfl⟩
        simpa [he] using hesc
      · rintro ⟨_, _, h, -, -, hv⟩
        cases h
        exact ⟨hv.symm, rfl⟩

/-- A word takes at least as many characters as it means. -/
theorem word_length {l m : List Char} {v : Lexeme} (h : word l = .ok v m) :
    ∃ name, v.value = .text (String.ofList name) ∧ name ≠ [] ∧
      name.length + m.length ≤ l.length := by
  obtain ⟨taken, escaped, hf, hne, -, rfl⟩ := word_eq_ok.1 h
  refine ⟨taken.reverse, rfl, by simpa using hne, ?_⟩
  have hlen := nameFrom_length hf
  simpa using hlen

theorem takes_word : Takes 1 word := by
  intro l m v h
  obtain ⟨name, -, hne, hlen⟩ := word_length h
  have hpos := List.length_pos_iff.2 hne
  omega

/-! ## Names without escapes -/

/-- A name of which `taken` has been read may go on with the given characters. -/
def Continues : List Char → List Char → Prop
  | _, [] => True
  | taken, c :: new => mayContinue taken c = true ∧ Continues (c :: taken) new

/-- A name of which `taken` has been read ends in front of the given text. -/
def Stops (taken l : List Char) : Prop :=
  ∀ c, l.head? = some c → c ≠ '\\' ∧ mayContinue taken c = false

theorem ne_backslash_of_mayContinue {taken : List Char} {c : Char}
    (h : mayContinue taken c = true) : c ≠ '\\' := by
  rintro rfl
  unfold mayContinue at h
  split at h <;> exact absurd h (by decide)

/-- A name ends alike where the text behind parts. -/
theorem Stops.parts {taken y a b : List Char} (hab : Parts a b) (h : Stops taken (y ++ a)) :
    Stops taken (y ++ b) := by
  cases y with
  | cons c y => exact h
  | nil =>
    cases hab with
    | number | sign => exact h
    | piece =>
      rintro _ ⟨⟩
      refine ⟨by decide, ?_⟩
      unfold mayContinue
      split <;> rfl

/-- A name of characters that may continue it is read as it is spelled. -/
theorem nameFrom_continues {n : Nat} {taken new m : List Char} {escaped : Bool}
    (hc : Continues taken new) (hs : Stops (new.reverse ++ taken) m)
    (hn : new.length + m.length ≤ n) :
    nameFrom n taken escaped (new ++ m) = .ok (new.reverse ++ taken, escaped) m := by
  induction new generalizing n taken with
  | nil =>
    rcases m with _ | ⟨c, m⟩
    · cases n <;> rfl
    · obtain ⟨hb, hc⟩ := hs c rfl
      obtain ⟨n, rfl⟩ := Nat.exists_eq_succ_of_ne_zero (Nat.ne_zero_of_lt hn)
      rw [List.nil_append, nameFrom_cons hb, if_neg (by simpa using hc)]
      rfl
  | cons c new ih =>
    obtain ⟨n, rfl⟩ := Nat.exists_eq_succ_of_ne_zero (n := n) (by
      simp only [List.length_cons] at hn
      omega)
    obtain ⟨hfirst, hrest⟩ := hc
    rw [List.reverse_cons, List.append_assoc] at hs ⊢
    rw [List.cons_append, nameFrom_cons (ne_backslash_of_mayContinue hfirst), if_pos hfirst]
    exact ih hrest hs (by simp only [List.length_cons] at hn; omega)

/-- What an escape in a name stands for may continue the name. -/
theorem nameEscape_mayContinue {taken : List Char} :
    Yields (fun c => mayContinue taken c = true) (nameEscape taken) := by
  unfold nameEscape
  refine .bind fun _ => .bind fun _ => .ite (.throw _) (.bind fun _ => .bind fun code => ?_)
  split
  · rename_i hc
    exact .pure (Option.filter_eq_some_iff.1 hc).2
  · exact .throw _

/-- A name goes on as long as characters may continue it, and is spelled as it is meant unless there
is an escape. -/
theorem nameFrom_eq_ok {n : Nat} {taken l m : List Char} {escaped : Bool} {v : List Char × Bool}
    (hn : l.length ≤ n) (h : nameFrom n taken escaped l = .ok v m) :
    ∃ new, v.1 = new.reverse ++ taken ∧ Continues taken new ∧ Stops v.1 m ∧
      ∀ w, l = w ++ m → '\\' ∉ w → w = new := by
  induction n generalizing taken escaped l with
  | zero =>
    obtain rfl := List.length_eq_zero_iff.1 (Nat.le_zero.1 hn)
    cases h
    exact ⟨[], rfl, trivial, nofun, fun w hw _ => (List.append_eq_nil_iff.1 hw.symm).1⟩
  | succ n ih =>
    rcases l with _ | ⟨c, l⟩
    · cases h
      exact ⟨[], rfl, trivial, nofun, fun w hw _ => (List.append_eq_nil_iff.1 hw.symm).1⟩
    simp only [List.length_cons] at hn
    by_cases hc : c = '\\'
    · subst hc
      obtain ⟨d, m₁, h₁, h⟩ := Run.bind_eq_ok.1
        (show (nameEscape taken >>= fun c => nameFrom n (c :: taken) true) _ = _ from h)
      have hlen := takes_nameEscape _ h₁
      simp only [List.length_cons] at hlen
      obtain ⟨new, hv, hnew, hs, -⟩ := ih (by omega) h
      refine ⟨d :: new, by simp [hv], ⟨nameEscape_mayContinue h₁, hnew⟩, hs, fun w hw hb => ?_⟩
      have hm := nameFrom_length h
      simp only [hv, List.length_append, List.length_reverse, List.length_cons] at hm
      rcases w with _ | ⟨e, w⟩
      · have hw := congrArg List.length hw
        simp only [List.nil_append, List.length_cons] at hw
        omega
      · obtain ⟨rfl, -⟩ := List.cons.inj hw
        exact absurd List.mem_cons_self hb
    · rw [nameFrom_cons hc] at h
      split at h
      · rename_i hcont
        obtain ⟨new, hv, hnew, hs, hw⟩ := ih (by omega) h
        refine ⟨c :: new, by simp [hv], ⟨hcont, hnew⟩, hs, fun w hw' hb => ?_⟩
        have hm := nameFrom_length h
        simp only [hv, List.length_append, List.length_reverse, List.length_cons] at hm
        rcases w with _ | ⟨e, w⟩
        · have hw := congrArg List.length hw'
          simp only [List.nil_append, List.length_cons] at hw
          omega
        · obtain ⟨rfl, hl⟩ := List.cons.inj hw'
          rw [hw w hl fun h => hb (List.mem_cons_of_mem _ h)]
      · rename_i hcont
        cases h
        refine ⟨[], rfl, trivial, ?_, fun w hw _ => ?_⟩
        · rintro _ ⟨⟩
          exact ⟨hc, by simpa using hcont⟩
        · exact (List.append_cancel_right (show [] ++ c :: l = w ++ c :: l from hw)).symm

/-- A word begins with a character that may begin a name, or with an escape. -/
theorem word_head {l m : List Char} {v : Lexeme} (h : word l = .ok v m) :
    ∃ c l', l = c :: l' ∧ (c = '\\' ∨ mayContinue [] c = true) := by
  obtain ⟨taken, escaped, hf, hne, -⟩ := word_eq_ok.1 h
  rcases l with _ | ⟨c, l⟩
  · cases hf
    exact absurd rfl hne
  refine ⟨c, l, rfl, ?_⟩
  by_cases hc : c = '\\'
  · exact .inl hc
  · rw [List.length_cons, nameFrom_cons hc] at hf
    split at hf
    · exact .inr ‹_›
    · cases hf
      exact absurd rfl hne

/-- A word can be spelled as it is meant, and is so unless there is an escape. -/
theorem word_spelled {l m : List Char} {v : Lexeme} (h : word l = .ok v m) :
    ∃ name, v.value = .text (String.ofList name) ∧ name ≠ [] ∧ Stops name.reverse m ∧
      (∀ m', Stops name.reverse m' → word (name ++ m') = .ok { v with escaped := false } m') ∧
      ∀ w, l = w ++ m → '\\' ∉ w → w = name := by
  obtain ⟨taken, escaped, hf, hne, -, rfl⟩ := word_eq_ok.1 h
  obtain ⟨new, ht, hc, hs, hw⟩ := nameFrom_eq_ok (Nat.le_refl _) hf
  rw [List.append_nil] at ht
  dsimp only at ht hs
  subst ht
  refine ⟨new, by rw [List.reverse_reverse], by simpa using hne, hs, fun m' hm' => ?_, hw⟩
  refine word_eq_ok.2 ⟨new.reverse, false, ?_, hne, nofun, rfl⟩
  have hread : nameFrom (new ++ m').length [] false (new ++ m') = .ok
    (new.reverse ++ [], false) m' :=
    nameFrom_continues hc (by rwa [List.append_nil]) (by simp)
  rwa [List.append_nil] at hread

end Verbatim.Read
