import Verbatim.Proofs.Scan.Cursor
import Verbatim.Proofs.Scan.Numeral
import Verbatim.Proofs.Scan.Punctuator
import Verbatim.Proofs.Scan.Quotation
import Verbatim.Proofs.Scan.Trivia
import Verbatim.Scan.Scanner

/-!
# Readers move the cursor along

The readers of tokens run on the cursor of a scanner. Most of them pass one character after the
other, and lines are counted on the way. Some jump over what they have just recognized: a
punctuator, the prefix of a numeral that names its radix, the sign that opens a substitution, and
the start of an escape behind the first half of a pair. The delimiters of comments are jumped over,
too. No line is counted then, which is right because no line ends there. So a reader does on a
cursor what it does on the characters alone, and leads the cursor to where it would have come by
passing every character.

## Main definitions

* `Verbatim.Read.Along` — a reader on cursors does what one on characters does.
* `Verbatim.Scan.readChars`, `Verbatim.Scanner.walk`, `Verbatim.Scan.walkTrivia` — reading a token
  and passing over trivia one character after the other.

## Main results

* `Verbatim.Read.Along.reader`, `Verbatim.Read.Along.regex` — all tokens are read along.
* `Verbatim.Scan.read_eq`, `Verbatim.Scan.trivia_eq` — jumps make no difference to where a scanner
  comes.
-/

namespace Verbatim

open Verbatim.Text

variable {α β : Type}

namespace Cursor

variable (cursor : Cursor)

theorem moveTo_self : cursor.moveTo cursor.rest = cursor := by
  rw [moveTo, Nat.sub_self]
  rfl

/-- Moving to an end of what follows leaves that end. -/
theorem rest_moveTo {rest : List Char} (h : rest <:+ cursor.rest) :
    (cursor.moveTo rest).rest = rest := by
  obtain ⟨text, htext⟩ := h
  rw [moveTo_eq htext.symm]
  exact (advanceBy_length htext.symm).1

/-- Passing a number of characters stops at the end of the source. -/
theorem advanceBy_eq (count : Nat) : cursor.advanceBy count = cursor.moveTo
    (cursor.rest.drop count) := by
  induction count generalizing cursor with
  | zero => exact (moveTo_self cursor).symm
  | succ count ih =>
    change cursor.advance.advanceBy count = _
    rw [ih]
    cases hrest : cursor.rest with
    | nil =>
      have hstay : cursor.advance = cursor := by
        unfold advance
        rw [hrest]
      rw [hstay, hrest, List.drop_nil, List.drop_nil]
    | cons c rest =>
      have hnext : cursor.advance.rest = rest := (advance_of_cons hrest).1
      have hfirst : cursor.advance = cursor.moveTo rest :=
        (moveTo_eq (show cursor.rest = [c] ++ rest from hrest)).symm
      rw [hnext, hfirst, List.drop_succ_cons]
      exact moveTo_moveTo (hrest ▸ List.suffix_cons c rest) (List.drop_suffix count rest)

end Cursor

/-! ## Readers -/

namespace Read

/-- In front of the given text, a reader on cursors does what a reader on characters does: it reads
the same or fails alike, and moves the cursor to the end of the text that the other one leaves. What
it fails with is a fault of the text, and not that of a parser without rounds. -/
def Along (l : List Char) (r : ReadOn Cursor α) (r' : Read α) : Prop :=
  ∀ cursor : Cursor, cursor.rest = l →
    match r' l with
    | .ok v m => m <:+ l ∧ r cursor = .ok v (cursor.moveTo m)
    | .error e m => e ≠ .stalled ∧ m <:+ l ∧ r cursor = .error e (cursor.moveTo m)

/-- A text that begins with two given characters. -/
theorem prefix_of_head? {l : List Char} {c d : Char} (hc : l.head? = some c)
    (hd : l.tail.head? = some d) : [c, d] <+: l := by
  obtain ⟨rest, rfl⟩ := List.head?_eq_some_iff.1 hc
  obtain ⟨rest, hrest⟩ := List.head?_eq_some_iff.1 hd
  exact ⟨rest, congrArg (c :: ·) hrest.symm⟩

namespace Along

variable {l : List Char} {r : ReadOn Cursor α} {r' : Read α} {f : β → ReadOn Cursor α}
  {f' : β → Read α}

theorem pure (v : α) : Along l (Pure.pure v) (Pure.pure v) := by
  rintro cursor rfl
  exact ⟨List.suffix_refl _, by rw [cursor.moveTo_self]; rfl⟩

theorem throw {e : Fault} (h : e ≠ .stalled) :
    Along l (MonadExcept.throw e : ReadOn Cursor α) (MonadExcept.throw e) := by
  rintro cursor rfl
  exact ⟨h, List.suffix_refl _, by rw [cursor.moveTo_self]; rfl⟩

/-- One reader after the other: the second one starts where the first one left the cursor. -/
theorem bind {q : ReadOn Cursor β} {q' : Read β} (h : Along l q q')
    (hf : ∀ v m, Along m (f v) (f' v)) : Along l (q >>= f) (q' >>= f') := by
  rintro cursor rfl
  have h := h cursor rfl
  change match EStateM.bind q' f' cursor.rest with
    | .ok v m => m <:+ cursor.rest ∧ EStateM.bind q f cursor = .ok v (cursor.moveTo m)
    | .error e m =>
      e ≠ .stalled ∧ m <:+ cursor.rest ∧ EStateM.bind q f cursor = .error e (cursor.moveTo m)
  unfold EStateM.bind
  cases hq : q' cursor.rest with
  | error e m =>
    rw [hq] at h
    exact ⟨h.1, h.2.1, by rw [h.2.2]⟩
  | ok v m =>
    rw [hq] at h
    obtain ⟨hm, hrun⟩ := h
    have hrest := hf v m (cursor.moveTo m) (cursor.rest_moveTo hm)
    rw [hrun]
    dsimp only
    cases hv : f' v m with
    | ok u k =>
      rw [hv] at hrest
      exact ⟨hrest.1.trans hm, by rw [hrest.2, Cursor.moveTo_moveTo hm hrest.1]⟩
    | error e k =>
      rw [hv] at hrest
      obtain ⟨he, hk, hend⟩ := hrest
      exact ⟨he, hk.trans hm, by rw [hend, Cursor.moveTo_moveTo hm hk]⟩

/-- What a reader on cursors fails with. -/
theorem ne_stalled (h : Along l r r') {cursor cursor' : Cursor} {e : Fault} (hl : cursor.rest = l)
    (hrun : r cursor = .error e cursor') : e ≠ .stalled := by
  have h := h cursor hl
  cases hr : r' l with
  | ok v m =>
    rw [hr, hrun] at h
    cases h.2
  | error e' m =>
    rw [hr, hrun] at h
    cases h.2.2
    exact h.1

theorem ite {c : Prop} [Decidable c] {q : ReadOn Cursor α} {q' : Read α}
    (h : c → Along l r r') (h' : ¬ c → Along l q q') :
    Along l (if c then r else q) (if c then r' else q') := by
  split
  · exact h ‹_›
  · exact h' ‹_›

/-! ### Looking ahead -/

theorem remaining {f : List Char → ReadOn Cursor α} {f' : List Char → Read α}
    (h : Along l (f l) (f' l)) : Along l (Read.remaining >>= f) (Read.remaining >>= f') := by
  rintro cursor rfl
  exact h cursor rfl

theorem peek {f : Option Char → ReadOn Cursor α} {f' : Option Char → Read α}
    (h : Along l (f l.head?) (f' l.head?)) : Along l (Read.peek >>= f) (Read.peek >>= f') := by
  rintro cursor rfl
  exact h cursor rfl

theorem peekSecond {f : Option Char → ReadOn Cursor α} {f' : Option Char → Read α}
    (h : Along l (f l.tail.head?) (f' l.tail.head?)) :
    Along l (Read.peekSecond >>= f) (Read.peekSecond >>= f') := by
  rintro cursor rfl
  exact h cursor rfl

theorem peekIs {p : Char → Bool} {f : Bool → ReadOn Cursor α} {f' : Bool → Read α}
    (h : Along l (f (l.head?.any p)) (f' (l.head?.any p))) :
    Along l (Read.peekIs p >>= f) (Read.peekIs p >>= f') := by
  rintro cursor rfl
  exact h cursor rfl

theorem startsWith {text : String} {f : Bool → ReadOn Cursor α} {f' : Bool → Read α}
    (h : Along l (f (text.toList.isPrefixOf l)) (f' (text.toList.isPrefixOf l))) :
    Along l (Read.startsWith text >>= f) (Read.startsWith text >>= f') := by
  rintro cursor rfl
  exact h cursor rfl

/-! ### Moving -/

theorem moveTo {m : List Char} (h : m <:+ l) : Along l (Read.moveTo m) (Read.moveTo m) := by
  rintro cursor rfl
  exact ⟨h, rfl⟩

theorem skip (count : Nat) : Along l (Read.skip count) (Read.skip count) := by
  rintro cursor rfl
  exact ⟨List.drop_suffix _ _, congrArg (EStateM.Result.ok ()) (cursor.advanceBy_eq count)⟩

/-- Jumping over a text that comes next and may be jumped over. -/
theorem jump {text : List Char} (h : text <+: l) (hne : text ≠ []) (hp : isPlain text = true) :
    Along l (Read.jump (byteLength text)) (Read.jump (byteLength text)) := by
  rintro cursor rfl
  obtain ⟨rest, hrest⟩ := h
  refine ⟨List.drop_suffix _ _, congrArg (EStateM.Result.ok ()) ?_⟩
  change cursor.jump (byteLength text) = cursor.moveTo (cursor.rest.drop (byteLength text))
  rw [Cursor.jump_eq hrest.symm hne hp, byteLength_of_isPlain hp, cursor.advanceBy_eq]

theorem takeWhile (p : Char → Bool) : Along l (Read.takeWhile p) (Read.takeWhile p) :=
  remaining (bind (moveTo (List.dropWhile_suffix p)) fun _ _ => pure _)

theorem skipLineTerminator : Along l Read.skipLineTerminator Read.skipLineTerminator :=
  startsWith (skip _)

theorem spelled (h : Along l r r') : Along l (Read.spelled r) (Read.spelled r') :=
  remaining (bind h fun _ _ => remaining (pure _))

/-! ### Escapes and names -/

theorem hexDigits? (count value : Nat) :
    Along l (Read.hexDigits? count value) (Read.hexDigits? count value) := by
  induction count generalizing l value with
  | zero => exact pure _
  | succ count ih =>
    refine peek ?_
    split
    · exact pure _
    · exact bind (skip 1) fun _ _ => ih _

theorem unicodeEscape? : Along l Read.unicodeEscape? Read.unicodeEscape? := by
  refine peekIs (ite (fun _ => hexDigits? 4 0) fun _ => bind (skip 1) fun _ _ => ?_)
  refine bind (takeWhile _) fun digits m => peekIs (ite (fun _ => pure _) fun _ => ?_)
  exact bind (skip 1) fun _ _ => pure _

theorem nameEscape (taken : List Char) :
    Along l (Read.nameEscape taken) (Read.nameEscape taken) := by
  refine bind (skip 1) fun _ _ => peekIs
    (ite (fun _ => bind (throw nofun) fun _ _ => ?_) fun _ => ?_)
  all_goals
    refine bind (skip 1) fun _ _ => bind unicodeEscape? fun code _ => ?_
    split
    · exact pure _
    · exact throw nofun

theorem nameFrom (fuel : Nat) (taken : List Char) (escaped : Bool) :
    Along l (Read.nameFrom fuel taken escaped) (Read.nameFrom fuel taken escaped) := by
  induction fuel generalizing l taken escaped with
  | zero => exact pure _
  | succ fuel ih =>
    refine peek ?_
    split
    · exact bind (nameEscape _) fun _ _ => ih _ _
    · exact ite (fun _ => bind (skip 1) fun _ _ => ih _ _) fun _ => pure _
    · exact pure _

theorem name : Along l Read.name Read.name :=
  remaining (bind (nameFrom _ _ _) fun _ _ => pure _)

theorem word : Along l Read.word Read.word := by
  refine bind name fun v _ => ite (fun _ => bind (throw nofun) fun _ _ => ?_) fun _ => ?_
  all_goals
    refine ite (fun _ => bind (throw nofun) fun _ _ => ?_) fun _ => ?_
    all_goals exact pure _

theorem privateName : Along l Read.privateName Read.privateName :=
  bind (skip 1) fun _ _ => bind word fun _ _ => pure _

/-! ### Strings and templates -/

/-- The start of the escape of a second half is jumped over. Unless it is that of a second half, the
cursor goes back to where it was. -/
theorem trailingHalf? : Along l Read.trailingHalf? Read.trailingHalf? := by
  rintro cursor rfl
  have hrest : Readable.rest cursor = cursor.rest := rfl
  have hrest' : Readable.rest cursor.rest = cursor.rest := rfl
  rw [trailingHalf?_run, trailingHalf?_run, hrest, hrest']
  by_cases hpre : (!"\\u".toList.isPrefixOf cursor.rest) = true
  · rw [if_pos hpre, if_pos hpre]
    exact ⟨List.suffix_refl _, by rw [cursor.moveTo_self]⟩
  have hescape : Along cursor.rest (Read.jump 2 >>= fun _ => Read.unicodeEscape?)
      (Read.jump 2 >>= fun _ => Read.unicodeEscape?) :=
    bind (jump (by simpa using hpre : "\\u".toList <+: _) (by decide) (by decide))
      fun _ _ => unicodeEscape?
  have h := hescape cursor rfl
  rw [if_neg hpre, if_neg hpre]
  cases hcode : (Read.jump 2 >>= fun _ => Read.unicodeEscape? : Read (Option Nat)) cursor.rest with
  | error e m =>
    rw [hcode] at h
    rw [h.2.2]
    exact ⟨h.1, h.2.1, rfl⟩
  | ok code m =>
    rw [hcode] at h
    rw [h.2]
    dsimp only
    generalize code.filter isTrailing = half
    cases half with
    | none => exact ⟨List.suffix_refl _, by rw [cursor.moveTo_self]; rfl⟩
    | some unit => exact ⟨h.1, rfl⟩

theorem stringUnicodeEscape : Along l Read.stringUnicodeEscape Read.stringUnicodeEscape := by
  refine bind unicodeEscape? fun code _ => ?_
  cases code with
  | none => exact throw nofun
  | some unit =>
    refine ite (fun _ => pure _) fun _ => bind trailingHalf? fun half _ => ?_
    cases half with
    | none => exact pure _
    | some half => exact pure _

theorem octalEscape (count value : Nat) :
    Along l (Read.octalEscape count value) (Read.octalEscape count value) := by
  induction count generalizing l value with
  | zero => exact pure _
  | succ count ih =>
    refine peek ?_
    split
    · exact pure _
    · exact bind (skip 1) fun _ _ => ih _

theorem stringEscape (c : Char) : Along l (Read.stringEscape c) (Read.stringEscape c) := by
  unfold Read.stringEscape
  split
  · exact pure _
  · refine ite (fun _ => bind (hexDigits? 2 0) fun code _ => ?_) fun _ => ?_
    · split
      · exact pure _
      · exact throw nofun
    · refine ite (fun _ => bind stringUnicodeEscape fun _ _ => pure _) fun _ => peekIs ?_
      refine ite (fun _ => pure _) fun _ => ite (fun _ => ?_) fun _ => pure _
      exact bind (octalEscape _ _) fun _ _ => pure _

theorem stringEscaped (taken : List Char) (octal : Bool) :
    Along l (Read.stringEscaped taken octal) (Read.stringEscaped taken octal) := by
  refine peek ?_
  split
  · exact throw nofun
  · refine ite (fun _ => bind skipLineTerminator fun _ _ => pure _) fun _ => ?_
    exact bind (skip 1) fun _ _ => bind (stringEscape _) fun _ _ => pure _

theorem stringFrom (quote : Char) (fuel : Nat) (taken : List Char) (octal : Bool) :
    Along l (Read.stringFrom quote fuel taken octal) (Read.stringFrom quote fuel taken octal) := by
  induction fuel generalizing l taken octal with
  | zero => exact throw nofun
  | succ fuel ih =>
    refine peek ?_
    split
    · exact throw nofun
    · refine ite (fun _ => bind (skip 1) fun _ _ => pure _) fun _ => ?_
      refine ite (fun _ => bind (skip 1) fun _ _ => bind (stringEscaped _ _) fun _ _ =>
        ih _ _) fun _ => ?_
      exact ite (fun _ => throw nofun) fun _ => bind (skip 1) fun _ _ => ih _ _

theorem string (quote : Char) : Along l (Read.string quote) (Read.string quote) :=
  bind (skip 1) fun _ _ => remaining (bind (stringFrom _ _ _ _) fun _ _ => pure _)

theorem templateEscape (c : Char) : Along l (Read.templateEscape c) (Read.templateEscape c) := by
  unfold Read.templateEscape
  split
  · exact pure _
  · refine ite (fun _ => bind (hexDigits? 2 0) fun _ _ => pure _) fun _ => ?_
    refine ite (fun _ => bind unicodeEscape? fun _ _ => pure _) fun _ => peekIs ?_
    exact ite (fun _ => pure _) fun _ => ite (fun _ => pure _) fun _ => pure _

theorem escape (piece : Piece) : Along l piece.escape piece.escape := by
  refine peek ?_
  split
  · exact throw nofun
  · refine ite (fun _ => bind skipLineTerminator fun _ _ => pure _) fun _ => ?_
    refine bind (skip 1) fun _ _ => peek (bind (templateEscape _) fun decoded _ => ?_)
    split
    · exact pure _
    · exact pure _

/-- The sign that opens a substitution is jumped over. -/
theorem pieceFrom (fuel : Nat) (piece : Piece) :
    Along l (Read.pieceFrom fuel piece) (Read.pieceFrom fuel piece) := by
  induction fuel generalizing l piece with
  | zero => exact throw nofun
  | succ fuel ih =>
    refine peek ?_
    split
    · exact throw nofun
    · rename_i c hc
      refine ite (fun _ => bind (skip 1) fun _ _ => pure _) fun _ => peekSecond ?_
      refine ite (fun hsign => bind ?_ fun _ _ => pure _) fun _ => ?_
      · obtain ⟨hdollar, hbrace⟩ := Bool.and_eq_true_iff.1 hsign
        obtain rfl := of_decide_eq_true hdollar
        have hfront : ['$', '\x7b'] <+: l := prefix_of_head? hc (of_decide_eq_true hbrace)
        exact jump hfront (by decide) (by decide)
      · refine ite (fun _ => bind (skip 1) fun _ _ => bind (escape _) fun _ _ => ih _) fun _ => ?_
        refine ite (fun _ => bind skipLineTerminator fun _ _ => ih _) fun _ => ?_
        exact bind (skip 1) fun _ _ => ih _

theorem templatePiece (isHead : Bool) :
    Along l (Read.templatePiece isHead) (Read.templatePiece isHead) :=
  remaining (bind (pieceFrom _ _) fun _ _ => pure _)

/-! ### Numerals -/

theorem digits (radix : Nat) : Along l (Read.digits radix) (Read.digits radix) := by
  refine remaining (bind (moveTo (digitsFrom_suffix radix false l)) fun _ _ => ?_)
  exact ite (fun _ => throw nofun) fun _ => pure _

theorem numeralEnd : Along l Read.numeralEnd Read.numeralEnd :=
  peekIs (ite (fun _ => throw nofun) fun _ => pure _)

theorem bigint (spelling : List Char) : Along l (Read.bigint spelling) (Read.bigint spelling) :=
  bind (skip 1) fun _ _ => bind numeralEnd fun _ _ => pure _

/-- The prefix that names a radix is jumped over. -/
theorem radixNumeral (radix : Nat) {letter : Char} (hl : ['0', letter] <+: l)
    (hp : isPlain ['0', letter] = true) :
    Along l (Read.radixNumeral radix letter) (Read.radixNumeral radix letter) := by
  have hjump := jump hl (List.cons_ne_nil _ _) hp
  rw [byteLength_of_isPlain hp] at hjump
  refine bind hjump fun _ _ => bind (spelled (digits radix)) fun v _ => ?_
  refine ite (fun _ => bind (throw nofun) fun _ _ => ?_) fun _ => ?_
  all_goals
    refine peekIs (ite (fun _ => bigint _) fun _ => ?_)
    exact bind numeralEnd fun _ _ => pure _

theorem fraction : Along l Read.fraction Read.fraction := by
  refine peekIs (ite (fun _ => pure _) fun _ => bind (skip 1) fun _ _ => peekIs ?_)
  exact ite (fun _ => bind (digits 10) fun _ _ => pure _) fun _ => pure _

theorem exponent : Along l Read.exponent Read.exponent := by
  refine peekIs (ite (fun _ => pure _) fun _ => bind (skip 1) fun _ _ => peekIs ?_)
  refine ite (fun _ => bind (skip 1) fun _ _ => ?_) fun _ => ?_
  all_goals
    refine peekIs (ite (fun _ => bind (throw nofun) fun _ _ => ?_) fun _ => ?_)
    all_goals exact bind (digits 10) fun _ _ => pure _

theorem decimalTail : Along l Read.decimalTail Read.decimalTail :=
  bind fraction fun _ _ => bind exponent fun _ _ => pure _

theorem decimalNumeral : Along l Read.decimalNumeral Read.decimalNumeral := by
  refine bind (spelled (peekIs ?_)) fun v _ => ?_
  · exact ite (fun _ => bind (digits 10) fun _ _ => decimalTail) fun _ => decimalTail
  · refine peekIs (ite (fun _ => bigint _) fun _ => ?_)
    exact bind numeralEnd fun _ _ => pure _

theorem legacyNumeral : Along l Read.legacyNumeral Read.legacyNumeral := by
  refine bind (takeWhile _) fun whole _ => ite (fun _ => ?_) fun _ => ?_
  · exact bind numeralEnd fun _ _ => pure _
  · exact bind (spelled decimalTail) fun _ _ => bind numeralEnd fun _ _ => pure _

/-- A numeral that starts with zero is read along; its second letter may name a radix. -/
theorem zeroNumeral {second : Char} (hl : ['0', second] <+: l) :
    Along l (Read.zeroNumeral second) (Read.zeroNumeral second) := by
  have hplain : ∀ lower upper : Char, isPlain ['0', lower] = true → isPlain ['0', upper] = true →
      (decide (second = lower) || decide (second = upper)) = true →
      isPlain ['0', second] = true := by
    intro lower upper hlower hupper h
    rcases Bool.or_eq_true_iff.1 h with h | h
    · rwa [of_decide_eq_true h]
    · rwa [of_decide_eq_true h]
  refine ite (fun h => radixNumeral 16 hl (hplain _ _ (by decide) (by decide) h)) fun _ => ?_
  refine ite (fun h => radixNumeral 8 hl (hplain _ _ (by decide) (by decide) h)) fun _ => ?_
  refine ite (fun h => radixNumeral 2 hl (hplain _ _ (by decide) (by decide) h)) fun _ => ?_
  exact ite (fun _ => legacyNumeral) fun _ => decimalNumeral

theorem numeral : Along l Read.numeral Read.numeral := by
  refine peekIs (ite (fun hzero => peekSecond ?_) fun _ => decimalNumeral)
  split
  · rename_i second hsecond
    obtain ⟨c, hc, hzero⟩ := (Option.any_eq_true _ _).1 hzero
    obtain rfl := LawfulBEq.eq_of_beq hzero
    exact zeroNumeral (prefix_of_head? hc hsecond)
  · exact decimalNumeral

/-! ### Tokens -/

/-- A punctuator is jumped over. -/
theorem punctuator : Along l Read.punctuator Read.punctuator := by
  refine remaining ?_
  split
  · exact throw nofun
  · rename_i spelling hfound
    obtain ⟨hfront, hpos⟩ := punctuator?_front hfound
    have hne : spelling.toList ≠ [] := List.ne_nil_of_length_pos (spelling.length_toList ▸ hpos)
    exact bind (jump hfront hne (isPlain_of_punctuator? hfound)) fun _ _ => pure _

theorem regexBody (fuel : Nat) (inClass : Bool) :
    Along l (Read.regexBody fuel inClass) (Read.regexBody fuel inClass) := by
  induction fuel generalizing l inClass with
  | zero => exact throw nofun
  | succ fuel ih =>
    refine peek ?_
    split
    · exact throw nofun
    · refine ite (fun _ => bind (throw nofun) fun _ _ => ?_) fun _ => ?_
      all_goals
        refine bind (skip 1) fun _ _ => ite (fun _ => peek ?_) fun _ => ?_
        · refine ite (fun _ => bind (throw nofun) fun _ _ => ?_) fun _ => ?_
          all_goals exact bind (skip 1) fun _ _ => ih _
        · refine ite (fun _ => ih _) fun _ => ite (fun _ => ih _) fun _ => ?_
          exact ite (fun _ => pure _) fun _ => ih _

theorem regex : Along l Read.regex Read.regex := by
  refine peekIs (ite (fun _ => bind (throw nofun) fun _ _ => ?_) fun _ => ?_)
  all_goals
    refine bind (skip 1) fun _ _ => bind (spelled (remaining (regexBody _ _))) fun _ _ => ?_
    refine bind (takeWhile _) fun _ _ => peekIs ?_
    refine ite (fun _ => bind (throw nofun) fun _ _ => ?_) fun _ => ?_
    all_goals exact pure _

theorem decoded (text : List Char) : Along l (Read.decoded text) (Read.decoded text) := by
  unfold Read.decoded
  split
  · exact pure _
  · exact throw nofun

theorem tagString (quote : Char) : Along l (Read.tagString quote) (Read.tagString quote) := by
  refine bind (skip 1) fun _ _ => bind (takeWhile _) fun _ _ => peek ?_
  refine ite (fun _ => bind (throw nofun) fun _ _ => ?_) fun _ => ?_
  all_goals exact bind (skip 1) fun _ _ => bind (decoded _) fun _ _ => pure _

/-- All tokens are read along. -/
theorem reader (opening : Opening) : Along l opening.reader opening.reader := by
  cases opening with
  | eof => exact pure _
  | word => exact word
  | string quote => exact string quote
  | template isHead => exact bind (skip 1) fun _ _ => templatePiece isHead
  | numeral => exact numeral
  | privateName => exact privateName
  | punctuator => exact bind punctuator fun _ _ => pure _
  | delimiter => exact bind (skip 1) fun _ _ => pure _
  | tagString quote => exact tagString quote
  | tagName => exact bind (takeWhile _) fun _ _ => pure _
  | markupText => exact bind (takeWhile _) fun _ _ => bind (decoded _) fun _ _ => pure _
  | illegal => exact throw nofun

end Along

end Read

/-! ## Pieces of trivia -/

/-- The delimiters of a piece of trivia may be jumped over. -/
def Trivium.IsPlain : Trivium → Prop
  | .blank _ | .lineEnd _ => True
  | .comment .line opening _ closing => opening ≠ [] ∧ isPlain opening = true ∧ closing = []
  | .comment .block opening _ closing =>
    opening ≠ [] ∧ isPlain opening = true ∧ closing ≠ [] ∧ isPlain closing = true

/-- The opening delimiter of a comment without end is jumped over. -/
theorem Cursor.jump_moveTo_nil {cursor : Cursor} (h : ['/', '*'] <+: cursor.rest) :
    (cursor.jump 2).moveTo [] = cursor.moveTo [] := by
  obtain ⟨rest, hrest⟩ := h
  have hjump : cursor.jump 2 = cursor.advanceBy 2 :=
    jump_eq hrest.symm (List.cons_ne_nil _ _) (by decide)
  rw [hjump, cursor.advanceBy_eq]
  exact moveTo_moveTo (List.drop_suffix 2 _) (List.nil_suffix)

/-- The cursor comes to where it would have come by passing every character. -/
theorem Cursor.past_eq {cursor : Cursor} {piece : Trivium} {rest : List Char}
    (h : cursor.rest = piece.chars ++ rest) (hp : piece.IsPlain) :
    cursor.past piece = cursor.advanceBy piece.chars.length := by
  cases piece with
  | blank c => rfl
  | lineEnd chars => rfl
  | comment kind opening body closing =>
    have hsplit : cursor.rest = opening ++ (body ++ (closing ++ rest)) := by
      rw [h, Trivium.chars, List.append_assoc, List.append_assoc]
    have hopened := (advanceBy_length hsplit).1
    have hlength : (Trivium.comment kind opening body closing).chars.length =
        opening.length + body.length + closing.length := by
      rw [Trivium.chars, List.length_append, List.length_append]
    rw [hlength, advanceBy_add, advanceBy_add]
    cases kind with
    | line =>
      obtain ⟨hne, hplain, rfl⟩ := hp
      rw [past, jump_eq hsplit hne hplain]
      rfl
    | block =>
      obtain ⟨hne, hplain, hne', hplain'⟩ := hp
      rw [past, jump_eq hsplit hne hplain, jump_eq (advanceBy_length hopened).1 hne' hplain']

theorem Trivium.Before.isPlain {piece : Trivium} {rest : List Char} (h : piece.Before rest) :
    piece.IsPlain := by
  cases h with
  | blank | lineEnd | crlf => trivial
  | block => exact ⟨List.cons_ne_nil _ _, by decide, List.cons_ne_nil _ _, by decide⟩
  | line ho =>
    simp only [List.mem_cons, List.not_mem_nil, or_false] at ho
    rcases ho with rfl | rfl | rfl <;> exact ⟨by decide, by decide, rfl⟩

/-- What is read as trivia are pieces in front of the rest, even if they end in a comment without
end, with which the rest begins then. -/
structure Trivia.Splits (chars : List Char) (t : Trivia) : Prop where
  /-- The pieces stand in front of the rest. -/
  chars_eq : chars = t.pieces.flatMap Trivium.chars ++ t.rest
  /-- No piece is empty. -/
  ne_nil : ∀ piece ∈ t.pieces, piece.chars ≠ []
  /-- Their delimiters may be jumped over. -/
  isPlain : ∀ piece ∈ t.pieces, piece.IsPlain
  /-- A comment without end starts like any other. -/
  unclosed : t.isComplete = false → ['/', '*'] <+: t.rest

namespace Trivia

theorem Splits.nil (chars : List Char) : Splits chars ⟨[], chars, true⟩ :=
  ⟨rfl, List.forall_mem_nil _, List.forall_mem_nil _, nofun⟩

theorem Splits.push {chars : List Char} {piece : Trivium} {t : Trivia} (h : Splits chars t)
    (hne : piece.chars ≠ []) (hp : piece.IsPlain) : Splits (piece.chars ++ chars)
    (t.push piece) where
  chars_eq := by
    rw [Trivia.push, List.flatMap_cons, List.append_assoc]
    exact congrArg (piece.chars ++ ·) h.chars_eq
  ne_nil := List.forall_mem_cons.2 ⟨hne, h.ne_nil⟩
  isPlain := List.forall_mem_cons.2 ⟨hp, h.isPlain⟩
  unclosed := h.unclosed

/-- A comment without end starts like any other. -/
theorem prefix_of_unclosed {html fresh : Bool} {chars : List Char}
    (h : Front.of html fresh chars = .unclosed) : ['/', '*'] <+: chars := by
  unfold Front.of at h
  dsimp only at h
  split at h
  · cases h
  split at h
  · cases h
  split at h
  · cases h
  split at h
  · cases h
  split at h
  · cases h
  split at h
  · rename_i hopening
    exact List.isPrefixOf_iff_prefix.1 hopening
  split at h
  · cases h
  split at h
  · cases h
  · cases h

theorem readFrom_splits (html : Bool) (n : Nat) (fresh : Bool) (chars : List Char) :
    Splits chars (readFrom html n fresh chars) := by
  induction n generalizing fresh chars with
  | zero => exact .nil chars
  | succ n ih =>
    rw [readFrom]
    split
    · exact .nil chars
    · rename_i piece rest hfront
      obtain ⟨rfl, hbefore⟩ := Front.of_eq_piece hfront
      exact (ih _ rest).push hbefore.chars_ne_nil hbefore.isPlain
    · rename_i hfront
      exact ⟨rfl, List.forall_mem_nil _, List.forall_mem_nil _, fun _ => prefix_of_unclosed hfront⟩

/-- What is read as trivia are pieces in front of the rest, a first line that starts with a hash
sign included. -/
theorem read_splits (html atStart : Bool) (chars : List Char) :
    Splits chars (read html atStart chars) := by
  rw [read]
  split
  · rename_i hstart
    obtain ⟨-, hprefix⟩ := Bool.and_eq_true_iff.1 hstart
    obtain ⟨body, rest, hline, rfl, -⟩ := lineComment_spec hprefix
    rw [hline]
    have hchars : (Trivium.comment .line "#!".toList body []).chars = "#!".toList ++ body :=
      List.append_nil _
    rw [← hchars]
    exact (readFrom_splits html rest.length atStart rest).push (by rw [hchars]; simp)
      ⟨by decide, by decide, rfl⟩
  · exact readFrom_splits html chars.length atStart chars

end Trivia

/-! ## Scanning -/

/-- Passes over a piece of trivia, one character after the other. -/
def Scanner.walk (s : Scanner) (piece : Trivium) : Scanner :=
  s.passTo piece (s.cursor.advanceBy piece.chars.length)

/-- The scanner behind pieces of trivia. -/
def Scanner.past (s : Scanner) (pieces : List Trivium) : Scanner := pieces.foldl walk s

theorem Scanner.cursor_passTo (s : Scanner) (piece : Trivium) (after : Cursor) :
    (s.passTo piece after).cursor = after := by
  unfold passTo
  split
  · split <;> rfl
  · rfl

/-- Passing pieces with jumps comes to the same as passing every character. -/
theorem Scanner.foldl_pass {s : Scanner} {pieces : List Trivium} {rest : List Char}
    (h : s.cursor.rest = pieces.flatMap Trivium.chars ++ rest)
    (hp : ∀ piece ∈ pieces, piece.IsPlain) :
    pieces.foldl pass s = s.past pieces ∧ (s.past pieces).cursor.rest = rest := by
  induction pieces generalizing s with
  | nil => exact ⟨rfl, h⟩
  | cons piece pieces ih =>
    obtain ⟨hfirst, hp⟩ := List.forall_mem_cons.1 hp
    rw [List.flatMap_cons, List.append_assoc] at h
    have hpass : s.pass piece = s.walk piece := congrArg (s.passTo piece) (Cursor.past_eq h hfirst)
    have hcursor : (s.walk piece).cursor.rest = pieces.flatMap Trivium.chars ++ rest := by
      rw [walk, cursor_passTo]
      exact (Cursor.advanceBy_length h).1
    rw [List.foldl_cons, hpass]
    exact ih hcursor hp

namespace Scan

/-- Reads the characters that follow, and passes those that are taken one after the other. -/
def readChars (stage : Stage) (reader : Read α) : Scan α := do
  let cursor := (← get).cursor
  match reader cursor.rest with
  | .ok value rest =>
    modify ({ · with cursor := cursor.moveTo rest })
    return value
  | .error fault rest =>
    modify ({ · with cursor := cursor.moveTo rest })
    fail stage fault

/-- Jumps make no difference to where a reader comes. -/
theorem read_eq {reader : ReadOn Cursor α} {reader' : Read α}
    (h : ∀ l, Read.Along l reader reader') (stage : Stage) :
    read stage reader = readChars stage reader' := by
  funext s
  have h := h _ s.cursor rfl
  unfold read readChars
  rw [Run.get_bind, Run.get_bind]
  cases hrun : reader' s.cursor.rest with
  | ok value rest =>
    rw [hrun] at h
    rw [h.2]
  | error fault rest =>
    rw [hrun] at h
    rw [h.2.2]

theorem read_reader (opening : Opening) :
    read opening.stage opening.reader = readChars opening.stage opening.reader :=
  read_eq (fun _ => .reader opening) opening.stage

theorem read_regex : read .scanner Read.regex = readChars .scanner Read.regex :=
  read_eq (fun _ => .regex) .scanner

/-- Passes over trivia, one character after the other. -/
def walkTrivia : Scan (String × Bool) := do
  let before ← get
  let found := Trivia.read before.allowsHtml (before.cursor.position.offset = 0) before.cursor.rest
  modify (·.past found.pieces)
  if !found.isComplete then
    modify fun s => { s with cursor := s.cursor.moveTo [] }
    fail .scanner .unterminatedComment
  return (before.cursor.textTo (← get).cursor, found.pieces.any Trivium.endsLine)

/-- What is handed out of trivia behind its pieces, where a comment without end is passed over in
the given way. -/
def endTrivia (before : Scanner) (found : Trivia) (pass : Cursor → Cursor) :
    Scan (String × Bool) := do
  if !found.isComplete then
    modify fun s => { s with cursor := pass s.cursor }
    fail .scanner .unterminatedComment
  return (before.cursor.textTo (← get).cursor, found.pieces.any Trivium.endsLine)

theorem endTrivia_of_unclosed {before s : Scanner} {found : Trivia} {pass : Cursor → Cursor}
    (h : found.isComplete = false) :
    endTrivia before found pass s =
      .error ⟨.scanner, .unterminatedComment, (pass s.cursor).position.site, none⟩
        { s with cursor := pass s.cursor } := by
  unfold endTrivia
  rw [h]
  rfl

/-- Jumps make no difference to where trivia leads. -/
theorem trivia_eq : trivia = walkTrivia := by
  funext s
  have hs := Trivia.read_splits s.allowsHtml (s.cursor.position.offset = 0) s.cursor.rest
  generalize hfound : Trivia.read s.allowsHtml (s.cursor.position.offset = 0) s.cursor.rest =
    found at hs
  obtain ⟨hfold, hrest⟩ := Scanner.foldl_pass hs.chars_eq hs.isPlain
  have htrivia : trivia s = endTrivia s found (fun cursor => (cursor.jump 2).moveTo [])
      (found.pieces.foldl Scanner.pass s) := by
    rw [← hfound]
    rfl
  have hwalk : walkTrivia s = endTrivia s found (·.moveTo []) (s.past found.pieces) := by
    rw [← hfound]
    rfl
  rw [htrivia, hwalk, hfold]
  cases hcomplete : found.isComplete with
  | true =>
    unfold endTrivia
    rw [hcomplete]
    rfl
  | false =>
    have hjump := Cursor.jump_moveTo_nil (hrest ▸ hs.unclosed hcomplete)
    rw [endTrivia_of_unclosed hcomplete, endTrivia_of_unclosed hcomplete, hjump]

end Scan

end Verbatim
