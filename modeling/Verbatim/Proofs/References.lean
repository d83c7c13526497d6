import Verbatim.Proofs.Scan.Cursor
import Verbatim.Text.Entity

/-!
# Reading character references

Decoding looks from an ampersand for the next semicolon. A reader of references takes the letters,
digits and number signs behind an ampersand instead, and where they are no reference it goes on
behind the ampersand. Both find the same references where no other ampersand stands between an
ampersand and its semicolon, but a text that is skipped as unknown may hide a reference. Every text
that was encoded is decoded to what it was.

## Main definitions

* `Verbatim.Entity.reference?` — the reference that follows an ampersand.
* `Verbatim.Entity.readReferences` — a text with its references replaced.
* `Verbatim.Entity.Solitary` — no ampersand stands between an ampersand and its semicolon.

## Main results

* `Verbatim.Entity.decode_eq_readReferences` — decoding reads references.
* `Verbatim.Entity.decode_hides_reference` — a reference that decoding does not find.
* `Verbatim.Entity.decode_encode` — decoding undoes encoding.
-/

namespace Verbatim.Entity

open Verbatim.Text

/-! ## The reader -/

/-- The letters and digits of ASCII, and the number sign. -/
def isReferenceChar (c : Char) : Bool := c.isAlphanum || c == '#'

/-- What stands between `&` and `;`, given what follows the `&`: the longest run of letters, digits
and number signs, when it has one to ten bytes and the semicolon is directly behind it. -/
def reference? (rest : List Char) : Option (List Char) :=
  let run := rest.takeWhile isReferenceChar
  if 0 < byteLength run && byteLength run ≤ 10 && (rest.drop run.length).head? == some ';'
    then some run
  else none

/-- Reads the text from byte `offset` on, after its first `skip` characters. An ampersand that
begins no reference stands for itself, and nothing but it is passed over. -/
def readFrom (offset : Nat) : Nat → List Char → Except Invalid (List Char)
  | _, [] => .ok []
  | skip + 1, c :: rest => readFrom (offset + c.utf8Size) skip rest
  | 0, c :: rest =>
    let next := offset + c.utf8Size
    if c ≠ '&' then (c :: ·) <$> readFrom next 0 rest
    else match reference? rest with
      | none => (c :: ·) <$> readFrom next 0 rest
      | some run =>
        match resolve run with
        | .char d => (d :: ·) <$> readFrom next (run.length + 1) rest
        | .unknown => (c :: ·) <$> readFrom next 0 rest
        | .invalid => .error ⟨String.ofList ('&' :: run ++ [';']), offset⟩

/-- A text with its references replaced by the characters that they name. -/
def readReferences (text : String) : Except Invalid String :=
  String.ofList <$> readFrom 0 0 text.toList

/-- No ampersand stands between an ampersand and the semicolon that decoding finds behind it. -/
def Solitary (text : List Char) : Prop :=
  ∀ front rest body, text = front ++ '&' :: rest → body? rest = some body → '&' ∉ body

/-! ## What is a reference -/

/-- Digits of any radix may stand in references. -/
theorem isReferenceChar_of_isDigitOf {radix : Nat} {c : Char} (h : isDigitOf radix c = true) :
    isReferenceChar c = true := by
  have hvalue : digitValue c ≠ none := by
    intro hnone
    simp [isDigitOf, digitValue?, hnone] at h
  unfold digitValue at hvalue
  have hle : ∀ a b : Char, a ≤ b ↔ a.val ≤ b.val := fun _ _ => Iff.rfl
  simp only [hle, Bool.and_eq_true, decide_eq_true_eq] at hvalue
  have hchar : isReferenceChar c = ((decide ('A'.val ≤ c.val ∧ c.val ≤ 'Z'.val)
      || ('a'.val ≤ c.val && c.val ≤ 'z'.val) || ('0'.val ≤ c.val && c.val ≤ '9'.val)) || c
        == '#') := rfl
  rw [hchar]
  simp only [Bool.or_eq_true, Bool.and_eq_true, decide_eq_true_eq]
  split at hvalue
  · exact .inl (.inr ‹_›)
  split at hvalue
  · exact .inl (.inl (.inr ‹_›))
  split at hvalue
  · exact .inl (.inl (.inl ‹_›))
  · exact absurd rfl hvalue

/-- The names of references are letters and digits. -/
theorem isReferenceChar_of_mem_table :
    ∀ p ∈ table, p.1.toList.all isReferenceChar = true := by
  decide +kernel

/-- A number is read from digits only. -/
theorem all_of_numeric {radix : Nat} {digits : List Char} (h : numeric radix digits ≠ .unknown) :
    digits.all isReferenceChar = true := by
  unfold numeric at h
  split at h
  · exact absurd rfl h
  · rename_i hdigits
    simp only [Bool.or_eq_true, not_or, Bool.not_eq_true', Bool.not_eq_false] at hdigits
    rw [List.all_eq_true] at hdigits ⊢
    exact fun c hc => isReferenceChar_of_isDigitOf (hdigits.2 c hc)

/-- A named reference is in the table. -/
theorem all_of_lookup {name : String} {c : Char} (h : lookup name = some c) :
    name.toList.all isReferenceChar = true := by
  obtain ⟨code, hcode, -⟩ := Option.bind_eq_some_iff.1 h
  obtain ⟨l₁, l₂, htable, -⟩ := List.lookup_eq_some_iff.1 hcode
  exact isReferenceChar_of_mem_table (name, code) (htable ▸ List.mem_append_cons_self)

/-- What stands for something has no other characters than letters, digits and number signs. -/
theorem all_of_resolve {body : List Char} (h : resolve body ≠ .unknown) :
    ∀ c ∈ body, isReferenceChar c = true := by
  rw [← List.all_eq_true]
  unfold resolve at h
  split at h
  · exact (all_of_numeric h :)
  · exact (all_of_numeric h :)
  · exact (all_of_numeric h :)
  · split at h
    · rename_i hlookup
      simpa using all_of_lookup hlookup
    · exact absurd rfl h

/-! ## The two ways to find one -/

section

variable {p : Char → Bool} {run rest behind body : List Char} {c : Char}

/-- A run ends in front of the first character that does not belong to it. -/
theorem takeWhile_append_cons (h : ∀ c ∈ run, p c = true) (hc : p c = false) :
    (run ++ c :: behind).takeWhile p = run := by
  rw [List.takeWhile_append_of_pos h, List.takeWhile_cons_of_neg (by simp [hc]), List.append_nil]

/-- A run that ends somewhere ends in front of a character. -/
theorem exists_append_cons (h : (rest.takeWhile p).length < rest.length) :
    ∃ c behind, rest = rest.takeWhile p ++ c :: behind ∧ p c = false := by
  obtain ⟨c, behind, hbehind⟩ : ∃ c behind, rest.dropWhile p = c :: behind := by
    refine List.exists_cons_of_ne_nil fun hnil => ?_
    have hall := @List.takeWhile_append_dropWhile _ p rest
    rw [hnil, List.append_nil] at hall
    rw [hall] at h
    exact Nat.lt_irrefl _ h
  refine ⟨c, behind, ?_, ?_⟩
  · rw [← hbehind, List.takeWhile_append_dropWhile]
  · have hhead := List.head?_dropWhile_not p rest
    rw [hbehind] at hhead
    simpa using hhead

/-- The body of a reference ends with the first semicolon, within ten bytes. -/
theorem body?_eq_some : body? rest = some body ↔
    (∃ behind, rest = body ++ ';' :: behind) ∧ ';' ∉ body ∧ 0 < byteLength body ∧
      byteLength body ≤ 10 := by
  unfold body?
  dsimp only
  constructor
  · intro h
    split at h
    · rename_i hbody
      cases h
      simp only [Bool.and_eq_true, decide_eq_true_eq] at hbody
      obtain ⟨c, behind, hrest, hc⟩ := exists_append_cons hbody.1.1
      obtain rfl : c = ';' := by simpa using hc
      refine ⟨⟨behind, hrest⟩, fun hmem => ?_, hbody.1.2, hbody.2⟩
      simpa using List.all_eq_true.1 List.all_takeWhile _ hmem
    · cases h
  · rintro ⟨⟨behind, rfl⟩, hmem, hpos, hle⟩
    have hne : ∀ c ∈ body, decide (c ≠ ';') = true := by
      intro c hc
      simpa using ne_of_mem_of_not_mem hc hmem
    rw [takeWhile_append_cons hne (by simp)]
    simp [hpos, hle]

/-- A reference is made of its characters only, within ten bytes. -/
theorem reference?_eq_some : reference? rest = some run ↔
    (∃ behind, rest = run ++ ';' :: behind) ∧ (∀ c ∈ run, isReferenceChar c = true) ∧
      0 < byteLength run ∧ byteLength run ≤ 10 := by
  unfold reference?
  dsimp only
  constructor
  · intro h
    split at h
    · rename_i hrun
      cases h
      simp only [Bool.and_eq_true, decide_eq_true_eq, beq_iff_eq] at hrun
      obtain ⟨behind, hbehind⟩ := List.head?_eq_some_iff.1 hrun.2
      refine ⟨⟨behind, ?_⟩, List.all_eq_true.1 List.all_takeWhile, hrun.1.1, hrun.1.2⟩
      rw [← hbehind]
      exact (List.prefix_iff_eq_append.1 (List.takeWhile_prefix _)).symm
    · cases h
  · rintro ⟨⟨behind, rfl⟩, hrun, hpos, hle⟩
    rw [takeWhile_append_cons hrun (by decide)]
    simp [hpos, hle]

/-- The text up to the next semicolon is a reference if its characters may stand in one. -/
theorem reference?_of_body? (h : body? rest = some body)
    (hall : ∀ c ∈ body, isReferenceChar c = true) : reference? rest = some body := by
  obtain ⟨hrest, -, hpos, hle⟩ := body?_eq_some.1 h
  exact reference?_eq_some.2 ⟨hrest, hall, hpos, hle⟩

/-- What is a reference is the text up to the next semicolon. -/
theorem body?_of_reference? (h : reference? rest = some run) : body? rest = some run := by
  obtain ⟨hrest, hall, hpos, hle⟩ := reference?_eq_some.1 h
  exact body?_eq_some.2 ⟨hrest, fun hmem => absurd (hall _ hmem) (by decide), hpos, hle⟩

end

/-! ## Both ways through a text -/

section

variable {text rest front body : List Char} {offset : Nat}

theorem decodeFrom_skip (front rest : List Char) :
    decodeFrom offset front.length (front ++ rest) = decodeFrom
      (offset + byteLength front) 0 rest := by
  induction front generalizing offset with
  | nil => rfl
  | cons c front ih =>
    rw [List.length_cons, List.cons_append, decodeFrom, ih, byteLength_cons, Nat.add_assoc]

theorem readFrom_skip (front rest : List Char) :
    readFrom offset front.length (front ++ rest) = readFrom (offset + byteLength front) 0 rest := by
  induction front generalizing offset with
  | nil => rfl
  | cons c front ih =>
    rw [List.length_cons, List.cons_append, readFrom, ih, byteLength_cons, Nat.add_assoc]

/-- A text without ampersands is read as it is. -/
theorem readFrom_append (h : '&' ∉ front) (rest : List Char) :
    readFrom offset 0 (front ++ rest) =
      (front ++ ·) <$> readFrom (offset + byteLength front) 0 rest := by
  induction front generalizing offset with
  | nil => exact (id_map _).symm
  | cons c front ih =>
    obtain ⟨hc, hfront⟩ : '&' ≠ c ∧ '&' ∉ front := by simpa using h
    rw [List.cons_append, readFrom, if_pos (Ne.symm hc), ih hfront, byteLength_cons, Nat.add_assoc,
      ← comp_map]
    rfl

theorem Solitary.of_append (h : Solitary (front ++ rest)) : Solitary rest := by
  intro front' rest' body hrest
  exact h (front ++ front') rest' body (by rw [hrest, List.append_assoc])

/-- Where what follows an ampersand stands for nothing, the reader goes on behind the ampersand. -/
theorem readFrom_unknown (hbody : body? rest = some body) (hresolve : resolve body = .unknown) :
    readFrom offset 0 ('&' :: rest) = ('&' :: ·) <$> readFrom (offset + '&'.utf8Size) 0 rest := by
  rw [readFrom, if_neg (by simp)]
  cases href : reference? rest with
  | none => rfl
  | some run =>
    obtain rfl : body = run := Option.some.inj (hbody.symm.trans (body?_of_reference? href))
    dsimp only
    rw [hresolve]

/-- Decoding reads references, where no ampersand stands between an ampersand and its semicolon.

**Proof sketch.** A text between an ampersand and its semicolon that stands for something is a
reference. One that stands for nothing is skipped by decoding as a whole, and is read by the other
way character by character to the same effect, since no ampersand is in it. -/
theorem decodeFrom_eq_readFrom (h : Solitary text) :
    decodeFrom offset 0 text = readFrom offset 0 text := by
  induction hn : text.length using Nat.strongRecOn generalizing text offset with
  | ind n ih =>
    have hrest : ∀ (front rest : List Char), text = front ++ rest → front ≠ [] → ∀ offset,
        decodeFrom offset 0 rest = readFrom offset 0 rest := by
      rintro front rest rfl hfront offset
      have hlen := List.length_pos_iff.2 hfront
      rw [List.length_append] at hn
      exact ih _ (by omega) h.of_append rfl
    rcases text with _ | ⟨c, text⟩
    · rfl
    have htail := hrest [c] text rfl (List.cons_ne_nil _ _)
    by_cases hc : c ≠ '&'
    · rw [decodeFrom, readFrom, if_pos hc, if_pos hc, htail]
    obtain rfl : c = '&' := by simpa using hc
    rw [decodeFrom, if_neg hc]
    cases hbody : body? text with
    | none =>
      have href : reference? text = none :=
        Option.eq_none_iff_forall_ne_some.2 fun run hrun => by
          rw [body?_of_reference? hrun] at hbody
          cases hbody
      rw [readFrom, if_neg hc, href]
      dsimp only
      rw [htail]
    | some body =>
      obtain ⟨⟨behind, rfl⟩, -⟩ := body?_eq_some.1 hbody
      have hamp : '&' ∉ body := h [] _ body rfl hbody
      have hbehind := hrest ('&' :: (body ++ [';'])) behind (by simp) (List.cons_ne_nil _ _)
      have hlen : body.length + 1 = (body ++ [';']).length := by simp
      have hsplit : body ++ ';' :: behind = (body ++ [';']) ++ behind := by simp
      by_cases hresolve : resolve body = .unknown
      · rw [readFrom_unknown hbody hresolve]
        dsimp only
        rw [hresolve, hsplit, hlen, decodeFrom_skip, readFrom_append (by simp [hamp]), hbehind,
          ← comp_map]
        rfl
      · rw [readFrom, if_neg hc, reference?_of_body? hbody (all_of_resolve hresolve)]
        dsimp only
        rw [hsplit, hlen, decodeFrom_skip, readFrom_skip, hbehind]
        cases hmeaning : resolve body with
        | char d => rfl
        | unknown => exact absurd hmeaning hresolve
        | invalid => rfl

end

/-- Decoding a text reads its references, where no ampersand stands between an ampersand and its
semicolon. -/
theorem decode_eq_readReferences {text : String} (h : Solitary text.toList) :
    decode text = readReferences text :=
  congrArg (String.ofList <$> ·) (decodeFrom_eq_readFrom h)

/-- A reference that decoding skips, since an ampersand stands in front of it. -/
theorem decode_hides_reference :
    decode "& &lt;" = .ok "& &lt;" ∧ readReferences "& &lt;" = .ok "& <" :=
  ⟨rfl, rfl⟩

/-! ## Encoded texts -/

/-- A character is encoded as itself or as a reference. -/
theorem encodeChar_eq (c : Char) :
    (encodeChar c = [c] ∧ c ∉ ['&', '<', '>', '\x7b', '\x7d']) ∨
      ∃ run, encodeChar c = '&' :: (run ++ [';']) ∧ resolve run = .char c ∧
        (∀ d ∈ run, isReferenceChar d = true) ∧ 0 < byteLength run ∧ byteLength run ≤ 10 := by
  by_cases hplain : c ∈ ['&', '<', '>', '\x7b', '\x7d']
  · refine .inr ?_
    simp only [List.mem_cons, List.not_mem_nil, or_false] at hplain
    obtain rfl | rfl | rfl | rfl | rfl := hplain
    · exact ⟨"amp".toList, rfl, by decide, List.all_eq_true.1 rfl, by decide, by decide⟩
    · exact ⟨"lt".toList, rfl, by decide, List.all_eq_true.1 rfl, by decide, by decide⟩
    · exact ⟨"gt".toList, rfl, by decide, List.all_eq_true.1 rfl, by decide, by decide⟩
    · exact ⟨"#123".toList, rfl, by decide, List.all_eq_true.1 rfl, by decide, by decide⟩
    · exact ⟨"#125".toList, rfl, by decide, List.all_eq_true.1 rfl, by decide, by decide⟩
  · refine .inl ⟨?_, hplain⟩
    simp only [List.mem_cons, List.not_mem_nil, or_false, not_or] at hplain
    simp [encodeChar, hplain]

/-- An encoded character is decoded to what it was. -/
theorem decodeFrom_encodeChar (offset : Nat) (c : Char) (rest : List Char) :
    decodeFrom offset 0 (encodeChar c ++ rest) =
      (c :: ·) <$> decodeFrom (offset + byteLength (encodeChar c)) 0 rest := by
  rcases encodeChar_eq c with ⟨henc, hc⟩ | ⟨run, henc, hresolve, hrun, hpos, hle⟩
  · have hne : c ≠ '&' := ne_of_mem_of_not_mem List.mem_cons_self hc |>.symm
    rw [henc, List.singleton_append, decodeFrom, if_pos hne]
    rfl
  · have hbody : body? (run ++ ([';'] ++ rest)) = some run :=
      body?_of_reference? (reference?_eq_some.2 ⟨⟨rest, rfl⟩, hrun, hpos, hle⟩)
    have hlen : run.length + 1 = (run ++ [';']).length := by simp
    rw [henc, List.cons_append, List.append_assoc, decodeFrom, if_neg (by simp), hbody]
    dsimp only
    rw [hresolve, ← List.append_assoc, hlen, decodeFrom_skip, byteLength_cons, Nat.add_assoc]

/-- Decoding undoes encoding. -/
theorem decode_encode (text : String) : decode (encode text) = .ok text := by
  have hfrom : ∀ (offset : Nat) (chars : List Char),
      decodeFrom offset 0 (chars.flatMap encodeChar) = .ok chars := by
    intro offset chars
    induction chars generalizing offset with
    | nil => rfl
    | cons c chars ih =>
      rw [List.flatMap_cons, decodeFrom_encodeChar, ih]
      rfl
  rw [decode, encode, String.toList_ofList, hfrom]
  exact congrArg Except.ok String.ofList_toList

/-- An encoded text has none of the characters that markup is made of. -/
theorem not_mem_encode (text : String) {c : Char} (hc : c ∈ ['<', '>', '\x7b', '\x7d']) :
    c ∉ (encode text).toList := by
  rw [encode, String.toList_ofList, List.mem_flatMap]
  rintro ⟨d, -, hd⟩
  rcases encodeChar_eq d with ⟨henc, hplain⟩ | ⟨run, henc, -, hrun, -⟩
  · rw [henc, List.mem_singleton] at hd
    exact hplain (hd ▸ List.mem_cons_of_mem _ hc)
  · have hall : ∀ e ∈ '&' :: (run ++ [';']), e = '&' ∨ e = ';' ∨ isReferenceChar e = true := by
      intro e he
      rcases List.mem_cons.1 he with rfl | he
      · exact .inl rfl
      rcases List.mem_append.1 he with he | he
      · exact .inr (.inr (hrun e he))
      · exact .inr (.inl (List.mem_singleton.1 he))
    have hnone : ∀ e ∈ ['<', '>', '\x7b', '\x7d'],
      ¬ (e = '&' ∨ e = ';' ∨ isReferenceChar e = true) := by
      simp [isReferenceChar]
    exact hnone c hc (hall c (henc ▸ hd))

end Verbatim.Entity
