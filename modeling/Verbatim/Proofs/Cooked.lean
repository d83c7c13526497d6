import Verbatim.Proofs.Scan.Octal
import Verbatim.Proofs.Scan.Single

/-!
# Strings and templates decode alike

A string and a template have a decoder of escapes each. On the same text they agree, with one
exception: where a string puts the escapes of the two halves of a pair together, a template replaces
each half. So a text without such a pair means the same in both, and one with pairs means as much
apart from their characters.

## Main definitions

* `Verbatim.EscapesCode` — the Unicode escapes of a code.
* `Verbatim.HasPair` — the escapes of the halves of a pair stand in a text.
* `Verbatim.Unpaired` — a text and what is left of it where some of its characters are replaced by
  halves.

## Main results

* `Verbatim.scan_template_of_string` — what a template means where a string has a meaning.
* `Verbatim.scan_template_pair` — a pair that a template does not put together.
-/

namespace Verbatim

open Verbatim.Text

/-! ## Pairs -/

/-- The Unicode escapes of a code: with four digits, or with any number of them in braces. -/
inductive EscapesCode (code : Nat) : List Char → Prop where
  /-- Four digits. -/
  | four {digits : List Char} (hlen : digits.length = 4) (hd : ∀ c ∈ digits, isDigitOf 16 c = true)
    (hcode : numberOf 16 digits = code) : EscapesCode code ('\\' :: 'u' :: digits)
  /-- Digits in braces. -/
  | braced {digits : List Char} (hne : digits ≠ []) (hd : ∀ c ∈ digits, isDigitOf 16 c = true)
    (hcode : numberOf 16 digits = code) :
    EscapesCode code ('\\' :: 'u' :: '\x7b' :: digits ++ ['\x7d'])

/-- In a text, the escape of a first half stands directly in front of that of a second half. -/
def HasPair (text : List Char) : Prop :=
  ∃ leading trailing first second, Read.isLeading leading = true ∧ Read.isTrailing trailing = true ∧
    EscapesCode leading first ∧ EscapesCode trailing second ∧ first ++ second <:+: text

/-- A text, and the same text with two replacement characters for some of the characters that are
pairs of halves. -/
inductive Unpaired : List Char → List Char → Prop where
  /-- Nothing. -/
  | nil : Unpaired [] []
  /-- The same character in both. -/
  | same (c : Char) {v w : List Char} (h : Unpaired v w) : Unpaired (c :: v) (c :: w)
  /-- A character that is a pair, and its halves. -/
  | halves {c : Char} {v w : List Char} (hc : 0x10000 ≤ c.toNat) (h : Unpaired v w) :
    Unpaired (c :: v) ('\ufffd' :: '\ufffd' :: w)

theorem HasPair.of_infix {x y : List Char} (h : HasPair x) (hxy : x <:+: y) : HasPair y := by
  obtain ⟨leading, trailing, first, second, hl, ht, hf, hs, hx⟩ := h
  exact ⟨leading, trailing, first, second, hl, ht, hf, hs, hx.trans hxy⟩

theorem Unpaired.append (x : List Char) {v w : List Char} (h : Unpaired v w) :
    Unpaired (x ++ v) (x ++ w) := by
  induction x with
  | nil => exact h
  | cons c x ih => exact .same c ih

namespace Read

variable {l m x : List Char}

/-! ## Unicode escapes -/

/-- The digits of an escape that has a code. -/
theorem digits_of_hexDigits? {count value code : Nat}
    (h : hexDigits? count value l = .ok (some code) m) :
    ∃ digits, l = digits ++ m ∧ digits.length = count ∧ (∀ c ∈ digits, isDigitOf 16 c = true) ∧
      (digits.filterMap (digitValue? 16)).foldl (fun value digit => value * 16 + digit) value
      = code := by
  induction count generalizing value l with
  | zero =>
    obtain ⟨hcode, rfl⟩ := Run.pure_eq_ok.1
      (show (pure (some value) : Read (Option Nat)) l = _ from h)
    cases hcode
    exact ⟨[], rfl, rfl, nofun, rfl⟩
  | succ count ih =>
    rw [hexDigits?, peek_bind] at h
    cases hd : l.head?.bind (digitValue? 16) with
    | none =>
      rw [hd] at h
      cases (Run.pure_eq_ok.1 (show (pure none : Read (Option Nat)) l = _ from h)).1
    | some digit =>
      rw [hd] at h
      cases l with
      | nil => cases hd
      | cons c l =>
        obtain ⟨digits, rfl, rfl, hdigits, hcode⟩ := ih
          (show hexDigits? count (value * 16 + digit) l = _ from h)
        have hc : digitValue? 16 c = some digit := hd
        refine ⟨c :: digits, rfl, rfl, List.forall_mem_cons.2
          ⟨by simp [isDigitOf, hc], hdigits⟩, ?_⟩
        rw [List.filterMap_cons_some hc, List.foldl_cons]
        exact hcode

/-- A Unicode escape that is read is one. -/
theorem escapesCode_of_unicodeEscape? {code : Nat} (h : unicodeEscape? l = .ok (some code) m) :
    ∃ escape, '\\' :: 'u' :: l = escape ++ m ∧ EscapesCode code escape := by
  rw [unicodeEscape?_eq] at h
  split at h
  · obtain ⟨digits, rfl, hlen, hd, hcode⟩ := digits_of_hexDigits? h
    exact ⟨_, rfl, .four hlen hd hcode⟩
  · rename_i hopen
    rw [Bool.not_eq_true', Bool.not_eq_false] at hopen
    obtain ⟨l, rfl⟩ := eq_cons_of_head hopen
    have hl := List.takeWhile_append_dropWhile (p := isDigitOf 16) (l := l)
    have hd : ∀ c ∈ l.takeWhile (isDigitOf 16), isDigitOf 16 c = true :=
      List.all_eq_true.1 List.all_takeWhile
    simp only [List.drop_succ_cons, List.drop_zero] at h
    generalize l.takeWhile (isDigitOf 16) = digits at h hl hd
    generalize l.dropWhile (isDigitOf 16) = after at h hl
    subst hl
    split at h
    · cases h
    · rename_i hclosed
      obtain ⟨hcode, rfl⟩ := EStateM.Result.ok.inj h
      simp only [Bool.or_eq_true, Bool.not_eq_true', not_or, Bool.not_eq_true, Bool.not_eq_false]
        at hclosed
      obtain ⟨⟨hne, -⟩, hclose⟩ := hclosed
      obtain ⟨after, rfl⟩ := eq_cons_of_head hclose
      exact ⟨_, by simp, .braced (by simpa using hne) hd (Option.some.inj hcode)⟩

/-! ## Escapes -/

/-- The halves of a pair alone are no characters. -/
theorem charOrReplacement_of_half {unit : Nat}
    (h : isLeading unit = true ∨ isTrailing unit = true) :
    charOrReplacement unit = '\ufffd' := by
  have hnone : scalar? unit = none := by
    simp only [isLeading, isTrailing, Bool.and_eq_true, decide_eq_true_eq] at h
    rw [scalar?, dif_neg]
    simp only [Nat.isValidChar]
    omega
  rw [charOrReplacement, hnone]
  rfl

/-- A pair is a character beyond the first plane. -/
theorem le_charOrReplacement_pairCode {leading trailing : Nat} (hl : isLeading leading = true)
    (ht : isTrailing trailing = true) :
    0x10000 ≤ (charOrReplacement (pairCode leading trailing)).toNat := by
  simp only [isLeading, isTrailing, Bool.and_eq_true, decide_eq_true_eq] at hl ht
  have hcode : pairCode leading trailing < 0x110000 ∧ 0x10000 ≤ pairCode leading trailing := by
    unfold pairCode
    omega
  have hvalid : (pairCode leading trailing).isValidChar := .inr ⟨by omega, hcode.1⟩
  have hchar : charOrReplacement (pairCode leading trailing) =
      Char.ofNatAux (pairCode leading trailing) hvalid := by
    rw [charOrReplacement, scalar?, dif_pos hvalid]
    rfl
  rw [hchar]
  exact hcode.2

/-- A template reads two halves where a string reads a pair: the code of the first is in front of
`x`, that of the second in front of `z`, and `y` is behind both. -/
structure ReadsHalves (x z y : List Char) : Prop where
  /-- The first half. -/
  first : templateEscape 'u' (x ++ ['\x60']) = .ok (some '\ufffd') ('\\' :: 'u' :: z ++ ['\x60'])
  /-- The second half. -/
  second : templateEscape 'u' (z ++ ['\x60']) = .ok (some '\ufffd') (y ++ ['\x60'])
  /-- What is behind the first half is the end of the text. -/
  suffix : '\\' :: 'u' :: z <:+ x
  /-- So is what is behind both. -/
  suffix_second : y <:+ z
  /-- The escapes are those of a pair. -/
  hasPair : HasPair ('\\' :: 'u' :: x)

theorem endsEscape_quote (l : List Char) : EndsEscape ('\x27' :: l) := .quote rfl l

theorem endsEscape_backquote (l : List Char) : EndsEscape ('\x60' :: l) := by
  rintro c ⟨⟩
  exact ⟨rfl, by decide⟩

/-- A template reads the Unicode escape of a string, or the two halves of its pair. -/
theorem templateEscape_of_stringUnicodeEscape {v : Char}
    (h : stringUnicodeEscape (x ++ ['\x27']) = .ok v m) :
    ∃ y, y <:+ x ∧ m = y ++ ['\x27'] ∧
      (templateEscape 'u' (x ++ ['\x60']) = .ok (some v) (y ++ ['\x60']) ∨
        0x10000 ≤ v.toNat ∧ ∃ z, ReadsHalves x z y) := by
  obtain ⟨code, y, hy, hends⟩ := unicodeEscape?_ends x
  have hcode := hends ['\x27'] (endsEscape_quote [])
  have htemplate : templateEscape 'u' (x ++ ['\x60']) =
      .ok (code.map charOrReplacement) (y ++ ['\x60']) :=
    Run.bind_eq_ok.2 ⟨code, _, hends ['\x60'] (endsEscape_backquote []), rfl⟩
  obtain ⟨code', m₁, hcode', hrest⟩ := Run.bind_eq_ok.1 h
  obtain ⟨rfl, rfl⟩ := EStateM.Result.ok.inj (hcode.symm.trans hcode')
  cases code with
  | none => exact absurd hrest Run.throw_ne_ok
  | some unit =>
    change (if !isLeading unit then pure (charOrReplacement unit) else trailingHalf? >>=
      fun _ => _ :
      Read Char) (y ++ ['\x27']) = _ at hrest
    rw [run_ite] at hrest
    split at hrest
    · obtain ⟨rfl, rfl⟩ := Run.pure_eq_ok.1 hrest
      exact ⟨y, hy, rfl, .inl htemplate⟩
    rename_i hleading
    rw [Bool.not_eq_true', Bool.not_eq_false] at hleading
    obtain ⟨half, m₂, hhalf, hrest⟩ := Run.bind_eq_ok.1 hrest
    rw [trailingHalf?_eq] at hhalf
    -- Without a second half, the first is read alone in both.
    have halone : half = none → m₂ = y ++ ['\x27'] → ∃ y, y <:+ x ∧ m = y ++ ['\x27'] ∧
        (templateEscape 'u' (x ++ ['\x60']) = .ok (some v) (y ++ ['\x60']) ∨
          0x10000 ≤ v.toNat ∧ ∃ z, ReadsHalves x z y) := by
      rintro rfl rfl
      obtain ⟨rfl, rfl⟩ := Run.pure_eq_ok.1 hrest
      exact ⟨y, hy, rfl, .inl htemplate⟩
    split at hhalf
    · obtain ⟨rfl, rfl⟩ := EStateM.Result.ok.inj hhalf
      exact halone rfl rfl
    rename_i hprefix
    obtain ⟨z, rfl⟩ : ∃ z, y = '\\' :: 'u' :: z := by
      rcases y with _ | ⟨c, _ | ⟨d, z⟩⟩
      · simp [List.isPrefixOf] at hprefix
      · simp [List.isPrefixOf] at hprefix
      · obtain ⟨rfl, rfl⟩ : '\\' = c ∧ 'u' = d := by simpa [List.isPrefixOf] using hprefix
        exact ⟨z, rfl⟩
    obtain ⟨second, y, hyz, hsecond⟩ := unicodeEscape?_ends z
    have hquoted := hsecond ['\x27'] (endsEscape_quote [])
    rw [show ('\\' :: 'u' :: z ++ ['\x27']).drop 2 = z ++ ['\x27'] from rfl, hquoted] at hhalf
    dsimp only at hhalf
    split at hhalf
    · obtain ⟨rfl, rfl⟩ := EStateM.Result.ok.inj hhalf
      exact halone rfl rfl
    rename_i hsome
    obtain ⟨rfl, rfl⟩ := EStateM.Result.ok.inj hhalf
    obtain ⟨trailing, hfilter⟩ : ∃ trailing, second.filter isTrailing = some trailing :=
      Option.ne_none_iff_exists'.1 fun hnone => hsome (by rw [hnone]; rfl)
    obtain ⟨rfl, htrailing⟩ := Option.filter_eq_some_iff.1 hfilter
    rw [hfilter] at hrest
    obtain ⟨rfl, rfl⟩ := Run.pure_eq_ok.1
      (show (pure (charOrReplacement (pairCode unit trailing)) : Read Char) _ = _ from hrest)
    have hfirst : unicodeEscape? (x ++ []) = _ := hends [] nofun
    have hsecond' : unicodeEscape? (z ++ []) = _ := hsecond [] nofun
    rw [List.append_nil, List.append_nil] at hfirst hsecond'
    obtain ⟨escape, hescape, hcode₁⟩ := escapesCode_of_unicodeEscape? hfirst
    obtain ⟨escape', hescape', hcode₂⟩ := escapesCode_of_unicodeEscape? hsecond'
    refine ⟨y, hyz.trans ((List.suffix_cons _ z).trans ((List.suffix_cons _ _).trans hy)), rfl, .inr
      ⟨le_charOrReplacement_pairCode hleading htrailing, z, ?_, ?_, hy, hyz, ?_⟩⟩
    · rw [htemplate, Option.map_some, charOrReplacement_of_half (.inl hleading)]
    · refine Run.bind_eq_ok.2 ⟨_, _, hsecond ['\x60'] (endsEscape_backquote []), ?_⟩
      rw [Option.map_some, charOrReplacement_of_half (.inr htrailing)]
      rfl
    · refine ⟨unit, trailing, escape, escape', hleading, htrailing, hcode₁, hcode₂, [], y, ?_⟩
      rw [hescape, hescape']
      simp

/-- A template reads the escape of a string, unless that is octal, or the two halves of its pair. -/
theorem templateEscape_of_stringEscape {e v : Char}
    (h : stringEscape e (x ++ ['\x27']) = .ok (v, false) m) :
    ∃ y, y <:+ x ∧ m = y ++ ['\x27'] ∧
      (templateEscape e (x ++ ['\x60']) = .ok (some v) (y ++ ['\x60']) ∨
        e = 'u' ∧ 0x10000 ≤ v.toNat ∧ ∃ z, ReadsHalves x z y) := by
  have hdigit : (x ++ ['\x27']).head?.any isDecimalDigit =
    (x ++ ['\x60']).head?.any isDecimalDigit := by
    cases x <;> rfl
  unfold stringEscape at h
  unfold templateEscape
  cases hcontrol : controlEscape? e with
  | some control =>
    rw [hcontrol] at h
    obtain ⟨hv, rfl⟩ := Run.pure_eq_ok.1 h
    cases hv
    exact ⟨x, List.suffix_refl x, rfl, .inl rfl⟩
  | none =>
    rw [hcontrol] at h
    dsimp only at h ⊢
    rw [run_ite] at h
    simp only [run_ite]
    split at h
    · obtain ⟨code, y, hy, hends⟩ := hexDigits?_ends 2 0 x
      obtain ⟨code', m₁, hcode, h⟩ := Run.bind_eq_ok.1 h
      obtain ⟨rfl, rfl⟩ := EStateM.Result.ok.inj ((hends _ (endsEscape_quote [])).symm.trans hcode)
      cases hdecoded : code.bind scalar? with
      | none =>
        rw [hdecoded] at h
        exact absurd h Run.throw_ne_ok
      | some decoded =>
        rw [hdecoded] at h
        obtain ⟨hv, rfl⟩ := Run.pure_eq_ok.1 h
        cases hv
        refine ⟨y, hy, rfl, .inl ?_⟩
        rw [if_pos ‹_›]
        refine Run.bind_eq_ok.2 ⟨_, _, hends _ (endsEscape_backquote []), ?_⟩
        rw [hdecoded]
        rfl
    rename_i hx
    rw [run_ite] at h
    split at h
    · rename_i hu
      subst hu
      obtain ⟨decoded, m₁, hunicode, h⟩ := Run.bind_eq_ok.1 h
      obtain ⟨hv, rfl⟩ := Run.pure_eq_ok.1 h
      cases hv
      obtain ⟨y, hy, rfl, htemplate | hhalves⟩ := templateEscape_of_stringUnicodeEscape hunicode
      · refine ⟨y, hy, rfl, .inl ?_⟩
        rw [if_neg hx, if_pos rfl]
        exact htemplate
      · exact ⟨y, hy, rfl, .inr ⟨rfl, hhalves⟩⟩
    rename_i hu
    refine ⟨x, List.suffix_refl x, ?_⟩
    rw [if_neg hx, if_neg hu]
    change (if e = '0' && !(x ++ ['\x27']).head?.any isDecimalDigit then _ else _ : Read
      _) _ = _ at h
    rw [run_ite] at h
    split at h
    · rename_i hzero
      obtain ⟨hv, rfl⟩ := Run.pure_eq_ok.1 h
      cases hv
      refine ⟨rfl, .inl ?_⟩
      change (if e = '0' && !(x ++ ['\x60']).head?.any isDecimalDigit then _ else _ : Read _) _ = _
      rw [← hdigit, run_ite, if_pos hzero]
      rfl
    rename_i hzero
    rw [run_ite] at h
    split at h
    · obtain ⟨_, _, -, h⟩ := Run.bind_eq_ok.1 h
      cases (Run.pure_eq_ok.1 h).1
    · obtain ⟨hv, rfl⟩ := Run.pure_eq_ok.1 h
      obtain ⟨rfl, hdecimal⟩ := Prod.mk.inj hv
      refine ⟨rfl, .inl ?_⟩
      change (if e = '0' && !(x ++ ['\x60']).head?.any isDecimalDigit then _ else
        if isDecimalDigit e then _ else _ : Read _) _ = _
      rw [← hdigit, run_ite, if_neg hzero, hdecimal]
      rfl

/-! ## Texts -/

section

variable {piece : Piece} {n : Nat} {c e v : Char}

theorem Piece.escape_of (piece : Piece) (he : isLineTerminator e = false)
    (hoctal : isOctalEscape e l.head? = false)
    (h : templateEscape e l = .ok (some v) m) : piece.escape (e :: l) = .ok (piece.push v) m := by
  change (if isLineTerminator e then _ else skip 1 >>= fun _ => peek >>= fun next =>
    templateEscape e >>= fun _ => _ : Read Piece) (e :: l) = _
  rw [run_ite, if_neg (by simp [he])]
  refine Run.bind_eq_ok.2 ⟨(), l, rfl, Run.bind_eq_ok.2 ⟨l.head?, l, rfl, ?_⟩⟩
  refine Run.bind_eq_ok.2 ⟨some v, m, h, ?_⟩
  rw [hoctal, Bool.or_false]
  rfl

/-- A line separator behind a backslash counts for nothing. -/
theorem Piece.escape_separator (he : e = '\u2028' ∨ e = '\u2029') :
    piece.escape (e :: l) = .ok piece l := by
  rcases he with rfl | rfl <;> rfl

/-- A template piece goes on behind an escape. -/
theorem pieceFrom_escape {piece' : Piece} (h : piece.escape l = .ok piece' m) :
    pieceFrom (n + 1) piece ('\\' :: l) = pieceFrom n piece' m := by
  change EStateM.bind piece.escape _ l = _
  unfold EStateM.bind
  rw [h]

/-- A template piece goes on behind a character that stands for itself. -/
theorem pieceFrom_plain (hc : c ∉ ['\x60', '$', '\\', '\r']) :
    pieceFrom (n + 1) piece (c :: l) = pieceFrom n (piece.push c) l := by
  simp only [List.mem_cons, List.not_mem_nil, or_false, not_or] at hc
  change (if c = '\x60' then _ else peekSecond >>= fun second =>
    if c = '$' && decide (second = some '\x7b') then _ else
    if c = '\\' then _ else if c = '\r' then _ else _ : Read _) (c :: l) = _
  rw [if_neg hc.1]
  change (if c = '$' && decide (l.head? = some '\x7b') then _ else
    if c = '\\' then _ else if c = '\r' then _ else _ : Read _) (c :: l) = _
  rw [if_neg (by simp [hc.2.1]), if_neg hc.2.2.1, if_neg hc.2.2.2]
  rfl

end

/-- The characters that stand for themselves, or begin an escape, in a string and in a template
alike. -/
def IsQuotable (c : Char) : Prop := c ∉ ['\x27', '\x60', '$', '\r', '\n']

/-- Behind a backslash, a template reads what a string reads, or the two halves of its pair. -/
theorem escape_of_stringEscaped {e : Char} {taken taken' : List Char} {octal : Bool}
    (h : stringEscaped taken octal (e :: x ++ ['\x27']) = .ok (taken', false) m)
    (he : IsQuotable e) :
    ∃ y, y <:+ x ∧ m = y ++ ['\x27'] ∧
      ((∃ added, taken' = added ++ taken ∧ ∀ piece : Piece,
          piece.escape (e :: x ++ ['\x60']) =
            .ok { piece with taken := added ++ piece.taken } (y ++ ['\x60'])) ∨
        e = 'u' ∧ ∃ v z, 0x10000 ≤ v.toNat ∧ taken' = v :: taken ∧ ReadsHalves x z y) := by
  rw [stringEscaped, peek_bind, List.cons_append, List.head?_cons] at h
  dsimp only at h
  rw [run_ite] at h
  split at h
  · rename_i hline
    have hseparator : e = '\u2028' ∨ e = '\u2029' := by
      simp only [isLineTerminator, Bool.or_eq_true, beq_iff_eq] at hline
      simp only [IsQuotable, List.mem_cons, List.not_mem_nil, or_false, not_or] at he
      rcases hline with ((rfl | rfl) | h) | h
      · exact absurd rfl he.2.2.2.2
      · exact absurd rfl he.2.2.2.1
      · exact .inl h
      · exact .inr h
    obtain ⟨_, m₁, hskip, hpure⟩ := Run.bind_eq_ok.1 h
    obtain ⟨hv, rfl⟩ := Run.pure_eq_ok.1 hpure
    have hm : m₁ = x ++ ['\x27'] := by
      rcases hseparator with rfl | rfl <;> exact (EStateM.Result.ok.inj hskip).2.symm
    exact ⟨x, List.suffix_refl x, hm, .inl ⟨[], (Prod.mk.inj hv).1.symm,
      fun _ => Piece.escape_separator hseparator⟩⟩
  · rename_i hline
    obtain ⟨⟨v, isOctal⟩, m₁, hescape, hpure⟩ := Run.bind_eq_ok.1
      (show (stringEscape e >>= fun _ => _ : Read _) (x ++ ['\x27']) = _ from h)
    obtain ⟨hv, rfl⟩ := Run.pure_eq_ok.1 hpure
    obtain ⟨rfl, hoctal⟩ := Prod.mk.inj hv
    obtain rfl : isOctal = false := (Bool.or_eq_false_iff.1 hoctal).2
    have hdigit := (stringEscape_plain hescape).1
    obtain ⟨y, hy, rfl, htemplate | ⟨rfl, hc, z, hz⟩⟩ := templateEscape_of_stringEscape hescape
    · refine ⟨y, hy, rfl, .inl ⟨[v], rfl, fun piece => ?_⟩⟩
      have hdigit' : isOctalEscape e (x ++ ['\x60']).head? = false := by
        cases x <;> exact hdigit
      exact Piece.escape_of piece (Bool.eq_false_iff.2 hline) hdigit' htemplate
    · exact ⟨y, hy, rfl, .inr ⟨rfl, v, z, hc, rfl, hz⟩⟩

/-- The two decoders agree on a text, apart from pairs. -/
theorem pieceFrom_of_stringFrom {n k : Nat} {taken taken' : List Char} {octal : Bool}
    (piece : Piece)
    (h : stringFrom '\x27' n taken octal (x ++ ['\x27']) = .ok (taken', false) m)
    (hx : ∀ c ∈ x, IsQuotable c) (hk : x.length < k) :
    m = [] ∧ ∃ v w, taken' = v.reverse ++ taken ∧ Unpaired v w ∧ (¬ HasPair x → w = v) ∧
      pieceFrom k piece (x ++ ['\x60']) =
        .ok ({ piece with taken := w.reverse ++ piece.taken }, true) [] := by
  induction n generalizing k taken octal piece x with
  | zero => cases h
  | succ n ih =>
    obtain ⟨k, rfl⟩ : ∃ k', k = k' + 1 := ⟨k - 1, by omega⟩
    cases x with
    | nil =>
      obtain ⟨hv, rfl⟩ := EStateM.Result.ok.inj h
      cases hv
      exact ⟨rfl, [], [], rfl, .nil, fun _ => rfl, rfl⟩
    | cons c x =>
      obtain ⟨hc, htail⟩ := List.forall_mem_cons.1 hx
      simp only [IsQuotable, List.mem_cons, List.not_mem_nil, or_false, not_or] at hc
      simp only [List.length_cons] at hk
      have hnone : ∀ {y}, y <:+ x → ¬ HasPair (c :: x) → ¬ HasPair y := fun hy hnone hpair =>
        hnone (hpair.of_infix (hy.isInfix.trans (List.suffix_cons c x).isInfix))
      rw [List.cons_append, stringFrom_cons, if_neg hc.1] at h
      split at h
      · rename_i hbackslash
        subst hbackslash
        obtain ⟨⟨taken₁, octal₁⟩, m₁, hescaped, hfrom⟩ := Run.bind_eq_ok.1 h
        obtain rfl : octal₁ = false := (stringFrom_plain hfrom).1
        cases x with
        | nil =>
          -- The backslash escapes the quote, and nothing closes the string.
          obtain rfl : m₁ = [] := (EStateM.Result.ok.inj hescaped).2.symm
          cases n <;> cases hfrom
        | cons e x =>
          obtain ⟨he, hrest⟩ := List.forall_mem_cons.1 htail
          simp only [List.length_cons] at hk
          obtain ⟨y, hy, rfl, ⟨added, rfl, hpiece⟩ | ⟨rfl, c, z, hc, rfl, hz⟩⟩ :=
            escape_of_stringEscaped hescaped he
          · have hyx := hy.length_le
            obtain ⟨rfl, v, w, rfl, hvw, hpair, hpieces⟩ := ih (k := k)
              { piece with taken := added ++ piece.taken } hfrom
              (fun c hc => hrest c (hy.subset hc)) (by omega)
            refine ⟨rfl, added.reverse ++ v, added.reverse ++ w, by simp, ?_, fun hno => ?_, ?_⟩
            · exact hvw.append _
            · rw [hpair (hnone (hy.trans (List.suffix_cons e x)) hno)]
            · change pieceFrom (k + 1) piece ('\\' :: (e :: x ++ ['\x60'])) = _
              rw [pieceFrom_escape (hpiece piece), hpieces]
              simp
          · obtain ⟨k, rfl⟩ : ∃ k', k = k' + 1 := ⟨k - 1, by omega⟩
            have hzx := hz.suffix.length_le
            have hyz := hz.suffix_second.length_le
            simp only [List.length_cons] at hzx
            obtain ⟨rfl, v, w, rfl, hvw, -, hpieces⟩ := ih (k := k)
              ((piece.push '\ufffd').push '\ufffd') hfrom
              (fun c hc => hrest c (hy.subset hc)) (by omega)
            refine ⟨rfl, c :: v, '\ufffd' :: '\ufffd' :: w, by simp, .halves hc hvw,
              fun hno => absurd hz.hasPair hno, ?_⟩
            have hfirst := Piece.escape_of piece rfl rfl hz.first
            have hsecond := Piece.escape_of (piece.push '\ufffd') rfl rfl hz.second
            change pieceFrom (k + 1 + 1) piece ('\\' :: 'u' :: (x ++ ['\x60'])) = _
            rw [pieceFrom_escape hfirst]
            change pieceFrom (k + 1) (piece.push '\ufffd') ('\\' :: 'u' :: (z ++ ['\x60'])) = _
            rw [pieceFrom_escape hsecond, hpieces]
            simp [Piece.push]
      · rename_i hbackslash
        rw [if_neg (by simp [hc])] at h
        obtain ⟨rfl, v, w, rfl, hvw, hpair, hpiece⟩ := ih (k := k) (piece.push c) h htail
          (by omega)
        refine ⟨rfl, c :: v, c :: w, by simp, .same c hvw, fun hno => ?_, ?_⟩
        · rw [hpair (hnone (List.suffix_refl x) hno)]
        · rw [List.cons_append, pieceFrom_plain (by simp [hc, hbackslash]), hpiece]
          simp [Piece.push]

end Read

/-! ## Tokens -/

theorem StartsToken.backquote : StartsToken '\x60' := ⟨rfl, rfl, by decide⟩

/-- A template means what a string with the same text means, apart from pairs of halves. Where a
text is a string without octal escapes if it stands between quotes, it is a template without
substitutions if it stands between back quotes. The two mean the same, unless the escapes of the
halves of a pair stand in the text; then the template has two replacement characters for a character
of the string. -/
theorem scan_template_of_string {text value : String} (isModule keepsComments : Bool)
    (htext : ∀ c ∈ text.toList, Read.IsQuotable c)
    (h : (Scanner.start ("'" ++ text ++ "'") isModule keepsComments).IsOneToken fun t =>
      (t.kind = .string ∧ t.octal = false ∧ t.value = .text value) ∧ t.raw = "'" ++ text ++ "'") :
    ∃ cooked, (Scanner.start ("\x60" ++ text ++ "\x60") isModule keepsComments).IsOneToken (fun t =>
        (t.kind = .template ∧ t.value = .template (some cooked) true true) ∧
        t.raw = "\x60" ++ text ++ "\x60") ∧
      Unpaired value.toList cooked.toList ∧ (¬ HasPair text.toList → cooked = value) := by
  obtain ⟨v, hv, ⟨-, hoctal, hvalue⟩, -⟩ := Scanner.IsOneToken.reads
    (P := fun v => v.kind = .string ∧ v.octal = false ∧ v.value = .text value) h
  have hquoted : ("'" ++ text ++ "'").toList = '\x27' :: (text.toList ++ ['\x27']) := by
    simp [String.toList_append]
  have hbackquoted : ("\x60" ++ text ++ "\x60").toList = '\x60' :: (text.toList ++ ['\x60']) := by
    simp [String.toList_append]
  rw [hquoted] at hv
  obtain ⟨⟨taken, octal⟩, m, hfrom, hpure⟩ := Run.bind_eq_ok.1
    (show (Read.stringFrom '\x27' ((text.toList ++ ['\x27']).length + 1) [] false >>= fun _ => _ :
      Read Lexeme) (text.toList ++ ['\x27']) = _ from hv)
  obtain ⟨rfl, rfl⟩ := Run.pure_eq_ok.1 hpure
  obtain rfl : octal = false := hoctal
  obtain ⟨-, decoded, cooked, rfl, hcooked, hpair, hpiece⟩ := Read.pieceFrom_of_stringFrom
    (k := (text.toList ++ ['\x60']).length + 1) {} hfrom htext
    (by simp only [List.length_append, List.length_singleton]; omega)
  obtain rfl : String.ofList decoded = value := by
    have htaken := TokenValue.text.inj hvalue
    simpa using htaken
  refine ⟨String.ofList cooked, ?_, ?_, fun hnone => by rw [hpair hnone]⟩
  · refine Scanner.isOneToken_of_reads
      (P := fun v =>
        v.kind = .template ∧ v.value = .template (some (String.ofList cooked)) true true)
      (v := { kind := .template, value := .template (some (String.ofList cooked)) true true })
      hbackquoted .backquote ?_ ⟨rfl, rfl⟩
    refine Run.bind_eq_ok.2 ⟨(), _, rfl,
      Run.bind_eq_ok.2 ⟨_, _, rfl, Run.bind_eq_ok.2 ⟨_, _, hpiece, ?_⟩⟩⟩
    change (pure
      { kind := .template
        value := .template (some (String.ofList (cooked.reverse ++ []).reverse)) true true } :
      Read Lexeme) [] = _
    rw [List.append_nil, List.reverse_reverse]
    rfl
  · rwa [String.toList_ofList, String.toList_ofList]

/-- The escapes of the halves of a pair are one character in a string, and two in a template. -/
theorem scan_template_pair :
    (Scanner.start "'\\uD83D\\uDE00'" false false).IsOneToken (fun t =>
      (t.kind = .string ∧ t.octal = false ∧ t.value = .text "😀") ∧ t.raw = "'\\uD83D\\uDE00'") ∧
    ¬ (Scanner.start "\x60\\uD83D\\uDE00\x60" false false).IsOneToken (fun t =>
      (t.kind = .template ∧ t.value = .template (some "😀") true true) ∧
      t.raw = "\x60\\uD83D\\uDE00\x60") := by
  constructor
  · refine Scanner.isOneToken_of_reads
      (P := fun v => v.kind = .string ∧ v.octal = false ∧ v.value = .text "😀")
      (c := '\x27') (l := "\\uD83D\\uDE00'".toList) rfl (.of_isQuote rfl)
      (v := { kind := .string, value := .text "😀" }) ?_ ⟨rfl, rfl, rfl⟩
    rfl
  · intro h
    obtain ⟨v, hv, ⟨-, hvalue⟩, -⟩ := Scanner.IsOneToken.reads
      (P := fun v => v.kind = .template ∧ v.value = .template (some "😀") true true) h
    have hcooked : (Opening.of .normal [] "\x60\\uD83D\\uDE00\x60".toList).reader
        "\x60\\uD83D\\uDE00\x60".toList =
        .ok { kind := .template, value := .template (some "\ufffd\ufffd") true true } [] := rfl
    obtain ⟨rfl, -⟩ := EStateM.Result.ok.inj (hcooked.symm.trans hv)
    exact absurd hvalue (by decide)

end Verbatim
