import Verbatim.Proofs.Scan.Read
import Verbatim.Scan.Trivia

/-!
# Trivia is what it should be

The trivia in front of a token is a sequence of pieces: white space, line terminators and comments,
each of which is well formed in front of what follows it. Which pieces there are does not depend on
what the token behind them goes on with.

## Main definitions

* `Verbatim.Trivium.Before` — a well formed piece in front of a text.
* `Verbatim.Gap` — how trivia is read, piece by piece.

## Main results

* `Verbatim.Gap.isTrivia` — what is read as trivia is trivia.
* `Verbatim.Gap.parts` — the same pieces stand in front of texts that part behind them.
-/

namespace Verbatim

open Verbatim.Text

/-! ## Well formed pieces -/

/-- A comment up to the end of its line, in front of a text. -/
structure EndsWithLine (body rest : List Char) : Prop where
  /-- The comment stays in its line. -/
  inLine : ∀ c ∈ body, isLineTerminator c = false
  /-- The text goes on with another line or not at all. -/
  atEnd : rest.head?.all isLineTerminator = true

/-- A well formed piece of trivia in front of a text. -/
inductive Trivium.Before : Trivium → List Char → Prop where
  /-- White space within a line. -/
  | blank {c : Char} {rest : List Char} (h : isBlank c = true) : Before (.blank c) rest
  /-- A line terminator. -/
  | lineEnd {c : Char} {rest : List Char} (h : isLineTerminator c = true) : Before
      (.lineEnd [c]) rest
  /-- A line terminator of two characters. -/
  | crlf {rest : List Char} : Before (.lineEnd ['\r', '\n']) rest
  /-- A comment up to the end of the line. -/
  | line {opening : String} {body rest : List Char} (ho : opening ∈ ["//", "<!--", "-->"])
      (h : EndsWithLine body rest) : Before (.comment .line opening.toList body []) rest
  /-- A comment between delimiters, the first of which closes it. -/
  | block {body rest : List Char} (h : ¬ ['*', '/'] <:+: body) :
      Before (.comment .block ['/', '*'] body ['*', '/']) rest

/-- Trivia in front of a text: a sequence of well formed pieces. -/
inductive IsTrivia : List Char → List Char → Prop where
  /-- Nothing. -/
  | nil {rest : List Char} : IsTrivia [] rest
  /-- A piece in front of trivia. -/
  | cons {piece : Trivium} {text rest : List Char} (h : piece.Before (text ++ rest))
      (ht : IsTrivia text rest) : IsTrivia (piece.chars ++ text) rest

/-- Trivia at the start of a source, which may begin with a line that names an interpreter. -/
inductive IsFirstTrivia : List Char → List Char → Prop where
  /-- Trivia. -/
  | plain {text rest : List Char} (h : IsTrivia text rest) : IsFirstTrivia text rest
  /-- The line that names an interpreter, and then trivia. -/
  | interpreter {body text rest : List Char} (h : EndsWithLine body (text ++ rest))
      (ht : IsTrivia text rest) : IsFirstTrivia ('#' :: '!' :: body ++ text) rest

/-- The rest of a line ends with it. -/
theorem endsWithLine_takeWhile (after : List Char) :
    EndsWithLine (after.takeWhile (!isLineTerminator ·))
      (after.dropWhile (!isLineTerminator ·)) := by
  refine ⟨fun c hc => by simpa using List.all_eq_true.1 List.all_takeWhile c hc, ?_⟩
  have h := List.head?_dropWhile_not (!isLineTerminator ·) after
  cases hd : (after.dropWhile (!isLineTerminator ·)).head? with
  | none => rfl
  | some c => simpa [hd] using h

/-- A line comment is its opening, its body and the rest of the text. -/
theorem lineComment_spec {opening : String} {chars : List Char}
    (h : opening.toList.isPrefixOf chars = true) :
    ∃ body rest, lineComment opening chars = (.comment .line opening.toList body [], rest) ∧
      chars = opening.toList ++ body ++ rest ∧ EndsWithLine body rest := by
  obtain ⟨after, rfl⟩ := List.isPrefixOf_iff_prefix.1 h
  have hdrop : (opening.toList ++ after).drop opening.length = after := by
    rw [← String.length_toList, List.drop_left]
  refine ⟨_, _, by rw [lineComment, hdrop], ?_, endsWithLine_takeWhile after⟩
  rw [List.append_assoc, List.takeWhile_append_dropWhile]

/-- The body of a block comment ends at the first closing delimiter. -/
theorem blockBody?_eq_some {chars body rest : List Char} :
    blockBody? chars = some (body, rest) ↔
      chars = body ++ '*' :: '/' :: rest ∧ ¬ ['*', '/'] <:+: body := by
  fun_induction blockBody? chars generalizing body rest with
  | case1 rest' =>
    constructor
    · rintro ⟨⟩
      exact ⟨rfl, by simp⟩
    · rintro ⟨h, hn⟩
      rcases body with _ | ⟨d, _ | ⟨e, body⟩⟩
      · cases h
        rfl
      · cases h
      · cases h
        exact absurd (List.prefix_append ['*', '/'] body).isInfix hn
  | case2 c rest' hc ih =>
    rw [Option.map_eq_some_iff]
    constructor
    · rintro ⟨⟨body', rest''⟩, h', hb⟩
      cases hb
      obtain ⟨hr, hn⟩ := ih.1 h'
      refine ⟨by rw [hr]; rfl, fun hi => ?_⟩
      rcases List.infix_cons_iff.1 hi with hi | hi
      · obtain ⟨hstar, hi⟩ := List.cons_prefix_cons.1 hi
        cases body' with
        | nil => simp at hi
        | cons d body' =>
          obtain ⟨rfl, -⟩ := List.cons_prefix_cons.1 hi
          exact hc _ hstar.symm hr
      · exact hn hi
    · rintro ⟨h, hn⟩
      cases body with
      | nil =>
        obtain ⟨rfl, rfl⟩ := List.cons.inj h
        exact (hc _ rfl rfl).elim
      | cons d body =>
        obtain ⟨rfl, rfl⟩ := List.cons.inj h
        exact ⟨_, ih.2 ⟨rfl, fun hi => hn (List.infix_cons hi)⟩, rfl⟩
  | case3 => simp

/-- A piece at the front of a text is well formed and stands there. -/
theorem Front.of_eq_piece {html fresh : Bool} {chars rest : List Char} {piece : Trivium}
    (h : Front.of html fresh chars = .piece piece rest) :
    chars = piece.chars ++ rest ∧ piece.Before rest := by
  have hline : ∀ {opening : String} {chars}, opening ∈ ["//", "<!--", "-->"] →
      opening.toList.isPrefixOf chars = true →
      Front.piece (lineComment opening chars).1 (lineComment opening chars).2 = .piece piece rest →
      chars = piece.chars ++ rest ∧ piece.Before rest := by
    intro opening chars ho hp h
    obtain ⟨body, rest', hl, hc, he⟩ := lineComment_spec hp
    rw [hl] at h
    cases h
    exact ⟨by rw [hc]; simp [Trivium.chars], .line ho he⟩
  unfold Front.of at h
  dsimp only at h
  split at h
  · cases h
  split at h
  · rename_i hp
    obtain ⟨after, hc⟩ := List.isPrefixOf_iff_prefix.1 hp
    cases h
    exact ⟨by rw [← hc]; rfl, .crlf⟩
  split at h
  · cases h
    exact ⟨rfl, .blank ‹_›⟩
  split at h
  · cases h
    exact ⟨rfl, .lineEnd ‹_›⟩
  split at h
  · exact hline (by decide) ‹_› h
  split at h
  · rename_i hp
    obtain ⟨after, hc⟩ := List.isPrefixOf_iff_prefix.1 hp
    split at h
    · rename_i hb
      cases h
      obtain ⟨hr, hn⟩ := blockBody?_eq_some.1 hb
      rw [← hc] at hr ⊢
      exact ⟨by simpa [Trivium.chars] using hr, .block hn⟩
    · cases h
  split at h
  · exact hline (by decide) (Bool.and_eq_true_iff.1 ‹_›).2 h
  split at h
  · exact hline (by decide) (Bool.and_eq_true_iff.1 ‹_›).2 h
  · cases h

theorem Trivium.Before.chars_ne_nil {piece : Trivium} {rest : List Char} (h : piece.Before rest) :
    piece.chars ≠ [] := by
  cases h with
  | blank => exact List.cons_ne_nil _ _
  | lineEnd => exact List.cons_ne_nil _ _
  | crlf => exact List.cons_ne_nil _ _
  | line ho =>
    simp only [List.mem_cons, List.not_mem_nil, or_false] at ho
    rcases ho with rfl | rfl | rfl <;> simp [Trivium.chars]
  | block => exact List.cons_ne_nil _ _

/-! ## Trivia piece by piece -/

/-- How trivia is read, piece by piece, up to a token. -/
inductive Gap (html : Bool) : Bool → List Char → List Trivium → List Char → Prop where
  /-- A token comes next. -/
  | nil {fresh : Bool} {chars : List Char} (h : Front.of html fresh chars = .token) :
      Gap html fresh chars [] chars
  /-- A piece comes next. -/
  | cons {fresh : Bool} {chars rest after : List Char} {piece : Trivium} {pieces : List Trivium}
      (h : Front.of html fresh chars = .piece piece rest)
      (ht : Gap html (fresh || piece.endsLine) rest pieces after) :
      Gap html fresh chars (piece :: pieces) after

namespace Gap

variable {html fresh : Bool} {chars rest : List Char} {pieces : List Trivium}

theorem chars_eq (h : Gap html fresh chars pieces rest) :
    chars = pieces.flatMap Trivium.chars ++ rest := by
  induction h with
  | nil => rfl
  | cons h _ ih => rw [(Front.of_eq_piece h).1, ih, List.flatMap_cons, List.append_assoc]

/-- What is read as trivia is trivia. -/
theorem isTrivia (h : Gap html fresh chars pieces rest) :
    IsTrivia (pieces.flatMap Trivium.chars) rest := by
  induction h with
  | nil => exact .nil
  | cons h ht ih =>
    have hb := (Front.of_eq_piece h).2
    rw [ht.chars_eq] at hb
    exact .cons hb ih

/-- Trivia that is read with enough steps and ends properly is read piece by piece. -/
theorem of_readFrom {n : Nat} (hn : chars.length ≤ n) :
    Trivia.readFrom html n fresh chars = ⟨pieces, rest, true⟩ ↔
      Gap html fresh chars pieces rest := by
  induction n generalizing fresh chars pieces with
  | zero =>
    obtain rfl := List.length_eq_zero_iff.1 (Nat.le_zero.1 hn)
    constructor
    · rintro ⟨⟩
      exact .nil rfl
    · rintro (⟨-⟩ | ⟨h, -⟩)
      · rfl
      · cases h
  | succ n ih =>
    rw [Trivia.readFrom]
    split
    · rename_i hf
      constructor
      · rintro ⟨⟩
        exact .nil hf
      · rintro (⟨-⟩ | ⟨h, -⟩)
        · rfl
        · rw [hf] at h
          cases h
    · rename_i piece after hf
      obtain ⟨hc, hb⟩ := Front.of_eq_piece hf
      have hlen : after.length ≤ n := by
        have hpos := List.length_pos_iff.2 hb.chars_ne_nil
        rw [hc, List.length_append] at hn
        omega
      constructor
      · intro h
        cases ht : Trivia.readFrom html n (fresh || piece.endsLine) after with
        | mk pieces' rest' isComplete =>
          rw [ht] at h
          cases h
          exact .cons hf ((ih hlen).1 ht)
      · rintro (⟨h⟩ | ⟨h, ht⟩)
        · rw [hf] at h
          cases h
        · rw [hf] at h
          cases h
          rw [(ih hlen).2 ht]
          rfl
    · rename_i hf
      constructor
      · rintro ⟨⟩
      · rintro (⟨h⟩ | ⟨h, -⟩) <;>
        · rw [hf] at h
          cases h

end Gap

/-! ## Comment forms of web pages -/

/-- A text begins with one of the comment forms of web pages. -/
def BeginsHtml (chars : List Char) : Prop := "<!--".toList <+: chars ∨ "-->".toList <+: chars

/-- Where the comment forms of web pages do not count, the same comes next, or one of them. -/
theorem Front.of_false (html fresh fresh' : Bool) (chars : List Char) :
    Front.of false fresh' chars = Front.of html fresh chars ∨
      Front.of false fresh' chars = .token ∧ BeginsHtml chars := by
  cases chars with
  | nil => exact .inl rfl
  | cons c l =>
    have hite : ∀ {p : Prop} [Decidable p] {f g g' : Front},
        g = g' ∨ g = .token ∧ BeginsHtml (c :: l) →
        (if p then f else g) = (if p then f else g') ∨
          (if p then f else g) = .token ∧ BeginsHtml (c :: l) := by
      intro p _ f g g' h
      split
      · exact .inl rfl
      · exact h
    unfold Front.of
    dsimp only
    refine hite (hite (hite (hite (hite ?_))))
    rw [if_neg (by simp), if_neg (by simp)]
    split
    · exact .inr ⟨rfl, .inl (List.isPrefixOf_iff_prefix.1 (Bool.and_eq_true_iff.1 ‹_›).2)⟩
    split
    · exact .inr ⟨rfl, .inr (List.isPrefixOf_iff_prefix.1 (Bool.and_eq_true_iff.1 ‹_›).2)⟩
    · exact .inl rfl

/-- There is the same trivia where the comment forms of web pages do not count, or it stops in front
of one of them. -/
theorem Gap.of_false {html fresh fresh' : Bool} {chars rest rest' : List Char}
    {pieces pieces' : List Trivium} (h : Gap html fresh chars pieces rest)
    (h' : Gap false fresh' chars pieces' rest') :
    pieces' = pieces ∧ rest' = rest ∨ BeginsHtml rest' := by
  induction h generalizing fresh' pieces' with
  | @nil fresh chars hf =>
    have hfalse := Front.of_false html fresh fresh' chars
    cases h' with
    | nil => exact .inl ⟨rfl, rfl⟩
    | cons hf' =>
      rw [hf, hf'] at hfalse
      rcases hfalse with he | ⟨he, -⟩
      · cases he
      · cases he
  | @cons fresh chars _ _ _ _ hf _ ih =>
    have hfalse := Front.of_false html fresh fresh' chars
    cases h' with
    | nil hf' =>
      rw [hf, hf'] at hfalse
      rcases hfalse with he | ⟨-, he⟩
      · cases he
      · exact .inr he
    | cons hf' ht' =>
      rw [hf, hf'] at hfalse
      rcases hfalse with he | ⟨he, -⟩
      · cases he
        obtain ⟨rfl, rfl⟩ | hbegins := ih ht'
        · exact .inl ⟨rfl, rfl⟩
        · exact .inr hbegins
      · cases he

/-! ## Trivia in front of texts that part -/

/-- None of the characters that trivia starts with is a sign at which texts part, but for the last
one of an arrow. -/
theorem openings_blunt : ∀ opening ∈ ["\r\n", "//", "/*", "<!--", "-->"], Blunt opening.toList := by
  intro opening ho
  simp only [List.mem_cons, List.not_mem_nil, or_false] at ho
  rcases ho with rfl | rfl | rfl | rfl | rfl <;> exact ⟨by simp, by simp⟩

section

variable {html fresh : Bool} {x y a b : List Char}

/-- Two fronts are the same, but for how the text goes on behind the place where texts part. -/
structure Front.Agree (y a b : List Char) (f g : Front) : Prop where
  /-- A token comes next in both. -/
  token : f = .token → g = .token
  /-- The same piece comes next in both. -/
  piece : ∀ p, f = .piece p (y ++ a) → g = .piece p (y ++ b)

/-- Nothing agrees with a piece that reaches over the place where texts part. -/
theorem Front.Agree.of_shorter {p q : Trivium} {k l : List Char} (h : k.length < a.length) :
    Agree y a b (.piece p k) (.piece q l) := by
  refine ⟨nofun, fun p' hp => ?_⟩
  have hlen := congrArg List.length (Front.piece.inj hp).2
  rw [List.length_append] at hlen
  omega

theorem Front.Agree.ite {c : Prop} [Decidable c] {f f' g g' : Front} (h : c → Agree y a b f g)
    (h' : Agree y a b f' g') : Agree y a b (if c then f else f') (if c then g else g') := by
  split
  · exact h ‹_›
  · exact h'

/-- A piece that ends in front of the place where texts part. -/
theorem Front.Agree.rest {p : Trivium} (z : List Char) :
    Agree y a b (.piece p (z ++ a)) (.piece p (z ++ b)) := by
  refine ⟨nofun, fun p' h => ?_⟩
  obtain ⟨rfl, hz⟩ := Front.piece.inj h
  rw [List.append_cancel_right hz]

/-- An opening that fits in front of the place where texts part stands there. -/
theorem prefix_of_isPrefixOf {opening : String} (hp : opening.toList.isPrefixOf (x ++ a) = true)
    (hlen : opening.length ≤ x.length) : ∃ z, x = opening.toList ++ z :=
  (List.prefix_of_prefix_length_le (List.isPrefixOf_iff_prefix.1 hp) (List.prefix_append _ _)
    (opening.length_toList.symm ▸ hlen)).imp fun _ => Eq.symm

/-- A line comment ends in front of the place where texts part, or it does not matter how. -/
theorem Front.Agree.line (hab : Parts a b) {opening : String}
    (hp : opening.toList.isPrefixOf (x ++ a) = true) :
    Agree y a b (.piece (lineComment opening (x ++ a)).1 (lineComment opening (x ++ a)).2)
      (.piece (lineComment opening (x ++ b)).1 (lineComment opening (x ++ b)).2) := by
  rcases Nat.lt_or_ge x.length opening.length with hlen | hlen
  · refine .of_shorter ?_
    have hle := (List.dropWhile_suffix (!isLineTerminator ·)
      (l := (x ++ a).drop opening.length)).length_le
    have hpos := hab.length_pos
    rw [List.length_drop, List.length_append] at hle
    exact Nat.lt_of_le_of_lt hle (by omega)
  obtain ⟨z, rfl⟩ := prefix_of_isPrefixOf hp hlen
  have hdrop : ∀ l, (opening.toList ++ z ++ l).drop opening.length = z ++ l := fun l => by
    rw [← String.length_toList, List.append_assoc, List.drop_left]
  refine ⟨nofun, fun p h => ?_⟩
  obtain ⟨rfl, hd⟩ := Front.piece.inj h
  rw [lineComment, hdrop] at hd ⊢
  obtain ⟨hd', ht'⟩ := hab.span_eq (p := fun c => !isLineTerminator c)
    (fun h => absurd h (by decide)) hd
  rw [lineComment, hdrop]
  exact congr (congrArg _ (congrArg (Trivium.comment .line opening.toList · []) ht')) hd'

/-- A block comment ends in front of the place where texts part, or it does not matter how. -/
theorem Front.Agree.block (hp : "/*".toList.isPrefixOf (x ++ a) = true) :
    Agree y a b
      (match blockBody? ((x ++ a).drop 2) with
        | some (body, rest) => .piece (.comment .block ['/', '*'] body ['*', '/']) rest
        | none => .unclosed)
      (match blockBody? ((x ++ b).drop 2) with
        | some (body, rest) => .piece (.comment .block ['/', '*'] body ['*', '/']) rest
        | none => .unclosed) := by
  rcases Nat.lt_or_ge x.length 2 with hlen | hlen
  · refine ⟨fun h => ?_, fun p h => ?_⟩
    · split at h <;> cases h
    · split at h
      · rename_i body rest hb
        have hchars := congrArg List.length (blockBody?_eq_some.1 hb).1
        have hrest := congrArg List.length (Front.piece.inj h).2
        simp only [List.length_drop, List.length_append, List.length_cons] at hchars hrest
        omega
      · cases h
  obtain ⟨z, rfl⟩ := prefix_of_isPrefixOf hp hlen
  have hdrop : ∀ l, ("/*".toList ++ z ++ l).drop 2 = z ++ l := fun l => rfl
  rw [hdrop, hdrop]
  refine ⟨fun h => ?_, fun p h => ?_⟩
  · split at h <;> cases h
  · split at h
    · rename_i body rest hb
      obtain ⟨hz, hn⟩ := blockBody?_eq_some.1 hb
      obtain ⟨rfl, rfl⟩ := Front.piece.inj h
      have hz : z = body ++ '*' :: '/' :: y :=
        List.append_cancel_right (hz.trans (by simp))
      have hb' : blockBody? (z ++ b) = some (body, y ++ b) :=
        blockBody?_eq_some.2 ⟨by rw [hz]; simp, hn⟩
      rw [hb']
    · cases h

/-- The front of a text where texts part behind it. -/
theorem Front.of_parts (hab : Parts a b) :
    Agree y a b (Front.of html fresh (x ++ a)) (Front.of html fresh (x ++ b)) := by
  have hstarts : ∀ opening ∈ ["\r\n", "//", "/*", "<!--", "-->"],
      opening.toList.isPrefixOf (x ++ a) = opening.toList.isPrefixOf (x ++ b) := fun opening ho =>
    hab.isPrefixOf_eq ((openings_blunt opening ho).drop _)
  cases x with
  | nil =>
    -- None of the signs is trivia or begins a comment.
    have htoken : ∀ l l' : List Char, Parts l l' →
        Front.of html fresh l = .token ∧ Front.of html fresh l' = .token := by
      intro l l' hl
      have hsign : ∀ {c l}, c = '#' ∨ c = '\x60' ∨ c = '>' ∨ c = '\x7d' →
          Front.of html fresh (c :: l) = .token := by
        rintro c l (rfl | rfl | rfl | rfl) <;> cases html <;> cases fresh <;> rfl
      cases hl with
      | number | piece => exact ⟨hsign (by decide), hsign (by decide)⟩
      | sign hc => exact ⟨hsign (.inr (.inr hc)), hsign (.inr (.inr hc))⟩
    obtain ⟨ha, hb⟩ := htoken a b hab
    exact ⟨fun _ => hb, fun p h => by rw [List.nil_append, ha] at h; cases h⟩
  | cons c x =>
    unfold Front.of
    dsimp only [List.cons_append]
    simp only [← List.cons_append, ← hstarts "\r\n" (by decide), ← hstarts "//" (by decide),
      ← hstarts "/*" (by decide), ← hstarts "<!--" (by decide), ← hstarts "-->" (by decide)]
    refine .ite (fun hp => ?_) (.ite (fun _ => ?_) (.ite (fun _ => ?_)
      (.ite (Front.Agree.line hab) (.ite Front.Agree.block
        (.ite (fun hp => ?_) (.ite (fun hp => ?_) ?_))))))
    · rcases Nat.lt_or_ge (c :: x).length 2 with hlen | hlen
      · refine .of_shorter ?_
        have hpos := hab.length_pos
        rw [List.length_drop, List.length_append]
        omega
      · obtain ⟨z, hz⟩ := prefix_of_isPrefixOf hp hlen
        rw [hz]
        exact Front.Agree.rest z
    · exact Front.Agree.rest x
    · exact Front.Agree.rest x
    · exact Front.Agree.line hab (Bool.and_eq_true_iff.1 hp).2
    · exact Front.Agree.line hab (Bool.and_eq_true_iff.1 hp).2
    · exact ⟨fun _ => rfl, nofun⟩

/-- The same trivia stands in front of texts that part behind it. -/
theorem Gap.parts (hab : Parts a b) {pieces : List Trivium}
    (h : Gap html fresh (x ++ a) pieces (y ++ a)) : Gap html fresh (x ++ b) pieces (y ++ b) := by
  generalize hc : x ++ a = chars at h
  generalize hr : y ++ a = rest at h
  induction h generalizing x with
  | nil h =>
    subst hc
    obtain rfl := List.append_cancel_right hr
    exact .nil ((Front.of_parts (y := []) hab).token h)
  | cons h ht ih =>
    subst hc
    have hrest := ht.chars_eq
    rw [← hr, ← List.append_assoc] at hrest
    exact .cons ((Front.of_parts hab).piece _ (hrest ▸ h)) (ih hrest.symm hr)

/-! ## Trivia at the start of a source -/

/-- How trivia is read where a line may name an interpreter. -/
inductive Lead (html : Bool) : Bool → List Char → List Trivium → List Char → Prop where
  /-- No line names an interpreter. -/
  | plain {atStart : Bool} {chars rest : List Char} {pieces : List Trivium}
      (h : (atStart && "#!".toList.isPrefixOf chars) = false)
      (hg : Gap html atStart chars pieces rest) : Lead html atStart chars pieces rest
  /-- A line names an interpreter. -/
  | interpreter {after rest : List Char} {pieces : List Trivium}
      (hg : Gap html true (after.dropWhile (!isLineTerminator ·)) pieces rest) :
      Lead html true ('#' :: '!' :: after)
        (.comment .line ['#', '!'] (after.takeWhile (!isLineTerminator ·)) [] :: pieces) rest

namespace Lead

variable {html atStart : Bool} {chars rest : List Char} {pieces : List Trivium}

/-- Trivia that ends properly is what leads to a token. -/
theorem of_read : Trivia.read html atStart chars = ⟨pieces, rest, true⟩ ↔
    Lead html atStart chars pieces rest := by
  rw [Trivia.read]
  split
  · rename_i hp
    obtain ⟨rfl, hp⟩ := Bool.and_eq_true_iff.1 hp
    obtain ⟨after, rfl⟩ := List.isPrefixOf_iff_prefix.1 hp
    change (Trivia.readFrom html (after.dropWhile (!isLineTerminator ·)).length true
      (after.dropWhile (!isLineTerminator ·))).push _ = _ ↔ _
    constructor
    · intro h
      cases ht : Trivia.readFrom html (after.dropWhile (!isLineTerminator ·)).length true
          (after.dropWhile (!isLineTerminator ·)) with
      | mk pieces' rest' isComplete =>
        rw [ht] at h
        cases h
        exact .interpreter ((Gap.of_readFrom (Nat.le_refl _)).1 ht)
    · rintro (⟨h, -⟩ | hg)
      · rw [hp] at h
        cases h
      · exact congrArg (Trivia.push _) ((Gap.of_readFrom (Nat.le_refl _)).2 hg)
  · rename_i hp
    rw [Bool.not_eq_true] at hp
    constructor
    · exact fun h => .plain hp ((Gap.of_readFrom (Nat.le_refl _)).1 h)
    · rintro (⟨-, hg⟩ | hg)
      · exact (Gap.of_readFrom (Nat.le_refl _)).2 hg
      · cases hp

theorem chars_eq (h : Lead html atStart chars pieces rest) :
    chars = pieces.flatMap Trivium.chars ++ rest := by
  cases h with
  | plain _ hg => exact hg.chars_eq
  | interpreter hg =>
    rw [List.flatMap_cons, List.append_assoc, ← hg.chars_eq]
    simp [Trivium.chars, List.takeWhile_append_dropWhile]

/-- What is read as trivia at the start of a source is trivia that may stand there. -/
theorem isFirstTrivia (h : Lead html atStart chars pieces rest) :
    IsFirstTrivia (pieces.flatMap Trivium.chars) rest := by
  cases h with
  | plain _ hg => exact .plain hg.isTrivia
  | interpreter hg =>
    have he := endsWithLine_takeWhile ‹_›
    rw [hg.chars_eq] at he
    simpa [Trivium.chars] using IsFirstTrivia.interpreter he hg.isTrivia

/-- What is read as trivia elsewhere is trivia. -/
theorem isTrivia (h : Lead html false chars pieces rest) :
    IsTrivia (pieces.flatMap Trivium.chars) rest := by
  cases h with
  | plain _ hg => exact hg.isTrivia

/-- There is the same trivia where the comment forms of web pages do not count, or it stops in front
of one of them. -/
theorem of_false {pieces' : List Trivium} {rest' : List Char}
    (h : Lead html atStart chars pieces rest) (h' : Lead false atStart chars pieces' rest') :
    pieces' = pieces ∧ rest' = rest ∨ BeginsHtml rest' := by
  cases h with
  | plain hp hg =>
    cases h' with
    | plain _ hg' => exact hg.of_false hg'
    | interpreter => cases hp
  | interpreter hg =>
    cases h' with
    | plain hp => cases hp
    | interpreter hg' =>
      obtain ⟨rfl, rfl⟩ | hbegins := hg.of_false hg'
      · exact .inl ⟨rfl, rfl⟩
      · exact .inr hbegins

/-- Trivia is read in one way only. -/
theorem unique {pieces' : List Trivium} {rest' : List Char}
    (h : Lead html atStart chars pieces rest) (h' : Lead html atStart chars pieces' rest') :
    pieces' = pieces ∧ rest' = rest := by
  have hread := (of_read.2 h').symm.trans (of_read.2 h)
  exact ⟨congrArg (·.pieces) hread, congrArg (·.rest) hread⟩

/-- The same trivia stands in front of texts that part behind it. -/
theorem parts (hab : Parts a b) (h : Lead html atStart (x ++ a) pieces (y ++ a)) :
    Lead html atStart (x ++ b) pieces (y ++ b) := by
  have hsame : "#!".toList.isPrefixOf (x ++ a) = "#!".toList.isPrefixOf (x ++ b) := by
    rcases x with _ | ⟨c, _ | ⟨d, x⟩⟩
    · cases hab with
      | number hl hl' =>
        have hfalse : ∀ l : List Char, l.head? ≠ some '!' →
            "#!".toList.isPrefixOf ('#' :: l) = false := by
          intro l hl
          cases l with
          | nil => rfl
          | cons c l =>
            have hc : ('!' == c) = false := 
              beq_eq_false_iff_ne.2 fun h => hl (congrArg some h.symm)
            change ('#' == '#' && ('!' == c && true)) = false
            rw [hc]
            rfl
        exact (hfalse _ hl).trans (hfalse _ hl').symm
      | piece => rfl
      | sign hc => rcases hc with rfl | rfl <;> rfl
    · cases hab with
      | number | piece => simp [List.isPrefixOf]
      | sign => rfl
    · rfl
  generalize hc : x ++ a = chars at h
  cases h with
  | plain h hg =>
    subst hc
    exact .plain (hsame ▸ h) (hg.parts hab)
  | interpreter hg =>
    rename_i after _
    obtain ⟨z, rfl⟩ : ∃ z, x = '#' :: '!' :: z := by
      rcases x with _ | ⟨c, _ | ⟨d, x⟩⟩
      · cases hab with
        | number hl =>
          obtain ⟨-, rfl⟩ := List.cons.inj hc
          exact absurd rfl hl
        | piece => cases hc
        | sign hsign =>
          obtain ⟨rfl, -⟩ := List.cons.inj hc
          exact absurd hsign (by decide)
      · cases hab with
        | number | piece => cases hc
        | sign hsign =>
          obtain ⟨-, hc⟩ := List.cons.inj hc
          obtain ⟨rfl, -⟩ := List.cons.inj hc
          exact absurd hsign (by decide)
      · cases hc
        exact ⟨x, rfl⟩
    obtain rfl : z ++ a = after := by simpa using hc
    have hrest := hg.chars_eq
    rw [← List.append_assoc] at hrest
    obtain ⟨hd, ht⟩ := hab.span_eq (p := fun c => !isLineTerminator c)
      (fun h => absurd h (by decide)) hrest
    rw [hrest] at hg
    have hg' := hg.parts hab
    rw [← hd] at hg'
    rw [← ht]
    exact .interpreter hg'

end Lead

end

end Verbatim
