import Verbatim.Proofs.Partition
import Verbatim.Proofs.Scan.Places

/-!
# Comments are collected exactly

Comments are kept while trivia is passed over, and the same trivia may be passed over several times:
when the parser looks one token further, and when it scans the lookahead again. Each time the
scanner forgets what it kept since the place that it goes back to. What is kept behind a token are
therefore the comments of the trivia in front of the consumed tokens and of the lookahead, each
once.

## Main definitions

* `Verbatim.PiecesAt` — well formed pieces of trivia at a place.
* `Verbatim.commentsAt` — the comments among pieces of trivia at a place.
* `Verbatim.Remarks`, `Verbatim.Collects` — a list of comments is that of the trivia in gaps.
* `Verbatim.Heeds` — a parser that has kept the comments up to its lookahead.

## Main results

* `Verbatim.LiesIn.commentsAt_eq` — the text in a gap determines its comments.
* `Verbatim.Parse.run_heeds` — a run keeps the comments in front of the tokens that it takes.
* `Verbatim.parse_comments` — the comments that a parse hands out are those between its tokens.
-/

namespace Verbatim

open Verbatim.Text

/-! ## Pieces of trivia -/

/-- A piece is no comment of web pages, unless these count. -/
def Trivium.Counts (html : Bool) : Trivium → Prop
  | .comment _ opening _ _ => opening ∈ ["<!--".toList, "-->".toList] → html = true
  | _ => True

/-- Well formed pieces of trivia in front of a text. -/
inductive Pieces (html : Bool) : List Trivium → List Char → Prop where
  /-- None. -/
  | nil {rest : List Char} : Pieces html [] rest
  /-- A piece in front of others. -/
  | cons {piece : Trivium} {pieces : List Trivium} {rest : List Char}
      (h : piece.Before (pieces.flatMap Trivium.chars ++ rest)) (counts : piece.Counts html)
      (ht : Pieces html pieces rest) : Pieces html (piece :: pieces) rest

/-- Well formed pieces of trivia at the given offset, in front of a text. The first piece of a
source may be a line that names an interpreter. -/
inductive PiecesAt (html : Bool) : Nat → List Trivium → List Char → Prop where
  /-- Pieces that may stand anywhere. -/
  | plain {offset : Nat} {pieces : List Trivium} {rest : List Char} (h : Pieces html pieces rest) :
      PiecesAt html offset pieces rest
  /-- The line that names an interpreter, and others. -/
  | interpreter {body rest : List Char} {pieces : List Trivium}
      (h : EndsWithLine body (pieces.flatMap Trivium.chars ++ rest))
      (ht : Pieces html pieces rest) :
      PiecesAt html 0 (.comment .line ['#', '!'] body [] :: pieces) rest

/-- A comment of web pages stands at the front of a text only where these count. -/
theorem Front.counts {html fresh : Bool} {chars rest : List Char} {piece : Trivium}
    (h : Front.of html fresh chars = .piece piece rest) : piece.Counts html := by
  have hline : ∀ {opening : String} {chars rest}, (opening = "//" ∨ html = true) →
      Front.piece (lineComment opening chars).1 (lineComment opening chars).2 = .piece piece rest →
      piece.Counts html := by
    rintro opening chars rest ho h
    obtain ⟨rfl, -⟩ := Front.piece.inj h
    rcases ho with rfl | rfl
    · exact fun h => absurd h (by decide)
    · exact fun _ => rfl
  unfold Front.of at h
  dsimp only at h
  split at h
  · cases h
  split at h
  · cases h
    trivial
  split at h
  · cases h
    trivial
  split at h
  · cases h
    trivial
  split at h
  · exact hline (.inl rfl) h
  split at h
  · split at h
    · cases h
      exact fun h => absurd h (by decide)
    · cases h
  split at h
  · exact hline (.inr (Bool.and_eq_true_iff.1 ‹_›).1) h
  split at h
  · exact hline (.inr (Bool.and_eq_true_iff.1 (Bool.and_eq_true_iff.1 ‹_›).1).1) h
  · cases h

theorem Trivium.Counts.mono {html html' : Bool} {piece : Trivium} (h : piece.Counts html)
    (hh : html = true → html' = true) : piece.Counts html' := by
  cases piece with
  | comment => exact fun ho => hh (h ho)
  | _ => trivial

/-- What is read as trivia is made of well formed pieces. -/
theorem Gap.pieces {html html' fresh : Bool} {chars rest : List Char} {pieces : List Trivium}
    (h : Gap html fresh chars pieces rest) (hh : html = true → html' = true) :
    Pieces html' pieces rest := by
  induction h with
  | nil => exact .nil
  | cons hf ht ih =>
    have hbefore := (Front.of_eq_piece hf).2
    rw [ht.chars_eq] at hbefore
    exact .cons hbefore ((Front.counts hf).mono hh) ih

/-- So is what is read as trivia at a given offset. -/
theorem Lead.piecesAt {html html' : Bool} {offset : Nat} {chars rest : List Char}
    {pieces : List Trivium} (h : Lead html (offset = 0) chars pieces rest)
    (hh : html = true → html' = true) : PiecesAt html' offset pieces rest := by
  generalize hstart : decide (offset = 0) = atStart at h
  cases h with
  | plain _ hg => exact .plain (hg.pieces hh)
  | interpreter hg =>
    obtain rfl := of_decide_eq_true hstart
    have hline := endsWithLine_takeWhile ‹_›
    rw [hg.chars_eq] at hline
    exact .interpreter hline (hg.pieces hh)

/-! ## Comments at a place -/

section

variable (source : String)

/-- The comment that a piece of trivia at the given offset of a source is, if it is one. -/
def Trivium.commentAt (offset : Nat) : Trivium → Option Comment
  | .comment kind opening body closing => some
      { kind
        value := String.ofList body
        span := .between (pointAt source offset)
          (pointAt source (offset + byteLength (opening ++ body ++ closing))) }
  | _ => none

/-- The comments among pieces of trivia at the given offset of a source. -/
def commentsAt : Nat → List Trivium → List Comment
  | _, [] => []
  | offset, piece :: pieces =>
    (piece.commentAt source offset).toList ++ commentsAt (offset + byteLength piece.chars) pieces

/-- Pieces of trivia lie in a gap of a source. -/
def LiesIn (html : Bool) (gap : Nat × Nat) (pieces : List Trivium) : Prop :=
  ∃ rest, IsSlice source.toList gap (pieces.flatMap Trivium.chars) rest ∧
    PiecesAt html gap.1 pieces rest

/-- The comments of the trivia in the given gaps of a source, one gap after the other. -/
inductive Remarks (html : Bool) : List (Nat × Nat) → List Comment → Prop where
  /-- No gaps. -/
  | nil : Remarks html [] []
  /-- A gap in front of others. -/
  | cons {gap : Nat × Nat} {gaps : List (Nat × Nat)} {pieces : List Trivium}
      {comments : List Comment} (h : LiesIn source html gap pieces)
      (ht : Remarks html gaps comments) :
      Remarks html (gap :: gaps) (commentsAt source gap.1 pieces ++ comments)

end

section

variable {source : String} {html html' : Bool}

/-- Passing over pieces of trivia keeps their comments. -/
theorem Scanner.past_comments {s : Scanner} {pieces : List Trivium} {rest : List Char}
    (hs : s.cursor.IsOf source) (hk : s.keepsComments = true)
    (hc : s.cursor.rest = pieces.flatMap Trivium.chars ++ rest) :
    (s.past pieces).comments.toList =
      s.comments.toList ++ commentsAt source s.cursor.position.offset pieces := by
  induction pieces generalizing s with
  | nil => exact (List.append_nil _).symm
  | cons piece pieces ih =>
    rw [List.flatMap_cons, List.append_assoc] at hc
    obtain ⟨hrest, hoffset⟩ := Cursor.advanceBy_length hc
    have hafter := hs.advanceBy piece.chars.length
    obtain ⟨kept, hp⟩ := s.exists_walk piece
    have hnext := ih (s := s.walk piece) (by rw [hp]; exact hafter) (by rw [hp]; exact hk)
      (by rw [hp]; exact hrest)
    have hwalk : (s.walk piece).comments.toList =
        s.comments.toList ++ (piece.commentAt source s.cursor.position.offset).toList := by
      cases piece with
      | comment kind opening body closing =>
        have hstop := hafter.position.eq
        rw [hoffset] at hstop
        change (if s.keepsComments then _ else _ : Scanner).comments.toList = _
        rw [if_pos hk, Array.toList_push]
        refine congrArg
          (fun span => s.comments.toList ++ [Comment.mk kind (String.ofList body) span]) ?_
        change Span.between s.cursor.position _ = Span.between (pointAt _ _) _
        rw [← hs.position.eq]
        exact congrArg _ hstop
      | _ => exact (List.append_nil _).symm
    change ((s.walk piece).past pieces).comments.toList = _
    rw [hnext, hwalk, commentsAt, List.append_assoc, hp]
    exact congrArg (fun offset => _ ++ (_ ++ commentsAt source offset pieces)) hoffset

end

/-! ## The text determines the comments -/

/-- A character within a line ends none. -/
theorem Text.not_lineTerminator_of_blank {c : Char} (h : isBlank c = true) :
    isLineTerminator c = false := by
  refine Bool.eq_false_iff.2 fun hl => ?_
  simp only [isLineTerminator, Bool.or_eq_true, beq_iff_eq] at hl
  rcases hl with ((rfl | rfl) | rfl) | rfl <;> exact absurd h (by decide)

/-- The rest of a line is what stands in front of its end. -/
theorem EndsWithLine.span {body rest : List Char} (h : EndsWithLine body rest) :
    (body ++ rest).takeWhile (!isLineTerminator ·) = body ∧
      (body ++ rest).dropWhile (!isLineTerminator ·) = rest := by
  have hbody : ∀ c ∈ body, (!isLineTerminator c) = true := fun c hc => by rw [h.inLine c hc]; rfl
  have hrest : rest.takeWhile (!isLineTerminator ·) = [] ∧
      rest.dropWhile (!isLineTerminator ·) = rest := by
    cases rest with
    | nil => exact ⟨rfl, rfl⟩
    | cons c rest =>
      have hc : isLineTerminator c = true := h.atEnd
      simp [hc]
  rw [List.takeWhile_append_of_pos hbody, List.dropWhile_append_of_pos hbody, hrest.1, hrest.2]
  exact ⟨List.append_nil _, rfl⟩

/-- A well formed piece is the one at the front of the text, unless it is half of a line end. -/
theorem Trivium.Before.front {piece : Trivium} {after : List Char} (h : piece.Before after)
    (hsplit : piece = .lineEnd ['\r'] → after.head? ≠ some '\n') :
    Front.of true true (piece.chars ++ after) = .piece piece after := by
  cases h with
  | @blank c _ h =>
    have hl := Text.not_lineTerminator_of_blank h
    have hc : ('\r' == c) = false := by
      refine beq_eq_false_iff_ne.2 fun hc => ?_
      subst hc
      cases hl
    simp [Front.of, Trivium.chars, List.isPrefixOf, h, hc]
  | @lineEnd c _ h =>
    have hb : isBlank c = false := by
      refine Bool.eq_false_iff.2 fun hb => ?_
      rw [Text.not_lineTerminator_of_blank hb] at h
      cases h
    have hcrlf : "\r\n".toList.isPrefixOf (c :: after) = false := by
      refine Bool.eq_false_iff.2 fun hp => ?_
      obtain ⟨l, hl⟩ := List.isPrefixOf_iff_prefix.1 hp
      obtain ⟨rfl, rfl⟩ := List.cons.inj hl
      exact hsplit rfl rfl
    change (if "\r\n".toList.isPrefixOf (c :: after) = true then _ else
      if isBlank c = true then _ else if isLineTerminator c = true then _ else _) = _
    rw [hcrlf, hb, h]
    rfl
  | crlf => simp [Front.of, Trivium.chars, List.isPrefixOf]
  | @line opening body _ ho he =>
    obtain ⟨ht, hd⟩ := he.span
    have hline : lineComment opening (opening.toList ++ (body ++ after)) =
        (.comment .line opening.toList body [], after) := by
      rw [lineComment, ← String.length_toList, List.drop_left, ht, hd]
    have hchars : (Trivium.comment .line opening.toList body []).chars ++ after =
        opening.toList ++ (body ++ after) := by
      simp [Trivium.chars]
    rw [hchars]
    simp only [List.mem_cons, List.not_mem_nil, or_false] at ho
    rcases ho with rfl | rfl | rfl
    · change Front.piece (lineComment "//" _).1 (lineComment "//" _).2 = _
      rw [hline]
    · change Front.piece (lineComment "<!--" _).1 (lineComment "<!--" _).2 = _
      rw [hline]
    · change Front.piece (lineComment "-->" _).1 (lineComment "-->" _).2 = _
      rw [hline]
  | @block body _ hn =>
    have hbody : blockBody? (body ++ '*' :: '/' :: after) = some (body, after) :=
      blockBody?_eq_some.2 ⟨rfl, hn⟩
    have hchars : (Trivium.comment .block ['/', '*'] body ['*', '/']).chars ++ after =
        '/' :: '*' :: (body ++ '*' :: '/' :: after) := by
      simp [Trivium.chars]
    rw [hchars]
    have hdrop : ('/' :: '*' :: (body ++ '*' :: '/' :: after)).drop 2 = body ++ '*' ::
      '/' :: after :=
      rfl
    have hblock : (if "/*".toList.isPrefixOf ('/' :: '*' :: (body ++ '*' :: '/' :: after)) then
        Front.piece (.comment .block ['/', '*'] body ['*', '/']) after else .token) =
        .piece (.comment .block ['/', '*'] body ['*', '/']) after := rfl
    dsimp only [Front.of]
    rw [hdrop, hbody]
    exact hblock


/-- Pieces of the same text are the same, or one of them is half of a line end. -/
theorem Trivium.Before.eq_or_split {piece piece' : Trivium} {after after' : List Char}
    (h : piece.Before after) (h' : piece'.Before after')
    (hc : piece.chars ++ after = piece'.chars ++ after') :
    piece = piece' ∧ after = after' ∨
      piece = .lineEnd ['\r'] ∧ piece' = .lineEnd ['\r', '\n'] ∧ after = '\n' :: after' ∨
      piece = .lineEnd ['\r', '\n'] ∧ piece' = .lineEnd ['\r'] ∧ after' = '\n' :: after := by
  have hcrlf : ∀ l, Front.of true true ('\r' :: '\n' :: l) = .piece (.lineEnd ['\r', '\n']) l :=
    fun _ => rfl
  by_cases hs : piece = .lineEnd ['\r'] → after.head? ≠ some '\n' <;>
    by_cases hs' : piece' = .lineEnd ['\r'] → after'.head? ≠ some '\n'
  · have hfront := h.front hs
    rw [hc, h'.front hs'] at hfront
    obtain ⟨rfl, rfl⟩ := Front.piece.inj hfront
    exact .inl ⟨rfl, rfl⟩
  · obtain ⟨rfl, hn⟩ : piece' = .lineEnd ['\r'] ∧ after'.head? = some '\n' := by simpa using hs'
    obtain ⟨l, rfl⟩ := List.head?_eq_some_iff.1 hn
    have hfront := h.front hs
    rw [hc] at hfront
    obtain ⟨rfl, rfl⟩ := Front.piece.inj ((hcrlf l).symm.trans hfront)
    exact .inr (.inr ⟨rfl, rfl, rfl⟩)
  · obtain ⟨rfl, hn⟩ : piece = .lineEnd ['\r'] ∧ after.head? = some '\n' := by simpa using hs
    obtain ⟨l, rfl⟩ := List.head?_eq_some_iff.1 hn
    have hfront := h'.front hs'
    rw [← hc] at hfront
    obtain ⟨rfl, rfl⟩ := Front.piece.inj ((hcrlf l).symm.trans hfront)
    exact .inr (.inl ⟨rfl, rfl, rfl⟩)
  · obtain ⟨rfl, -⟩ : piece = .lineEnd ['\r'] ∧ after.head? = some '\n' := by simpa using hs
    obtain ⟨rfl, -⟩ : piece' = .lineEnd ['\r'] ∧ after'.head? = some '\n' := by simpa using hs'
    exact .inl ⟨rfl, (List.cons.inj hc).2⟩

/-- Only a line end begins with a line feed. -/
theorem Trivium.Before.newline {piece : Trivium} {after text : List Char} (h : piece.Before after)
    (hc : piece.chars ++ after = '\n' :: text) : piece = .lineEnd ['\n'] ∧ after = text := by
  have hline : (Trivium.lineEnd ['\n']).Before text := .lineEnd rfl
  rcases h.eq_or_split hline hc with ⟨hp, ha⟩ | ⟨-, hp, -⟩ | ⟨-, hp, -⟩
  · exact ⟨hp, ha⟩
  · cases hp
  · cases hp

/-- Well formed pieces of the same text in front of the same rest are the same comments. -/
theorem Pieces.commentsAt_eq {html html' : Bool} {pieces pieces' : List Trivium} {rest : List Char}
    (h : Pieces html pieces rest) (h' : Pieces html' pieces' rest)
    (hc : pieces.flatMap Trivium.chars = pieces'.flatMap Trivium.chars) (source : String)
    (offset : Nat) : commentsAt source offset pieces = commentsAt source offset pieces' := by
  induction h generalizing pieces' offset with
  | nil =>
    cases h' with
    | nil => rfl
    | cons hb => exact absurd (List.append_eq_nil_iff.1 hc.symm).1 hb.chars_ne_nil
  | @cons piece pieces rest hb _ _ ih =>
    cases h' with
    | nil => exact absurd (List.append_eq_nil_iff.1 hc).1 hb.chars_ne_nil
    | @cons piece' pieces' _ hb' _ ht' =>
      have htext : piece.chars ++ (pieces.flatMap Trivium.chars ++ rest) =
          piece'.chars ++ (pieces'.flatMap Trivium.chars ++ rest) := by
        rw [← List.append_assoc, ← List.append_assoc]
        exact congrArg (· ++ rest) hc
      rcases hb.eq_or_split hb' htext with ⟨rfl, hr⟩ | ⟨rfl, rfl, hr⟩ | ⟨rfl, rfl, hr⟩
      · exact congrArg (_ ++ ·) (ih ht' (List.append_cancel_right hr) _)
      · -- The other half of the line end stands in front of the pieces on the one side.
        have hsame := ih (.cons (.lineEnd rfl) trivial ht')
          (List.append_cancel_right (hr.trans rfl)) (offset + 1)
        exact hsame
      · cases ht' with
        | nil => cases (List.cons.inj (show '\r' :: '\n' :: _ = '\r' :: [] from hc)).2
        | @cons half pieces' _ hhalf _ ht' =>
          rw [List.flatMap_cons, List.append_assoc] at hr
          obtain ⟨rfl, hsame⟩ := hhalf.newline hr
          exact ih ht' (List.append_cancel_right hsame).symm _

/-- The same holds for pieces at the same offset. -/
theorem PiecesAt.commentsAt_eq {html html' : Bool} {offset : Nat} {pieces pieces' : List Trivium}
    {rest : List Char} (h : PiecesAt html offset pieces rest)
    (h' : PiecesAt html' offset pieces' rest)
    (hc : pieces.flatMap Trivium.chars = pieces'.flatMap Trivium.chars) (source : String) :
    commentsAt source offset pieces = commentsAt source offset pieces' := by
  -- No piece begins like the line that names an interpreter.
  have hsharp : ∀ {html pieces text}, Pieces html pieces rest →
      pieces.flatMap Trivium.chars ≠ '#' :: text := by
    intro html pieces text hp hc
    cases hp with
    | nil => cases hc
    | @cons piece pieces _ hb =>
      have hfront := hb.front fun h => by subst h; cases hc
      rw [← List.append_assoc] at hfront
      rw [← List.flatMap_cons, hc] at hfront
      cases hfront
  cases h with
  | plain h =>
    cases h' with
    | plain h' => exact h.commentsAt_eq h' hc source offset
    | interpreter => exact absurd hc (hsharp h)
  | @interpreter body _ pieces he ht =>
    cases h' with
    | plain h' => exact absurd hc.symm (hsharp h')
    | @interpreter body' _ pieces' he' ht' =>
      have htext : body ++ (pieces.flatMap Trivium.chars ++ rest) =
          body' ++ (pieces'.flatMap Trivium.chars ++ rest) := by
        have hc := congrArg (· ++ rest) hc
        simpa [Trivium.chars] using hc
      have hbody := he.span.1
      have hafter := he.span.2
      rw [htext, he'.span.1] at hbody
      rw [htext, he'.span.2] at hafter
      subst hbody
      exact congrArg (_ ++ ·) (ht.commentsAt_eq ht' (List.append_cancel_right hafter).symm source _)

/-- There is one part of a text in a range. -/
theorem IsSlice.unique {text part part' rest rest' : List Char} {range : Nat × Nat}
    (h : IsSlice text range part rest) (h' : IsSlice text range part' rest') :
    part = part' ∧ rest = rest' := by
  obtain ⟨before, ht, hstart, hstop⟩ := h
  obtain ⟨before', ht', hstart', hstop'⟩ := h'
  have hlen : ∀ {x y : List Char}, text = x ++ y → charsWithin (byteLength x) text = x.length :=
    fun h => by rw [h]; exact charsWithin_byteLength _ _
  have hfront := hlen (ht.trans (List.append_assoc ..))
  rw [← hstart, hstart', hlen (ht'.trans (List.append_assoc ..))] at hfront
  have hback := hlen ht
  rw [byteLength_append, ← hstop, hstop', ← byteLength_append, hlen ht'] at hback
  obtain ⟨hboth, hrest⟩ := List.append_inj (ht'.symm.trans ht) hback
  exact ⟨(List.append_inj hboth hfront).2.symm, hrest.symm⟩

/-- The text in a gap determines its comments. -/
theorem LiesIn.commentsAt_eq {source : String} {html html' : Bool} {gap : Nat × Nat}
    {pieces pieces' : List Trivium} (h : LiesIn source html gap pieces)
    (h' : LiesIn source html' gap pieces') :
    commentsAt source gap.1 pieces = commentsAt source gap.1 pieces' := by
  obtain ⟨rest, hs, hp⟩ := h
  obtain ⟨rest', hs', hp'⟩ := h'
  obtain ⟨hc, rfl⟩ := hs.unique hs'
  exact hp.commentsAt_eq hp' hc source

/-- So do the texts in all gaps. -/
theorem Remarks.unique {source : String} {html html' : Bool} {gaps : List (Nat × Nat)}
    {comments comments' : List Comment} (h : Remarks source html gaps comments)
    (h' : Remarks source html' gaps comments') : comments = comments' := by
  induction h generalizing comments' with
  | nil =>
    cases h'
    rfl
  | cons hl _ ih =>
    cases h' with
    | cons hl' ht' => rw [hl.commentsAt_eq hl', ih ht']

/-! ## Where comments stand -/

/-- The delimiters of a comment of the given kind that starts at the given offset. -/
inductive Delimits (html : Bool) : CommentKind → Nat → List Char → List Char → Prop where
  /-- Two slashes, up to the end of the line. -/
  | line {offset : Nat} : Delimits html .line offset ['/', '/'] []
  /-- A slash and a star, and the other way round. -/
  | block {offset : Nat} : Delimits html .block offset ['/', '*'] ['*', '/']
  /-- The line that names an interpreter, at the start of the source. -/
  | interpreter : Delimits html .line 0 ['#', '!'] []
  /-- The comment forms of web pages, where these count. -/
  | web {offset : Nat} {opening : String} (h : opening ∈ ["<!--", "-->"]) (counts : html = true) :
    Delimits html .line offset opening.toList []

/-- A comment lies in a gap of a source, and its value is the text between its delimiters. -/
def Comment.LiesIn (source : String) (html : Bool) (gap : Nat × Nat) (comment : Comment) : Prop :=
  ∃ range opening closing rest, comment.span.range = some range ∧ gap.1 ≤ range.1 ∧
    range.2 ≤ gap.2 ∧ Delimits html comment.kind range.1 opening closing ∧
    IsSlice source.toList range (opening ++ comment.value.toList ++ closing) rest

/-- A comment starts in front of another one. -/
def Comment.Precedes (comment later : Comment) : Prop :=
  ∃ range range', comment.span.range = some range ∧ later.span.range = some range' ∧
    range.1 < range'.1

section

variable {source : String} {html : Bool}

theorem Delimits.opening_ne_nil {kind : CommentKind} {offset : Nat} {opening closing : List Char}
    (h : Delimits html kind offset opening closing) : opening ≠ [] := by
  cases h with
  | @web _ opening h =>
    simp only [List.mem_cons, List.not_mem_nil, or_false] at h
    rcases h with rfl | rfl <;> decide
  | _ => exact List.cons_ne_nil _ _

theorem Comment.LiesIn.mono {comment : Comment} {gap gap' : Nat × Nat}
    (h : comment.LiesIn source html gap) (hs : gap'.1 ≤ gap.1) (ht : gap.2 ≤ gap'.2) :
    comment.LiesIn source html gap' := by
  obtain ⟨range, opening, closing, rest, hr, hstart, hstop, h⟩ := h
  exact ⟨range, opening, closing, rest, hr, Nat.le_trans hs hstart, Nat.le_trans hstop ht, h⟩

/-- A comment in a gap starts in front of those in a later gap. -/
theorem Comment.LiesIn.precedes {comment later : Comment} {gap gap' : Nat × Nat}
    (h : comment.LiesIn source html gap) (h' : later.LiesIn source html gap')
    (hg : gap.2 ≤ gap'.1) : comment.Precedes later := by
  obtain ⟨range, opening, closing, rest, hr, hstart, hstop, hd, before, -, h₁, h₂⟩ := h
  obtain ⟨range', -, -, -, hr', hstart', -⟩ := h'
  refine ⟨range, range', hr, hr', ?_⟩
  have hpos := byteLength_pos hd.opening_ne_nil
  rw [byteLength_append, byteLength_append] at h₂
  omega

/-- The comment that a piece of trivia is lies where the piece does. -/
theorem Trivium.commentAt_liesIn {kind : CommentKind} {range : Nat × Nat}
    {opening body closing rest : List Char} (hd : Delimits html kind range.1 opening closing)
    (hs : IsSlice source.toList range (opening ++ body ++ closing) rest) :
    ∀ c ∈ (Trivium.comment kind opening body closing).commentAt source range.1,
      c.LiesIn source html range := by
  rintro c ⟨⟩
  obtain ⟨before, ht, hstart, hstop⟩ := hs
  refine ⟨range, opening, closing, rest, ?_, Nat.le_refl _, Nat.le_refl _, hd, before, ?_, hstart,
    ?_⟩
  · rw [← hstart] at hstop
    rw [show range = (range.1, _) from congrArg (range.1, ·) hstop]
    rfl
  · rwa [String.toList_ofList]
  · rwa [String.toList_ofList]

/-- A well formed piece is a comment where it stands, if it is one. -/
theorem Trivium.Before.commentAt {piece : Trivium} {range : Nat × Nat} {rest : List Char}
    (h : piece.Before rest) (counts : piece.Counts html)
    (hs : IsSlice source.toList range piece.chars rest) :
    ∀ c ∈ piece.commentAt source range.1, c.LiesIn source html range := by
  cases h with
  | line ho =>
    refine commentAt_liesIn ?_ hs
    simp only [List.mem_cons, List.not_mem_nil, or_false] at ho
    rcases ho with rfl | rfl | rfl
    · exact .line
    · exact .web (by decide) (counts (by decide))
    · exact .web (by decide) (counts (by decide))
  | block => exact commentAt_liesIn .block hs
  | _ => exact fun _ h => nomatch h

/-- A slice is divided where its text is. -/
theorem IsSlice.split {text part part' rest : List Char} {range : Nat × Nat}
    (h : IsSlice text range (part ++ part') rest) :
    IsSlice text (range.1, range.1 + byteLength part) part (part' ++ rest) ∧
      IsSlice text (range.1 + byteLength part, range.2) part' rest := by
  obtain ⟨before, ht, hstart, hstop⟩ := h
  refine ⟨⟨before, by simp [ht], hstart, by rw [hstart]⟩, before ++ part, by simp [ht], ?_, ?_⟩
  · rw [byteLength_append, ← hstart]
  · rw [byteLength_append, Nat.add_assoc, ← byteLength_append]
    exact hstop

theorem IsSlice.le {text part rest : List Char} {range : Nat × Nat}
    (h : IsSlice text range part rest) : range.1 ≤ range.2 := by
  obtain ⟨before, -, hstart, hstop⟩ := h
  omega

/-- Comments lie in a gap, one behind the other. -/
def AllIn (source : String) (html : Bool) (gap : Nat × Nat) (comments : List Comment) : Prop :=
  (∀ c ∈ comments, c.LiesIn source html gap) ∧ comments.Pairwise Comment.Precedes

/-- The comments of a piece and of those behind it lie one behind the other. -/
theorem AllIn.cons {piece : Trivium} {pieces : List Trivium} {gap : Nat × Nat} {rest : List Char}
    (hs : IsSlice source.toList gap (piece.chars ++ pieces.flatMap Trivium.chars) rest)
    (h : ∀ c ∈ piece.commentAt source gap.1,
      c.LiesIn source html (gap.1, gap.1 + byteLength piece.chars))
    (ht : AllIn source html (gap.1 + byteLength piece.chars, gap.2)
      (commentsAt source (gap.1 + byteLength piece.chars) pieces)) :
    AllIn source html gap (commentsAt source gap.1 (piece :: pieces)) := by
  have hle := hs.split.2.le
  refine ⟨fun c hc => ?_, List.pairwise_append.2 ⟨?_, ht.2, fun c hc c' hc' => ?_⟩⟩
  · rcases List.mem_append.1 hc with hc | hc
    · exact (h c (Option.mem_toList.1 hc)).mono (Nat.le_refl _) hle
    · exact (ht.1 c hc).mono (Nat.le_add_right _ _) (Nat.le_refl _)
  · cases piece.commentAt source gap.1 <;> simp
  · exact (h c (Option.mem_toList.1 hc)).precedes (ht.1 c' hc') (Nat.le_refl _)

/-- The comments among well formed pieces of trivia lie where the pieces do. -/
theorem Pieces.allIn {pieces : List Trivium} {gap : Nat × Nat} {rest : List Char}
    (h : Pieces html pieces rest)
    (hs : IsSlice source.toList gap (pieces.flatMap Trivium.chars) rest) :
    AllIn source html gap (commentsAt source gap.1 pieces) := by
  induction h generalizing gap with
  | nil => exact ⟨fun _ h => absurd h List.not_mem_nil, .nil⟩
  | cons hb counts _ ih => exact .cons hs (hb.commentAt counts hs.split.1) (ih hs.split.2)

/-- The comments in a gap lie in it. -/
theorem LiesIn.allIn {pieces : List Trivium} {gap : Nat × Nat} (h : LiesIn source html gap pieces) :
    AllIn source html gap (commentsAt source gap.1 pieces) := by
  obtain ⟨rest, hs, hp⟩ := h
  generalize hoffset : gap.1 = offset at hp
  cases hp with
  | plain hp =>
    rw [← hoffset]
    exact hp.allIn hs
  | interpreter he ht =>
    rw [← hoffset]
    exact .cons hs (Trivium.commentAt_liesIn (hoffset ▸ .interpreter) hs.split.1)
      (ht.allIn hs.split.2)

/-- The comments of gaps lie in them, one behind the other, if the gaps do. -/
theorem Remarks.allIn {gaps : List (Nat × Nat)} {comments : List Comment}
    (h : Remarks source html gaps comments)
    (hg : gaps.Pairwise fun gap later => gap.2 ≤ later.1) :
    (∀ c ∈ comments, ∃ gap ∈ gaps, c.LiesIn source html gap) ∧
      comments.Pairwise Comment.Precedes := by
  induction h with
  | nil => exact ⟨fun _ h => absurd h List.not_mem_nil, .nil⟩
  | @cons gap gaps pieces comments hl _ ih =>
    obtain ⟨hfirst, hg⟩ := List.pairwise_cons.1 hg
    obtain ⟨hin, hpair⟩ := ih hg
    refine ⟨fun c hc => ?_, List.pairwise_append.2 ⟨hl.allIn.2, hpair, fun c hc c' hc' => ?_⟩⟩
    · rcases List.mem_append.1 hc with hc | hc
      · exact ⟨gap, List.mem_cons_self, hl.allIn.1 c hc⟩
      · obtain ⟨gap', hmem, hc⟩ := hin c hc
        exact ⟨gap', List.mem_cons_of_mem _ hmem, hc⟩
    · obtain ⟨gap', hmem, hc'⟩ := hin c' hc'
      exact (hl.allIn.1 c hc).precedes hc' (hfirst gap' hmem)

end

/-! ## Scanning keeps comments -/

/-- A scanner that stands in a source and keeps comments. -/
structure Scanner.Keeps (source : String) (html : Bool) (s : Scanner) : Prop where
  /-- The place is one of the source. -/
  cursor : s.cursor.IsOf source
  /-- Comments are kept. -/
  keeps : s.keepsComments = true
  /-- Whether the comment forms of web pages may count. -/
  isModule : s.isModule = !html

/-- A token was scanned behind trivia at the given place, and its comments were kept behind the
given ones. -/
structure Scanner.Kept (source : String) (html : Bool) (offset : Nat) (earlier : List Comment)
    (t : Token) (s : Scanner) : Prop extends s.Keeps source html where
  /-- The scanner stands behind the token. -/
  stop : s.cursor.position.offset = t.stop.offset
  /-- The comments that are kept are those of the trivia in front of the token. -/
  comments : ∃ pieces, LiesIn source html (offset, t.start.offset) pieces ∧
    s.comments.toList = earlier ++ commentsAt source offset pieces

section

variable {source : String} {html : Bool} {s s' : Scanner} {t : Token}

/-- A find keeps the comments of its trivia. -/
theorem Find.kept {f : Find} (hs : s.Keeps source html)
    (hc : s.cursor.rest = f.lead ++ f.raw ++ f.rest)
    (hp : PiecesAt html s.cursor.position.offset f.pieces (f.raw ++ f.rest)) (braces : List Brace) :
    (f.after s braces).Kept source html s.cursor.position.offset s.comments.toList (f.token s) := by
  have hc' : s.cursor.rest = f.pieces.flatMap Trivium.chars ++ (f.raw ++ f.rest) := by
    rw [hc, List.append_assoc]
    rfl
  obtain ⟨kept, hpast⟩ := s.exists_past f.pieces
  refine ⟨⟨(hs.cursor.advanceBy _).advanceBy _, ?_, ?_⟩, rfl, f.pieces, ⟨_, ?_, hp⟩,
    Scanner.past_comments hs.cursor hs.keeps hc'⟩
  · change (s.past f.pieces).keepsComments = _
    rw [hpast]
    exact hs.keeps
  · exact (s.past_isModule _).trans hs.isModule
  · obtain ⟨before, hsource, hposition⟩ := hs.cursor
    have hoffset : s.cursor.position.offset = byteLength before := by rw [hposition]
    refine ⟨before, ?_, hoffset, ?_⟩
    · rw [hsource, hc', List.append_assoc]
    · change (f.front s).position.offset = _
      rw [(Find.front_spec hc).2, hoffset]
      rfl

/-- Scanning a token keeps the comments in front of it. -/
theorem Scan.next_kept (hs : s.Keeps source html) (h : next s = .ok t s') :
    s'.Kept source html s.cursor.position.offset s.comments.toList t := by
  obtain ⟨f, hf, rfl, rfl⟩ := next_eq_ok.1 h
  refine Find.kept hs hf.chars ?_ _
  have htrivia := hf.trivia
  split at htrivia
  · rw [htrivia]
    exact .plain .nil
  · refine htrivia.piecesAt fun hh => ?_
    have hm := (Bool.and_eq_true_iff.1 hh).1
    rw [hs.isModule, Bool.not_not] at hm
    exact hm

/-- So does scanning a regular expression. -/
theorem Scan.nextRegex_kept (hs : s.Keeps source html) (h : nextRegex s = .ok t s') :
    s'.Kept source html s.cursor.position.offset s.comments.toList t := by
  obtain ⟨f, hf, rfl, rfl⟩ := nextRegex_eq_ok.1 h
  refine Find.kept hs hf.chars (hf.trivia.piecesAt fun hh => ?_) _
  have hm := (Bool.and_eq_true_iff.1 hh).1
  rw [hs.isModule, Bool.not_not] at hm
  exact hm

end

/-! ## Runs keep comments -/

/-- The given comments are those in front of the given tokens, and the trivia behind these starts at
the given offset. -/
def Remarked (source : String) (html : Bool) (tokens : List Token) (comments : List Comment)
    (offset : Nat) : Prop :=
  ∀ stop pieces, LiesIn source html (offset, stop) pieces →
    Remarks source html (gaps stop 0 (tokens.map Token.range))
      (comments ++ commentsAt source offset pieces)

/-- A parser that has taken the given tokens has kept the comments in front of them and of its
lookahead. -/
structure Heeds (source : String) (html : Bool) (tokens : List Token) (q : Parser) : Prop where
  /-- The place in front of the lookahead is one of the source. -/
  cursor : q.before.cursor.IsOf source
  /-- The comments in front of the lookahead come behind those in front of the tokens, which are as
  many as will be kept when the lookahead is scanned again. -/
  kept : ∃ earlier, Remarked source html tokens earlier q.before.cursor.position.offset ∧
    q.before.commentCount = earlier.length ∧
    q.scanner.Kept source html q.before.cursor.position.offset earlier q.lookahead

theorem Remarked.nil (source : String) (html : Bool) : Remarked source html [] [] 0 := by
  intro stop pieces h
  have hone := Remarks.cons h .nil
  rw [List.append_nil] at hone
  exact hone

theorem gaps_concat (size offset : Nat) (ranges : List (Nat × Nat)) (range : Nat × Nat) :
    gaps size offset (ranges ++ [range]) = gaps range.1 offset ranges ++ [(range.2, size)] := by
  induction ranges generalizing offset with
  | nil => rfl
  | cons first ranges ih => exact congrArg ((offset, first.1) :: ·) (ih first.2)

theorem Remarks.concat {source : String} {html : Bool} {gaps : List (Nat × Nat)} {gap : Nat × Nat}
    {comments : List Comment} {pieces : List Trivium} (h : Remarks source html gaps comments)
    (hl : LiesIn source html gap pieces) :
    Remarks source html (gaps ++ [gap]) (comments ++ commentsAt source gap.1 pieces) := by
  induction h with
  | nil =>
    have hone := Remarks.cons hl .nil
    rw [List.append_nil] at hone
    exact hone
  | cons hl' _ ih =>
    rw [List.append_assoc]
    exact .cons hl' ih

section

variable {source : String} {html : Bool} {tokens : List Token} {p q : Parser}

/-- One more token, with the comments in front of it. -/
theorem Remarked.concat {comments : List Comment} {offset : Nat} {t : Token} {pieces : List Trivium}
    (h : Remarked source html tokens comments offset)
    (hl : LiesIn source html (offset, t.start.offset) pieces) :
    Remarked source html (tokens ++ [t]) (comments ++ commentsAt source offset pieces)
      t.stop.offset := by
  intro stop pieces' hl'
  rw [List.map_append, List.map_singleton, gaps_concat]
  exact (h _ _ hl).concat hl'

/-- Taking the lookahead keeps the comments in front of the next token. -/
theorem Parser.next_heeds {t : Token} (h : next p = .ok t q) (hp : Heeds source html tokens p) :
    Heeds source html (tokens ++ [p.lookahead]) q := by
  obtain ⟨_, _, hget, h⟩ := Run.bind_eq_ok.1 h
  cases hget
  obtain ⟨u, p₁, hscan, h⟩ := Run.bind_eq_ok.1 h
  obtain ⟨earlier, hremarked, -, hkept⟩ := hp.kept
  obtain ⟨pieces, hl, hcomments⟩ := hkept.comments
  unfold scan at hscan
  split at hscan <;> cases hscan
  rename_i s₁ hs₁
  cases h
  have hnext := Scan.next_kept hkept.toKeeps hs₁
  rw [hcomments] at hnext
  have hplace : p.scanner.cursor.position.offset = p.lookahead.stop.offset := hkept.stop
  refine ⟨hkept.cursor, _, ?_, ?_, hnext⟩
  · change Remarked source html _ _ p.scanner.cursor.position.offset
    rw [hplace]
    exact hremarked.concat hl
  · change p.scanner.comments.size = _
    rw [← hcomments, Array.length_toList]

/-- Looking one token further keeps no comments. -/
theorem Parser.peek_heeds {t : Token} (h : peek p = .ok t q) (hp : Heeds source html tokens p) :
    Heeds source html tokens q := by
  unfold peek at h
  split at h <;> cases h
  rename_i s hs
  suffices hsame : s.restore p.scanner.save = p.scanner by
    rw [hsame]
    exact hp
  obtain ⟨_, _, _, hkept⟩ := hp.kept
  have hnext := Scan.next_kept hkept.toKeeps hs
  obtain ⟨pieces, -, hcomments⟩ := hnext.comments
  have hmode := Scan.next_mode hs
  have hback : s.comments.take p.scanner.comments.size = p.scanner.comments := by
    apply Array.ext'
    rw [Array.take_eq_extract, Array.toList_extract, hcomments]
    simp
  have hkeeps := hnext.keeps.trans hkept.keeps.symm
  have hmodule := hnext.isModule.trans hkept.isModule.symm
  change { s with
    cursor := p.scanner.cursor
    braces := p.scanner.braces
    comments := s.comments.take p.scanner.comments.size } = p.scanner
  rw [hback]
  generalize p.scanner = s' at hkeeps hmodule hmode
  cases s
  cases s'
  cases hkeeps
  cases hmodule
  cases hmode
  rfl

/-- Scanning the lookahead again keeps the comments in front of it once. -/
theorem Parser.rescanWith_heeds {action : Scan Token}
    (haction : ∀ {s s' : Scanner} {t}, s.Keeps source html → action s = .ok t s' →
      s'.Kept source html s.cursor.position.offset s.comments.toList t)
    (h : rescanWith action p = .ok () q) (hp : Heeds source html tokens p) :
    Heeds source html tokens q := by
  obtain ⟨_, p₁, hmodify, h⟩ := Run.bind_eq_ok.1 h
  cases hmodify
  obtain ⟨u, p₂, hscan, h⟩ := Run.bind_eq_ok.1 h
  unfold scan at hscan
  split at hscan <;> cases hscan
  rename_i s hs
  cases h
  obtain ⟨earlier, hremarked, hcount, hkept⟩ := hp.kept
  obtain ⟨pieces, -, hcomments⟩ := hkept.comments
  have hagain := haction (s := p.scanner.restore p.before)
    ⟨hp.cursor, hkept.keeps, hkept.isModule⟩ hs
  have hback : (p.scanner.restore p.before).comments.toList = earlier := by
    change (p.scanner.comments.take p.before.commentCount).toList = _
    rw [Array.take_eq_extract, Array.toList_extract, hcomments, hcount]
    simp
  rw [hback] at hagain
  exact ⟨hp.cursor, earlier, hremarked, hcount, hagain⟩

/-- A request keeps the comments in front of the tokens that it takes. -/
theorem Parser.answer_heeds {request : Request} {value : request.Answer}
    (h : answer request p = .ok value q) (hp : Heeds source html tokens p) :
    Heeds source html (tokens ++ ((Parse.ask request).takes p).map (·.1)) q := by
  cases request with
  | next => exact next_heeds h hp
  | peek =>
    rw [show (Parse.ask .peek).takes p = [] from rfl, List.map_nil, List.append_nil]
    exact peek_heeds h hp
  | rescan =>
    rw [show (Parse.ask .rescan).takes p = [] from rfl, List.map_nil, List.append_nil]
    exact rescanWith_heeds Scan.next_kept h hp
  | rescanRegex =>
    rw [show (Parse.ask .rescanRegex).takes p = [] from rfl, List.map_nil, List.append_nil]
    exact rescanWith_heeds Scan.nextRegex_kept h hp
  | setMode mode =>
    rw [show (Parse.ask (.setMode mode)).takes p = [] from rfl, List.map_nil, List.append_nil]
    cases h
    obtain ⟨earlier, hremarked, hcount, hkept⟩ := hp.kept
    exact ⟨hp.cursor, earlier, hremarked, hcount,
      ⟨hkept.cursor, hkept.keeps, hkept.isModule⟩, hkept.stop, hkept.comments⟩
  | tolerate finder fault site =>
    rw [show (Parse.ask (.tolerate finder fault site)).takes p = [] from rfl, List.map_nil,
      List.append_nil]
    change tolerate _ _ p = _ at h
    unfold tolerate at h
    split at h <;> cases h
    exact ⟨hp.cursor, hp.kept⟩
  | look => cases h; exact (List.append_nil tokens).symm ▸ hp
  | lastEnd => cases h; exact (List.append_nil tokens).symm ▸ hp
  | pending => cases h; exact (List.append_nil tokens).symm ▸ hp
  | span start stop => cases h; exact (List.append_nil tokens).symm ▸ hp
  | setPending site => cases h; exact (List.append_nil tokens).symm ▸ ⟨hp.cursor, hp.kept⟩
  | finish kind span => cases h; exact (List.append_nil tokens).symm ▸ ⟨hp.cursor, hp.kept⟩
  | fail error => cases h

/-- A run keeps the comments in front of the tokens that it takes. -/
theorem Parse.run_heeds {α : Type} {action : Parse α} {value : α}
    (h : action.run p = .ok value q) (hp : Heeds source html tokens p) :
    Heeds source html (tokens ++ (action.takes p).map (·.1)) q := by
  induction action generalizing p q tokens with
  | done =>
    cases h
    exact (List.append_nil tokens).symm ▸ hp
  | ask request => exact Parser.answer_heeds h hp
  | andThen first resume ih ih' =>
    change (first >>= resume).run p = _ at h
    rw [run_bind] at h
    split at h
    · rename_i u p₁ hfirst
      rw [takes, hfirst, List.map_append, ← List.append_assoc]
      exact ih' u h (ih hfirst hp)
    · cases h

end

/-! ## The comments of a parse -/

/-- At the start of a source no comments are kept but those in front of the first token. -/
theorem Heeds.of_start {o : Options} {source : String} {first : Parser}
    (h : Parser.start source (o.goal = .module) o.tolerant = .ok first) :
    Heeds source (o.goal ≠ .module) [] first := by
  unfold Parser.start at h
  dsimp only at h
  split at h
  · rename_i t s hs
    cases h
    have hstart : (Scanner.start source (o.goal = .module) true).Keeps source (o.goal ≠ .module) :=
      ⟨.start source, rfl, by simp [Scanner.start]⟩
    exact ⟨.start source, [], .nil _ _, rfl, Scan.next_kept hstart hs⟩
  · cases h

/-- The end of a source comes behind all of its characters. -/
theorem Reading.eof_start {o : Options} {source : String} (r : Reading o source) :
    r.last.lookahead.start.offset = byteLength source.toList := by
  obtain ⟨f, hf, hlook, -⟩ := Scan.next_eq_ok.1 r.stands.scanned
  have heof := r.eof
  rw [hlook] at heof
  obtain ⟨hraw, hrest⟩ := hf.eof (Find.kind_eq_eof heof)
  have hlead : r.behind.cursor.rest = f.lead := by
    rw [hf.chars, hraw, hrest, List.append_nil, List.append_nil]
  have hoffset := r.walk.divided.offset_eq
  rw [hlead] at hoffset
  rw [hlook]
  change (f.front r.behind).position.offset = _
  rw [(Find.front_spec hf.chars).2, ← hoffset]
  exact Nat.zero_add _

section

variable {offset offset' size : Nat} {text rest : List Char} {tokens : List Token}

/-- What the tokens of a text leave of it lies behind its offset. -/
theorem Divided.le_gaps (h : Divided offset text tokens offset' rest) :
    ∀ gap ∈ gaps size offset (tokens.map Token.range), offset ≤ gap.1 := by
  induction h with
  | nil =>
    intro gap hgap
    obtain rfl := List.mem_singleton.1 hgap
    exact Nat.le_refl _
  | cons _ _ _ _ start stop _ ih =>
    intro gap hgap
    rcases List.mem_cons.1 hgap with rfl | hgap
    · exact Nat.le_refl _
    · have := ih gap hgap
      omega

/-- What the tokens of a text leave of it lies one behind the other. -/
theorem Divided.pairwise_gaps (h : Divided offset text tokens offset' rest) :
    (gaps size offset (tokens.map Token.range)).Pairwise fun gap later => gap.2 ≤ later.1 := by
  induction h with
  | nil => exact List.pairwise_singleton _ _
  | cons _ _ _ _ _ stop behind ih =>
    refine List.pairwise_cons.2 ⟨fun gap hgap => ?_, ih⟩
    have := behind.le_gaps gap hgap
    dsimp only [Token.range]
    omega

end

/-- The comments of a source whose tokens have the given ranges. -/
structure Collects (source : String) (html : Bool) (tokens : List (Nat × Nat))
    (comments : List Comment) : Prop where
  /-- They are the comments of the trivia that the tokens leave, and nothing else is. -/
  remarks : ∀ listed, Remarks source html (gaps (byteLength source.toList) 0 tokens) listed ↔
    listed = comments
  /-- They start one behind the other. -/
  ordered : comments.Pairwise Comment.Precedes
  /-- Each lies in one of the gaps, and is spelled there with its delimiters. -/
  inGap : ∀ comment ∈ comments, ∃ gap ∈ gaps (byteLength source.toList) 0 tokens,
    comment.LiesIn source html gap

/-- The comments that a parse hands out are those between the tokens that it consumes. The comment
forms of web pages count in scripts only. -/
theorem parse_comments (o : Options) (source : String) (out : Parsed) (hc : o.comments = true)
    (h : parse o source = .ok out) :
    ∃ comments, out.comments = some comments ∧
      Collects source (o.goal ≠ .module) ((consumed o source).map (·.1.range)) comments := by
  obtain ⟨r, rfl⟩ := Reading.of_parse h
  refine ⟨r.last.scanner.comments.toList, if_pos hc, ?_⟩
  have hheeds := Parse.run_heeds r.run_eq (.of_start r.start_eq)
  have hconsumed : consumed o source = (o.action source).takes r.first := by
    rw [consumed, r.start_eq]
  rw [← hconsumed, List.nil_append] at hheeds
  obtain ⟨earlier, hremarked, -, hkept⟩ := hheeds.kept
  obtain ⟨pieces, hl, hcomments⟩ := hkept.comments
  rw [r.eof_start] at hl
  have hremarks := hremarked _ _ hl
  rw [← hcomments] at hremarks
  have hranges : (consumed o source).map (·.1.range) =
      ((consumed o source).map (·.1)).map Token.range := by
    rw [List.map_map]
    rfl
  rw [hranges]
  have hall := hremarks.allIn r.walk.divided.pairwise_gaps
  refine ⟨fun listed => ⟨fun hlisted => hlisted.unique hremarks, ?_⟩, hall.2, hall.1⟩
  rintro rfl
  exact hremarks

/-- The comments of a short source, one of which begins like markup. -/
theorem parse_comments_quotient : ∃ out comments,
    parse { comments := true, jsx := true } "#!x\na /* b */ / c <!-- d" = .ok out ∧
      out.comments = some comments ∧
      Collects "#!x\na /* b */ / c <!-- d" true
        ((consumed { comments := true, jsx := true } "#!x\na /* b */ / c <!-- d").map (·.1.range))
        comments := by
  obtain ⟨out, h⟩ : ∃ out,
      parse { comments := true, jsx := true } "#!x\na /* b */ / c <!-- d" = .ok out :=
    exists_of_isOk (by decide +kernel)
  obtain ⟨comments, hout, hcollects⟩ :=
    parse_comments { comments := true, jsx := true } _ out rfl h
  exact ⟨out, comments, h, hout, hcollects⟩

end Verbatim
