import Verbatim.Proofs.Scan.Along

/-!
# Places of a source

What line and column a byte of a source has is a matter of the source alone: of the lines that end
in front of it, and of the characters behind the last of them. A cursor counts both while it moves.
Since a scanner moves its cursor over characters only, also when it fails and when it goes back,
all places that it hands out are the points of their offsets.

## Main definitions

* `Verbatim.Text.endsLineAt`, `Verbatim.pointAt` — where lines end, and the point at an offset.
* `Verbatim.Position.IsOf`, `Verbatim.Site.IsOf` — places of a source.
* `Verbatim.Scanner.Reaches` — the scanners that operations lead to, with those saved on the way.

## Main results

* `Verbatim.Cursor.IsOf.position` — a cursor stands at the point of its offset.
* `Verbatim.Scan.next_keeps`, `Verbatim.Scan.nextRegex_keeps` — scanning hands out places of the
  source, and stays in it, also if it fails.
* `Verbatim.Scanner.Reaches.isOf` — so does any sequence of operations.
-/

namespace Verbatim

open Verbatim.Text

/-! ## Points by their offsets -/

namespace Text

/-- Whether a line ends with the character of the given number. A carriage return in front of a
line feed leaves that to the line feed. -/
def endsLineAt (text : List Char) (k : Nat) : Bool :=
  match text[k]? with
  | some '\n' | some '\u2028' | some '\u2029' => true
  | some '\r' => text[k + 1]? ≠ some '\n'
  | _ => false

/-- The number of lines that end within the given number of characters. -/
def linesWithin (text : List Char) (n : Nat) : Nat := (List.range n).countP (endsLineAt text)

/-- The number of characters behind the last line that ends within the given number of them. -/
def columnWithin (text : List Char) (n : Nat) : Nat :=
  ((List.range n).reverse.takeWhile fun k => !endsLineAt text k).length

/-- The number of characters that lie within the given number of bytes. -/
def charsWithin : Nat → List Char → Nat
  | bytes, c :: rest => if c.utf8Size ≤ bytes then charsWithin (bytes - c.utf8Size) rest + 1 else 0
  | _, [] => 0

section

variable {text rest : List Char} {c : Char} {k : Nat}

/-- The characters that lie within the bytes of the first ones are these. -/
theorem charsWithin_byteLength (text rest : List Char) :
    charsWithin (byteLength text) (text ++ rest) = text.length := by
  induction text with
  | nil =>
    cases rest with
    | nil => rfl
    | cons c rest =>
      have := c.utf8Size_pos
      rw [List.nil_append, charsWithin, byteLength_nil, if_neg (by omega), List.length_nil]
  | cons c text ih =>
    rw [List.cons_append, charsWithin, byteLength_cons, if_pos (by omega), Nat.add_sub_cancel_left,
      ih, List.length_cons]

theorem charsWithin_le (bytes : Nat) (text : List Char) : charsWithin bytes text ≤ text.length := by
  induction text generalizing bytes with
  | nil => exact Nat.zero_le _
  | cons c text ih =>
    rw [charsWithin]
    split
    · exact Nat.succ_le_succ (ih _)
    · exact Nat.zero_le _

/-- No more lines end than there are characters. -/
theorem linesWithin_le (text : List Char) (n : Nat) : linesWithin text n ≤ n :=
  Nat.le_trans List.countP_le_length (Nat.le_of_eq List.length_range)

theorem columnWithin_le (text : List Char) (n : Nat) : columnWithin text n ≤ n := by
  have h :=
    (List.takeWhile_prefix (l := (List.range n).reverse) fun k => !endsLineAt text k).length_le
  rwa [List.length_reverse, List.length_range] at h

theorem linesWithin_succ (text : List Char) (k : Nat) :
    linesWithin text (k + 1) = linesWithin text k + if endsLineAt text k then 1 else 0 := by
  rw [linesWithin, List.range_succ, List.countP_append, List.countP_singleton, ← linesWithin]

theorem columnWithin_succ (text : List Char) (k : Nat) :
    columnWithin text (k + 1) = if endsLineAt text k then 0 else columnWithin text k + 1 := by
  rw [columnWithin, List.range_succ, List.reverse_append, List.reverse_singleton,
    List.singleton_append, List.takeWhile_cons]
  cases endsLineAt text k <;> rfl

/-- A cursor starts a new line exactly where a line ends. -/
theorem endsLineAt_length (before : List Char) (c : Char) (rest : List Char) :
    endsLineAt (before ++ c :: rest) before.length = Cursor.breaksLine c rest := by
  have hnext : (before ++ c :: rest)[before.length + 1]? = rest.head? := by
    rw [List.getElem?_append_right (Nat.le_add_right _ 1), Nat.add_sub_cancel_left,
      List.getElem?_cons_succ, List.head?_eq_getElem?]
  rw [endsLineAt, List.getElem?_append_right (Nat.le_refl _), Nat.sub_self, List.getElem?_cons_zero,
    hnext, Cursor.breaksLine, isLineTerminator]
  split <;> simp_all [Bool.beq_eq_decide_eq]

end

end Text

/-- The point of a source at a byte offset: one line more than end in front of it, and the column
counted from the end of the last of them, both in thirty-two bits. -/
def pointAt (source : String) (offset : Nat) : Position where
  line := wrapAdd 1 (linesWithin source.toList (charsWithin offset source.toList))
  column := wrapAdd 0 (columnWithin source.toList (charsWithin offset source.toList))
  offset

/-- Lines and columns are exact in a source that has fewer characters than there are numbers in
thirty-two bits. -/
theorem pointAt_exact {source : String} (h : source.length + 1 < UInt32.size) (offset : Nat) :
    (pointAt source offset).line =
      1 + linesWithin source.toList (charsWithin offset source.toList) ∧
    (pointAt source offset).column =
      columnWithin source.toList (charsWithin offset source.toList) ∧
    (pointAt source offset).site.column =
      columnWithin source.toList (charsWithin offset source.toList) + 1 := by
  have hchars := charsWithin_le offset source.toList
  have hlines := linesWithin_le source.toList (charsWithin offset source.toList)
  have hcolumn := columnWithin_le source.toList (charsWithin offset source.toList)
  rw [← String.length_toList] at h
  have hexact : wrapAdd 0 (columnWithin source.toList (charsWithin offset source.toList)) =
      columnWithin source.toList (charsWithin offset source.toList) := by
    rw [wrapAdd_eq (by omega), Nat.zero_add]
  refine ⟨wrapAdd_eq (by omega), hexact, ?_⟩
  change wrapAdd (wrapAdd 0 _) 1 = _
  rw [hexact, wrapAdd_eq (by omega)]

/-- Whether a byte offset lies between two characters of a source, or at one of its ends. -/
def IsBoundary (source : String) (offset : Nat) : Prop :=
  ∃ before after, source.toList = before ++ after ∧ offset = byteLength before

/-- A boundary lies within the source. -/
theorem IsBoundary.le {source : String} {offset : Nat} (h : IsBoundary source offset) :
    offset ≤ byteLength source.toList := by
  obtain ⟨before, after, hs, rfl⟩ := h
  rw [hs, byteLength_append]
  exact Nat.le_add_right _ _

/-- A point of a source: between two characters, and that of its offset. -/
structure Position.IsOf (source : String) (p : Position) : Prop where
  /-- It lies between two characters. -/
  boundary : IsBoundary source p.offset
  /-- Line and column are those of the offset. -/
  eq : p = pointAt source p.offset

/-- The place of an error in a source: that of one of its points. -/
def Site.IsOf (source : String) (site : Site) : Prop :=
  ∃ p : Position, p.IsOf source ∧ site = p.site

/-- Both ends of an extent are points of a source, and its location agrees with its range. -/
def Span.IsOf (source : String) (span : Span) : Prop :=
  ∃ start stop, IsBoundary source start ∧ IsBoundary source stop ∧
    span = { range := some (start, stop)
             location := some { start := pointAt source start, stop := pointAt source stop } }

/-- Both ends of a token are points of a source. -/
structure Token.IsOf (source : String) (t : Token) : Prop where
  /-- Where it starts. -/
  start : t.start.IsOf source
  /-- Where it ends. -/
  stop : t.stop.IsOf source

/-! ## Cursors -/

namespace Cursor

variable {source : String} {cursor : Cursor}

/-- A cursor stands in a source: what follows is the end of the source, and the point is that
behind the characters in front. -/
def IsOf (source : String) (cursor : Cursor) : Prop :=
  ∃ before, source.toList = before ++ cursor.rest ∧ cursor.position =
    ⟨wrapAdd 1 (linesWithin source.toList before.length),
      wrapAdd 0 (columnWithin source.toList before.length), byteLength before⟩

theorem IsOf.start (source : String) : (start source).IsOf source := ⟨[], rfl, rfl⟩

/-- Passing a character leads from one point of the source to the next. -/
theorem IsOf.advance (h : cursor.IsOf source) : cursor.advance.IsOf source := by
  obtain ⟨before, hs, hp⟩ := h
  unfold Cursor.advance
  split
  · exact ⟨before, hs, hp⟩
  · rename_i c rest hr
    rw [hr] at hs
    have hends : endsLineAt source.toList before.length = breaksLine c rest := by
      rw [hs]
      exact endsLineAt_length before c rest
    have hbytes : byteLength (before ++ [c]) = cursor.position.offset + c.utf8Size := by
      rw [byteLength_append, hp]
      rfl
    refine ⟨before ++ [c], ?_, ?_⟩
    · rw [hs]
      split <;> simp
    · rw [hbytes, List.length_append, List.length_singleton, linesWithin_succ, columnWithin_succ,
        hends, hp]
      simp only [wrapAdd_add]
      cases breaksLine c rest <;> rfl

theorem IsOf.advanceBy (h : cursor.IsOf source) (count : Nat) :
    (cursor.advanceBy count).IsOf source := by
  induction count generalizing cursor with
  | zero => exact h
  | succ count ih => exact ih h.advance

theorem IsOf.moveTo (h : cursor.IsOf source) (rest : List Char) :
    (cursor.moveTo rest).IsOf source := h.advanceBy _

/-- A cursor stands at the point of its offset. -/
theorem IsOf.position (h : cursor.IsOf source) : cursor.position.IsOf source := by
  obtain ⟨before, hs, hp⟩ := h
  have hchars : charsWithin cursor.position.offset source.toList = before.length := by
    rw [hp, hs]
    exact charsWithin_byteLength before cursor.rest
  have hoffset : cursor.position.offset = byteLength before := by rw [hp]
  refine ⟨⟨before, cursor.rest, hs, hoffset⟩, ?_⟩
  rw [pointAt, hchars, hoffset]
  exact hp

end Cursor

/-! ## Scanners -/

namespace Scanner

/-- A scanner whose cursor and comments lie in a source. -/
structure IsOf (source : String) (s : Scanner) : Prop where
  /-- The place that has been reached. -/
  cursor : s.cursor.IsOf source
  /-- The comments that are kept. -/
  comments : ∀ comment ∈ s.comments, comment.span.IsOf source

variable {source : String} {s : Scanner}

theorem IsOf.start (source : String) (isModule keepsComments : Bool) :
    (start source isModule keepsComments).IsOf source :=
  ⟨.start source, fun _ h => absurd h (Array.not_mem_empty _)⟩

theorem IsOf.moveTo (h : s.IsOf source) (rest : List Char) :
    ({ s with cursor := s.cursor.moveTo rest } : Scanner).IsOf source :=
  ⟨h.cursor.moveTo rest, h.comments⟩

theorem IsOf.setMode (h : s.IsOf source) (mode : Mode) : ({ s with mode } : Scanner).IsOf source :=
  ⟨h.cursor, h.comments⟩

theorem IsOf.nest (h : s.IsOf source) (braces : List Brace) :
    ({ s with braces } : Scanner).IsOf source :=
  ⟨h.cursor, h.comments⟩

/-- Going back to a place of the source. -/
theorem IsOf.restore (h : s.IsOf source) {snapshot : Snapshot}
    (hc : snapshot.cursor.IsOf source) : (s.restore snapshot).IsOf source := by
  refine ⟨hc, fun comment hm => h.comments comment ?_⟩
  obtain ⟨i, hi, rfl⟩ := Array.mem_extract_iff_getElem.1 hm
  exact Array.getElem_mem _

/-- A comment is kept with the extent between the places around it. -/
theorem IsOf.walk (h : s.IsOf source) (piece : Trivium) : (s.walk piece).IsOf source := by
  have hafter := h.cursor.advanceBy piece.chars.length
  unfold Scanner.walk Scanner.passTo
  split
  · split
    · refine ⟨hafter, fun comment hm => ?_⟩
      rcases Array.mem_push.1 hm with hm | rfl
      · exact h.comments comment hm
      · refine ⟨_, _, h.cursor.position.boundary, hafter.position.boundary, ?_⟩
        rw [← h.cursor.position.eq, ← hafter.position.eq]
    · exact ⟨hafter, h.comments⟩
  · exact ⟨hafter, h.comments⟩

theorem IsOf.past (h : s.IsOf source) (pieces : List Trivium) : (s.past pieces).IsOf source := by
  induction pieces generalizing s with
  | nil => exact h
  | cons piece pieces ih => exact ih (h.walk piece)

end Scanner

/-! ## Scanning actions -/

/-- An action on a scanner in a source stays in the source, whether it fails or not: its value is
such that `post`, and its error has a place of the source. -/
def Scan.Keeps {α : Type} (source : String) (action : Scan α) (post : α → Prop) : Prop :=
  ∀ s, s.IsOf source →
    match action s with
    | .ok value s' => s'.IsOf source ∧ post value
    | .error e s' => s'.IsOf source ∧ e.site.IsOf source

namespace Scan

namespace Keeps

variable {α β : Type} {source : String} {action : Scan α} {post : α → Prop}

theorem pure {value : α} (h : post value) : Keeps source (pure value) post := fun _ hs => ⟨hs, h⟩

/-- One action after the other, both within the source. -/
theorem bind {f : α → Scan β} {post' : β → Prop} (h : Keeps source action post)
    (hf : ∀ value, post value → Keeps source (f value) post') :
    Keeps source (action >>= f) post' := by
  intro s hs
  have h := h s hs
  change match EStateM.bind action f s with
    | .ok value s' => s'.IsOf source ∧ post' value
    | .error e s' => s'.IsOf source ∧ e.site.IsOf source
  unfold EStateM.bind
  cases hrun : action s with
  | ok value s' =>
    rw [hrun] at h
    exact hf value h.2 s' h.1
  | error e s' =>
    rw [hrun] at h
    exact h

theorem get : Keeps source (MonadState.get : Scan Scanner) (·.IsOf source) := fun _ hs => ⟨hs, hs⟩

theorem modify {f : Scanner → Scanner} (h : ∀ s, s.IsOf source → (f s).IsOf source) :
    Keeps source (modify f) fun _ => True := fun s hs => ⟨h s hs, trivial⟩

theorem fail {stage : Stage} {fault : Fault} : Keeps source (Scan.fail stage fault) post :=
  fun _ hs => ⟨hs, _, hs.cursor.position, rfl⟩

/-- A reader moves the cursor behind what it took, or to the place where it failed. -/
theorem read {reader : ReadOn Cursor α} {reader' : Read α}
    (h : ∀ l, Read.Along l reader reader') (stage : Stage) :
    Keeps source (Scan.read stage reader) fun _ => True := by
  rw [Scan.read_eq h]
  refine get.bind fun before hbefore => ?_
  have hmoved : ∀ rest, Keeps source
      (MonadState.modifyGet fun s : Scanner => ((), { s with cursor := before.cursor.moveTo rest }))
      fun _ => True :=
    fun rest => modify fun s hs => ⟨hbefore.cursor.moveTo rest, hs.comments⟩
  dsimp only
  split
  · exact (hmoved _).bind fun _ _ => pure trivial
  · exact (hmoved _).bind fun _ _ => fail

theorem setMode (mode : Mode) : Keeps source (Scan.setMode mode) fun _ => True :=
  modify fun _ hs => hs.setMode mode

theorem trivia : Keeps source Scan.trivia fun _ => True := by
  rw [Scan.trivia_eq]
  refine get.bind fun before _ => ?_
  refine (modify fun s hs => hs.past _).bind fun _ _ => ?_
  split
  · refine (modify fun s hs => hs.moveTo []).bind fun _ _ => ?_
    exact fail.bind fun _ (_ : True) => get.bind fun _ _ => pure trivial
  · exact get.bind fun _ _ => pure trivial

theorem lexeme : Keeps source Scan.lexeme fun _ => True := by
  refine get.bind fun before _ => ?_
  refine (read (fun _ => .reader _) _).bind fun lexeme _ => ?_
  exact (modify fun s hs => hs.nest _).bind fun _ _ => pure trivial

/-- A token starts and ends where the cursor stands around its reading. -/
theorem token {lead : String} {newlineBefore : Bool} {action : Scan Lexeme}
    (h : Keeps source action fun _ => True) :
    Keeps source (Scan.token lead newlineBefore action) (·.IsOf source) := by
  refine get.bind fun before hbefore => h.bind fun lexeme _ => get.bind fun after hafter => ?_
  exact pure ⟨hbefore.cursor.position, hafter.cursor.position⟩

end Keeps

/-- Scanning a token hands out places of the source. -/
theorem next_keeps (source : String) : Keeps source next (·.IsOf source) := by
  refine Keeps.get.bind fun before _ => ?_
  split
  · exact Keeps.token .lexeme
  · exact Keeps.trivia.bind fun _ _ => Keeps.token .lexeme

/-- So does scanning a regular expression. -/
theorem nextRegex_keeps (source : String) : Keeps source nextRegex (·.IsOf source) :=
  Keeps.trivia.bind fun _ _ => Keeps.token (.read (fun _ => .regex) _)

end Scan

/-! ## Sequences of operations -/

namespace Scanner

/-- The scanner that an action leaves, whether it failed or not. -/
def after {α : Type} (action : Scan α) (s : Scanner) : Scanner :=
  match action s with
  | .ok _ s' => s'
  | .error _ s' => s'

theorem IsOf.after {α : Type} {source : String} {s : Scanner} {action : Scan α} {post : α → Prop}
    (h : s.IsOf source) (ha : Scan.Keeps source action post) : (s.after action).IsOf source := by
  have ha := ha s h
  unfold Scanner.after
  cases hrun : action s <;> rw [hrun] at ha <;> exact ha.1

/-- The scanners that sequences of operations lead to from the start of a source, each with the
places that were saved on the way. An operation that fails is one like any other. -/
inductive Reaches (source : String) (isModule keepsComments : Bool) :
    Scanner → List Snapshot → Prop where
  /-- The start of the source. -/
  | start : Reaches source isModule keepsComments (.start source isModule keepsComments) []
  /-- Scanning a token. -/
  | next {s : Scanner} {saved : List Snapshot} (h : Reaches source isModule keepsComments s saved) :
    Reaches source isModule keepsComments (s.after Scan.next) saved
  /-- Scanning a regular expression. -/
  | nextRegex {s : Scanner} {saved : List Snapshot}
    (h : Reaches source isModule keepsComments s saved) :
    Reaches source isModule keepsComments (s.after Scan.nextRegex) saved
  /-- Changing which tokens there are. -/
  | setMode {s : Scanner} {saved : List Snapshot} (mode : Mode)
    (h : Reaches source isModule keepsComments s saved) :
    Reaches source isModule keepsComments (s.after (Scan.setMode mode)) saved
  /-- Saving the place. -/
  | save {s : Scanner} {saved : List Snapshot} (h : Reaches source isModule keepsComments s saved) :
    Reaches source isModule keepsComments s (s.save :: saved)
  /-- Going back to a saved place. -/
  | restore {s : Scanner} {saved : List Snapshot} {snapshot : Snapshot}
    (h : Reaches source isModule keepsComments s saved) (mem : snapshot ∈ saved) :
    Reaches source isModule keepsComments (s.restore snapshot) saved

/-- Whatever the operations, the scanner stays in the source. -/
theorem Reaches.isOf {source : String} {isModule keepsComments : Bool} {s : Scanner}
    {saved : List Snapshot} (h : Reaches source isModule keepsComments s saved) :
    s.IsOf source ∧ ∀ snapshot ∈ saved, snapshot.cursor.IsOf source := by
  induction h with
  | start => exact ⟨.start source _ _, fun _ h => absurd h List.not_mem_nil⟩
  | next _ ih => exact ⟨ih.1.after (Scan.next_keeps source), ih.2⟩
  | nextRegex _ ih => exact ⟨ih.1.after (Scan.nextRegex_keeps source), ih.2⟩
  | setMode mode _ ih => exact ⟨ih.1.after (.setMode mode), ih.2⟩
  | save _ ih =>
    refine ⟨ih.1, fun snapshot hs => ?_⟩
    rcases List.mem_cons.1 hs with rfl | hs
    · exact ih.1.cursor
    · exact ih.2 snapshot hs
  | restore _ mem ih => exact ⟨ih.1.restore (ih.2 _ mem), ih.2⟩

end Scanner

end Verbatim
