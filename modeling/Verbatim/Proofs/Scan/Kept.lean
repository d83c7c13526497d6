import Verbatim.Proofs.Comments
import Verbatim.Proofs.Scan.Breaks

/-!
# Comments that are kept

A scanner keeps comments in the order in which it passes over them. A saved place remembers only how
many there were, and going back to it keeps that many of those that are there then. These are the
ones in front of the place as long as nothing has disturbed them: the comments were not taken in
between, and the scanner was not led back to a place in front of it. Otherwise other comments may
have moved up, which are passed over and kept a second time.

## Main definitions

* `Verbatim.Scanner.Extends` — a scanner further on, with the comments in between.
* `Verbatim.Scanner.Snapshot.Marks` — a saved place whose number of comments is still right.
* `Verbatim.Scanner.Backtracks` — the scanners that operations lead to if places are gone back to in
  the reverse of the order in which they were saved, and never across taking the comments.

## Main results

* `Verbatim.Scan.Extends.next`, `Verbatim.Scan.Extends.nextRegex` — scanning only adds comments,
  also if it fails.
* `Verbatim.Scanner.Backtracks.pairwise_precedes` — what is taken then has increasing places.
* `Verbatim.Scanner.Reachable.exists_repeated` — after other operations a comment may be repeated.
-/

namespace Verbatim

open Verbatim.Text

/-! ## Comments between two places -/

/-- A comment lies between two byte offsets. -/
def Comment.Within (start stop : Nat) (comment : Comment) : Prop :=
  ∃ range, comment.span.range = some range ∧ start ≤ range.1 ∧ range.1 < range.2 ∧ range.2 ≤ stop

namespace Comment.Within

variable {comment later : Comment} {start stop start' stop' : Nat}

theorem mono (h : comment.Within start stop) (hstart : start' ≤ start) (hstop : stop ≤ stop') :
    comment.Within start' stop' := by
  obtain ⟨range, hr, h₁, h₂, h₃⟩ := h
  exact ⟨range, hr, Nat.le_trans hstart h₁, h₂, Nat.le_trans h₃ hstop⟩

/-- A comment up to an offset starts in front of one from there on. -/
theorem precedes (h : comment.Within start stop) (h' : later.Within stop stop') :
    comment.Precedes later := by
  obtain ⟨range, hr, -, h₂, h₃⟩ := h
  obtain ⟨range', hr', h₁', -, -⟩ := h'
  exact ⟨range, range', hr, hr', by omega⟩

end Comment.Within

/-- Comments of which each starts in front of those behind it have different extents. -/
theorem Comment.nodup_ranges {comments : List Comment} (h : comments.Pairwise Precedes) :
    (comments.map (·.span.range)).Nodup := by
  refine List.pairwise_map.2 (h.imp ?_)
  rintro c later ⟨range, range', hr, hr', hlt⟩ heq
  obtain rfl : range = range' := Option.some.inj (hr.symm.trans (heq.trans hr'))
  exact Nat.lt_irrefl _ hlt

/-- Comments between two byte offsets, one behind the other. -/
structure Comment.InOrder (start stop : Nat) (comments : List Comment) : Prop where
  /-- They lie between the offsets. -/
  within : ∀ comment ∈ comments, comment.Within start stop
  /-- Each starts in front of those behind it. -/
  precedes : comments.Pairwise Comment.Precedes

namespace Comment.InOrder

variable {start mid stop : Nat} {comments more : List Comment}

theorem nil : InOrder start stop [] := ⟨fun _ h => absurd h List.not_mem_nil, .nil⟩

theorem single {comment : Comment} (h : comment.Within start stop) : InOrder start stop [comment] :=
  ⟨List.forall_mem_singleton.2 h, List.pairwise_singleton _ _⟩

theorem append (h : InOrder start mid comments) (h' : InOrder mid stop more) (hstart : start ≤ mid)
    (hstop : mid ≤ stop) : InOrder start stop (comments ++ more) where
  within := List.forall_mem_append.2
    ⟨fun c hc => (h.within c hc).mono (Nat.le_refl _) hstop,
      fun c hc => (h'.within c hc).mono hstart (Nat.le_refl _)⟩
  precedes := List.pairwise_append.2 ⟨h.precedes, h'.precedes,
    fun c hc c' hc' => (h.within c hc).precedes (h'.within c' hc')⟩

end Comment.InOrder

/-! ## Scanning adds comments -/

namespace Scanner

/-- A scanner further on in its source: the comments that were kept in between come behind those
that were there. -/
structure Extends (s s' : Scanner) : Prop where
  /-- It has moved on. -/
  offset_le : s.cursor.position.offset ≤ s'.cursor.position.offset
  /-- The comments. -/
  comments : ∃ more, s'.comments.toList = s.comments.toList ++ more ∧
    Comment.InOrder s.cursor.position.offset s'.cursor.position.offset more

namespace Extends

variable {s s' s'' : Scanner}

/-- A scanner further on that keeps the comments that it has. -/
theorem of_comments (h : s'.comments = s.comments)
    (hle : s.cursor.position.offset ≤ s'.cursor.position.offset) : s.Extends s' :=
  ⟨hle, [], by rw [h, List.append_nil], .nil⟩

theorem refl (s : Scanner) : s.Extends s := of_comments rfl (Nat.le_refl _)

theorem trans (h : s.Extends s') (h' : s'.Extends s'') : s.Extends s'' := by
  obtain ⟨more, hs', hmore⟩ := h.comments
  obtain ⟨more', hs'', hmore'⟩ := h'.comments
  refine ⟨Nat.le_trans h.offset_le h'.offset_le, more ++ more', ?_,
    hmore.append hmore' h.offset_le h'.offset_le⟩
  rw [hs'', hs', List.append_assoc]

/-- Passing over a piece of trivia keeps it, if it is a comment. -/
theorem walk {piece : Trivium} {rest : List Char} (hc : s.cursor.rest = piece.chars ++ rest)
    (hne : piece.chars ≠ []) : s.Extends (s.walk piece) := by
  obtain ⟨-, hoffset⟩ := Cursor.advanceBy_length hc
  have hpos := byteLength_pos hne
  have hplain : s.Extends { s with cursor := s.cursor.advanceBy piece.chars.length } :=
    of_comments rfl (by change _ ≤ (s.cursor.advanceBy _).position.offset; omega)
  unfold Scanner.walk Scanner.passTo
  split
  · split
    · refine ⟨hplain.offset_le, _, Array.toList_push,
        .single ⟨_, rfl, Nat.le_refl _, ?_, Nat.le_refl _⟩⟩
      change s.cursor.position.offset < (s.cursor.advanceBy _).position.offset
      omega
    · exact hplain
  · exact hplain

/-- Passing trivia keeps the comments in it, in order. -/
theorem past {pieces : List Trivium} {rest : List Char}
    (hc : s.cursor.rest = pieces.flatMap Trivium.chars ++ rest)
    (hne : ∀ piece ∈ pieces, piece.chars ≠ []) : s.Extends (s.past pieces) := by
  induction pieces generalizing s with
  | nil => exact refl s
  | cons piece pieces ih =>
    obtain ⟨hfirst, hne⟩ := List.forall_mem_cons.1 hne
    rw [List.flatMap_cons, List.append_assoc] at hc
    refine (walk hc hfirst).trans (ih ?_ hne)
    obtain ⟨kept, hwalk⟩ := s.exists_walk piece
    rw [hwalk]
    exact (Cursor.advanceBy_length hc).1

/-- Moving on passes no comments. -/
theorem moveTo (s : Scanner) (rest : List Char) :
    s.Extends { s with cursor := s.cursor.moveTo rest } := by
  refine of_comments rfl ?_
  change _ ≤ (s.cursor.advanceBy (s.cursor.rest.length - rest.length)).position.offset
  generalize s.cursor.rest.length - rest.length = count
  generalize s.cursor = cursor
  induction count generalizing cursor with
  | zero => exact Nat.le_refl _
  | succ count ih =>
    refine Nat.le_trans ?_ (ih cursor.advance)
    unfold Cursor.advance
    split
    · exact Nat.le_refl _
    · dsimp only
      split <;> exact Nat.le_add_right _ _

end Extends

end Scanner

/-- An action that leads a scanner further on in its source, whether it fails or not. -/
def Scan.Extends {α : Type} (action : Scan α) : Prop := ∀ s : Scanner, s.Extends (s.after action)

namespace Scan.Extends

variable {α β : Type} {s : Scanner} {action : Scan α}

/-- One action after the other leads further on, if the second one does from where the first one
led. -/
theorem bindAt {f : α → Scan β} (h : s.Extends (s.after action))
    (hf : ∀ value s', action s = .ok value s' → s'.Extends (s'.after (f value))) :
    s.Extends (s.after (action >>= f)) := by
  have hbind : (action >>= f) s = EStateM.bind action f s := rfl
  unfold Scanner.after at h ⊢
  rw [hbind, EStateM.bind]
  cases hrun : action s with
  | error e s' =>
    rw [hrun] at h
    exact h
  | ok value s' =>
    rw [hrun] at h
    exact h.trans (hf value s' hrun)

theorem pure (value : α) : Extends (Pure.pure value : Scan α) := Scanner.Extends.refl

theorem bind {f : α → Scan β} (h : Extends action) (hf : ∀ value, Extends (f value)) :
    Extends (action >>= f) := fun s => bindAt (h s) fun value s' _ => hf value s'

theorem get : Extends (MonadState.get : Scan Scanner) := Scanner.Extends.refl

theorem fail {stage : Stage} {fault : Fault} : Extends (Scan.fail stage fault : Scan α) :=
  get.bind fun _ => Scanner.Extends.refl

/-- A reader moves on behind what it took, or to the place where it failed. -/
theorem read {reader : ReadOn Cursor α} {reader' : Read α}
    (h : ∀ l, Read.Along l reader reader') (stage : Stage) : Extends (Scan.read stage reader) := by
  rw [Scan.read_eq h]
  refine fun s => bindAt (get s) ?_
  rintro _ _ ⟨⟩
  dsimp only
  split
  · refine bindAt ?_ fun _ s' _ => pure _ s'
    exact .moveTo s _
  · refine bindAt ?_ fun _ s' _ => fail s'
    exact .moveTo s _

theorem setMode (mode : Mode) : Extends (Scan.setMode mode) :=
  fun _ => .of_comments rfl (Nat.le_refl _)

theorem trivia : Extends Scan.trivia := by
  rw [Scan.trivia_eq]
  refine fun s => bindAt (get s) ?_
  rintro _ _ ⟨⟩
  have hs := Trivia.read_splits s.allowsHtml (s.cursor.position.offset = 0) s.cursor.rest
  refine bindAt (.past hs.chars_eq hs.ne_nil) fun _ s' _ => ?_
  dsimp only
  split
  · exact bindAt (.moveTo s' []) fun _ s'' _ => fail.bind (fun _ => get.bind fun _ => pure _) s''
  · exact get.bind (fun _ => pure _) s'

theorem lexeme : Extends Scan.lexeme :=
  get.bind fun _ => (read (fun _ => .reader _) _).bind fun _ =>
    bind (fun _ => .of_comments rfl (Nat.le_refl _)) fun _ => pure _

theorem token {lead : String} {newlineBefore : Bool} {action : Scan Lexeme} (h : Extends action) :
    Extends (Scan.token lead newlineBefore action) :=
  get.bind fun _ => h.bind fun _ => get.bind fun _ => pure _

/-- Scanning a token only adds comments, also if it fails. -/
theorem next : Extends Scan.next := by
  refine get.bind fun _ => ?_
  split
  · exact token lexeme
  · exact trivia.bind fun _ => token lexeme

/-- So does scanning a regular expression. -/
theorem nextRegex : Extends Scan.nextRegex :=
  trivia.bind fun _ => token (read (fun _ => .regex) _)

end Scan.Extends

/-! ## Going back -/

namespace Scanner

/-- What a saved place tells of a scanner: as many of its comments as were kept then lie in front of
the place. -/
structure Snapshot.Marks (snapshot : Snapshot) (s : Scanner) : Prop where
  /-- There are as many. -/
  le_size : snapshot.commentCount ≤ s.comments.toList.length
  /-- They lie in front of the place. -/
  inOrder : Comment.InOrder 0 snapshot.cursor.position.offset
    (s.comments.toList.take snapshot.commentCount)

/-- Comments that are added do not change what a saved place tells. -/
theorem Snapshot.Marks.extends {snapshot : Snapshot} {s s' : Scanner} (h : snapshot.Marks s)
    (he : s.Extends s') : snapshot.Marks s' := by
  obtain ⟨more, hs', -⟩ := he.comments
  refine ⟨?_, ?_⟩
  · rw [hs', List.length_append]
    exact Nat.le_trans h.le_size (Nat.le_add_right _ _)
  · rw [hs', List.take_append_of_le_length h.le_size]
    exact h.inOrder

theorem restore_toList (s : Scanner) (snapshot : Snapshot) :
    (s.restore snapshot).comments.toList = s.comments.toList.take snapshot.commentCount := by
  change (s.comments.take snapshot.commentCount).toList = _
  simp

/-- Going back to a place changes nothing of what one saved in front of it tells. -/
theorem Snapshot.Marks.restore {earlier snapshot : Snapshot} {s : Scanner} (h : earlier.Marks s)
    (hle : earlier.commentCount ≤ snapshot.commentCount) :
    earlier.Marks (s.restore snapshot) := by
  refine ⟨?_, ?_⟩
  · rw [restore_toList, List.length_take]
    exact Nat.le_min.2 ⟨hle, h.le_size⟩
  · rw [restore_toList, List.take_take, Nat.min_eq_left hle]
    exact h.inOrder

/-- The scanners that operations lead to if they go back in order, with the places that can still be
gone back to, the last one first. Going back to a place gives up those saved behind it, and taking
the comments gives up all. -/
inductive Backtracks (source : String) : Scanner → List Snapshot → Prop where
  /-- The start of the source. -/
  | start (isModule keepsComments : Bool) :
    Backtracks source (.start source isModule keepsComments) []
  /-- Scanning a token. -/
  | next {s : Scanner} {saved : List Snapshot} (h : Backtracks source s saved) :
    Backtracks source (s.after Scan.next) saved
  /-- Scanning a regular expression. -/
  | nextRegex {s : Scanner} {saved : List Snapshot} (h : Backtracks source s saved) :
    Backtracks source (s.after Scan.nextRegex) saved
  /-- Changing which tokens there are. -/
  | setMode {s : Scanner} {saved : List Snapshot} (mode : Mode) (h : Backtracks source s saved) :
    Backtracks source (s.after (Scan.setMode mode)) saved
  /-- Saving the place. -/
  | save {s : Scanner} {saved : List Snapshot} (h : Backtracks source s saved) :
    Backtracks source s (s.save :: saved)
  /-- Going back to a saved place. -/
  | restore {s : Scanner} {later earlier : List Snapshot} {snapshot : Snapshot}
    (h : Backtracks source s (later ++ snapshot :: earlier)) :
    Backtracks source (s.restore snapshot) (snapshot :: earlier)
  /-- Taking the comments. -/
  | takeComments {s : Scanner} {saved : List Snapshot} (h : Backtracks source s saved) :
    Backtracks source s.takeComments.2 []

/-- What going back in order keeps. -/
structure Recalls (s : Scanner) (saved : List Snapshot) : Prop where
  /-- The comments lie in front of the place that has been reached. -/
  inOrder : Comment.InOrder 0 s.cursor.position.offset s.comments.toList
  /-- The saved places tell what they should. -/
  marks : ∀ snapshot ∈ saved, snapshot.Marks s
  /-- There were no more comments at a place than at those saved behind it. -/
  counts : saved.Pairwise fun later earlier => earlier.commentCount ≤ later.commentCount

/-- Moving on keeps what going back in order keeps. -/
theorem Recalls.extends {s s' : Scanner} {saved : List Snapshot} (h : s.Recalls saved)
    (he : s.Extends s') : s'.Recalls saved := by
  obtain ⟨more, hs', hmore⟩ := he.comments
  refine ⟨?_, fun snapshot hm => (h.marks snapshot hm).extends he, h.counts⟩
  rw [hs']
  exact h.inOrder.append hmore (Nat.zero_le _) he.offset_le

/-- Places that are gone back to in order tell the right number of comments. -/
theorem Backtracks.recalls {source : String} {s : Scanner} {saved : List Snapshot}
    (h : Backtracks source s saved) : s.Recalls saved := by
  induction h with
  | start => exact ⟨.nil, fun _ h => absurd h List.not_mem_nil, .nil⟩
  | next _ ih => exact ih.extends (Scan.Extends.next _)
  | nextRegex _ ih => exact ih.extends (Scan.Extends.nextRegex _)
  | setMode mode _ ih => exact ih.extends (Scan.Extends.setMode mode _)
  | @save s saved _ ih =>
    have hall : s.comments.toList.take s.save.commentCount = s.comments.toList := by
      change s.comments.toList.take s.comments.size = _
      rw [← Array.length_toList, List.take_length]
    refine ⟨ih.inOrder, List.forall_mem_cons.2 ⟨⟨Nat.le_refl _, ?_⟩, ih.marks⟩,
      List.pairwise_cons.2 ⟨fun snapshot hm => (ih.marks snapshot hm).le_size, ih.counts⟩⟩
    rw [hall]
    exact ih.inOrder
  | @restore s later earlier snapshot _ ih =>
    have hsnapshot := ih.marks snapshot (by simp)
    have hcounts := (List.pairwise_append.1 ih.counts).2.1
    refine ⟨?_, List.forall_mem_cons.2 ⟨hsnapshot.restore (Nat.le_refl _), fun e he => ?_⟩,
      hcounts⟩
    · rw [restore_toList]
      exact hsnapshot.inOrder
    · exact (ih.marks e (by simp [he])).restore ((List.pairwise_cons.1 hcounts).1 e he)
  | takeComments => exact ⟨.nil, fun _ h => absurd h List.not_mem_nil, .nil⟩

/-- If places are gone back to in order, no comment is handed out twice: those that are taken have
increasing places. -/
theorem Backtracks.pairwise_precedes {source : String} {s : Scanner} {saved : List Snapshot}
    (h : Backtracks source s saved) : s.takeComments.1.Pairwise Comment.Precedes :=
  h.recalls.inOrder.precedes

/-- Out of order, a comment may be handed out twice: the place behind the first comment is gone back
to after that comment was taken, and then the second one counts as the first. -/
theorem Reachable.exists_repeated : ∃ s saved, Reachable "/*a*/x/*b*/y" s saved ∧
    s.takeComments.1.map (·.span.range) = [some (6, 11), some (6, 11)] ∧
    ¬ s.takeComments.1.Pairwise Comment.Precedes := by
  have hstart : Reachable "/*a*/x/*b*/y" _ [] := .start false true
  have hfirst := hstart.next.save
  have hagain := (hfirst.takeComments.next.restore (List.mem_singleton_self _)).next
  obtain ⟨s, hs, hranges⟩ : ∃ s, Reachable "/*a*/x/*b*/y" s _ ∧
      s.takeComments.1.map (·.span.range) = [some (6, 11), some (6, 11)] :=
    ⟨_, hagain, by decide +kernel⟩
  refine ⟨s, _, hs, hranges, fun h => ?_⟩
  have hnodup := Comment.nodup_ranges h
  rw [hranges] at hnodup
  exact absurd hnodup (by decide)

end Scanner

end Verbatim
