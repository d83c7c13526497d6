import Verbatim.Scan.Cursor

/-!
# Cursors move by the text that they pass

A cursor that passes characters one by one counts the lines that end among them. A jump counts none,
and takes the characters for as many as they have bytes. It comes to the same where that is so.

## Main definitions

* `Verbatim.Text.isPlain` — texts that may be jumped over.

## Main results

* `Verbatim.Cursor.advanceBy_length` — passing a text leaves what follows it, and offsets grow by
  its bytes.
* `Verbatim.Cursor.textTo_eq` — the text up to a later place.
* `Verbatim.Cursor.jump_eq` — jumping over a text that may be jumped over is passing it.
-/

namespace Verbatim

open Verbatim.Text

@[simp]
theorem Text.byteLength_nil : byteLength [] = 0 := rfl

@[simp]
theorem Text.byteLength_cons (c : Char) (text : List Char) :
    byteLength (c :: text) = c.utf8Size + byteLength text := rfl

theorem Text.byteLength_append (x y : List Char) :
    byteLength (x ++ y) = byteLength x + byteLength y := by
  induction x with
  | nil => exact (Nat.zero_add _).symm
  | cons c x ih => rw [List.cons_append, byteLength_cons, byteLength_cons, ih, Nat.add_assoc]

/-- A text that is not empty has bytes. -/
theorem Text.byteLength_pos {x : List Char} (h : x ≠ []) : 0 < byteLength x := by
  obtain ⟨c, x, rfl⟩ := List.exists_cons_of_ne_nil h
  have := c.utf8Size_pos
  rw [byteLength_cons]
  omega

/-- Whether a text may be jumped over: each character has one byte and ends no line. -/
def Text.isPlain (text : List Char) : Bool :=
  text.all fun c => c.utf8Size == 1 && !isLineTerminator c

theorem Text.isPlain_cons {c : Char} {text : List Char} :
    isPlain (c :: text) = true ↔
      (c.utf8Size = 1 ∧ isLineTerminator c = false) ∧ isPlain text = true := by
  simp [isPlain]

theorem Text.byteLength_of_isPlain {text : List Char} (h : isPlain text = true) :
    byteLength text = text.length := by
  induction text with
  | nil => rfl
  | cons c text ih =>
    obtain ⟨⟨hsize, -⟩, htext⟩ := isPlain_cons.1 h
    rw [byteLength_cons, hsize, ih htext, List.length_cons, Nat.add_comm]

theorem wrapAdd_eq {m n : Nat} (h : m + n < UInt32.size) : wrapAdd m n = m + n := Nat.mod_eq_of_lt h

theorem wrapAdd_add (k m n : Nat) : wrapAdd (wrapAdd k m) n = wrapAdd k (m + n) := by
  rw [wrapAdd, wrapAdd, wrapAdd, Nat.mod_add_mod, Nat.add_assoc]

namespace Cursor

variable {cursor : Cursor} {text rest : List Char}

/-- The place after the given text, which follows. -/
theorem advance_of_cons {c : Char} (h : cursor.rest = c :: rest) :
    cursor.advance.rest = rest ∧
      cursor.advance.position.offset = cursor.position.offset + c.utf8Size := by
  unfold advance
  rw [h]
  dsimp only
  split <;> exact ⟨rfl, rfl⟩

theorem advanceBy_add (m n : Nat) (cursor : Cursor) :
    cursor.advanceBy (m + n) = (cursor.advanceBy m).advanceBy n := by
  induction m generalizing cursor with
  | zero => rw [Nat.zero_add]; rfl
  | succ m ih =>
    rw [Nat.succ_add]
    exact ih cursor.advance

/-- Passing a text leaves what follows it, and adds its bytes to the offset. -/
theorem advanceBy_length (h : cursor.rest = text ++ rest) :
    (cursor.advanceBy text.length).rest = rest ∧
      (cursor.advanceBy text.length).position.offset =
        cursor.position.offset + byteLength text := by
  induction text generalizing cursor with
  | nil => exact ⟨h, rfl⟩
  | cons c text ih =>
    obtain ⟨hr, ho⟩ := advance_of_cons h
    obtain ⟨hr', ho'⟩ := ih hr
    refine ⟨hr', ho'.trans ?_⟩
    rw [ho, byteLength_cons, Nat.add_assoc]

/-- Moving to what follows a text is passing the text. -/
theorem moveTo_eq (h : cursor.rest = text ++ rest) :
    cursor.moveTo rest = cursor.advanceBy text.length := by
  rw [moveTo, h, List.length_append, Nat.add_sub_cancel]

/-- A character that may be jumped over starts no line. -/
theorem advance_of_plain {c : Char} (h : cursor.rest = c :: rest) (hsize : c.utf8Size = 1)
    (hline : isLineTerminator c = false) : cursor.advance = cursor.jump 1 := by
  have hbreaks : breaksLine c rest = false := by rw [breaksLine, hline, Bool.false_and]
  unfold advance jump
  rw [h]
  dsimp only
  rw [hbreaks, hsize]
  rfl

theorem jump_jump (m n : Nat) (cursor : Cursor) : (cursor.jump m).jump n = cursor.jump (m + n) := by
  simp only [jump, List.drop_drop, wrapAdd_add, Nat.add_assoc]

/-- Jumping over a text that may be jumped over is passing it. -/
theorem jump_eq (h : cursor.rest = text ++ rest) (hne : text ≠ []) (hp : isPlain text = true) :
    cursor.jump (byteLength text) = cursor.advanceBy text.length := by
  rw [byteLength_of_isPlain hp]
  induction text generalizing cursor with
  | nil => exact absurd rfl hne
  | cons c text ih =>
    obtain ⟨⟨hsize, hline⟩, hp⟩ := isPlain_cons.1 hp
    have hfirst := advance_of_plain h hsize hline
    cases text with
    | nil => exact hfirst.symm
    | cons d text =>
      have hrest : cursor.advance.rest = d :: text ++ rest := (advance_of_cons h).1
      calc cursor.jump (c :: d :: text).length
          = (cursor.jump 1).jump (d :: text).length := by
            rw [jump_jump, List.length_cons, Nat.add_comm]
        _ = cursor.advance.jump (d :: text).length := by rw [hfirst]
        _ = cursor.advance.advanceBy (d :: text).length :=
          ih hrest (List.cons_ne_nil d text) hp

/-- Moving to what is left of a text twice is moving to it once. -/
theorem moveTo_moveTo {mid : List Char} (hmid : mid <:+ cursor.rest) (h : rest <:+ mid) :
    (cursor.moveTo mid).moveTo rest = cursor.moveTo rest := by
  obtain ⟨front, hfront⟩ := hmid
  obtain ⟨back, rfl⟩ := h
  have hleft : (cursor.moveTo (back ++ rest)).rest = back ++ rest := by
    rw [moveTo_eq hfront.symm]
    exact (advanceBy_length hfront.symm).1
  have hboth : cursor.rest = front ++ back ++ rest := by rw [← hfront, List.append_assoc]
  rw [moveTo_eq hleft, moveTo_eq hfront.symm, ← advanceBy_add, moveTo_eq hboth, List.length_append]

/-- The text up to a later place. -/
theorem textTo_eq {later : Cursor} (h : cursor.rest = text ++ later.rest) :
    cursor.textTo later = String.ofList text := by
  rw [textTo, h, List.length_append, Nat.add_sub_cancel, List.take_left]

end Cursor

end Verbatim
