import Verbatim.Proofs.Rendering
import Verbatim.Proofs.Scan.Scanned

/-!
# Sources that are a single token

A source can be one token and nothing else: the token is scanned, and then the end of the source. If
nothing is in front of the token either, that depends on one reader only, the one that the first
character opens.

## Main definitions

* `Verbatim.Scanner.IsOneToken` — all that remains is one token.

## Main results

* `Verbatim.Scanner.IsOneToken.reads`, `Verbatim.Scanner.isOneToken_of_reads` — a source is one
  token if the reader that it opens reads all of it.
-/

namespace Verbatim

/-- A text whose first character is the given one. -/
theorem Read.eq_cons_of_head {l : List Char} {c : Char} (h : l.head?.any (· == c) = true) :
    ∃ rest, l = c :: rest := by
  cases l with
  | nil => cases h
  | cons d rest => exact ⟨rest, by rw [beq_iff_eq.1 (show (d == c) = true from h)]⟩

/-- All that remains is one token of the given sort: it is scanned, and then the end of the
source. -/
def Scanner.IsOneToken (s : Scanner) (P : Token → Prop) : Prop :=
  ∃ t s' last s'', Scan.next s = .ok t s' ∧ P t ∧ Scan.next s' = .ok last s'' ∧ last.isEof = true

/-- Where nothing remains, the end of the source is scanned. -/
theorem Scan.next_of_nil {s : Scanner} (h : s.cursor.rest = []) (hm : s.mode = .normal) :
    ∃ t s', Scan.next s = .ok t s' ∧ t.isEof = true := by
  obtain ⟨v, hv, hk⟩ : ∃ v, Opening.eof.reader ([] : List Char) = .ok v [] ∧ v.kind = .eof :=
    ⟨_, rfl, rfl⟩
  let f : Find := ⟨[], [], [], v⟩
  have hf : f.Next s := by
    refine ⟨h, ?_, ?_⟩
    · rw [if_neg (by simp [hm]), h]
      exact .plain (Bool.and_false _) (.nil rfl)
    · rw [Find.opening, hm]
      exact hv
  exact ⟨f.token s, _, Scan.next_eq_ok.2 ⟨f, hf, rfl, rfl⟩, decide_eq_true hk⟩

/-- A token that is spelled by all that remains is read from it. -/
theorem Find.Next.reads_all {f : Find} {s : Scanner} (hf : f.Next s)
    (hraw : f.raw = s.cursor.rest) :
    f.opening s = Opening.of s.mode s.braces s.cursor.rest ∧
    (f.opening s).reader s.cursor.rest = .ok f.lexeme [] := by
  have hlen := congrArg List.length hf.chars
  rw [← hraw, List.length_append, List.length_append] at hlen
  have hrest : f.rest = [] := List.eq_nil_of_length_eq_zero (by omega)
  have hchars : f.raw ++ f.rest = s.cursor.rest := by rw [hrest, List.append_nil, hraw]
  have hreads := hf.reads
  rw [hchars, hrest] at hreads
  exact ⟨congrArg (Opening.of s.mode s.braces) hchars, hreads⟩

namespace Scanner

variable {source : String} {isModule keepsComments : Bool} {P : Lexeme → Prop}

/-- A source that is one token is read by the reader that it opens, which is one for its sort. -/
theorem IsOneToken.reads (h : (start source isModule keepsComments).IsOneToken
      fun t => P t.toLexeme ∧ t.raw = source) :
    ∃ v, (Opening.of .normal [] source.toList).reader source.toList = .ok v [] ∧ P v ∧
      v.kind ∈ (Opening.of .normal [] source.toList).kinds := by
  obtain ⟨t, s', -, -, ht, ⟨hP, hraw⟩, -⟩ := h
  obtain ⟨f, hf, rfl, rfl⟩ := Scan.next_eq_ok.1 ht
  have hall : f.raw = source.toList := by
    rw [← hraw]
    exact String.toList_ofList.symm
  obtain ⟨hof, hreads⟩ := hf.reads_all hall
  have hkind := hf.kind
  rw [hof] at hreads hkind
  exact ⟨f.lexeme, hreads, hP, hkind⟩

/-- A source that is read by the reader that it opens is one token. -/
theorem isOneToken_of_reads {c : Char} {l : List Char} {v : Lexeme} (hs : source.toList = c :: l)
    (hc : StartsToken c) (hv : (Opening.of .normal [] (c :: l)).reader (c :: l) = .ok v [])
    (hP : P v) :
    (start source isModule keepsComments).IsOneToken fun t => P t.toLexeme ∧ t.raw = source := by
  have hrest : (start source isModule keepsComments).cursor.rest = c :: l ++ [] := by
    rw [List.append_nil]
    exact hs
  obtain ⟨t, s', ht, rfl⟩ := Scan.takes_of_reads rfl hrest hc (by
    rw [List.append_nil]
    exact hv)
  obtain ⟨last, s'', hlast, heof⟩ := Scan.next_of_nil ht.rest (Scan.next_mode ht.scanned)
  exact ⟨t, s', last, s'', ht.scanned, ⟨hP, by rw [ht.raw, ← hs, String.ofList_toList]⟩,
    hlast, heof⟩

end Scanner

end Verbatim
