import Verbatim.Proofs.Consumed

/-!
# The recorded tokens divide the source

The ranges of the recorded tokens are not empty and follow one another in the source, each token is
spelled as the source is in its range, and what lies in front of, between and behind them is trivia.

## Main definitions

* `Verbatim.IsSlice` — the part of a text between two byte offsets.
* `Verbatim.gaps` — what ranges leave of a text.
* `Verbatim.Partitions` — tokens with trivia between them are all of a text.

## Main results

* `Verbatim.Divided.partitions` — the tokens into which a text is divided partition it.
* `Verbatim.parse_partition` — the recorded tokens partition the source.
-/

namespace Verbatim

open Verbatim.Text

/-- The part of a text between two byte offsets, and what follows it. -/
def IsSlice (text : List Char) (range : Nat × Nat) (part rest : List Char) : Prop :=
  ∃ before, text = before ++ part ++ rest ∧ range.1 = byteLength before ∧
    range.2 = byteLength before + byteLength part

/-- What the given ranges leave of a text of the given size, behind the given offset: what lies in
front of each range, and what lies behind the last one. -/
def gaps (size : Nat) : Nat → List (Nat × Nat) → List (Nat × Nat)
  | offset, [] => [(offset, size)]
  | offset, range :: ranges => (offset, range.1) :: gaps size range.2 ranges

/-- Tokens in the given ranges, with trivia between them, are all of a text. The trivia behind the
last of them is given. -/
structure Partitions (text : List Char) (tokens : List TokenRecord) (ranges : List (Nat × Nat))
    (tail : List Char) : Prop where
  /-- These are the ranges of the tokens. -/
  ranges_eq : tokens.map (·.span.range) = ranges.map some
  /-- No range is empty. -/
  notEmpty : ∀ range ∈ ranges, range.1 < range.2
  /-- Each range lies behind the ones before it. -/
  ordered : ranges.Pairwise fun range later => range.2 ≤ later.1
  /-- A token is spelled as the text is in its range. -/
  value_eq : ∀ t ∈ tokens, ∀ range, t.span.range = some range →
    ∃ rest, IsSlice text range t.value.toList rest
  /-- What lies between the tokens is trivia. -/
  trivia : ∀ gap ∈ gaps (byteLength text) 0 ranges,
    ∃ part rest, IsSlice text gap part rest ∧ IsTriviaAt gap.1 part rest
  /-- What lies behind them is the given trivia. -/
  tail_eq : ∃ gap, (gaps (byteLength text) 0 ranges).getLast? = some gap ∧ IsSlice text gap tail []

/-- The byte range of a token. -/
def Token.range (t : Token) : Nat × Nat := (t.start.offset, t.stop.offset)

namespace Divided

variable {offset offset' : Nat} {whole before text rest : List Char} {tokens : List Token}

/-- The offset of the rest of the text counts the bytes in front of it. -/
theorem offset_eq (h : Divided offset text tokens offset' rest) :
    offset + byteLength text = offset' + byteLength rest := by
  induction h with
  | nil => rfl
  | cons _ _ _ _ start stop _ ih =>
    rw [byteLength_append, byteLength_append]
    omega

/-- What lies behind the tokens is the end of the text. -/
theorem suffix (h : Divided offset text tokens offset' rest) : rest <:+ text := by
  induction h with
  | nil => exact List.suffix_refl _
  | cons _ _ _ _ _ _ _ ih => exact ih.trans (List.suffix_append _ _)

/-- A token is spelled as the text is in its range. -/
theorem slices (h : Divided offset text tokens offset' rest) (hw : whole = before ++ text)
    (ho : offset = byteLength before) :
    ∀ t ∈ tokens, ∃ after, IsSlice whole t.range t.raw.toList after := by
  induction h generalizing before with
  | nil => exact fun _ h => absurd h List.not_mem_nil
  | @cons _ _ lead raw rest _ t _ _ _ lead_eq raw_eq start stop _ ih =>
    have hstart : t.start.offset = byteLength (before ++ lead) := by
      rw [byteLength_append, start, ho]
    have hstop : t.stop.offset = byteLength (before ++ lead ++ raw) := by
      rw [byteLength_append, stop, hstart]
    have hwhole : whole = (before ++ lead ++ raw) ++ rest := by
      rw [hw]
      simp only [List.append_assoc]
    intro u hu
    rcases List.mem_cons.1 hu with rfl | hu
    · refine ⟨rest, before ++ lead, ?_, hstart, ?_⟩
      · rwa [raw_eq, String.toList_ofList]
      · rw [raw_eq, String.toList_ofList, ← byteLength_append]
        exact hstop
    · exact ih hwhole hstop u hu

/-- What lies between the tokens is trivia, if what lies behind them is. -/
theorem gaps_trivia (h : Divided offset text tokens offset' rest) (hw : whole = before ++ text)
    (ho : offset = byteLength before) (ht : IsTriviaAt offset' rest []) :
    ∀ gap ∈ gaps (byteLength whole) offset (tokens.map Token.range),
      ∃ part after, IsSlice whole gap part after ∧ IsTriviaAt gap.1 part after := by
  induction h generalizing before with
  | @nil offset rest =>
    intro gap hgap
    obtain rfl := List.mem_singleton.1 hgap
    refine ⟨rest, [], ⟨before, by rw [hw, List.append_nil], ho, ?_⟩, ht⟩
    rw [hw, byteLength_append]
  | @cons offset _ lead raw rest _ t _ trivia _ _ _ start stop _ ih =>
    intro gap hgap
    rcases List.mem_cons.1 hgap with rfl | hgap
    · refine ⟨lead, raw ++ rest, ⟨before, ?_, ho, ?_⟩, trivia⟩
      · rw [hw]
        simp only [List.append_assoc]
      · exact start.trans (by rw [ho])
    · have hwhole : whole = (before ++ lead ++ raw) ++ rest := by
        rw [hw]
        simp only [List.append_assoc]
      refine ih hwhole ?_ ht gap hgap
      rw [byteLength_append, byteLength_append, stop, start, ho]

/-- The last gap is what lies behind the tokens. -/
theorem gaps_last (h : Divided offset text tokens offset' rest) (size : Nat) :
    (gaps size offset (tokens.map Token.range)).getLast? = some (offset', size) := by
  induction h with
  | nil => rfl
  | @cons _ _ _ _ _ _ t tokens _ _ _ _ _ _ _ ih =>
    change (_ :: gaps size t.stop.offset (tokens.map Token.range)).getLast? = _
    rw [List.getLast?_cons, ih]
    rfl

/-- The tokens into which a text is divided partition it. -/
theorem partitions (h : Divided 0 text tokens offset' rest) (ht : IsTriviaAt offset' rest []) :
    Partitions text (tokens.map Token.record) (tokens.map Token.range) rest where
  ranges_eq := by simp only [List.map_map]; rfl
  notEmpty := by
    intro range hr
    obtain ⟨t, ht, rfl⟩ := List.mem_map.1 hr
    exact h.start_lt_stop t ht
  ordered := List.pairwise_map.2 h.pairwise
  value_eq := by
    intro record hr range hrange
    obtain ⟨t, ht, rfl⟩ := List.mem_map.1 hr
    obtain rfl : t.range = range := Option.some.inj hrange
    exact h.slices (List.nil_append text).symm rfl t ht
  trivia := h.gaps_trivia (List.nil_append text).symm rfl ht
  tail_eq := by
    obtain ⟨before, rfl⟩ := h.suffix
    have hoffset := h.offset_eq
    rw [byteLength_append] at hoffset
    refine ⟨_, h.gaps_last _, before, (List.append_nil _).symm, ?_, byteLength_append before rest⟩
    change offset' = _
    omega

end Divided

/-- What the options select of tokens partitions a text, too, if they select the ranges. -/
theorem Partitions.select {o : Options} {text tail : List Char} {tokens : List TokenRecord}
    {ranges : List (Nat × Nat)} (h : Partitions text tokens ranges tail) (ho : o.range = true) :
    Partitions text (tokens.map (·.select o)) ranges tail := by
  have hrange : ∀ t : TokenRecord, (t.select o).span.range = t.span.range := fun t => if_pos ho
  refine ⟨?_, h.notEmpty, h.ordered, fun t ht range hr => ?_, h.trivia, h.tail_eq⟩
  · rw [← h.ranges_eq, List.map_map]
    exact List.map_congr_left fun t _ => hrange t
  · obtain ⟨record, hrecord, rfl⟩ := List.mem_map.1 ht
    exact h.value_eq record hrecord range (hrange record ▸ hr)

/-- The recorded tokens partition the source, and the program keeps the trivia behind the last. -/
theorem parse_partition (o : Options) (source : String) (out : Parsed) (hr : o.range = true)
    (ht : o.tokens = true) (h : parse o source = .ok out) :
    ∃ tokens ranges, out.tokens = some tokens ∧
      Partitions source.toList tokens ranges out.program.tail.toList := by
  obtain ⟨r, rfl⟩ := Reading.of_parse h
  obtain ⟨htail, htrivia⟩ := r.tail_spec
  refine ⟨_, ((consumed o source).map (·.1)).map Token.range, if_pos ht, ?_⟩
  change Partitions _ (r.last.tokens.toList.map (·.select o)) _ r.program.tail.toList
  have htokens : r.last.tokens.toList = ((consumed o source).map (·.1)).map Token.record := by
    rw [r.tokens_eq, List.map_map]
    rfl
  rw [htokens, htail, String.toList_ofList]
  exact (r.walk.divided.partitions htrivia).select hr

/-- The tokens of a short source. -/
theorem parse_partition_sum : ∃ out tokens ranges,
    parse { range := true, tokens := true } "a + 1 // b" = .ok out ∧ out.tokens = some tokens ∧
      Partitions "a + 1 // b".toList tokens ranges out.program.tail.toList := by
  obtain ⟨out, h⟩ : ∃ out, parse { range := true, tokens := true } "a + 1 // b" = .ok out :=
    exists_of_isOk (by decide +kernel)
  obtain ⟨tokens, ranges, htokens, hpartitions⟩ :=
    parse_partition { range := true, tokens := true } _ out rfl rfl h
  exact ⟨out, tokens, ranges, h, htokens, hpartitions⟩

end Verbatim
