import Verbatim.Proofs.Scan.Cursor
import Verbatim.Proofs.Scan.Read
import Verbatim.Scan.Punctuator

/-!
# Punctuators are read alike where texts part

## Main results

* `Verbatim.Read.Local.punctuator` — punctuators are read alike.
* `Verbatim.Read.punctuator_eq_ok` — what is read as a punctuator.
-/

namespace Verbatim.Read

open Verbatim.Text

variable {guard : Char → Bool}

/-- The punctuator that comes next is a front part of the text. -/
theorem punctuator?_front {l : List Char} {v : String} (h : punctuator? l = some v) :
    v.toList <+: l ∧ 0 < v.length := by
  have hpos : ∀ text ∈ punctuators, 0 < text.length := by decide
  have hfound : ∀ {text}, punctuators.find? (·.toList.isPrefixOf l) = some text →
      text.toList <+: l ∧ 0 < text.length := fun hf =>
    ⟨List.isPrefixOf_iff_prefix.1 (by simpa using List.find?_some hf),
      hpos _ (List.mem_of_find?_eq_some hf)⟩
  unfold punctuator? at h
  split at h
  · rename_i hf
    have hp := (hfound hf).1
    split at h
    · cases h
      exact ⟨(List.prefix_append ['?'] ['.']).trans hp, by decide⟩
    · cases h
      exact hfound hf
  · exact hfound h

/-- Every punctuator may be jumped over. -/
theorem isPlain_of_punctuator? {l : List Char} {v : String} (h : punctuator? l = some v) :
    isPlain v.toList = true := by
  have hplain : ∀ text ∈ punctuators, isPlain text.toList = true := by decide
  refine hplain v ?_
  unfold punctuator? at h
  split at h
  · split at h
    · cases h
      decide
    · cases h
      decide
  · exact List.mem_of_find?_eq_some h

/-- Longer punctuators are tried first. -/
theorem punctuators_pairwise : punctuators.Pairwise fun v w => w.length ≤ v.length := by decide

/-- No punctuator but a brace has a sign at which texts part, except angle brackets, and each of
these ends a punctuator. -/
theorem punctuators_signs : ∀ v ∈ punctuators, ∀ n < v.length, 0 < n →
    v.toList[n]? ≠ some '#' ∧ v.toList[n]? ≠ some '\x60' ∧ v.toList[n]? ≠ some '\x7d' ∧
      (v.toList[n]? = some '>' → String.ofList (v.toList.take (n + 1)) ∈ punctuators) := by
  decide

/-- The first punctuator that fits in front of the place where texts part is the same in both. -/
theorem find?_punctuators {x a b : List Char} {v : String} (hab : Parts a b) (hx : x ≠ [])
    (h : punctuators.find? (·.toList.isPrefixOf (x ++ a)) = some v) (hlen : v.length ≤ x.length) :
    punctuators.find? (·.toList.isPrefixOf (x ++ b)) = some v := by
  obtain ⟨hv, front, back, hsplit, hfront⟩ := List.find?_eq_some_iff_append.1 h
  have hmem : ∀ {w}, w ∈ front → w ∈ punctuators := fun hw => hsplit ▸ List.mem_append_left _ hw
  have hpair := punctuators_pairwise
  rw [hsplit, List.pairwise_append, List.pairwise_cons] at hpair
  have hfits : ∀ {w : String} {c}, w.length ≤ x.length →
      (w.toList.isPrefixOf (x ++ c) = true ↔ w.toList <+: x) := by
    intro w c hw
    rw [List.isPrefixOf_iff_prefix]
    exact ⟨fun hp => List.prefix_of_prefix_length_le hp (List.prefix_append _ _)
      (w.length_toList.symm ▸ hw),
      fun hp => hp.trans (List.prefix_append _ _)⟩
  refine List.find?_eq_some_iff_append.2
    ⟨(hfits hlen).2 ((hfits hlen).1 hv), front, back, hsplit, fun w hw => ?_⟩
  have hnot := hfront w hw
  rw [Bool.not_eq_true', Bool.eq_false_iff] at hnot ⊢
  intro hb
  by_cases hle : w.length ≤ x.length
  · exact hnot ((hfits hle).2 ((hfits hle).1 hb))
  -- One that reaches over the place has an angle bracket there, with which a shorter one ends.
  obtain ⟨h₁, h₂, h₃, hangle⟩ := punctuators_signs w (hmem hw) x.length (by omega)
    (List.length_pos_iff.2 hx)
  obtain ⟨after, hafter⟩ := List.isPrefixOf_iff_prefix.1 hb
  have hat : w.toList[x.length]? = b.head? := by
    have hb₀ : (x ++ b)[x.length]? = b.head? := by
      rw [List.getElem?_append_right (Nat.le_refl _), Nat.sub_self, List.head?_eq_getElem?]
    rw [← hb₀, ← hafter, List.getElem?_append_left (by rw [String.length_toList]; omega)]
  cases hab with
  | number => exact h₁ hat
  | piece => exact h₃ hat
  | @sign c l l' hc =>
    obtain rfl := hc.resolve_right fun hc => h₃ (hat.trans (congrArg some hc))
    have htake : w.toList.take (x.length + 1) = x ++ ['>'] := by
      have htake' := congrArg (List.take (x.length + 1)) hafter
      rw [List.take_append_of_le_length (by rw [String.length_toList]; omega)] at htake'
      rw [htake', List.take_length_add_append]
      rfl
    have hfit : (String.ofList (x ++ ['>'])).toList.isPrefixOf (x ++ '>' :: l) = true := by
      rw [String.toList_ofList, List.isPrefixOf_iff_prefix]
      exact ⟨l, by simp⟩
    have hshort := hangle hat
    rw [htake, hsplit, List.mem_append] at hshort
    have hle : (String.ofList (x ++ ['>'])).length ≤ v.length := by
      rcases hshort with hmem | hmem
      · exact absurd (hfront _ hmem) (by rw [hfit]; decide)
      · rcases List.mem_cons.1 hmem with rfl | hmem
        · exact Nat.le_refl _
        · exact hpair.2.1.1 _ hmem
    simp only [String.length_ofList, List.length_append, List.length_singleton] at hle
    omega

/-- Which punctuator comes next is seen alike where texts part behind it. -/
theorem punctuator?_eq {x a b : List Char} {v : String} (hab : Parts a b)
    (h : punctuator? (x ++ a) = some v) (hlen : v.length ≤ x.length) :
    punctuator? (x ++ b) = some v := by
  obtain ⟨w, hw⟩ : ∃ w, punctuators.find? (·.toList.isPrefixOf (x ++ a)) = some w := by
    unfold punctuator? at h
    cases hf : punctuators.find? (·.toList.isPrefixOf (x ++ a)) with
    | none => rw [hf] at h; cases h
    | some w => exact ⟨w, rfl⟩
  have hpos := (punctuator?_front h).2
  have hx : x ≠ [] := by
    rintro rfl
    exact absurd hlen (Nat.not_le.2 hpos)
  by_cases hq : w = "?."
  · subst hq
    -- The point stands in front of the place where the texts part, so what follows it does too.
    rcases x with _ | ⟨d, _ | ⟨e, x⟩⟩
    · exact absurd rfl hx
    · have hp := List.find?_some hw
      cases hab with
      | number | piece => simp [List.isPrefixOf] at hp
      | sign hc => rcases hc with rfl | rfl <;> simp [List.isPrefixOf] at hp
    · have hw' := find?_punctuators hab hx hw (Nat.le_add_left _ _)
      have hdigit : ((d :: e :: x ++ a).drop 2).head?.any isDecimalDigit =
          ((d :: e :: x ++ b).drop 2).head?.any isDecimalDigit := by
        cases x with
        | nil => cases hab <;> rfl
        | cons => rfl
      unfold punctuator? at h ⊢
      rw [hw] at h
      rw [hw', ← hdigit]
      exact h
  · have hsame : ∀ {l}, punctuators.find? (·.toList.isPrefixOf l) = some w →
        punctuator? l = some w := by
      intro l hl
      unfold punctuator?
      rw [hl]
      split
      · rename_i heq
        exact absurd (Option.some.inj heq) hq
      · rfl
    rw [hsame hw] at h
    cases h
    exact hsame (find?_punctuators hab hx hw hlen)

/-- The longest punctuator is read, and nothing behind it. -/
theorem punctuator_eq_ok {l m : List Char} {v : String} :
    Read.punctuator l = .ok v m ↔ punctuator? l = some v ∧ m = l.drop v.length := by
  rw [Read.punctuator, Read.remaining_bind]
  cases hfound : punctuator? l with
  | none =>
    have hrun : (throw .illegalToken : Read String) l = .error .illegalToken l := rfl
    simp [hrun]
  | some spelling =>
    have hrun : (Read.jump (byteLength spelling.toList) >>= fun _ =>
      pure spelling : Read String) l =
        .ok spelling (l.drop (byteLength spelling.toList)) := rfl
    dsimp only
    rw [hrun, byteLength_of_isPlain (isPlain_of_punctuator? hfound), String.length_toList,
      EStateM.Result.ok.injEq, Option.some.injEq]
    constructor
    · rintro ⟨rfl, rfl⟩
      exact ⟨rfl, rfl⟩
    · rintro ⟨rfl, rfl⟩
      exact ⟨rfl, rfl⟩

theorem Local.punctuator : Local guard Read.punctuator := by
  refine ⟨fun h => ?_, fun {x y a b v} hab hg h => ?_⟩
  · rw [(punctuator_eq_ok.1 h).2]
    exact List.drop_suffix _ _
  · obtain ⟨hv, hm⟩ := punctuator_eq_ok.1 h
    have hlen := (punctuator?_front hv).2
    exact punctuator_eq_ok.2 ⟨punctuator?_eq hab hv (hab.le_of_drop hm.symm),
      (hab.drop_eq hm.symm).symm⟩

end Verbatim.Read
