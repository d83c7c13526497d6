import Verbatim.Proofs.Consumed

/-!
# Parsing loses nothing

The text of a program is made of the tokens that the parse consumed, with the trivia in front of
each of them, and of the trivia at the end. Each token is printed as it is spelled in the source,
but a private name is printed without escapes, and a template piece that is not the first of its
template behind the brace that closes a substitution.

## Main results

* `Verbatim.parse_lossless` — source and printed program, token by token.
-/

namespace Verbatim

namespace Step

variable {s s₁ : Scanner} {t : Token} {after : Mode}

/-- A private name without escapes is spelled with its decoded name. -/
theorem privateName_raw (h : Step s t after s₁) (hk : t.kind = .privateName)
    (hraw : '\\' ∉ t.raw.toList) : t.raw = "#" ++ t.text := by
  have hnext : ∀ {s s₀}, Scan.next s = .ok t s₀ → t.raw = "#" ++ t.text := by
    intro s s₀ hs
    obtain ⟨f, hf, rfl, -⟩ := Scan.next_eq_ok.1 hs
    obtain ⟨name, hv, -, -, spelled, hspelled, hname, -⟩ := hf.privateName hk
    have hraw : '\\' ∉ f.raw := by simpa [Find.token] using hraw
    rw [hspelled] at hraw
    obtain rfl := hname fun hmem => hraw (List.mem_cons_of_mem _ hmem)
    have htext : (f.token s).text = String.ofList spelled := by
      unfold Token.text
      rw [show (f.token s).value = _ from hv]
    rw [htext]
    change String.ofList f.raw = _
    rw [hspelled, ← String.toList_inj]
    simp
  cases h with
  | plain scanned => exact hnext scanned
  | regex _ _ _ scanned =>
    rw [Scan.nextRegex_kind scanned] at hk
    cases hk
  | markup _ _ _ scanned => exact hnext scanned

end Step

/-- A taken token is printed as it is spelled, if private names have no escapes and a later template
piece begins with the brace that closes a substitution. -/
theorem Taken.print_eq {x : Taken} {s s₁ : Scanner} (h : Step s x.token x.after s₁)
    (hname : x.token.kind = .privateName → '\\' ∉ x.token.raw.toList)
    (hlater : x.isLater = true → x.token.raw.toList.head? = some '\x7d') :
    x.print = x.token.lead ++ x.token.raw := by
  unfold print spelling
  refine congrArg (x.token.lead ++ ·) ?_
  split
  · exact (h.privateName_raw ‹_› (hname ‹_›)).symm
  · split
    · obtain ⟨l, hl⟩ := List.head?_eq_some_iff.1 (hlater ‹_›)
      rw [← String.toList_inj, hl]
      simp
    · rfl
  · rfl

/-- A parse loses nothing. Source and printed program are both made of the tokens that were
consumed, with the trivia in front of them, and of the trivia at the end; where every token is
printed as it is spelled, they are the same. -/
theorem parse_lossless (o : Options) (source : String) (out : Parsed)
    (h : parse o source = .ok out) :
    source = concat ((consumedParts o source).map fun x => x.token.lead ++ x.token.raw) ++
        out.program.tail ∧
      out.program.print = concat ((consumedParts o source).map Taken.print) ++ out.program.tail ∧
      ((∀ x ∈ consumedParts o source, x.token.kind = .privateName → '\\' ∉ x.token.raw.toList) →
        (∀ x ∈ consumedParts o source, x.isLater = true →
          x.token.raw.toList.head? = some '\x7d') →
        out.program.print = source) := by
  obtain ⟨r, rfl⟩ := Reading.of_parse h
  have htail : (Parsed.select o r.program r.last).program.tail = r.program.tail := rfl
  have hsource : source = concat ((consumedParts o source).map fun x => x.token.lead ++ x.token.raw)
      ++ r.program.tail := by
    have hdivided := r.walk.divided.text_eq
    rw [List.map_map, ← r.tail_spec.1] at hdivided
    rw [consumedParts, roles, List.map_map]
    exact (String.ofList_toList).symm.trans hdivided
  have hprint : (Parsed.select o r.program r.last).program.print =
      concat ((consumedParts o source).map Taken.print) ++ r.program.tail := by
    change (r.program.mapSpans _).print = _
    rw [Program.print_mapSpans, Program.print, ← r.spells.text_eq, Trace.text_of]
  refine ⟨hsource, hprint, fun hname hlater => ?_⟩
  rw [hprint]
  refine Eq.trans ?_ hsource.symm
  refine congrArg (concat · ++ _) (List.map_congr_left fun x hx => ?_)
  obtain ⟨⟨t, after⟩, ht, rfl⟩ := List.mem_map.1 (show x ∈ roles _ _ from hx)
  obtain ⟨s, s₁, hstep⟩ := r.walk.exists_step _ ht
  exact Taken.print_eq hstep (hname _ hx) (hlater _ hx)

/-- A template with a substitution is printed as it is. -/
theorem parse_lossless_template : ∃ out, parse {} "\x60a$\x7bb\x7dc\x60" = .ok out ∧
    out.program.print = "\x60a$\x7bb\x7dc\x60" := by
  obtain ⟨out, h⟩ : ∃ out, parse {} "\x60a$\x7bb\x7dc\x60" = .ok out :=
    exists_of_isOk (by decide +kernel)
  exact ⟨out, h, (parse_lossless {} _ out h).2.2 (by decide +kernel) (by decide +kernel)⟩

end Verbatim
