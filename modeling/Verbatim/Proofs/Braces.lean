import Verbatim.Proofs.Consumed

/-!
# Open braces follow the tokens that are consumed

The scanner opens and closes braces by the characters of the tokens; the trace of consumed tokens
says what they do to the braces if each template is closed by its own pieces. If every piece that
continues a template begins with the brace that closes a substitution, then both agree, and every
brace is closed at the end of the source. The scanner alone does not enforce it: a template may be
continued by a piece that begins with a back quote.

## Main results

* `Verbatim.Walk.braces_eq` — the open braces behind a walk.
* `Verbatim.parse_closes_braces` — at the end of a source every brace is closed.
* `Verbatim.parse_leaves_substitution` — a source where a substitution stays open.
-/

namespace Verbatim

/-- A punctuator that begins with a brace is the brace. -/
theorem Read.punctuator?_brace {l : List Char} {v : String} {c : Char}
    (h : punctuator? l = some v) (hc : v.toList.head? = some c) :
    (c = '\x7b' ↔ v = "\x7b") ∧ (c = '\x7d' ↔ v = "\x7d") := by
  have hbrace : ∀ text ∈ punctuators,
      (text.toList.head? = some '\x7b' ↔ text = "\x7b") ∧
        (text.toList.head? = some '\x7d' ↔ text = "\x7d") := by decide
  have hv : v ∈ punctuators := by
    unfold punctuator? at h
    split at h
    · split at h <;> cases h <;> decide
    · exact List.mem_of_find?_eq_some h
  have hiff := hbrace v hv
  rwa [hc, Option.some.injEq, Option.some.injEq] at hiff

/-! ## What a token does to open braces -/

namespace Taken

variable {x : Taken} {braces inner : List Brace}

theorem nest_open (hk : x.token.kind = .punctuator) (hr : x.token.raw = "\x7b") :
    x.nest braces = some (.plain :: braces) := by
  simp [nest, hk, hr]

theorem nest_close (hk : x.token.kind = .punctuator) (hr : x.token.raw = "\x7d")
    (hn : x.nest braces = some inner) : ∃ outer, braces = .plain :: outer ∧ outer = inner := by
  simp only [nest, hk, hr] at hn
  rcases braces with _ | ⟨_ | _, outer⟩
  · cases hn
  · exact ⟨outer, rfl, Option.some.inj hn⟩
  · cases hn

theorem nest_other (hk : x.token.kind = .punctuator) (hr : x.token.raw ≠ "\x7b")
    (hr' : x.token.raw ≠ "\x7d") : x.nest braces = some braces := by
  simp [nest, hk, hr, hr']

/-- Only punctuators and template pieces open or close braces. -/
theorem nest_plain (hp : x.token.kind ≠ .punctuator) (ht : x.token.kind ≠ .template) :
    x.nest braces = some braces := by
  unfold nest
  split <;> simp_all

end Taken

namespace Opening

variable {c : Char} {lexeme : Lexeme} {braces : List Brace}

theorem nest_punctuator (h : c ≠ '\x7b') (h' : c ≠ '\x7d') :
    (punctuator c).nest lexeme braces = braces := by
  unfold nest
  split <;> simp_all

theorem nest_delimiter (h : c ≠ '\x7b') : (delimiter c).nest lexeme braces = braces := by
  unfold nest
  split <;> simp_all

end Opening

namespace Find.Next

variable {f : Find} {s : Scanner} (h : f.Next s)
include h

/-- A token begins with the character that it was recognized by. -/
theorem head?_raw {c : Char} {l : List Char} (hc : f.raw ++ f.rest = c :: l)
    (hk : f.lexeme.kind ≠ .eof) : f.raw.head? = some c := by
  obtain ⟨d, raw, hraw⟩ := List.exists_cons_of_ne_nil (h.raw_ne_nil hk)
  rw [hraw] at hc ⊢
  exact congrArg some (List.cons.inj hc).1

/-- A punctuator of the language is a brace if it is recognized by one. -/
theorem punctuator_brace {c : Char} (ho : f.opening s = .punctuator c) :
    (c = '\x7b' ↔ (f.token s).raw = "\x7b") ∧ (c = '\x7d' ↔ (f.token s).raw = "\x7d") := by
  have hfits := fits s f
  have hreads := h.reads
  have hkind := h.kind
  rw [ho] at hfits hreads hkind
  have hhead : f.raw.head? = some c := by
    generalize hchars : f.raw ++ f.rest = chars at hfits
    cases hfits with
    | punctuator => exact h.head?_raw hchars fun hk => by simp [hk, Opening.kinds] at hkind
  obtain ⟨v, m, hv, hpure⟩ := Run.bind_eq_ok.1 hreads
  obtain ⟨-, rfl⟩ := Run.pure_eq_ok.1 hpure
  obtain ⟨hv, hrest⟩ := Read.punctuator_eq_ok.1 hv
  obtain ⟨after, hafter⟩ := (Read.punctuator?_front hv).1
  have hraw : f.raw = v.toList := by
    rw [← hafter, ← String.length_toList, List.drop_left] at hrest
    rw [hrest] at hafter
    exact (List.append_cancel_right hafter).symm
  have hspelled : (f.token s).raw = v := by
    change String.ofList f.raw = v
    rw [hraw, String.ofList_toList]
  rw [hspelled]
  exact Read.punctuator?_brace hv (hraw ▸ hhead)

/-- A delimiter of markup is spelled with one character. -/
theorem delimiter_raw {c : Char} (ho : f.opening s = .delimiter c) :
    (f.token s).raw = String.singleton c ∧ s.mode ≠ .normal ∧ (c = '\x7d' → s.mode = .tag) := by
  have hfits := fits s f
  have hreads := h.reads
  rw [ho] at hfits hreads
  refine ⟨?_, ?_⟩
  · generalize hchars : f.raw ++ f.rest = chars at hfits hreads
    cases hfits with
    | @delimiter _ l =>
      obtain ⟨-, rfl⟩ := Run.pure_eq_ok.1 (show (pure _ : Read Lexeme) l = _ from hreads)
      change String.ofList f.raw = _
      rw [List.append_cancel_right (show f.raw ++ f.rest = [c] ++ f.rest from hchars)]
      rfl
  · rw [opening] at ho
    cases hm : s.mode with
    | normal =>
      rw [hm] at ho
      change Opening.ofLanguage _ _ = _ at ho
      unfold Opening.ofLanguage at ho
      split at ho
      · cases ho
      · repeat (split at ho; · cases ho)
        cases ho
    | tag => exact ⟨by decide, fun _ => rfl⟩
    | text =>
      rw [hm] at ho
      change Opening.ofText _ = _ at ho
      unfold Opening.ofText at ho
      split at ho
      · cases ho
      split at ho
      · cases ho
        refine ⟨by decide, ?_⟩
        rintro rfl
        simp at *
      · cases ho

/-- A template piece begins a template if it begins with a back quote. -/
theorem template_spec {isHead : Bool} (ho : f.opening s = .template isHead) :
    f.lexeme.kind = .template ∧ (∃ cooked isTail, f.lexeme.value = .template cooked isHead isTail) ∧
      f.raw.head? = some (if isHead then '\x60' else '\x7d') := by
  have hfits := fits s f
  have hreads := h.reads
  have hkind := h.kind
  rw [ho] at hfits hreads hkind
  have hk : f.lexeme.kind = .template := by simpa [Opening.kinds] using hkind
  obtain ⟨cooked, isTail, inner, hv, hchars⟩ := hfits.template hreads
  rw [List.append_cancel_right hchars]
  exact ⟨hk, ⟨cooked, isTail, hv⟩, rfl⟩

/-- Scanning a token does to the open braces what its part in templates says, if a piece that is not
the first of its template begins with a brace. -/
theorem nest_eq {x : Taken} (hx : x.token = f.token s)
    (inTag : s.mode = .tag → (f.token s).isPunctuator "\x7d" = false)
    (hlater : x.isLater = true → f.raw.head? = some '\x7d') {braces : List Brace}
    (hn : x.nest s.braces = some braces) :
    (f.opening s).nest f.lexeme s.braces = braces := by
  have hkind := h.kind
  have hk : x.token.kind = f.lexeme.kind := by rw [hx]; rfl
  have hr : x.token.raw = (f.token s).raw := by rw [hx]
  cases ho : f.opening s with
  | punctuator c =>
    obtain ⟨hopen, hclose⟩ := h.punctuator_brace ho
    rw [ho] at hkind
    have hp : x.token.kind = .punctuator := by simpa [Opening.kinds, hk] using hkind
    rw [← hr] at hopen hclose
    by_cases hc : c = '\x7b'
    · rw [Taken.nest_open hp (hopen.1 hc)] at hn
      subst hc
      exact Option.some.inj hn
    by_cases hc' : c = '\x7d'
    · obtain ⟨outer, hb, rfl⟩ := Taken.nest_close hp (hclose.1 hc') hn
      subst hc'
      rw [hb]
      rfl
    rw [Taken.nest_other hp (fun h => hc (hopen.2 h)) fun h => hc' (hclose.2 h)] at hn
    rw [Opening.nest_punctuator hc hc']
    exact Option.some.inj hn
  | delimiter c =>
    obtain ⟨hraw, -, htag⟩ := h.delimiter_raw ho
    rw [ho] at hkind
    have hp : x.token.kind = .punctuator := by simpa [Opening.kinds, hk] using hkind
    rw [← hr] at hraw
    have hc' : c ≠ '\x7d' := by
      rintro rfl
      have hclose := inTag (htag rfl)
      rw [← hx, Token.isPunctuator, hp, hraw] at hclose
      exact absurd hclose (by decide)
    by_cases hc : c = '\x7b'
    · subst hc
      rw [Taken.nest_open hp hraw] at hn
      exact Option.some.inj hn
    have hne : ∀ d, c ≠ d → x.token.raw ≠ String.singleton d := fun d hd hs => by
      rw [hraw, ← String.toList_inj] at hs
      exact hd (by simpa using hs)
    rw [Taken.nest_other hp (hne _ hc) (hne _ hc')] at hn
    rw [Opening.nest_delimiter hc]
    exact Option.some.inj hn
  | template isHead =>
    obtain ⟨hk, ⟨cooked, isTail, hv⟩, hhead⟩ := h.template_spec ho
    have htail : x.isTail = isTail := by
      rw [Taken.isTail, hx, show (f.token s).value = _ from hv]
    have hfirst : x.token.isTemplateHead = isHead := by
      rw [hx, Token.isTemplateHead, show (f.token s).kind = _ from hk,
        show (f.token s).value = _ from hv]
    unfold Taken.nest at hn
    rw [hx, show (f.token s).kind = _ from hk, ← hx, htail, hfirst] at hn
    cases hl : x.isLater with
    | false =>
      rw [hl] at hn
      cases isHead with
      | false => cases hn
      | true => cases isTail <;> simpa [Opening.nest, hv] using hn
    | true =>
      rw [hl] at hn
      have hc := hlater hl
      rw [hhead] at hc
      cases isHead with
      | true => exact absurd hc (by decide)
      | false =>
        rcases hb : s.braces with _ | ⟨_ | _, outer⟩ <;> rw [hb] at hn
        · cases hn
        · cases hn
        · cases isTail <;> simpa [Opening.nest, hv] using hn
  | _ =>
    rw [ho, ← hk] at hkind
    rw [Taken.nest_plain (by rintro hp; simp [hp, Opening.kinds] at hkind)
      (by rintro hp; simp [hp, Opening.kinds] at hkind)] at hn
    exact Option.some.inj hn

end Find.Next

/-! ## Braces behind a walk -/

/-- A step does to the open braces what the part of its token in templates says. -/
theorem Step.braces_eq {s s₁ : Scanner} {x : Taken} (h : Step s x.token x.after s₁)
    (hlater : x.isLater = true → x.token.raw.toList.head? = some '\x7d') {braces : List Brace}
    (hn : x.nest s.braces = some braces) : s₁.braces = braces := by
  generalize ht : x.token = t at h
  generalize ha : x.after = after at h
  cases h with
  | plain scanned notEof shift inTag =>
    obtain ⟨f, hf, rfl, rfl⟩ := Scan.next_eq_ok.1 scanned
    rw [ht] at hlater
    exact hf.nest_eq ht inTag (fun hl => by simpa [Find.token] using hlater hl) hn
  | regex _ _ _ scanned =>
    have hk := Scan.nextRegex_kind scanned
    obtain ⟨f, hf, -, rfl⟩ := Scan.nextRegex_eq_ok.1 scanned
    rw [← ht] at hk
    rw [Taken.nest_plain (by simp [hk]) (by simp [hk])] at hn
    exact Option.some.inj hn
  | markup mode seen isAngle scanned =>
    have hangle := Scan.next_tag_of_angle mode seen isAngle scanned
    obtain ⟨f, hf, rfl, rfl⟩ := Scan.next_eq_ok.1 scanned
    rw [ht] at hlater
    refine hf.nest_eq ht (fun _ => ?_) (fun hl => by simpa [Find.token] using hlater hl) hn
    cases hr : (f.token { s with mode := .tag }).isPunctuator "\x7d" with
    | false => rfl
    | true => simp_all [Token.isPunctuator]

/-- The open braces behind a walk are those that its trace says, if the pieces that continue a
template begin with braces. -/
theorem Walk.braces_eq {s r : Scanner} {taken : List Taken}
    (h : Walk s (taken.map fun x => (x.token, x.after)) r)
    (hlater : ∀ x ∈ taken, x.isLater = true → x.token.raw.toList.head? = some '\x7d')
    {braces : List Brace} (hn : (Trace.of taken).nest s.braces = some braces) :
    r.braces = braces := by
  induction taken generalizing s with
  | nil =>
    obtain rfl : s = r := h
    exact Option.some.inj hn
  | cons x taken ih =>
    obtain ⟨s₁, hstep, hwalk⟩ := h
    obtain ⟨inner, hx, hrest⟩ := Option.bind_eq_some_iff.1
      (show (x.nest s.braces).bind (Trace.of taken).nest = some braces from hn)
    have hs₁ := Step.braces_eq hstep (hlater x List.mem_cons_self) hx
    exact ih hwalk (fun y hy => hlater y (List.mem_cons_of_mem _ hy)) (hs₁ ▸ hrest)

/-- At the end of a source every brace is closed, if the pieces that continue a template begin with
the brace that closes a substitution. -/
theorem parse_closes_braces (o : Options) (source : String) (program : Program) (last : Parser)
    (h : (outcomeOf o.goal o.tolerant o.jsx source).result = .ok (program, last))
    (hlater : ∀ x ∈ consumedParts o source, x.isLater = true →
      x.token.raw.toList.head? = some '\x7d') : last.scanner.braces = [] := by
  obtain ⟨r, rfl, rfl⟩ := Reading.of_outcome h
  rw [r.last_braces]
  exact r.walk_parts.braces_eq hlater (r.spells.nest_eq [])

/-- A template whose second piece begins with a back quote: the parse ends well, and the
substitution is never closed. -/
theorem parse_leaves_substitution :
    (∃ x ∈ consumedParts {} "\x60$\x7b()=>\x7b\x7d\x60b\x60",
        x.isLater = true ∧ x.token.raw = "\x60b\x60") ∧
      (match (outcomeOf .script false true "\x60$\x7b()=>\x7b\x7d\x60b\x60").result with
        | .ok (_, last) => some last.scanner.braces
        | .error _ => none) = some [.substitution] := by
  decide +kernel

end Verbatim
