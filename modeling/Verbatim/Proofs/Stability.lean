import Verbatim.Proofs.Reprint

/-!
# Parsing what was printed

A program that was parsed without extents is parsed again from its printed text. The second parse
reads other tokens where the printed text differs from the source, and the scanner may meet other
open braces; but step by step its tokens are alike, so that its productions do the same.

## Main results

* `Verbatim.Walk.lockstep` — the tokens of a source and of its printed text come in step.
* `Verbatim.parse_print` — the printed text of a program is parsed to the same program.
-/

namespace Verbatim

/-! ## The printed text is similar to the source -/

/-- A token in front of similar texts, as it is spelled and as it is printed. -/
theorem Step.similar {s s₁ : Scanner} {x : Taken} {rest' : List Char}
    (h : Step s x.token x.after s₁) (hk : x.isLater = true → x.token.kind = .template)
    (hs : Similar s₁.cursor.rest rest') : Similar s.cursor.rest (x.print.toList ++ rest') := by
  obtain ⟨f, hf, -, hx, hback, hnext⟩ := h.exists_find
  rw [hback, (Find.back_spec hf.chars).1] at hs
  have hkind : x.token.kind = f.lexeme.kind := by rw [hx]; rfl
  rw [hf.chars, Taken.print_toList hx, List.append_assoc, List.append_assoc]
  refine Similar.append f.lead ?_
  by_cases hname : x.token.kind = .privateName
  · obtain ⟨s₀, hnext⟩ := hnext.resolve_left (by simp [hname])
    obtain ⟨name, hv, -, -, spelled, hraw, -, hparts⟩ := hnext.privateName (hkind.symm.trans hname)
    have htext : x.token.text = String.ofList name := by
      unfold Token.text
      rw [hx, show (f.token s).value = _ from hv]
    rw [Taken.spelling_name hname, htext, hraw]
    have hsimilar : Similar ([] ++ '#' :: (spelled ++ f.rest)) ([] ++ '#' :: (name ++ rest')) :=
      .parts (hparts rest')
    simpa using hsimilar
  by_cases hlater : x.isLater = true
  · have htemplate := hk hlater
    obtain ⟨s₀, hnext⟩ := hnext.resolve_left (by simp [htemplate])
    obtain ⟨isHead, ho⟩ : ∃ isHead, f.opening s₀ = .template isHead := by
      have hkinds := hnext.kind
      rw [← hkind, htemplate] at hkinds
      cases ho : f.opening s₀ <;> rw [ho] at hkinds <;> simp [Opening.kinds] at hkinds ⊢
    obtain ⟨-, -, hhead⟩ := hnext.template_spec ho
    obtain ⟨inner, hraw⟩ := List.head?_eq_some_iff.1 hhead
    have hdrop : x.token.raw.toList.drop 1 = inner := by
      rw [hx]
      change (String.ofList f.raw).toList.drop 1 = inner
      rw [String.toList_ofList, hraw]
      rfl
    rw [Taken.spelling_later htemplate hlater, hdrop, hraw]
    have hsimilar : Similar ((if isHead then '\x60' else '\x7d') :: (inner ++ f.rest))
        ('\x7d' :: (inner ++ rest')) := by
      cases isHead with
      | true =>
        have hparts : Similar ([] ++ '\x60' :: (inner ++ f.rest))
          ([] ++ '\x7d' :: (inner ++ rest')) :=
          .parts .piece
        exact hparts
      | false => exact hs.append ('\x7d' :: inner)
    simpa using hsimilar
  · rw [Taken.spelling_raw hname fun _ => by simpa using hlater, hx]
    change Similar _ ((String.ofList f.raw).toList ++ rest')
    rw [String.toList_ofList]
    exact hs.append f.raw

/-- Where a text is taken, there is text between tags. -/
theorem Step.goes_of_markupText {s s₁ : Scanner} {t : Token} {after : Mode} {rest' : List Char}
    (h : Step s t after s₁) (hk : t.kind = .markupText) : Goes s rest' := by
  cases h with
  | plain scanned =>
    obtain ⟨f, hf, rfl, -⟩ := Scan.next_eq_ok.1 scanned
    obtain ⟨hm, hpieces, -, ⟨c, l, hraw, hc⟩, -⟩ := hf.markupText_spec hk
    refine .text (l := l ++ f.rest) hm ?_ hc
    rw [hf.chars, Find.lead, hpieces, hraw]
    rfl
  | regex _ _ _ scanned =>
    rw [Scan.nextRegex_kind scanned] at hk
    cases hk
  | markup mode seen isAngle scanned =>
    have hangle := Scan.next_tag_of_angle mode seen isAngle scanned
    simp [Token.isPunctuator, hk] at hangle

/-- The sign in front of text between tags, as it is spelled and as it is printed. -/
theorem Step.similarSign {s s₁ : Scanner} {x : Taken} {rest' : List Char}
    (h : Step s x.token x.after s₁)
    (hsign : s.mode = .normal ∧ x.token.isPunctuator "\x7d" = true ∨
      s.mode = .tag ∧ x.token.isPunctuator ">" = true) :
    Similar s.cursor.rest (x.print.toList ++ rest') := by
  obtain ⟨f, hf, -, hx, -⟩ := h.exists_find
  have hkind : x.token.kind = .punctuator := by
    rcases hsign with ⟨-, hp⟩ | ⟨-, hp⟩ <;> exact (by simpa [Token.isPunctuator] using hp : _ ∧ _).1
  have hraw : ∃ c, (c = '>' ∨ c = '\x7d') ∧ f.raw = [c] := by
    rw [hx] at hsign
    rcases hsign with ⟨-, hp⟩ | ⟨-, hp⟩
    · exact ⟨'\x7d', .inr rfl, Find.raw_of_isPunctuator hp⟩
    · exact ⟨'>', .inl rfl, Find.raw_of_isPunctuator hp⟩
  obtain ⟨c, hc, hraw⟩ := hraw
  have hspelling : x.spelling.toList = f.raw := by
    rw [Taken.spelling_raw (by simp [hkind]) (by simp [hkind]), hx]
    exact String.toList_ofList
  rw [hf.chars, Taken.print_toList hx, hspelling, hraw, List.append_assoc, List.append_assoc]
  exact .append f.lead (.parts (x := []) (.sign hc))

/-- The text of a walk, as it is spelled and as the companion has it. -/
theorem Walk.goes [Exchange] {s r : Scanner} {taken : List Taken}
    (h : Walk s (taken.map fun x => (x.token, x.after)) r)
    (hk : ∀ x ∈ taken, x.isLater = true → x.token.kind = .template) :
    Goes s ((concat (taken.map Taken.restated)).toList ++ r.cursor.rest) := by
  induction taken generalizing s with
  | nil =>
    obtain rfl : s = r := h
    exact .similar .same
  | cons x taken ih =>
    obtain ⟨s₁, hstep, hwalk⟩ := h
    have hrest := ih hwalk fun y hy => hk y (List.mem_cons_of_mem _ hy)
    rw [List.map_cons, concat_cons, String.toList_append, List.append_assoc]
    rcases hexch : x.token.exchange? with _ | wording
    · rw [Taken.restated_eq_print hexch]
      cases hrest with
      | similar hs => exact .similar (hstep.similar (hk x List.mem_cons_self) hs)
      | text mode hr hp => exact .similar (hstep.similarSign (hstep.ends mode hr hp))
    · exact hstep.goes_of_markupText (Token.kind_of_exchange? hexch)

/-- In front of a walk a token can be scanned. -/
theorem Walk.exists_next {s r : Scanner} {tokens : List (Token × Mode)} (h : Walk s tokens r)
    (hr : ∃ t s₂, Scan.next r = .ok t s₂) : ∃ t s₂, Scan.next s = .ok t s₂ := by
  cases tokens with
  | nil =>
    obtain rfl : s = r := h
    exact hr
  | cons x tokens =>
    obtain ⟨t, after⟩ := x
    obtain ⟨s₁, hstep, -⟩ := h
    cases hstep with
    | plain scanned => exact ⟨_, _, scanned⟩
    | regex _ seen => exact ⟨_, _, seen⟩
    | markup _ seen => exact ⟨_, _, seen⟩

/-! ## The tokens come in step -/

/-- Alike tokens with the same part in templates do the same to the open braces. -/
theorem Taken.nest_alike [Exchange] {x : Taken} {t' : Token} (ha : Alike x.token t')
    (hh : x.isLater = false → t'.isTemplateHead = x.token.isTemplateHead) (braces : List Brace) :
    ({ x with token := t' } : Taken).nest braces = x.nest braces := by
  have hkind : t'.kind = x.token.kind := ha.kind
  by_cases hp : x.token.kind = .punctuator
  · simp only [Taken.nest, hkind, hp, ha.raw (by simp [hp])]
  by_cases ht : x.token.kind = .template
  · have htail : ({ x with token := t' } : Taken).isTail = x.isTail := by
      have hv := ha.headless (by simp [ht])
      unfold Taken.isTail
      dsimp only
      cases hx : x.token.value <;> cases ht : t'.value <;> simp_all [TokenValue.headless]
    unfold Taken.nest
    dsimp only
    rw [hkind, ht, htail]
    cases hl : x.isLater with
    | false => rw [hh hl]
    | true => rcases braces with _ | ⟨_ | _, _⟩ <;> rfl
  · rw [Taken.nest_plain hp ht, Taken.nest_plain (hkind ▸ hp) (hkind ▸ ht)]

/-- The tokens of a source and of the text that the companion has come in step. -/
theorem Walk.lockstep [Exchange] {s s' r : Scanner} {taken : List Taken} {inner : List Brace}
    (h : Walk s (taken.map fun x => (x.token, x.after)) r)
    (hk : ∀ x ∈ taken, x.isLater = true → x.token.kind = .template) (hb : Scanner.Beside s s')
    (hc : s'.cursor.rest = (concat (taken.map Taken.restated)).toList ++ r.cursor.rest)
    (hn : (Trace.of taken).nest s'.braces = some inner)
    (heof : ∃ t s₂, Scan.next r = .ok t s₂ ∧ t.isEof = true) : Lockstep s taken s' := by
  induction taken generalizing s s' with
  | nil =>
    obtain rfl : s = r := h
    refine ⟨?_, heof⟩
    obtain ⟨t, s₂, hscan, ht⟩ := heof
    obtain ⟨f, hf, rfl, -⟩ := Scan.next_eq_ok.1 hscan
    obtain ⟨hraw, hrest⟩ := hf.eof (Find.kind_eq_eof ht)
    have hc' : s'.cursor.rest = f.lead ++ f.raw ++ f.rest := hc.trans hf.chars
    have hg := hf.onto hb .same hc' (Opening.of_braces fun _ hhead => by
      rw [hraw, hrest] at hhead
      cases hhead)
    have hk : (f.token s).kind ≠ .markupText := by
      rw [show (f.token s).kind = _ from of_decide_eq_true ht]
      decide
    exact .of_next hb hf hg (Find.alike_onto (Token.exchange?_eq_none hk) ..) id
  | cons x taken ih =>
    obtain ⟨s₁, hstep, hwalk⟩ := h
    have hk' : ∀ y ∈ taken, y.isLater = true → y.token.kind = .template := fun y hy =>
      hk y (List.mem_cons_of_mem _ hy)
    rw [List.map_cons, concat_cons, String.toList_append, List.append_assoc] at hc
    obtain ⟨between, hx, hrest⟩ := Option.bind_eq_some_iff.1
      (show (x.nest s'.braces).bind (Trace.of taken).nest = some inner from hn)
    have hnext : ∃ t s₂, Scan.next r = .ok t s₂ := heof.imp fun _ => .imp fun _ => And.left
    obtain ⟨hlooks, t', s₁', hstep', ha, hhead, hlater, hb', hc'⟩ := Step.reprints hstep hb
      (hk x List.mem_cons_self) (hwalk.goes hk') hc hx (hwalk.exists_next hnext)
    have hbraces : s₁'.braces = between :=
      Step.braces_eq (x := { x with token := t' }) hstep' hlater
        ((Taken.nest_alike ha hhead _).trans hx)
    exact ⟨hlooks, s₁, t', s₁', hstep, hstep', ha, hhead,
      ih hwalk hk' hb' hc' (hbraces ▸ hrest)⟩

/-! ## The second parse -/

/-- A parser can be started where a token can be scanned. -/
theorem Parser.exists_start {o : Options} {source : String} {t : Token} {s : Scanner}
    (h : Scan.next (.origin o source) = .ok t s) :
    ∃ first, Parser.start source (o.goal = .module) o.tolerant = .ok first := by
  obtain ⟨s₁, hs₁, -⟩ := Scan.next_of_quiet
    (show Scan.next (Scanner.start source (o.goal = .module) true).quiet = .ok t s from h)
  unfold Parser.start
  dsimp only
  rw [hs₁]
  exact ⟨_, rfl⟩

namespace Reading

variable {o : Options} {source : String}

/-- Scanners at the origins of two sources are beside each other. -/
theorem origin_beside (o : Options) (source source' : String) :
    (Scanner.origin o source).Beside (.origin o source') := ⟨rfl, rfl, rfl, rfl, Iff.rfl⟩

/-- All of a source is in front of the scanner at its origin. -/
theorem origin_rest (o : Options) (source : String) :
    (Scanner.origin o source).cursor.rest = source.toList := rfl

section

variable [Exchange]

/-- The text that the companion has. -/
def restated (r : Reading o source) : String :=
  concat ((consumedParts o source).map Taken.restated) ++ r.program.tail

/-- The tokens of a source and of the text that the companion has come in step. -/
theorem lockstep (r : Reading o source) :
    Lockstep (.origin o source) (consumedParts o source) (.origin o r.restated) := by
  refine r.walk_parts.lockstep (fun x hx => kind_of_isLater hx) (origin_beside o source _) ?_
    (r.spells.nest_eq []) ⟨_, _, r.stands.scanned, r.eof⟩
  rw [origin_rest, restated, String.toList_append, r.tail_spec.1, String.toList_ofList]

/-- The text that the companion has is parsed to what the companion has for the program. -/
theorem exists_alike (r : Reading o source) : ∃ r' : Reading o r.restated,
    Alike r.program r'.program := by
  have hlockstep := r.lockstep
  -- What the companion has is of no importance from here on.
  generalize r.restated = text at hlockstep ⊢
  obtain ⟨hstands, hmode, hnodes, htokens, hpending, hreport⟩ := Stands.of_start r.start_eq
  obtain ⟨t', s', hnext', -⟩ := hlockstep.looks.alike hstands.scanned
  obtain ⟨first', hstart'⟩ := Parser.exists_start hnext'
  obtain ⟨hstands', hmode', hnodes', htokens', hpending', hreport'⟩ := Stands.of_start hstart'
  have hagrees : Agrees (.origin o source) (consumedParts o source ++ []) r.first first' := by
    refine ⟨⟨_, hstands', ?_⟩, hmode'.trans hmode.symm, ?_, ?_⟩
    · rw [List.append_nil]
      exact hlockstep
    · rw [hpending, hpending']
      exact alike_none
    · rw [hreport, hreport']
  have hlook : Alike r.first.lookahead first'.lookahead := hagrees.lookahead hstands
  obtain ⟨_, _, _, _, -, hechoes⟩ := Tracks.action o source text hlook r.first _ r.program
    r.last hstands rfl hmode rfl r.run_eq
  rw [r.consumedParts_eq] at hagrees
  have hleft : first'.left < text.length + 3 := by
    rw [Parser.left, hstands'.cursor]
    change text.toList.length < _
    rw [String.length_toList]
    omega
  obtain ⟨program', last', hrun', -, halike, -⟩ :=
    hechoes _ [] first' (List.Subset.refl _) hagrees rfl hleft
  obtain ⟨r', rfl, -⟩ :=
    Reading.of_outcome (o := o) (congrArg Outcome.result (outcomeOf_eq hstart' hrun'))
  exact ⟨r', halike⟩

end

/-- If no text is exchanged, the companion has what is printed. -/
theorem restated_nothing (r : Reading o source) :
    @restated o source .nothing r = r.program.print := by
  have hrestated : (@Taken.restated .nothing) = Taken.print :=
    funext fun x => @Taken.restated_eq_print .nothing x (Token.exchange?_nothing x.token)
  change concat ((consumedParts o source).map (@Taken.restated .nothing)) ++ r.program.tail = _
  rw [hrestated, Program.print, ← r.spells.text_eq, Trace.text_of]

end Reading

/-- The printed text of a program that was parsed without extents is parsed, and to the same
program. -/
theorem parse_print (o : Options) (source : String) (out : Parsed) (hr : o.range = false)
    (hl : o.location = false) (h : parse o source = .ok out) :
    ∃ out', parse o out.program.print = .ok out' ∧ out'.program = out.program := by
  obtain ⟨r, rfl⟩ := Reading.of_parse h
  have hselect : Span.select o = fun _ => {} := by
    funext s
    simp [Span.select, hr, hl]
  have hprint : (Parsed.select o r.program r.last).program.print = r.program.print :=
    Program.print_mapSpans _ _
  let _ := Exchange.nothing
  obtain ⟨r', halike⟩ : ∃ r' : Reading o r.program.print, Alike r.program r'.program :=
    r.restated_nothing ▸ r.exists_alike
  rw [hprint]
  refine ⟨_, r'.parse_eq, ?_⟩
  change r'.program.mapSpans (·.select o) = r.program.mapSpans (·.select o)
  rw [hselect, Program.mapSpans_eq_retouch, Program.mapSpans_eq_retouch]
  have hretouch : r.program.retouch (@Exchange.there .nothing) = r'.program.retouch .blank := halike
  rw [Exchange.there_nothing] at hretouch
  exact hretouch.symm

/-- A source with an escaped private name and a template that is printed otherwise. -/
theorem parse_print_escaped :
    ∃ out out', parse {} "class A\x7b#\\u0061\x7d" = .ok out ∧
      parse {} out.program.print = .ok out' ∧ out'.program = out.program := by
  obtain ⟨out, h⟩ : ∃ out, parse {} "class A\x7b#\\u0061\x7d" = .ok out :=
    exists_of_isOk (by decide +kernel)
  obtain ⟨out', h', heq⟩ := parse_print {} _ out rfl rfl h
  exact ⟨out, out', h, h', heq⟩

end Verbatim
