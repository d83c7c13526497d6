import Verbatim.Proofs.Braces

/-!
# Scanning what was printed

A token is scanned alike where the text behind it goes on in a similar way: the same, or the same up
to the next token that is printed otherwise than it was spelled. A token that is itself printed
otherwise is scanned as an alike one, and so is a text in markup that the companion has otherwise.
So one step of a walk over a source is a step over the printed text, if the open braces there are
those that the parts of the tokens in templates say.

## Main definitions

* `Verbatim.Similar` — texts that are the same up to a place where they part, if at all.
* `Verbatim.Goes` — how the text behind a scanner goes on for the companion.
* `Verbatim.Taken.restated` — a token as the companion spells it.
* `Verbatim.Scanner.Beside` — scanners in front of two texts that differ in nothing else that
  counts.
* `Verbatim.Reprints` — what a step over a source is over the printed text.

## Main results

* `Verbatim.Step.reprints` — a step over a source is one over the printed text.
-/

namespace Verbatim

/-! ## Similar texts -/

/-- Two texts that are the same, or the same up to a place where they part. -/
inductive Similar : List Char → List Char → Prop where
  /-- The same. -/
  | same {text : List Char} : Similar text text
  /-- The same up to a place. -/
  | parts {x a b : List Char} (h : Parts a b) : Similar (x ++ a) (x ++ b)

namespace Similar

variable {rest rest' : List Char}

theorem append (front : List Char) (h : Similar rest rest') :
    Similar (front ++ rest) (front ++ rest') := by
  cases h with
  | same => exact .same
  | @parts x a b h =>
    rw [← List.append_assoc, ← List.append_assoc]
    exact .parts h

/-- Nothing is similar to nothing else. -/
theorem eq_nil (h : Similar rest rest') (hr : rest = []) : rest' = [] := by
  cases h with
  | same => exact hr
  | parts h =>
    obtain ⟨-, rfl⟩ := List.append_eq_nil_iff.1 hr
    exact absurd h.length_pos (by decide)

end Similar

/-- The same trivia stands in front of similar texts. -/
theorem Lead.similar {html atStart : Bool} {lead rest rest' : List Char} {pieces : List Trivium}
    (hs : Similar rest rest') (h : Lead html atStart (lead ++ rest) pieces rest) :
    Lead html atStart (lead ++ rest') pieces rest' := by
  cases hs with
  | same => exact h
  | parts hab =>
    rw [← List.append_assoc] at h ⊢
    exact h.parts hab

/-- A reader reads the same in front of similar texts. -/
theorem Read.Local.similar {α : Type} {r : Read α} (hr : Local (fun _ => false) r)
    {raw rest rest' : List Char} {v : α} (hs : Similar rest rest')
    (h : r (raw ++ rest) = .ok v rest) :
    r (raw ++ rest') = .ok v rest' := by
  cases hs with
  | same => exact h
  | parts hab =>
    rw [← List.append_assoc] at h ⊢
    exact hr.same hab .free h

namespace Opening

variable {mode : Mode} {braces braces' : List Brace} {raw rest rest' chars : List Char}

/-- A token starts alike in front of similar texts. -/
theorem of_similar (hs : Similar rest rest') (hr : raw = [] → rest = []) :
    Opening.of mode braces (raw ++ rest) = Opening.of mode braces (raw ++ rest') := by
  by_cases hraw : raw = []
  · rw [hs.eq_nil (hr hraw), hr hraw]
  · cases hs with
    | same => rfl
    | parts hab =>
      rw [← List.append_assoc, ← List.append_assoc]
      exact of_parts hab (List.append_ne_nil_of_left_ne_nil hraw _)

/-- The open braces make a difference only where a closing brace comes in the language. -/
theorem of_braces (h : mode = .normal → chars.head? = some '\x7d' →
      (braces.head? = some .substitution ↔ braces'.head? = some .substitution)) :
    Opening.of mode braces chars = Opening.of mode braces' chars := by
  cases mode with
  | tag => rfl
  | text => rfl
  | normal =>
    rcases chars with _ | ⟨c, l⟩
    · rfl
    change ofLanguage _ (c :: l) = ofLanguage _ (c :: l)
    by_cases hc : c = '\x7d'
    · subst hc
      rw [decide_eq_decide.2 (h rfl rfl)]
    · unfold ofLanguage
      dsimp only
      rw [beq_false_of_ne hc, Bool.false_and, Bool.false_and]

/-- Private names and templates are found in the language only. -/
theorem mode_of_language (h : Opening.of mode braces chars = .privateName ∨
      ∃ isHead, Opening.of mode braces chars = .template isHead) : mode = .normal := by
  cases mode with
  | normal => rfl
  | tag =>
    rcases chars with _ | ⟨c, l⟩
    · rcases h with h | ⟨_, h⟩ <;> cases h
    · change ofTag (c :: l) = _ ∨ ∃ isHead, ofTag (c :: l) = _ at h
      unfold ofTag at h
      dsimp only at h
      repeat (split at h; · rcases h with h | ⟨_, h⟩ <;> cases h)
      rcases h with h | ⟨_, h⟩ <;> cases h
  | text =>
    rcases chars with _ | ⟨c, l⟩
    · rcases h with h | ⟨_, h⟩ <;> cases h
    · change ofText (c :: l) = _ ∨ ∃ isHead, ofText (c :: l) = _ at h
      unfold ofText at h
      dsimp only at h
      split at h <;> rcases h with h | ⟨_, h⟩ <;> cases h

end Opening

/-! ## Finds in front of similar texts -/

/-- Two scanners that keep no comments and differ in nothing that counts but the text in front of
them and the open braces. -/
structure Scanner.Beside (s s' : Scanner) : Prop where
  /-- The first keeps no comments. -/
  quiet : s.quiet = s
  /-- Nor does the second. -/
  quiet' : s'.quiet = s'
  /-- The mode is the same. -/
  mode : s'.mode = s.mode
  /-- Both sources are modules or none is. -/
  isModule : s'.isModule = s.isModule
  /-- Both stand at the start or none does. -/
  atStart : s'.cursor.position.offset = 0 ↔ s.cursor.position.offset = 0

/-- Both scanners may change the mode together. -/
theorem Scanner.Beside.withMode {s s' : Scanner} (h : Beside s s') (mode : Mode) :
    Beside { s with mode } { s' with mode } := by
  have hq := h.quiet
  have hq' := h.quiet'
  refine ⟨?_, ?_, rfl, h.isModule, h.atStart⟩
  · rw [← hq]
    rfl
  · rw [← hq']
    rfl

namespace Find

variable {f g : Find} {s s' : Scanner} {rest' : List Char}

/-- A find with another text behind it. -/
def onto (f : Find) (rest : List Char) : Find := { f with rest }

/-- Behind finds that are spelled by something, scanners are beside each other again. -/
theorem beside (hb : Scanner.Beside s s') (hf : s.cursor.rest = f.lead ++ f.raw ++ f.rest)
    (hg : s'.cursor.rest = g.lead ++ g.raw ++ g.rest) (hr : f.raw ≠ []) (hr' : g.raw ≠ [])
    (braces braces' : List Brace) : Scanner.Beside (f.after s braces) (g.after s' braces') := by
  have hpos := Text.byteLength_pos hr
  have hpos' := Text.byteLength_pos hr'
  have hback := (back_spec hf).2
  have hback' := (back_spec hg).2
  refine ⟨?_, ?_, ?_, ?_, ?_⟩
  · rw [← after_quiet, hb.quiet]
  · rw [← after_quiet, hb.quiet']
  · change (s'.past _).mode = (s.past _).mode
    rw [s.past_mode, s'.past_mode, hb.mode]
  · change (s'.past _).isModule = (s.past _).isModule
    rw [s.past_isModule, s'.past_isModule, hb.isModule]
  · change (g.back s').position.offset = 0 ↔ (f.back s).position.offset = 0
    omega

/-- The trivia of a find stands in front of a similar text, too. -/
theorem trivia_onto {raw raw' rest : List Char} {pieces : List Trivium}
    (hb : Scanner.Beside s s')
    (h : if s.mode = .text then pieces = [] else
      Lead s.allowsHtml (s.cursor.position.offset = 0)
        (pieces.flatMap Trivium.chars ++ (raw ++ rest))
        pieces (raw ++ rest))
    (hs : Similar (raw ++ rest) (raw' ++ rest')) :
    if s'.mode = .text then pieces = [] else
      Lead s'.allowsHtml (s'.cursor.position.offset = 0)
        (pieces.flatMap Trivium.chars ++ (raw' ++ rest')) pieces (raw' ++ rest') := by
  have hhtml : s'.allowsHtml = s.allowsHtml := by
    rw [Scanner.allowsHtml, Scanner.allowsHtml, hb.isModule, hb.mode]
  have hstart : decide (s'.cursor.position.offset = 0) = decide (s.cursor.position.offset = 0) :=
    decide_eq_decide.2 hb.atStart
  rw [hb.mode, hhtml, hstart]
  split
  · rwa [if_pos ‹_›] at h
  · rw [if_neg ‹_›] at h
    exact h.similar hs

/-- The same token is found in front of another text, if it starts alike there and is read alike. -/
theorem Next.ontoRead (h : f.Next s) (hb : Scanner.Beside s s')
    (hs : Similar (f.raw ++ f.rest) (f.raw ++ rest'))
    (hopening : Opening.of s.mode s.braces (f.raw ++ rest') = f.opening s)
    (hread : (f.opening s).reader (f.raw ++ rest') = .ok f.lexeme rest')
    (hc : s'.cursor.rest = f.lead ++ f.raw ++ rest')
    (ho : Opening.of s.mode s.braces (f.raw ++ rest') = Opening.of s.mode s'.braces
      (f.raw ++ rest')) :
    (f.onto rest').Next s' := by
  have hopening' : (f.onto rest').opening s' = f.opening s := by
    change Opening.of s'.mode s'.braces (f.raw ++ rest') = _
    rw [hb.mode, ← ho, hopening]
  refine ⟨hc, ?_, ?_⟩
  · have htrivia := h.trivia
    rw [h.chars, List.append_assoc] at htrivia
    rw [hc, List.append_assoc]
    exact trivia_onto hb htrivia hs
  · rw [hopening']
    exact hread

/-- The same token is found in front of a similar text, if it starts alike there. -/
theorem Next.onto (h : f.Next s) (hb : Scanner.Beside s s') (hs : Similar f.rest rest')
    (hc : s'.cursor.rest = f.lead ++ f.raw ++ rest')
    (ho : Opening.of s.mode s.braces (f.raw ++ rest') = Opening.of s.mode s'.braces
      (f.raw ++ rest')) :
    (f.onto rest').Next s' := by
  refine h.ontoRead hb (hs.append f.raw) (Opening.of_similar hs fun hraw => ?_).symm
    ((fits s f).isLocal.similar hs h.reads) hc ho
  by_cases hk : f.lexeme.kind = .eof
  · exact (h.eof hk).2
  · exact absurd hraw (h.raw_ne_nil hk)

/-- The sign that ends code or a tag is found in front of any text. -/
theorem Next.ontoSign (h : f.Next s) (hb : Scanner.Beside s s')
    (hsign : s.mode = .normal ∧ (f.token s).isPunctuator "\x7d" = true ∨
      s.mode = .tag ∧ (f.token s).isPunctuator ">" = true)
    (hc : s'.cursor.rest = f.lead ++ f.raw ++ rest')
    (ho : Opening.of s.mode s.braces (f.raw ++ rest') = Opening.of s.mode s'.braces
      (f.raw ++ rest')) :
    (f.onto rest').Next s' := by
  have hreads := h.reads
  rcases hsign with ⟨hm, hp⟩ | ⟨hm, hp⟩
  · have hraw : f.raw = ['\x7d'] := raw_of_isPunctuator hp
    have hopening : ∀ l, Opening.of s.mode s.braces (f.raw ++ l) = f.opening s := by
      intro l
      rw [opening, hm, hraw]
      rfl
    have hpunct : f.opening s = .punctuator '\x7d' := by
      have hof : f.opening s = .template false ∨ f.opening s = .punctuator '\x7d' := by
        rw [opening, hm, hraw]
        change Opening.ofLanguage _ ('\x7d' :: f.rest) = _ ∨ Opening.ofLanguage _
          ('\x7d' :: f.rest) = _
        generalize decide (s.braces.head? = some .substitution) = inSubstitution
        cases inSubstitution with
        | false => exact .inr rfl
        | true => exact .inl rfl
      refine hof.resolve_left fun ho => ?_
      have hk : f.lexeme.kind = .punctuator := by
        have hk : (f.token s).kind = .punctuator :=
          (by simpa [Token.isPunctuator] using hp : _ ∧ _).1
        exact hk
      have hkind := h.kind
      rw [hk, ho] at hkind
      exact absurd hkind (by decide)
    refine h.ontoRead hb ?_ (hopening _) ?_ hc ho
    · rw [hraw]
      exact .parts (x := []) (.sign (.inr rfl))
    · rw [hpunct, hraw] at hreads ⊢
      obtain ⟨v, m, -, hpure⟩ := Run.bind_eq_ok.1 hreads
      obtain ⟨hl, -⟩ := Run.pure_eq_ok.1 hpure
      rw [← hl]
      exact Run.bind_eq_ok.2 ⟨"\x7d", rest', Read.punctuator_eq_ok.2 ⟨rfl, rfl⟩, rfl⟩
  · have hraw : f.raw = ['>'] := raw_of_isPunctuator hp
    have hopening : ∀ l, Opening.of s.mode s.braces (f.raw ++ l) = .delimiter '>' := by
      intro l
      rw [hm, hraw]
      rfl
    refine h.ontoRead hb ?_ ((hopening _).trans (hopening _).symm) ?_ hc ho
    · rw [hraw]
      exact .parts (x := []) (.sign (.inl rfl))
    · rw [opening, hopening, hraw] at hreads ⊢
      obtain ⟨hl, -⟩ := Run.pure_eq_ok.1 (show (pure _ : Read Lexeme) f.rest = _ from hreads)
      rw [← hl]
      rfl

theorem Regex.onto (h : f.Regex s) (hb : Scanner.Beside s s') (hm : s.mode = .normal)
    (hs : Similar f.rest rest') (hc : s'.cursor.rest = f.lead ++ f.raw ++ rest') :
    (f.onto rest').Regex s' := by
  refine ⟨hc, ?_, Read.Local.regex.similar hs h.reads⟩
  have htrivia := h.trivia
  rw [h.chars, List.append_assoc] at htrivia
  rw [hc, List.append_assoc]
  have hlead := trivia_onto hb
    (by rwa [if_neg (by rw [hm]; decide)]) (hs.append f.raw)
  rwa [if_neg (by rw [hb.mode, hm]; decide)] at hlead

variable [Exchange]

/-- A token in front of another text differs in its place only. -/
theorem alike_onto (hx : (f.token s).exchange? = none) (s' : Scanner) (rest' : List Char) :
    Alike (f.token s) ((f.onto rest').token s') :=
  .of_unplaced hx rfl

/-- What makes the tokens of finds alike. -/
theorem alike (hx : (f.token s).exchange? = none) (hp : g.pieces = f.pieces)
    (hk : g.lexeme.kind = f.lexeme.kind)
    (hv : g.lexeme.value.headless = f.lexeme.value.headless)
    (ho : g.lexeme.octal = f.lexeme.octal)
    (he : f.lexeme.kind = .privateName ∨ g.lexeme.escaped = f.lexeme.escaped)
    (hvisible : (g.token s').visible = (f.token s).visible) : Alike (f.token s) (g.token s') := by
  have hescaped : (g.lexeme.kind ≠ .privateName && g.lexeme.escaped) =
      (f.lexeme.kind ≠ .privateName && f.lexeme.escaped) := by
    rw [hk]
    rcases he with he | he
    · simp [he]
    · rw [he]
  refine .of_unplaced hx ?_
  change ({ kind := f.lexeme.kind, value := f.lexeme.value.headless, octal := f.lexeme.octal
            escaped := f.lexeme.kind ≠ .privateName && f.lexeme.escaped
            raw := (f.token s).visible, lead := String.ofList f.lead, start := {}, stop := {}
            lineStart := 0, newlineBefore := f.pieces.any Trivium.endsLine } : Token) =
        { kind := g.lexeme.kind, value := g.lexeme.value.headless, octal := g.lexeme.octal
          escaped := g.lexeme.kind ≠ .privateName && g.lexeme.escaped
          raw := (g.token s').visible, lead := String.ofList g.lead, start := {}, stop := {}
          lineStart := 0, newlineBefore := g.pieces.any Trivium.endsLine }
  rw [hescaped, hk, hv, ho, hvisible, lead, lead, hp]

end Find

/-! ## Tokens that are printed otherwise than they were spelled -/

namespace Read

/-- A name ends alike in front of similar texts. -/
theorem Stops.similar {taken rest rest' : List Char} (hs : Similar rest rest')
    (h : Stops taken rest) : Stops taken rest' := by
  cases hs with
  | same => exact h
  | parts hab => exact h.parts hab

/-- Text between tags is decoded, and ends in front of a brace or a bracket. -/
theorem markupText_eq_ok {l m : List Char} {v : Lexeme} : markupText l = .ok v m ↔
    ∃ value, Entity.decode (String.ofList (l.takeWhile fun c => c ≠ '\x7b' && c ≠ '<'))
      = .ok value ∧
      v = { kind := .markupText, value := .text value } ∧
      m = l.dropWhile fun c => c ≠ '\x7b' && c ≠ '<' := by
  have hdecoded : ∀ {text rest m : List Char} {value}, decoded text rest = .ok value m ↔
      Entity.decode (String.ofList text) = .ok value ∧ rest = m := by
    intro text rest m value
    unfold decoded
    cases Entity.decode (String.ofList text) with
    | error invalid => simp
    | ok value' => exact Run.pure_eq_ok.trans (and_congr_left' (Except.ok.injEq ..).symm.to_iff)
  have hrun : markupText l = (decoded (l.takeWhile fun c => c ≠ '\x7b' && c ≠ '<') >>= fun value =>
      (pure { kind := .markupText, value := .text value } : Read Lexeme))
        (l.dropWhile fun c => c ≠ '\x7b' && c ≠ '<') := rfl
  rw [hrun, Run.bind_eq_ok]
  constructor
  · rintro ⟨value, _, hd, hp⟩
    obtain ⟨hdecode, rfl⟩ := hdecoded.1 hd
    obtain ⟨rfl, rfl⟩ := Run.pure_eq_ok.1 hp
    exact ⟨value, hdecode, rfl, rfl⟩
  · rintro ⟨value, hd, rfl, rfl⟩
    exact ⟨value, _, hdecoded.2 ⟨hd, rfl⟩, rfl⟩

/-- The first character of a template piece is told by its meaning only. -/
theorem templatePiece_isHead {isHead : Bool} {l m : List Char} {v : Lexeme}
    (h : templatePiece isHead l = .ok v m) (isHead' : Bool) : ∃ v',
      templatePiece isHead' l = .ok v' m ∧ v'.kind = v.kind ∧ v'.octal = v.octal ∧
        v'.escaped = v.escaped ∧ v'.value.headless = v.value.headless := by
  obtain ⟨u, m₁, hu, hv⟩ := Run.bind_eq_ok.1
    (show (pieceFrom (l.length + 1) {} >>= fun _ => _ : Read Lexeme) l = _ from h)
  obtain ⟨rfl, rfl⟩ := Run.pure_eq_ok.1 hv
  refine ⟨{ kind := .template
            value :=
              .template (if u.1.isValid then some (String.ofList u.1.taken.reverse) else none)
              isHead' u.2
            octal := u.1.octal }, ?_, rfl, rfl, rfl, rfl⟩
  change (pieceFrom (l.length + 1) {} >>= fun _ => _ : Read Lexeme) l = _
  exact Run.bind_eq_ok.2 ⟨u, m₁, hu, rfl⟩

end Read

section

variable [Exchange]

namespace Find.Next

variable {f : Find} {s s' : Scanner} {rest' : List Char} (h : f.Next s) (hb : Scanner.Beside s s')
include h hb

/-- A private name is found where it is printed by its decoded name. -/
theorem reprintName (hk : f.lexeme.kind = .privateName) (hs : Similar f.rest rest')
    (hc : s'.cursor.rest = f.lead ++ ("#" ++ (f.token s).text).toList ++ rest') :
    ∃ g : Find, g.Next s' ∧ Alike (f.token s) (g.token s') ∧ g.raw ≠ [] ∧ g.rest = rest' := by
  obtain ⟨name, hvalue, hstops, hagain, spelled, hraw, -, hparts⟩ := h.privateName hk
  have htext : (f.token s).text = String.ofList name := by
    unfold Token.text
    rw [show (f.token s).value = _ from hvalue]
  have hmode : s.mode = .normal := by
    have hkind := h.kind
    rw [hk] at hkind
    refine Opening.mode_of_language (.inl (?_ : f.opening s = .privateName))
    cases ho : f.opening s <;> rw [ho] at hkind <;> simp [Opening.kinds] at hkind ⊢
  have hc : s'.cursor.rest = f.lead ++ '#' :: name ++ rest' := by
    rw [hc, htext]
    simp
  refine ⟨⟨f.pieces, '#' :: name, rest', { f.lexeme with escaped := false }⟩, ⟨hc, ?_, ?_⟩, ?_,
    List.cons_ne_nil _ _, rfl⟩
  · have htrivia := h.trivia
    rw [h.chars, List.append_assoc] at htrivia
    rw [hc, List.append_assoc]
    refine Find.trivia_onto hb htrivia ?_
    rw [hraw]
    exact .parts (x := []) (hparts rest')
  · have hopening : Opening.of s'.mode s'.braces ('#' :: (name ++ rest')) = .privateName := by
      rw [hb.mode, hmode]
      rfl
    change (Opening.of s'.mode s'.braces ('#' :: (name ++ rest'))).reader _ = _
    rw [hopening]
    exact hagain rest' (hstops.similar hs)
  · have hx : (f.token s).kind ≠ .markupText := by
      rw [show (f.token s).kind = _ from hk]
      decide
    refine Find.alike (Token.exchange?_eq_none hx) rfl rfl rfl rfl (.inl hk) ?_
    have hvisible : ∀ t : Token, t.kind = .privateName → t.visible = "" := fun t ht => by
      rw [Token.visible, ht]
    rw [hvisible _ (show f.lexeme.kind = _ from hk), hvisible _ (show f.lexeme.kind = _ from hk)]

/-- A template piece is found behind the brace that it is printed with, if a substitution is open
there. -/
theorem reprintPiece (hk : f.lexeme.kind = .template)
    (hbraces : s'.braces.head? = some .substitution) (hs : Similar f.rest rest')
    (hc : s'.cursor.rest =
      f.lead ++ ("\x7d" ++ String.ofList ((f.token s).raw.toList.drop 1)).toList ++ rest') :
    ∃ g : Find, g.Next s' ∧ Alike (f.token s) (g.token s') ∧ g.raw.head? = some '\x7d' ∧
      g.rest = rest' ∧ (g.token s').isTemplateHead = false := by
  have hkind := h.kind
  have hreads := h.reads
  have hfits := fits s f
  rw [hk] at hkind
  obtain ⟨isHead, ho⟩ : ∃ isHead, f.opening s = .template isHead := by
    cases ho : f.opening s <;> rw [ho] at hkind <;> simp [Opening.kinds] at hkind ⊢
  have hmode : s.mode = .normal := Opening.mode_of_language (.inr ⟨isHead, ho⟩)
  obtain ⟨-, -, hhead⟩ := h.template_spec ho
  obtain ⟨inner, hraw⟩ := List.head?_eq_some_iff.1 hhead
  have hdrop : (f.token s).raw.toList.drop 1 = inner := by
    change (String.ofList f.raw).toList.drop 1 = inner
    rw [String.toList_ofList, hraw]
    rfl
  have hc : s'.cursor.rest = f.lead ++ '\x7d' :: inner ++ rest' := by
    rw [hc, hdrop]
    simp
  -- The piece goes on in the same way, and says only that it is not the first.
  rw [ho, hraw] at hreads
  obtain ⟨v, hv, hkind', hoctal, hescaped, hvalue⟩ := Read.templatePiece_isHead
    (show Read.templatePiece isHead (inner ++ f.rest) = _ from hreads) false
  have hread := (Read.Local.templatePiece false).similar hs hv
  refine ⟨⟨f.pieces, '\x7d' :: inner, rest', v⟩, ⟨hc, ?_, ?_⟩, ?_, rfl, rfl, ?_⟩
  · have htrivia := h.trivia
    rw [h.chars, List.append_assoc] at htrivia
    rw [hc, List.append_assoc]
    refine Find.trivia_onto hb htrivia ?_
    rw [hraw]
    cases isHead with
    | true => exact .parts (x := []) .piece
    | false => exact hs.append ('\x7d' :: inner)
  · have hopening : Opening.of s'.mode s'.braces ('\x7d' :: (inner ++ rest')) =
      .template false := by
      have hsame : Opening.of .normal s'.braces ('\x7d' :: (inner ++ rest')) =
          Opening.of .normal [.substitution] ('\x7d' :: (inner ++ rest')) :=
        Opening.of_braces fun _ _ => by simp [hbraces]
      rw [hb.mode, hmode, hsame]
      rfl
    change (Opening.of s'.mode s'.braces ('\x7d' :: (inner ++ rest'))).reader _ = _
    rw [hopening]
    exact hread
  · have hx : (f.token s).kind ≠ .markupText := by
      rw [show (f.token s).kind = _ from hk]
      decide
    refine Find.alike (Token.exchange?_eq_none hx) rfl hkind' hvalue hoctal (.inr hescaped) ?_
    have hvisible : ∀ t : Token, t.kind = .template →
        t.visible = String.ofList (t.raw.toList.drop 1) := fun t ht => by rw [Token.visible, ht]
    rw [hvisible _ (hkind'.trans hk), hvisible _ hk, hdrop]
    change String.ofList ((String.ofList ('\x7d' :: inner)).toList.drop 1) = _
    rw [String.toList_ofList]
    rfl
  · obtain ⟨cooked, isTail, hv', -⟩ := Read.templatePiece_closed hv
    have hvkind : v.kind = .template := hkind'.trans hk
    have hvalue' : v.value = .template cooked false isTail := hv'
    simp only [Token.isTemplateHead, token, hvkind, hvalue']

end Find.Next

end

/-! ## Texts that are exchanged -/

/-- How the text behind a scanner goes on elsewhere: in a similar way, or with other text between
tags. -/
inductive Goes (s : Scanner) (rest' : List Char) : Prop where
  /-- In a similar way. -/
  | similar (h : Similar s.cursor.rest rest')
  /-- There is text between tags, whatever it is elsewhere. -/
  | text {c : Char} {l : List Char} (mode : s.mode = .text) (rest_eq : s.cursor.rest = c :: l)
      (plain : c ≠ '\x7b' ∧ c ≠ '<')

namespace Goes

variable {s : Scanner} {rest' : List Char}

/-- Elsewhere, too, text between tags ends. -/
theorem of_ends (h : Goes s rest') (hs : ∀ c l, s.cursor.rest = c :: l → c = '\x7b' ∨ c = '<') :
    Similar s.cursor.rest rest' := by
  cases h with
  | similar h => exact h
  | text _ hr hp => rcases hs _ _ hr with h | h <;> simp_all

/-- Where there is no text between tags, the text goes on in a similar way. -/
theorem of_mode (h : Goes s rest') (hm : s.mode ≠ .text) : Similar s.cursor.rest rest' := by
  cases h with
  | similar h => exact h
  | text mode => exact absurd mode hm

end Goes

/-- What begins with a brace or a bracket is similar to what does. -/
theorem Similar.ends {rest rest' : List Char} (h : Similar rest rest')
    (hs : ∀ c l, rest = c :: l → c = '\x7b' ∨ c = '<') :
    ∀ c l, rest' = c :: l → c = '\x7b' ∨ c = '<' := by
  cases h with
  | same => exact hs
  | @parts x a b hab =>
    rintro c l hc
    cases x with
    | nil => cases hab with
      | number => exact absurd (hs _ _ rfl) (by decide)
      | piece => exact absurd (hs _ _ rfl) (by decide)
      | sign hsign =>
        obtain ⟨rfl, -⟩ := List.cons.inj hc
        exact hs _ _ rfl
    | cons d x =>
      obtain ⟨rfl, -⟩ := List.cons.inj hc
      exact hs _ _ rfl

/-- A text between tags is what stands in front of a brace or a bracket. -/
theorem Read.markupText_append {raw rest : List Char} {value : String}
    (hraw : ∀ c ∈ raw, c ≠ '\x7b' ∧ c ≠ '<') (hd : Entity.decode (String.ofList raw) = .ok value)
    (hrest : ∀ c l, rest = c :: l → c = '\x7b' ∨ c = '<') :
    markupText (raw ++ rest) = .ok { kind := .markupText, value := .text value } rest := by
  have hall : ∀ c ∈ raw, (decide (c ≠ '\x7b') && decide (c ≠ '<')) = true := fun c hc => by
    simpa using hraw c hc
  have hstop : rest.takeWhile (fun c => c ≠ '\x7b' && c ≠ '<') = [] ∧
      rest.dropWhile (fun c => c ≠ '\x7b' && c ≠ '<') = rest := by
    cases rest with
    | nil => exact ⟨rfl, rfl⟩
    | cons c l => rcases hrest c l rfl with rfl | rfl <;> exact ⟨rfl, rfl⟩
  refine markupText_eq_ok.2 ⟨value, ?_, rfl, ?_⟩
  · rw [List.takeWhile_append_of_pos hall, hstop.1, List.append_nil, hd]
  · rw [List.dropWhile_append_of_pos hall, hstop.2]

namespace Find.Next

variable {f : Find} {s s' : Scanner} {rest' : List Char} (h : f.Next s)
include h

/-- Text between tags has no trivia in front of it and is decoded, and a brace or a bracket ends
it. -/
theorem markupText_spec (hk : f.lexeme.kind = .markupText) : s.mode = .text ∧ f.pieces = [] ∧
    (∃ value, f.lexeme = { kind := .markupText, value := .text value }) ∧
    (∃ c l, f.raw = c :: l ∧ c ≠ '\x7b' ∧ c ≠ '<') ∧
    ∀ c l, f.rest = c :: l → c = '\x7b' ∨ c = '<' := by
  have hkind := h.kind
  have hreads := h.reads
  have htrivia := h.trivia
  rw [hk] at hkind
  have ho : f.opening s = .markupText := by
    cases ho : f.opening s <;> rw [ho] at hkind <;> simp [Opening.kinds] at hkind ⊢
  have hm : s.mode = .text := Opening.mode_of_markupText ho
  rw [if_pos hm] at htrivia
  rw [ho] at hreads
  obtain ⟨value, -, hv, hrest⟩ := Read.markupText_eq_ok.1
    (show Read.markupText (f.raw ++ f.rest) = _ from hreads)
  refine ⟨hm, htrivia, ⟨value, hv⟩, ?_, fun c l hc => ?_⟩
  · obtain ⟨c, l, hraw⟩ := List.exists_cons_of_ne_nil (h.raw_ne_nil (by rw [hk]; decide))
    have hfits := fits s f
    rw [ho, hraw] at hfits
    cases hfits with
    | markupText hc => exact ⟨c, l, hraw, by simpa using hc⟩
  · have hstop := List.head?_dropWhile_not (fun c => c ≠ '\x7b' && c ≠ '<') (f.raw ++ f.rest)
    rw [← hrest, hc] at hstop
    by_cases hb : c = '\x7b'
    · exact .inl hb
    · exact .inr (by simpa [hb] using hstop)

/-- A text that is exchanged is found as the companion spells it. -/
theorem exchangeText [Exchange] (hb : Scanner.Beside s s') {wording : Wording}
    (hx : (f.token s).exchange? = some wording) (hs : Similar f.rest rest')
    (hc : s'.cursor.rest = f.lead ++ wording.raw.toList ++ rest') :
    ∃ g : Find, g.Next s' ∧ Alike (f.token s) (g.token s') ∧ g.rest = rest' := by
  have hk : f.lexeme.kind = .markupText := Token.kind_of_exchange? hx
  obtain ⟨hm, hpieces, ⟨value, hlexeme⟩, -, hends⟩ := h.markupText_spec hk
  have hends' := hs.ends hends
  obtain ⟨c, l, hraw⟩ := List.exists_cons_of_ne_nil
    (fun hnil => wording.raw_ne (String.toList_eq_nil_iff.1 hnil) : wording.raw.toList ≠ [])
  refine ⟨⟨f.pieces, wording.raw.toList, rest',
    { kind := .markupText, value := .text wording.value }⟩,
    ⟨hc, ?_, ?_⟩, ?_, rfl⟩
  · rw [if_pos (hb.mode.trans hm)]
    exact hpieces
  · have hopening : Opening.of s'.mode s'.braces (wording.raw.toList ++ rest') = .markupText := by
      have hplain := wording.plain c (hraw ▸ List.mem_cons_self)
      rw [hb.mode, hm, hraw]
      exact if_neg (by simpa using hplain)
    change (Opening.of s'.mode s'.braces (wording.raw.toList ++ rest')).reader _ = _
    rw [hopening]
    refine Read.markupText_append wording.plain ?_ hends'
    rw [String.ofList_toList]
    exact wording.decode_raw
  · change (f.token s).exchanged = Token.unplaced _
    rw [Token.exchanged, hx]
    simp [Token.unplaced, Find.token, Find.lead, hlexeme, Token.visible, TokenValue.headless]

end Find.Next

/-- A token behind which there is text between tags ends code or a tag. -/
theorem Step.ends {s s₁ : Scanner} {t : Token} {after : Mode} {c : Char} {l : List Char}
    (h : Step s t after s₁) (hm : s₁.mode = .text) (hr : s₁.cursor.rest = c :: l)
    (hc : c ≠ '\x7b' ∧ c ≠ '<') :
    s.mode = .normal ∧ t.isPunctuator "\x7d" = true ∨
      s.mode = .tag ∧ t.isPunctuator ">" = true := by
  cases h with
  | plain scanned notEof shift inTag =>
    obtain ⟨f, hf, rfl, rfl⟩ := Scan.next_eq_ok.1 scanned
    obtain rfl : after = .text := hm
    generalize hmode : s.mode = mode at shift
    cases shift with
    | stay h =>
      obtain ⟨-, -, -, -, hends⟩ := hf.markupText_spec (h rfl)
      have hrest : f.rest = c :: l := (Find.back_spec hf.chars).1.symm.trans hr
      rcases hends _ _ hrest with h | h <;> simp_all
    | close h => exact .inl ⟨rfl, h⟩
    | finish h => exact .inr ⟨rfl, h⟩
  | regex mode _ _ scanned =>
    rw [Scan.nextRegex_mode scanned, mode] at hm
    cases hm
  | markup _ _ _ scanned =>
    rw [Scan.next_mode scanned] at hm
    cases hm

namespace Taken

variable [Exchange]

/-- A taken token as the companion spells it. -/
def restated (x : Taken) : String :=
  match x.token.exchange? with
  | some wording => x.token.lead ++ wording.raw
  | none => x.print

variable {x : Taken}

theorem restated_eq_print (h : x.token.exchange? = none) : x.restated = x.print := by
  rw [restated, h]

theorem restated_eq {wording : Wording} (h : x.token.exchange? = some wording) :
    x.restated = x.token.lead ++ wording.raw := by
  rw [restated, h]

end Taken


/-! ## Steps over a printed text -/

/-- What a step over a source is over the printed text: tokens that come next are alike, and a step
takes an alike token and leads to the given rest of the text. -/
def Reprints [Exchange] (s s₁ s' : Scanner) (x : Taken) (rest' : List Char) : Prop :=
  Looks s s' ∧ ∃ t' s₁', Step s' t' x.after s₁' ∧ Alike x.token t' ∧
    (x.isLater = false → t'.isTemplateHead = x.token.isTemplateHead) ∧
    (x.isLater = true → t'.raw.toList.head? = some '\x7d') ∧ Scanner.Beside s₁ s₁' ∧
    s₁'.cursor.rest = rest'

/-- Behind alike tokens the mode may be the same. -/
theorem Shift.alike [Exchange] {mode after : Mode} {t t' : Token} (h : Shift mode t after)
    (ha : Alike t t') : Shift mode t' after := by
  cases h with
  | stay h => exact .stay fun hm => ha.kind.trans (h hm)
  | close h => exact .close ((ha.isPunctuator _).trans h)
  | finish h => exact .finish ((ha.isPunctuator _).trans h)
  | enter h => exact .enter ((ha.isPunctuator _).trans h)
  | tag h => exact .tag ((ha.isPunctuator _).trans h)

/-- Where alike tokens are scanned, alike tokens come next. -/
theorem Looks.of_next [Exchange] {s s' : Scanner} {f g : Find} (hb : Scanner.Beside s s')
    (hf : f.Next s)
    (hg : g.Next s') (ha : Alike (f.token s) (g.token s'))
    (hh : (f.token s).isTemplateHead = false → (g.token s').isTemplateHead = false) :
    Looks s s' := by
  refine ⟨hb.mode, fun {t s₁} h => ?_⟩
  have hs := Scan.next_eq_ok.2 ⟨f, hf, rfl, rfl⟩
  rw [hs] at h
  cases h
  exact ⟨_, _, Scan.next_eq_ok.2 ⟨g, hg, rfl, rfl⟩, ha, hh⟩

/-- A step in which the token that comes next is taken is one over the printed text, if an alike
token comes next there. -/
theorem Reprints.of_next [Exchange] {s s' : Scanner} {x : Taken} {f g : Find} {rest' : List Char}
    (hb : Scanner.Beside s s') (hx : x.token = f.token s) (hf : f.Next s) (hg : g.Next s')
    (notEof : x.token.isEof = false) (shift : Shift s.mode x.token x.after)
    (inTag : s.mode = .tag → x.token.isPunctuator "\x7d" = false)
    (ha : Alike (f.token s) (g.token s'))
    (hfirst : x.isLater = false → (g.token s').isTemplateHead = (f.token s).isTemplateHead)
    (hlater : x.isLater = true →
      g.raw.head? = some '\x7d' ∧ (g.token s').isTemplateHead = false)
    (hrest : g.rest = rest') (braces : List Brace) :
    Reprints s { f.after s braces with mode := x.after } s' x rest' := by
  have hhead : (f.token s).isTemplateHead = false → (g.token s').isTemplateHead = false := by
    intro hh
    cases hl : x.isLater with
    | false => rw [hfirst hl, hh]
    | true => exact (hlater hl).2
  rw [hx] at notEof shift inTag
  have notEof' : (g.token s').isEof = false := by rw [ha.isEof, notEof]
  have hbeside := Find.beside hb hf.chars hg.chars (hf.raw_ne_nil (Find.kind_ne_eof notEof))
    (hg.raw_ne_nil (Find.kind_ne_eof notEof'))
  refine ⟨.of_next hb hf hg ha hhead, _, _, .plain (Scan.next_eq_ok.2 ⟨g, hg, rfl, rfl⟩)
    notEof' ?_ ?_, hx ▸ ha, fun hl => hx ▸ hfirst hl, fun hl => ?_, (hbeside _ _).withMode _, ?_⟩
  · rw [hb.mode]
    exact shift.alike ha
  · rw [hb.mode, ha.isPunctuator]
    exact inTag
  · change (String.ofList g.raw).toList.head? = _
    rw [String.toList_ofList]
    exact (hlater hl).1
  · rw [← hrest]
    exact (Find.back_spec hg.chars).1

namespace Taken

variable {x : Taken}

theorem spelling_name (hk : x.token.kind = .privateName) : x.spelling = "#" ++ x.token.text := by
  rw [spelling, hk]

theorem spelling_later (hk : x.token.kind = .template) (hl : x.isLater = true) :
    x.spelling = "\x7d" ++ String.ofList (x.token.raw.toList.drop 1) := by
  rw [spelling, hk]
  exact if_pos hl

/-- All other tokens are printed as they are spelled. -/
theorem spelling_raw (hp : x.token.kind ≠ .privateName)
    (ht : x.token.kind = .template → x.isLater = false) : x.spelling = x.token.raw := by
  unfold spelling
  split
  · exact absurd ‹_› hp
  · rw [if_neg (by simp [ht ‹_›])]
  · rfl

theorem print_toList {f : Find} {s : Scanner} (hx : x.token = f.token s) :
    x.print.toList = f.lead ++ x.spelling.toList := by
  rw [print, hx, String.toList_append]
  exact congrArg (· ++ _) String.toList_ofList

/-- A piece that continues a template is taken where a substitution is open. -/
theorem nest_later {braces inner : List Brace} (hk : x.token.kind = .template)
    (hl : x.isLater = true) (hn : x.nest braces = some inner) :
    braces.head? = some .substitution := by
  unfold nest at hn
  rw [hk, hl] at hn
  rcases braces with _ | ⟨_ | _, outer⟩
  · cases hn
  · cases hn
  · rfl

end Taken

/-- Where a closing brace comes, the scanner and the parts of the tokens in templates agree on
whether it closes a substitution. -/
theorem Find.Next.head?_braces {f : Find} {s : Scanner} (h : f.Next s) {x : Taken}
    (hx : x.token = f.token s) (hm : s.mode = .normal) (hc : f.raw.head? = some '\x7d')
    {braces inner : List Brace} (hn : x.nest braces = some inner) :
    s.braces.head? = some .substitution ↔ braces.head? = some .substitution := by
  obtain ⟨l, hl⟩ := List.head?_eq_some_iff.1 hc
  have hopening : f.opening s = Opening.of .normal s.braces ('\x7d' :: (l ++ f.rest)) := by
    rw [Find.opening, hm, hl]
    rfl
  by_cases hs : s.braces.head? = some .substitution
  · have ho : f.opening s = .template false := by
      have hsame : Opening.of .normal s.braces ('\x7d' :: (l ++ f.rest)) =
          Opening.of .normal [.substitution] ('\x7d' :: (l ++ f.rest)) :=
        Opening.of_braces fun _ _ => by simp [hs]
      rw [hopening, hsame]
      rfl
    obtain ⟨hk, ⟨cooked, isTail, hv⟩, -⟩ := h.template_spec ho
    have hk' : x.token.kind = .template := by rw [hx]; exact hk
    have hfirst : x.token.isTemplateHead = false := by
      rw [hx, Token.isTemplateHead, show (f.token s).kind = _ from hk,
        show (f.token s).value = _ from hv]
    cases hlater : x.isLater with
    | true => exact ⟨fun _ => Taken.nest_later hk' hlater hn, fun _ => hs⟩
    | false =>
      unfold Taken.nest at hn
      rw [hk', hlater, hfirst] at hn
      cases hn
  · have ho : f.opening s = .punctuator '\x7d' := by
      have hsame : Opening.of .normal s.braces ('\x7d' :: (l ++ f.rest)) =
          Opening.of .normal [] ('\x7d' :: (l ++ f.rest)) :=
        Opening.of_braces fun _ _ => by simp [hs]
      rw [hopening, hsame]
      rfl
    have hkind := h.kind
    rw [ho] at hkind
    have hk : x.token.kind = .punctuator := by
      rw [hx]
      exact List.mem_singleton.1 hkind
    have hraw : x.token.raw = "\x7d" := by
      rw [hx]
      exact (h.punctuator_brace ho).2.1 rfl
    obtain ⟨outer, rfl, -⟩ := Taken.nest_close hk hraw hn
    simp [hs]

/-- Within a tag no token begins with an exclamation mark. -/
theorem Scan.next_tag_ne_ok {s s' : Scanner} {t : Token} {l : List Char} (hm : s.mode = .tag)
    (hr : s.cursor.rest = '!' :: l) : next s ≠ .ok t s' := by
  intro h
  obtain ⟨f, hf, -, -⟩ := next_eq_ok.1 h
  have htrivia := hf.trivia
  rw [if_neg (by rw [hm]; decide), hr] at htrivia
  have hfront : ∀ html fresh, Front.of html fresh ('!' :: l) = .token := fun html fresh => by
    cases html <;> cases fresh <;> rfl
  have hreads := hf.reads
  have hopening : f.opening s = .illegal := by
    have hmid : f.raw ++ f.rest = '!' :: l := by
      generalize f.raw ++ f.rest = mid at htrivia
      generalize f.pieces = pieces at htrivia
      generalize decide (s.cursor.position.offset = 0) = atStart at htrivia
      cases htrivia with
      | plain _ hg =>
        cases hg with
        | nil => rfl
        | cons hf =>
          rw [hfront] at hf
          cases hf
    rw [Find.opening, hm, hmid]
    rfl
  rw [hopening] at hreads
  cases hreads

/-- The characters of one of two punctuators. -/
theorem Find.raw_of_isOneOf {f : Find} {s : Scanner} {a b : String}
    (h : (f.token s).isOneOf [a, b] = true) : f.raw = a.toList ∨ f.raw = b.toList := by
  simp only [Token.isOneOf, Bool.and_eq_true, List.contains_cons, List.contains_nil,
    Bool.or_false, Bool.or_eq_true, beq_iff_eq] at h
  rcases h.2 with hr | hr <;> rw [← hr]
  · exact .inl String.toList_ofList.symm
  · exact .inr String.toList_ofList.symm

/-- A regular expression goes on behind the slash that comes next. -/
theorem Find.Regex.slash {f f₀ : Find} {s : Scanner} (h : f.Regex s) (hm : s.mode = .normal)
    (h₀ : f₀.Next s) (isSlash : (f₀.token s).isOneOf ["/", "/="] = true) :
    ∃ w, f₀.pieces = f.pieces ∧ f.raw = f₀.raw ++ w ∧ f₀.rest = w ++ f.rest := by
  have hlead := h₀.trivia
  rw [if_neg (by rw [hm]; decide)] at hlead
  obtain ⟨hpieces, hrest⟩ := h.trivia.unique hlead
  -- The slash takes no more than the regular expression does.
  have hlen : f₀.raw.length ≤ f.raw.length := by
    have hslash : f₀.raw.length ≤ 2 := by
      rcases raw_of_isOneOf isSlash with hr | hr <;> rw [hr] <;> decide
    obtain ⟨l, hl, -, hlen⟩ := Read.regex_takes h.reads
    have htotal := congrArg List.length hl
    simp only [List.length_append, List.length_cons] at htotal
    omega
  obtain ⟨w, hw⟩ : f₀.raw <+: f.raw :=
    List.prefix_of_prefix_length_le (hrest ▸ List.prefix_append _ _) (List.prefix_append _ _) hlen
  refine ⟨w, hpieces, hw.symm, ?_⟩
  rw [← hw, List.append_assoc] at hrest
  exact List.append_cancel_left hrest

/-! ## Tokens that are taken as they come -/

section

variable [Exchange] {f : Find} {s s' : Scanner} {x : Taken} {rest' : List Char}
  {braces inner : List Brace}

omit [Exchange] in
/-- The open braces make no difference to a token that is printed as it is spelled. -/
theorem Find.Next.opening_braces (h : f.Next s) (hx : x.token = f.token s)
    (notEof : x.token.isEof = false) (hn : x.nest braces = some inner) (rest' : List Char) :
    Opening.of s.mode s.braces (f.raw ++ rest') = Opening.of s.mode braces (f.raw ++ rest') := by
  refine Opening.of_braces fun hm hhead => h.head?_braces hx hm ?_ hn
  obtain ⟨c, raw, hraw⟩ :=
    List.exists_cons_of_ne_nil (h.raw_ne_nil (Find.kind_ne_eof (hx ▸ notEof)))
  rw [hraw] at hhead ⊢
  exact hhead

/-- A text that is exchanged, over the printed text. -/
theorem Find.Next.reprintsExchanged (h : f.Next s) (hb : Scanner.Beside s s')
    (hx : x.token = f.token s) (notEof : x.token.isEof = false)
    (shift : Shift s.mode x.token x.after)
    (inTag : s.mode = .tag → x.token.isPunctuator "\x7d" = false)
    (hk : x.isLater = true → x.token.kind = .template) {wording : Wording}
    (hexch : x.token.exchange? = some wording)
    (hgoes : Goes { f.after s braces with mode := x.after } rest')
    (hc : s'.cursor.rest = x.restated.toList ++ rest') :
    Reprints s { f.after s braces with mode := x.after } s' x rest' := by
  have hkind : f.lexeme.kind = .markupText := Token.kind_of_exchange? (hx ▸ hexch)
  have hrest : (f.back s).rest = f.rest := (Find.back_spec h.chars).1
  obtain ⟨-, -, -, -, hends⟩ := h.markupText_spec hkind
  have hs : Similar f.rest rest' := hrest ▸ hgoes.of_ends fun c l hl =>
    hends c l (hrest.symm.trans hl)
  rw [Taken.restated_eq hexch, String.toList_append, hx] at hc
  replace hc : s'.cursor.rest = f.lead ++ wording.raw.toList ++ rest' := by
    rw [hc]
    exact congrArg (· ++ _ ++ rest') String.toList_ofList
  obtain ⟨g, hg, halike, hgrest⟩ := h.exchangeText hb (hx ▸ hexch) hs hc
  have hnone : ∀ t : Token, t.kind = .markupText → t.isTemplateHead = false := fun t ht => by
    rw [Token.isTemplateHead, ht]
  refine .of_next hb hx h hg notEof shift inTag halike (fun _ => ?_) (fun hl => ?_) hgrest _
  · rw [hnone _ (halike.kind.trans hkind), hnone _ hkind]
  · have hkind' := hk hl
    rw [hx, show (f.token s).kind = _ from hkind] at hkind'
    cases hkind'

/-- The sign in front of text between tags, over the printed text. -/
theorem Find.Next.reprintsSign (h : f.Next s) (hb : Scanner.Beside s s')
    (hx : x.token = f.token s) (notEof : x.token.isEof = false)
    (shift : Shift s.mode x.token x.after)
    (inTag : s.mode = .tag → x.token.isPunctuator "\x7d" = false)
    (hk : x.isLater = true → x.token.kind = .template) (hn : x.nest s'.braces = some inner)
    (hsign : s.mode = .normal ∧ (f.token s).isPunctuator "\x7d" = true ∨
      s.mode = .tag ∧ (f.token s).isPunctuator ">" = true)
    (hc : s'.cursor.rest = x.restated.toList ++ rest') :
    Reprints s { f.after s braces with mode := x.after } s' x rest' := by
  have hkind : x.token.kind = .punctuator := by
    rw [hx]
    rcases hsign with ⟨-, hp⟩ | ⟨-, hp⟩ <;> exact (by simpa [Token.isPunctuator] using hp : _ ∧ _).1
  have hexch : x.token.exchange? = none := Token.exchange?_eq_none (by simp [hkind])
  rw [Taken.restated_eq_print hexch, Taken.print_toList hx,
    Taken.spelling_raw (by simp [hkind]) (by simp [hkind]), hx] at hc
  replace hc : s'.cursor.rest = f.lead ++ f.raw ++ rest' := by
    rw [hc]
    exact congrArg (f.lead ++ · ++ rest') String.toList_ofList
  refine .of_next hb hx h (h.ontoSign hb hsign hc (h.opening_braces hx notEof hn rest')) notEof
    shift inTag (Find.alike_onto (hx ▸ hexch) s' rest') (fun _ => rfl) (fun hl => ?_) rfl _
  have hkind' := hk hl
  rw [hkind] at hkind'
  cases hkind'

/-- Any other token, over the printed text. -/
theorem Find.Next.reprintsSimilar (h : f.Next s) (hb : Scanner.Beside s s')
    (hx : x.token = f.token s) (notEof : x.token.isEof = false)
    (shift : Shift s.mode x.token x.after)
    (inTag : s.mode = .tag → x.token.isPunctuator "\x7d" = false)
    (hk : x.isLater = true → x.token.kind = .template) (hn : x.nest s'.braces = some inner)
    (hexch : x.token.exchange? = none) (hs : Similar f.rest rest')
    (hc : s'.cursor.rest = x.restated.toList ++ rest') :
    Reprints s { f.after s braces with mode := x.after } s' x rest' := by
  have hkind : x.token.kind = f.lexeme.kind := by rw [hx]; rfl
  rw [Taken.restated_eq_print hexch, Taken.print_toList hx] at hc
  by_cases hname : x.token.kind = .privateName
  · rw [Taken.spelling_name hname, hx] at hc
    have hname' := hkind.symm.trans hname
    obtain ⟨g, hg, halike, -, hgrest⟩ := h.reprintName hb hname' hs hc
    have hnone : ∀ t : Token, t.kind = .privateName → t.isTemplateHead = false := fun t ht => by
      rw [Token.isTemplateHead, ht]
    refine .of_next hb hx h hg notEof shift inTag halike (fun _ => ?_) (fun hl => ?_) hgrest _
    · rw [hnone _ (halike.kind.trans hname'), hnone _ hname']
    · rw [hk hl] at hname
      cases hname
  by_cases hlater : x.isLater = true
  · have htemplate := hk hlater
    rw [Taken.spelling_later htemplate hlater, hx] at hc
    obtain ⟨g, hg, halike, hhead, hgrest, hnone⟩ := h.reprintPiece hb
      (hkind.symm.trans htemplate) (Taken.nest_later htemplate hlater hn) hs hc
    refine .of_next hb hx h hg notEof shift inTag halike (fun hl => ?_) (fun _ => ⟨hhead, hnone⟩)
      hgrest _
    rw [hlater] at hl
    cases hl
  · rw [Taken.spelling_raw hname fun _ => by simpa using hlater, hx] at hc
    replace hc : s'.cursor.rest = f.lead ++ f.raw ++ rest' := by
      rw [hc]
      exact congrArg (f.lead ++ · ++ rest') String.toList_ofList
    exact .of_next hb hx h (h.onto hb hs hc (h.opening_braces hx notEof hn rest'))
      notEof shift inTag
      (Find.alike_onto (hx ▸ hexch) s' rest') (fun _ => rfl) (fun hl => absurd hl hlater) rfl _

end

namespace Step

variable {s s₁ s' : Scanner} {x : Taken} {rest' : List Char} {inner : List Brace}

/-- A step over a source is one over the printed text.

**Proof sketch.** A private name and a piece that continues a template are printed otherwise than
they were spelled, and are found again by what they mean. A text that is exchanged is found as the
companion spells it, and the sign in front of one does not hang on what follows. Any other token is
found again because nothing changes in front of the place where the texts part. Where the token is
scanned twice, both are found again: a regular expression is longer than its first slash, and trivia
in front of a tag is the same in the language, since a tag cannot begin as a comment of web pages
does. -/
theorem reprints [Exchange] (h : Step s x.token x.after s₁) (hb : Scanner.Beside s s')
    (hk : x.isLater = true → x.token.kind = .template) (hgoes : Goes s₁ rest')
    (hc : s'.cursor.rest = x.restated.toList ++ rest') (hn : x.nest s'.braces = some inner)
    (hgo : ∃ t s₂, Scan.next s₁ = .ok t s₂) : Reprints s s₁ s' x rest' := by
  have hends := fun {c l} => h.ends (c := c) (l := l)
  generalize hx : x.token = t at h hends
  generalize ha : x.after = after at h
  cases h with
  | plain scanned notEof shift inTag =>
    obtain ⟨f, hf, rfl, rfl⟩ := Scan.next_eq_ok.1 scanned
    subst ha
    rw [← hx] at notEof shift inTag
    rcases hexch : x.token.exchange? with _ | wording
    · cases hgoes with
      | similar hs =>
        have hrest : (f.back s).rest = f.rest := (Find.back_spec hf.chars).1
        exact hf.reprintsSimilar hb hx notEof shift inTag hk hn hexch (hrest ▸ hs) hc
      | text htext hr hp =>
        exact hf.reprintsSign hb hx notEof shift inTag hk hn (hends htext hr hp) hc
    · exact hf.reprintsExchanged hb hx notEof shift inTag hk hexch hgoes hc
  | regex mode seen isSlash scanned =>
    obtain ⟨f₀, hf₀, rfl, rfl⟩ := Scan.next_eq_ok.1 seen
    have hkind := Scan.nextRegex_kind scanned
    have hs := hgoes.of_mode (by rw [Scan.nextRegex_mode scanned, mode]; decide)
    obtain ⟨f, hf, rfl, rfl⟩ := Scan.nextRegex_eq_ok.1 scanned
    have hrest : (f.back s).rest = f.rest := (Find.back_spec hf.chars).1
    replace hs : Similar f.rest rest' := hrest ▸ hs
    rw [← hx] at hkind
    have hexch : x.token.exchange? = none := Token.exchange?_eq_none (by simp [hkind])
    have hlater : x.isLater ≠ true := fun hl => by
      rw [hk hl] at hkind
      cases hkind
    rw [Taken.restated_eq_print hexch, Taken.print_toList hx,
      Taken.spelling_raw (by simp [hkind]) (by simp [hkind]), hx] at hc
    rw [hx] at hexch
    replace hc : s'.cursor.rest = f.lead ++ f.raw ++ rest' := by
      rw [hc]
      exact congrArg (f.lead ++ · ++ rest') String.toList_ofList
    obtain ⟨w, hpieces, hraw, hrest₀⟩ := hf.slash mode hf₀ isSlash
    have hs₀ : Similar f₀.rest (w ++ rest') := hrest₀ ▸ hs.append w
    have hc₀ : s'.cursor.rest = f₀.lead ++ f₀.raw ++ (w ++ rest') := by
      rw [hc, Find.lead, Find.lead, hpieces, hraw]
      simp only [List.append_assoc]
    have hg₀ := hf₀.onto hb hs₀ hc₀ (Opening.of_braces fun _ hhead => by
      rcases Find.raw_of_isOneOf isSlash with hr | hr <;> rw [hr] at hhead <;> cases hhead)
    have hg := hf.onto hb mode hs hc
    have halike₀ := Find.alike_onto (Token.exchange?_of_isOneOf isSlash) s'
      (w ++ rest')
    unfold Reprints
    rw [ha]
    refine ⟨.of_next hb hf₀ hg₀ halike₀ id, _, _, .regex (hb.mode.trans mode)
      (Scan.next_eq_ok.2 ⟨_, hg₀, rfl, rfl⟩) ?_ (Scan.nextRegex_eq_ok.2 ⟨_, hg, rfl, rfl⟩), ?_,
      fun _ => ?_, fun hl => absurd hl hlater,
      Find.beside hb hf.chars hg.chars hf.raw_ne_nil hf.raw_ne_nil _ _, (Find.back_spec hg.chars).1⟩
    · rw [halike₀.isOneOf, isSlash]
    · rw [hx]
      exact Find.alike_onto hexch ..
    · rw [hx]
      rfl
  | markup mode seen isAngle scanned =>
    have hangle := Scan.next_tag_of_angle mode seen isAngle scanned
    have hs := hgoes.of_mode (by rw [Scan.next_mode scanned]; simp)
    obtain ⟨f₀, hf₀, rfl, rfl⟩ := Scan.next_eq_ok.1 seen
    obtain ⟨f, hf, rfl, rfl⟩ := Scan.next_eq_ok.1 scanned
    have hrest : (f.back s).rest = f.rest := (Find.back_spec hf.chars).1
    replace hs : Similar f.rest rest' := hrest ▸ hs
    have hkind : x.token.kind = .punctuator := by
      rw [hx]
      exact (by simpa [Token.isPunctuator] using hangle : _ ∧ _).1
    have hexch : x.token.exchange? = none := Token.exchange?_eq_none (by simp [hkind])
    have hlater : x.isLater ≠ true := fun hl => by
      rw [hk hl] at hkind
      cases hkind
    rw [Taken.restated_eq_print hexch, Taken.print_toList hx,
      Taken.spelling_raw (by simp [hkind]) (by simp [hkind]), hx] at hc
    rw [hx] at hexch
    replace hc : s'.cursor.rest = f.lead ++ f.raw ++ rest' := by
      rw [hc]
      exact congrArg (f.lead ++ · ++ rest') String.toList_ofList
    have hraw := Find.raw_of_isPunctuator hangle
    have hraw₀ := Find.raw_of_isPunctuator isAngle
    obtain ⟨hpieces, hrest₀⟩ : f.pieces = f₀.pieces ∧ f.rest = f₀.rest := by
      rcases hf₀.tag_trivia mode hf with ⟨hpieces, hrest₀⟩ | hbegins
      · rw [hraw, hraw₀] at hrest₀
        exact ⟨hpieces, List.append_cancel_left hrest₀⟩
      · -- Behind the bracket there would be an exclamation mark, and no token.
        obtain ⟨t, s₂, hgo⟩ := hgo
        rw [hraw] at hbegins
        rcases hbegins with ⟨l, hl⟩ | ⟨l, hl⟩
        · refine absurd hgo (Scan.next_tag_ne_ok (Scanner.past_mode _ _) (l := '-' :: '-' :: l) ?_)
          exact hrest.trans (List.cons.inj hl).2.symm
        · cases hl
    have hs₀ : Similar f₀.rest rest' := hrest₀ ▸ hs
    have hc₀ : s'.cursor.rest = f₀.lead ++ f₀.raw ++ rest' := by
      rw [hc, Find.lead, Find.lead, hpieces, hraw, hraw₀]
    have hg₀ := hf₀.onto hb hs₀ hc₀ (Opening.of_braces fun _ hhead => by
      rw [hraw₀] at hhead
      cases hhead)
    have hg := hf.onto (hb.withMode .tag) hs hc rfl
    unfold Reprints
    rw [ha]
    have halike₀ := Find.alike_onto (Token.exchange?_of_isPunctuator isAngle) s'
      rest'
    refine ⟨.of_next hb hf₀ hg₀ halike₀ id, _, _, .markup (hb.mode.trans mode)
      (Scan.next_eq_ok.2 ⟨_, hg₀, rfl, rfl⟩) ?_ (Scan.next_eq_ok.2 ⟨_, hg, rfl, rfl⟩), ?_,
      fun _ => ?_, fun hl => absurd hl hlater,
      Find.beside (hb.withMode .tag) hf.chars hg.chars (by simp [hraw])
        (by simp [Find.onto, hraw]) _ _,
      (Find.back_spec hg.chars).1⟩
    · rw [halike₀.isPunctuator, isAngle]
    · rw [hx]
      exact Find.alike_onto hexch ..
    · rw [hx]
      rfl

end Step

end Verbatim
