import Verbatim.Proofs.Grammar.Language
import Verbatim.Proofs.Projection.Source

/-!
# The tokens that a parse consumes

A parse that ends well has walked over tokens from the start of the source to its end. With the
trivia in front of them they are all of the source, and each lies behind the one before it.

## Main definitions

* `Verbatim.Divided` — a text that is divided into tokens with trivia in front of them.
* `Verbatim.consumed` — the tokens that a parse of a source consumes.
* `Verbatim.Reading` — a parse that ends well, with the walk over its tokens.

## Main results

* `Verbatim.Walk.divided` — a walk divides the text that it passes.
* `Verbatim.Reading.of_parse` — a parse that ends well is a reading.
* `Verbatim.Reading.tokens_eq` — the tokens that are recorded are those that are consumed.
-/

namespace Verbatim

open Verbatim.Text

/-! ## Trivia by its place -/

/-- Trivia in front of a text, where the text has the given offset. Only at the start of a source it
may name an interpreter. -/
def IsTriviaAt (offset : Nat) (text rest : List Char) : Prop :=
  if offset = 0 then IsFirstTrivia text rest else IsTrivia text rest

theorem IsTriviaAt.of_lead {html : Bool} {offset : Nat} {chars rest : List Char}
    {pieces : List Trivium} (h : Lead html (offset = 0) chars pieces rest) :
    IsTriviaAt offset (pieces.flatMap Trivium.chars) rest := by
  unfold IsTriviaAt
  split
  · exact h.isFirstTrivia
  · rename_i ho
    rw [decide_eq_false ho] at h
    exact h.isTrivia

theorem IsTriviaAt.nil (offset : Nat) (rest : List Char) : IsTriviaAt offset [] rest := by
  unfold IsTriviaAt
  split
  · exact .plain .nil
  · exact .nil

/-! ## Steps divide texts -/

/-- A find at the given place, whatever reads the token. -/
structure Find.At (f : Find) (s : Scanner) : Prop where
  /-- The trivia, the spelling and the text behind it are what remains. -/
  chars : s.cursor.rest = f.lead ++ f.raw ++ f.rest
  /-- The trivia is trivia. -/
  trivia : IsTriviaAt s.cursor.position.offset f.lead (f.raw ++ f.rest)

theorem Find.Next.at {f : Find} {s : Scanner} (h : f.Next s) : f.At s := by
  refine ⟨h.chars, ?_⟩
  have htrivia := h.trivia
  split at htrivia
  · rw [Find.lead, htrivia]
    exact .nil _ _
  · exact .of_lead htrivia

theorem Find.Regex.at {f : Find} {s : Scanner} (h : f.Regex s) : f.At s :=
  ⟨h.chars, .of_lead h.trivia⟩

/-- A step comes upon a token that is spelled by something, and moves behind it. -/
theorem Step.exists_find {s s₁ : Scanner} {t : Token} {after : Mode} (h : Step s t after s₁) :
    ∃ f : Find, f.At s ∧ f.raw ≠ [] ∧ t = f.token s ∧ s₁.cursor = f.back s ∧
      (t.kind = .regex ∨ ∃ s₀, f.Next s₀) := by
  cases h with
  | plain scanned notEof =>
    obtain ⟨f, hf, rfl, rfl⟩ := Scan.next_eq_ok.1 scanned
    exact ⟨f, hf.at, hf.raw_ne_nil (Find.kind_ne_eof notEof), rfl, rfl, .inr ⟨s, hf⟩⟩
  | regex _ _ _ scanned =>
    have hk := Scan.nextRegex_kind scanned
    obtain ⟨f, hf, rfl, rfl⟩ := Scan.nextRegex_eq_ok.1 scanned
    exact ⟨f, hf.at, hf.raw_ne_nil, rfl, rfl, .inl hk⟩
  | markup mode seen isAngle scanned =>
    have hangle := Scan.next_tag_of_angle mode seen isAngle scanned
    obtain ⟨f, hf, rfl, rfl⟩ := Scan.next_eq_ok.1 scanned
    refine ⟨f, ⟨hf.at.chars, hf.at.trivia⟩, ?_, rfl, rfl, .inr ⟨_, hf⟩⟩
    rw [Find.raw_of_isPunctuator hangle]
    exact List.cons_ne_nil _ _

/-- No step takes the end of the source. -/
theorem Step.isEof_eq {s s₁ : Scanner} {t : Token} {after : Mode} (h : Step s t after s₁) :
    t.isEof = false := by
  cases h with
  | plain _ notEof => exact notEof
  | regex _ _ _ scanned => simp [Token.isEof, Scan.nextRegex_kind scanned]
  | markup mode seen isAngle scanned =>
    have hangle := Scan.next_tag_of_angle mode seen isAngle scanned
    cases hk : t.kind <;> simp_all [Token.isPunctuator, Token.isEof]

/-- Every token of a walk was taken in a step. -/
theorem Walk.exists_step {s r : Scanner} {tokens : List (Token × Mode)} (h : Walk s tokens r) :
    ∀ x ∈ tokens, ∃ s₀ s₁, Step s₀ x.1 x.2 s₁ := by
  induction tokens generalizing s with
  | nil => exact fun _ h => absurd h List.not_mem_nil
  | cons x tokens ih =>
    obtain ⟨s₁, hstep, hwalk⟩ := h
    intro y hy
    rcases List.mem_cons.1 hy with rfl | hy
    · exact ⟨s, s₁, hstep⟩
    · exact ih hwalk y hy

/-- A text at the given offset is divided into tokens with trivia in front of them. The rest of the
text and its offset come last. -/
inductive Divided : Nat → List Char → List Token → Nat → List Char → Prop where
  /-- No tokens. -/
  | nil {offset : Nat} {rest : List Char} : Divided offset rest [] offset rest
  /-- A token with trivia in front of it, and more behind it. -/
  | cons {offset offset' : Nat} {lead raw rest rest' : List Char} {t : Token} {tokens : List Token}
      (trivia : IsTriviaAt offset lead (raw ++ rest)) (notEmpty : raw ≠ [])
      (lead_eq : t.lead = String.ofList lead) (raw_eq : t.raw = String.ofList raw)
      (start : t.start.offset = offset + byteLength lead)
      (stop : t.stop.offset = t.start.offset + byteLength raw)
      (behind : Divided t.stop.offset rest tokens offset' rest') :
      Divided offset (lead ++ raw ++ rest) (t :: tokens) offset' rest'

/-- A walk divides the text that it passes. -/
theorem Walk.divided {s r : Scanner} {tokens : List (Token × Mode)} (h : Walk s tokens r) :
    Divided s.cursor.position.offset s.cursor.rest (tokens.map (·.1)) r.cursor.position.offset
      r.cursor.rest := by
  induction tokens generalizing s with
  | nil =>
    obtain rfl : s = r := h
    exact .nil
  | cons x tokens ih =>
    obtain ⟨t, after⟩ := x
    obtain ⟨s₁, hstep, hwalk⟩ := h
    obtain ⟨f, hf, hraw, rfl, hback, -⟩ := hstep.exists_find
    have hrest := ih hwalk
    rw [hback, (Find.back_spec hf.chars).1] at hrest
    rw [hf.chars]
    exact .cons hf.trivia hraw rfl rfl (Find.front_spec hf.chars).2
      (Find.back_spec hf.chars).2 hrest

namespace Divided

variable {offset offset' : Nat} {text rest : List Char} {tokens : List Token}

/-- A text that is divided is made of the tokens and the trivia in front of them. -/
theorem text_eq (h : Divided offset text tokens offset' rest) :
    String.ofList text = concat (tokens.map fun t => t.lead ++ t.raw) ++ String.ofList rest := by
  induction h with
  | nil => simp
  | cons _ _ lead_eq raw_eq _ _ _ ih =>
    simp [String.ofList_append, ih, lead_eq, raw_eq, String.append_assoc]

/-- The tokens lie behind the offset of the text. -/
theorem le_start (h : Divided offset text tokens offset' rest) :
    ∀ t ∈ tokens, offset ≤ t.start.offset := by
  induction h with
  | nil => exact fun _ h => absurd h List.not_mem_nil
  | cons _ _ _ _ start stop _ ih =>
    intro u hu
    rcases List.mem_cons.1 hu with rfl | hu
    · omega
    · have := ih u hu
      omega

/-- Each token lies behind the ones before it. -/
theorem pairwise (h : Divided offset text tokens offset' rest) :
    tokens.Pairwise fun t u => t.stop.offset ≤ u.start.offset := by
  induction h with
  | nil => exact .nil
  | cons _ _ _ _ _ _ behind ih => exact .cons behind.le_start ih

/-- No token is empty. -/
theorem start_lt_stop (h : Divided offset text tokens offset' rest) :
    ∀ t ∈ tokens, t.start.offset < t.stop.offset := by
  induction h with
  | nil => exact fun _ h => absurd h List.not_mem_nil
  | cons _ notEmpty _ _ _ stop _ ih =>
    intro u hu
    rcases List.mem_cons.1 hu with rfl | hu
    · have := byteLength_pos notEmpty
      omega
    · exact ih u hu

/-- Each token starts behind the ones before it. -/
theorem pairwise_start (h : Divided offset text tokens offset' rest) :
    tokens.Pairwise fun t u => t.start.offset < u.start.offset := by
  refine List.Pairwise.imp_of_mem ?_ h.pairwise
  intro t u ht _ hle
  exact Nat.lt_of_lt_of_le (h.start_lt_stop t ht) hle

end Divided

/-! ## The tokens of a run -/

/-- The record of a token. -/
def Token.record (t : Token) : TokenRecord where
  kind := t.kind
  value := t.raw
  span := .between t.start t.stop

/-- Scanning leaves the recorded tokens alone. -/
theorem Parser.scan_tokens {α : Type} {action : Scan α} {p q : Parser} {value : α}
    (h : scan action p = .ok value q) : q.tokens = p.tokens ∧ q.lookahead = p.lookahead := by
  unfold scan at h
  split at h <;> cases h
  exact ⟨rfl, rfl⟩

/-- What taking a token does to the recorded tokens where everything is recorded. -/
theorem Parser.next_tokens {p q : Parser} {t : Token} (h : next p = .ok t q)
    (hp : p.records = {}) :
    q.tokens = if p.lookahead.isEof then p.tokens else p.tokens.push p.lookahead.record := by
  obtain ⟨_, _, hget, h⟩ := Run.bind_eq_ok.1 h
  cases hget
  obtain ⟨u, p₁, hscan, h⟩ := Run.bind_eq_ok.1 h
  obtain ⟨htokens, hlook⟩ := scan_tokens hscan
  have hp₁ : p₁.records = {} := (scan_records hscan).1.trans hp
  cases h
  change (if p₁.records.tokens && !p₁.lookahead.isEof then p₁.tokens.push
    ⟨p₁.lookahead.kind, p₁.lookahead.raw, p₁.records.between p₁.lookahead.start p₁.lookahead.stop⟩
    else p₁.tokens) = _
  rw [hp₁, htokens, hlook]
  cases p.lookahead.isEof <;> rfl

/-- No other request records a token. -/
theorem Parser.answer_tokens {request : Request} {p q : Parser} {value : request.Answer}
    (h : answer request p = .ok value q) (hr : request ≠ .next) : q.tokens = p.tokens := by
  have hrescan : ∀ {action : Scan Token} {value : Unit},
      rescanWith action p = .ok value q → q.tokens = p.tokens := by
    intro action value h
    obtain ⟨_, p₁, hmodify, h⟩ := Run.bind_eq_ok.1 h
    cases hmodify
    obtain ⟨u, p₂, hscan, h⟩ := Run.bind_eq_ok.1 h
    cases h
    exact (scan_tokens hscan).1
  cases request with
  | next => exact absurd rfl hr
  | peek =>
    change peek p = _ at h
    unfold peek at h
    split at h <;> cases h
    rfl
  | rescan => exact hrescan h
  | rescanRegex => exact hrescan h
  | setMode mode => exact (scan_tokens (show scan (Scan.setMode mode) p = _ from h)).1
  | tolerate finder fault site =>
    change tolerate _ _ p = _ at h
    unfold tolerate at h
    split at h <;> cases h
    rfl
  | look => cases h; rfl
  | lastEnd => cases h; rfl
  | pending => cases h; rfl
  | setPending site => cases h; rfl
  | span start stop => cases h; rfl
  | finish kind span => cases h; rfl
  | fail error => cases h

/-- A complete run records the tokens that it takes, except the end of the source. -/
theorem Parse.tokens_run {α : Type} {action : Parse α} {p q : Parser} {value : α}
    (h : action.run p = .ok value q) (hp : p.records = {}) : q.tokens.toList =
      p.tokens.toList ++ ((action.takes p).filter (!·.1.isEof)).map (·.1.record) := by
  induction action generalizing p q with
  | done =>
    cases h
    exact (List.append_nil _).symm
  | ask request =>
    by_cases hr : request = .next
    · subst hr
      rw [Parser.next_tokens h hp]
      change _ = _ ++ (List.filter _ [(p.lookahead, p.scanner.mode)]).map _
      cases hk : p.lookahead.isEof <;> simp [hk]
    · have htakes : (ask request).takes p = [] := by
        cases request <;> first | rfl | exact absurd rfl hr
      rw [Parser.answer_tokens h hr, htakes]
      exact (List.append_nil _).symm
  | andThen first resume ih ih' =>
    change (first >>= resume).run p = _ at h
    rw [run_bind] at h
    split at h
    · rename_i u p₁ hfirst
      rw [takes, hfirst, List.filter_append, List.map_append, ← List.append_assoc, ← ih hfirst hp]
      exact ih' u h ((run_records hfirst).1.trans hp)
    · cases h

/-! ## The parts of the tokens in templates -/

/-- The part that a token plays in templates makes a difference for template pieces only. -/
theorem Trace.single_eq {t : Token} (h : t.kind ≠ .template) (after : Mode) (b b' : Bool) :
    single ⟨t, after, b⟩ = single ⟨t, after, b'⟩ := by
  refine ext ?_ (fun braces => ?_) rfl
  · change t.lead ++ _ = t.lead ++ _
    unfold Taken.spelling
    cases hk : t.kind <;> simp_all
  · change Taken.nest _ _ = Taken.nest _ _
    unfold Taken.nest
    cases hk : t.kind <;> simp_all

namespace Marked

variable {q r : Parser} {taken : List Taken}

/-- If tokens start at different places, the finished templates tell the pieces that are not the
first of their template. -/
theorem isLaterIn_eq (h : Marked [] q taken r) (hq : q.nodes = #[])
    (hp : taken.Pairwise fun x y => x.token.start.offset < y.token.start.offset) {x : Taken}
    (hx : x ∈ taken) (hk : x.token.kind = .template) :
    isLaterIn r.nodes.toList x.token = x.isLater := by
  obtain ⟨new, hr, hn⟩ := h
  rw [hq, Array.toList_empty, List.nil_append] at hr
  have hmem : x.token.start.offset ∈ templateStarts new ↔ x.isLater = false := by
    rw [hn, openings, List.mem_filterMap]
    constructor
    · rintro (h | ⟨y, hy, he⟩)
      · cases h
      · simp only [Option.ite_none_right_eq_some, Option.some.injEq, Bool.and_eq_true] at he
        obtain ⟨⟨-, hlater⟩, hs⟩ := he
        -- Only one token starts at this place.
        obtain ⟨i, hi, rfl⟩ := List.getElem_of_mem hx
        obtain ⟨j, hj, rfl⟩ := List.getElem_of_mem hy
        have hlt := List.pairwise_iff_getElem.1 hp
        obtain hij | rfl | hij := Nat.lt_trichotomy i j
        · have := hlt i j hi hj hij
          omega
        · simpa using hlater
        · have := hlt j i hj hi hij
          omega
    · intro hlater
      exact .inr ⟨x, hx, by simp [hk, hlater]⟩
  unfold isLaterIn
  rw [hr, hk]
  cases hl : x.isLater <;> simp_all

/-- The trace of tokens whose parts in templates are those that the finished templates tell. -/
theorem trace_roles (h : Marked [] q taken r) (hq : q.nodes = #[])
    (hp : taken.Pairwise fun x y => x.token.start.offset < y.token.start.offset) :
    Trace.of (roles r.nodes.toList (taken.map fun x => (x.token, x.after))) = .of taken := by
  have hroles : ∀ l, l ⊆ taken →
      Trace.of (roles r.nodes.toList (l.map fun x => (x.token, x.after))) = .of l := by
    intro l hl
    induction l with
    | nil => rfl
    | cons x l ih =>
      obtain ⟨hx, hl⟩ := List.cons_subset.1 hl
      change Trace.single _ ++ Trace.of (roles _ _) = Trace.single x ++ Trace.of l
      rw [ih hl]
      refine congrArg (· ++ _) ?_
      change Trace.single ⟨x.token, x.after, isLaterIn r.nodes.toList x.token⟩ = Trace.single x
      by_cases hk : x.token.kind = .template
      · rw [h.isLaterIn_eq hq hp hx hk]
      · exact Trace.single_eq hk _ _ _
  exact hroles taken (List.Subset.refl _)

end Marked

/-! ## Parses that end well -/

/-- The action that reads a whole source. -/
def Options.action (o : Options) (source : String) : Parse Program :=
  Grammar.program (.forSource source) o.goal o.jsx

/-- The action that reads one source tracks what that for another one reads. -/
theorem Tracks.action [Exchange] (o : Options) (source source' : String) {t t' : Token}
    (ht : Alike t t') :
    Tracks [] (source'.length + 3) .normal .normal t t' (o.action source) (o.action source')
      fun v tr u => Spells (concat (v.body.map (·.print))) tr ∧ u.isEof = true ∧ v.tail = u.lead :=
  program (Productions.mirrors _ _) ht

/-- The tokens that a parse of a source consumes, oldest first, each with the mode of the token
behind it. -/
def consumed (o : Options) (source : String) : List (Token × Mode) :=
  match Parser.start source (o.goal = .module) o.tolerant with
  | .ok first => (o.action source).takes first
  | .error _ => []

/-- A run that records what the options ask for takes the tokens that the complete run takes. -/
theorem takes_select {o : Options} {source : String} {first : Parser}
    (h : Parser.start source (o.goal = .module) o.tolerant o.records = .ok first) :
    (o.action source).takes first = consumed o source := by
  rw [Parser.start_select] at h
  unfold consumed
  cases hstart : Parser.start source (o.goal = .module) o.tolerant with
  | error e =>
    rw [hstart] at h
    cases h
  | ok start =>
    rw [hstart] at h
    obtain rfl := Except.ok.inj h
    have hprojects := Grammar.program_projects o false source o.goal o.jsx
    rw [Bool.or_false] at hprojects
    have hrecords := Parser.start_records hstart
    exact ((hprojects start hrecords.1 hrecords.2).resolve_right fun h => Bool.false_ne_true h.1).2

/-- The tokens that a parse of a source consumes, with the parts that they play in the templates
that it finishes. A template piece at which no template starts is not the first of its template. -/
def consumedParts (o : Options) (source : String) : List Taken :=
  roles (outcomeOf o.goal o.tolerant o.jsx source).nodes.toList (consumed o source)

/-- Where the scanner of a parse starts, if it keeps no comments. -/
def Scanner.origin (o : Options) (source : String) : Scanner :=
  start source (o.goal = .module) false

/-- A parse that ends well, with the walk over its tokens. -/
structure Reading (o : Options) (source : String) where
  /-- The parser in front of the first token. -/
  first : Parser
  /-- The parser in front of the end of the source. -/
  last : Parser
  /-- The program with complete extents. -/
  program : Program
  /-- The place in front of the end of the source. -/
  behind : Scanner
  /-- The first token can be scanned. -/
  start_eq : Parser.start source (o.goal = .module) o.tolerant = .ok first
  /-- The run ends well. -/
  run_eq : (o.action source).run first = .ok program last
  /-- It walks over its tokens. -/
  walk : Walk (.origin o source) (consumed o source) behind
  /-- It ends in front of the end of the source. -/
  stands : Stands behind last
  /-- The mode is that of the language again. -/
  mode : behind.mode = .normal
  /-- The scanner of the parser is in the same mode. -/
  last_mode : last.scanner.mode = .normal
  /-- The end comes next. -/
  eof : last.lookahead.isEof = true
  /-- The program keeps the trivia in front of the end. -/
  tail_eq : program.tail = last.lookahead.lead
  /-- The program spells the tokens. -/
  spells : Spells (concat (program.body.map (·.print))) (.of (consumedParts o source))

/-- A parser at the start of a source stands there. -/
theorem Stands.of_start {o : Options} {source : String} {first : Parser}
    (h : Parser.start source (o.goal = .module) o.tolerant = .ok first) :
    Stands (.origin o source) first ∧ first.scanner.mode = .normal ∧ first.nodes = #[] ∧
      first.tokens = #[] ∧ first.pending = none ∧ first.report = { tolerant := o.tolerant } := by
  unfold Parser.start at h
  dsimp only at h
  split at h
  · rename_i t s hs
    cases h
    have hm : s.mode = .normal := Scan.next_mode hs
    refine ⟨⟨rfl, rfl, rfl, ?_, rfl⟩, hm, rfl, rfl, rfl, rfl⟩
    have hquiet := Scan.next_quiet_ok hs
    change Scan.next (Scanner.origin o source) = .ok t { s.quiet with mode := .normal }
    rw [← hm]
    exact hquiet
  · cases h

/-- A parse that does not fail ends well. -/
theorem exists_of_isOk {o : Options} {source : String} (h : (parse o source).isOk = true) :
    ∃ out, parse o source = .ok out := by
  cases hparse : parse o source with
  | ok out => exact ⟨out, rfl⟩
  | error e =>
    rw [hparse] at h
    cases h

/-- What a run over a whole source leaves. -/
theorem outcomeOf_eq {o : Options} {source : String} {first last : Parser} {program : Program}
    (hstart : Parser.start source (o.goal = .module) o.tolerant = .ok first)
    (hrun : (o.action source).run first = .ok program last) :
    outcomeOf o.goal o.tolerant o.jsx source =
      { nodes := last.nodes, result := .ok (program, last) } := by
  change Parse.onSource (o.action source) .. = _
  unfold Parse.onSource
  rw [hstart]
  dsimp only
  rw [hrun]

namespace Reading

variable {o : Options} {source : String} {out : Parsed}

/-- A run over a whole source that ends well is a reading. -/
theorem of_outcome {program : Program} {last : Parser}
    (h : (outcomeOf o.goal o.tolerant o.jsx source).result = .ok (program, last)) :
    ∃ r : Reading o source, r.program = program ∧ r.last = last := by
  unfold outcomeOf Parse.onSource at h
  split at h
  · cases h
  rename_i first hstart
  split at h
  · rename_i hrun
    cases h
    have hrun : (o.action source).run first = .ok program last := hrun
    obtain ⟨hstands, hmode, hnodes, -⟩ := Stands.of_start hstart
    have hconsumed : consumed o source = (o.action source).takes first := by
      rw [consumed, hstart]
    let _ := Exchange.nothing
    obtain ⟨behind, hbehind, hm, hm', ⟨hwalk, taken, htaken, hmarked, hspells, heof, htail⟩, -⟩ :=
      Tracks.action o source source (.self first.lookahead) first _ program last
        hstands rfl hmode rfl hrun
    rw [← hconsumed] at hwalk htaken
    refine ⟨⟨first, last, program, behind, hstart, hrun, hwalk, hbehind, hm, hm', heof, htail, ?_⟩,
      rfl, rfl⟩
    -- The tokens start at different places, so their parts in templates are those that were marked.
    have hpair := hwalk.divided.pairwise_start
    rw [← htaken, List.map_map, List.pairwise_map] at hpair
    rw [consumedParts, outcomeOf_eq hstart hrun, ← htaken, hmarked.trace_roles hnodes hpair]
    exact hspells
  · cases h

/-- A parse that ends well is a reading, of which the options select what is handed out. -/
theorem of_parse (h : parse o source = .ok out) :
    ∃ r : Reading o source, out = .select o r.program r.last := by
  rw [parse_eq_select, Outcome.select] at h
  split at h
  · rename_i hresult
    cases h
    obtain ⟨r, rfl, rfl⟩ := of_outcome hresult
    exact ⟨r, rfl⟩
  · cases h

/-- What the options select of a reading is what the parse hands out. -/
theorem parse_eq (r : Reading o source) : parse o source = .ok (.select o r.program r.last) := by
  rw [parse_eq_select, outcomeOf_eq r.start_eq r.run_eq]
  rfl

/-- The tokens that are consumed, with their parts in templates, by the run. -/
theorem consumedParts_eq (r : Reading o source) :
    consumedParts o source = roles r.last.nodes.toList ((o.action source).takes r.first) := by
  rw [consumedParts, outcomeOf_eq r.start_eq r.run_eq, consumed, r.start_eq]

/-- The walk over the tokens, with their parts in templates. -/
theorem walk_parts (r : Reading o source) : Walk (.origin o source)
    ((consumedParts o source).map fun x => (x.token, x.after)) r.behind := by
  have hparts : (consumedParts o source).map (fun x => (x.token, x.after)) = consumed o source := by
    rw [consumedParts, roles, List.map_map]
    exact List.map_id _
  rw [hparts]
  exact r.walk

/-- Only template pieces continue a template. -/
theorem kind_of_isLater {x : Taken} (hx : x ∈ consumedParts o source) (hl : x.isLater = true) :
    x.token.kind = .template := by
  obtain ⟨⟨t, after⟩, -, rfl⟩ := List.mem_map.1 (show x ∈ roles _ _ from hx)
  exact of_decide_eq_true (Bool.and_eq_true_iff.1 hl).1

/-- The end of the source opens and closes no braces. -/
theorem last_braces (r : Reading o source) : r.last.scanner.braces = r.behind.braces := by
  obtain ⟨f, hf, hlook, hscanner⟩ := Scan.next_eq_ok.1 r.stands.scanned
  have heof := r.eof
  rw [hlook] at heof
  have hopening : f.opening r.behind = .eof := by
    obtain ⟨hraw, hrest⟩ := hf.eof (Find.kind_eq_eof heof)
    have hfits := Find.Next.fits r.behind f
    rw [hraw, hrest] at hfits
    generalize f.opening r.behind = opening at hfits
    cases hfits
    rfl
  rw [hopening] at hscanner
  have hbraces := congrArg (·.braces) hscanner
  exact hbraces

/-- The tokens that are recorded are those that are consumed. -/
theorem tokens_eq (r : Reading o source) :
    r.last.tokens.toList = (consumed o source).map (·.1.record) := by
  obtain ⟨-, -, -, htokens, -, -⟩ := Stands.of_start r.start_eq
  have hconsumed : consumed o source = (o.action source).takes r.first := by
    rw [consumed, r.start_eq]
  have hall : (consumed o source).filter (!·.1.isEof) = consumed o source :=
    List.filter_eq_self.2 fun x hx => by
      obtain ⟨_, _, hstep⟩ := r.walk.exists_step x hx
      rw [hstep.isEof_eq]
      rfl
  rw [Parse.tokens_run r.run_eq (Parser.start_records r.start_eq).1, htokens, ← hconsumed, hall]
  exact List.nil_append _

/-- What remains behind the last token is trivia, and the program keeps it. -/
theorem tail_spec (r : Reading o source) :
    r.program.tail = String.ofList r.behind.cursor.rest ∧
      IsTriviaAt r.behind.cursor.position.offset r.behind.cursor.rest [] := by
  obtain ⟨f, hf, hlook, -⟩ := Scan.next_eq_ok.1 r.stands.scanned
  have heof := r.eof
  rw [hlook] at heof
  obtain ⟨hraw, hrest⟩ := hf.eof (Find.kind_eq_eof heof)
  have hchars := hf.chars
  have htrivia := hf.at.trivia
  rw [hraw, hrest, List.append_nil, List.append_nil] at hchars
  rw [hraw, hrest, List.append_nil, ← hchars] at htrivia
  refine ⟨?_, htrivia⟩
  rw [r.tail_eq, hlook, hchars]
  rfl

end Reading

end Verbatim
