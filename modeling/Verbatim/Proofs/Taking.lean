import Verbatim.Proofs.Tracks

/-!
# Taking tokens

The rules for actions that take the lookahead: as it is, or scanned again under other rules, and as
a piece of a template.

## Main results

* `Verbatim.Tracks.grab` — taking the lookahead.
* `Verbatim.Tracks.regrab` — scanning the lookahead again and taking it.
* `Verbatim.Tracks.iteHead` — whether a template begins at the lookahead is the same for the
  companion.
-/

namespace Verbatim.Tracks

variable [Exchange] {α β : Type} [Placed β] {owed : List Nat} {fuel : Nat} {m m' : Mode}
    {t t' : Token}

/-! ## Taking a token -/

omit [Exchange] in
/-- Code is not in a tag. -/
theorem notTag {P : Prop} (h : Mode.normal = .tag) : P := by
  cases h

omit [Exchange] in
/-- Consuming the lookahead scans the token behind it. -/
theorem next_eq_ok {q r : Parser} {v : Token} (h : Parser.next q = .ok v r) :
    ∃ u sc, Scan.next q.scanner = .ok u sc ∧ v = q.lookahead ∧
      r = { q with scanner := sc }.advance q.scanner.save u := by
  obtain ⟨_, _, hget, h⟩ := Run.bind_eq_ok.1 h
  cases hget
  obtain ⟨u, q', hscan, h⟩ := Run.bind_eq_ok.1 h
  obtain ⟨_, _, hmodify, h⟩ := Run.bind_eq_ok.1 h
  cases hmodify
  cases h
  unfold Parser.scan at hscan
  split at hscan <;> cases hscan
  exact ⟨_, _, ‹_›, rfl, rfl⟩

omit [Exchange] in
theorem next_of_scan {q : Parser} {u : Token} {sc : Scanner} (h : Scan.next q.scanner = .ok u sc) :
    Parser.next q = .ok q.lookahead ({ q with scanner := sc }.advance q.scanner.save u) := by
  change EStateM.bind _ _ q = _
  simp only [EStateM.bind, Parser.scan, h]
  rfl

/-- What taking the lookahead does, the mode having been set to that of the token behind it. -/
theorem next_run {q r : Parser} {s : Scanner} {v : Token} (hs : Stands s q)
    (hrun : Parser.next q = .ok v r) (heof : q.lookahead.isEof = false)
    (hshift : Shift s.mode q.lookahead q.scanner.mode)
    (htag : s.mode = .tag → q.lookahead.isPunctuator "\x7d" = false) :
    ∃ s₁, Stands s₁ r ∧ s₁.mode = q.scanner.mode ∧ r.scanner.mode = q.scanner.mode ∧
      Step s q.lookahead q.scanner.mode s₁ ∧ v = q.lookahead ∧ r.nodes = q.nodes ∧
      ∀ {isLater rest q'}, Agrees s (⟨q.lookahead, q.scanner.mode, isLater⟩ :: rest) q q' →
        ∃ r', Parser.next q' = .ok q'.lookahead r' ∧ Agrees s₁ rest r r' ∧ r'.left < q'.left := by
  have hstands : ∀ {q : Parser} {u : Token} {sc : Scanner}, q.records = {} →
      Scan.next q.scanner = .ok u sc →
      Stands q.scanner.quiet ({ q with scanner := sc }.advance q.scanner.save u) := by
    intro q u sc hk h
    have hq := Scan.next_quiet_ok h
    refine ⟨rfl, rfl, rfl, ?_, hk⟩
    rw [hq]
    change _ = EStateM.Result.ok u { sc.quiet with mode := q.scanner.mode }
    rw [← Scan.next_mode h]
    rfl
  obtain ⟨u, sc, hsc, rfl, rfl⟩ := next_eq_ok hrun
  refine ⟨q.scanner.quiet, hstands hs.complete hsc, rfl, Scan.next_mode hsc,
    .plain hs.scanned heof hshift htag, rfl, rfl, ?_⟩
  intro isLater rest q' hq
  obtain ⟨s', hs', hls⟩ := hq.stands
  obtain ⟨t', s₀', hs₀', heof', -, -, hrest⟩ := hls.plain hs.scanned hshift
  have hscanned := hs'.scanned
  rw [hs₀'] at hscanned
  cases hscanned
  have hquiet : ({ q'.scanner.quiet with mode := q.scanner.mode } : Scanner) =
    q'.scanner.quiet := by
    rw [← hq.mode]
    rfl
  rw [hquiet] at hrest
  obtain ⟨u', sc', hu', -, -⟩ := hrest.looks.alike (Scan.next_quiet_ok hsc)
  obtain ⟨sc'', hsc'', rfl⟩ := Scan.next_of_quiet hu'
  refine ⟨_, next_of_scan hsc'',
    ⟨⟨_, hstands hs'.complete hsc'', hrest⟩, ?_, hq.pending, hq.tolerant⟩, ?_⟩
  · change sc''.mode = sc.mode
    rw [Scan.next_mode hsc'', Scan.next_mode hsc, hq.mode]
  · have hlen := Scan.next_shorter hs'.scanned heof'
    rw [Parser.left, Parser.left, hs'.cursor]
    exact hlen

/-- The parser with another mode. -/
def inMode (q : Parser) (mode : Mode) : Parser := { q with scanner := { q.scanner with mode } }

/-- An action sets the mode and takes the lookahead, of which it keeps something. -/
structure Grabs (action : Parse α) (keep : Token → α) (after : Mode) (q : Parser) : Prop where
  /-- What it takes. -/
  takes : action.takes q = [(q.lookahead, after)]
  /-- What it does. -/
  run : action.run q = match Parser.next (inMode q after) with
    | .ok v r => .ok (keep v) r
    | .error e r => .error e r

/-- Taking a token, and the rest of the sequence. The first piece of a template leaves the template
owed. -/
theorem grab {action action' : Parse α} {f f' : α → Parse β} {post : β → Trace → Token → Prop}
    {after : Mode} (keep : Token → α) (isLater : Bool) (ht : Alike t t') (heof : t.isEof = false)
    (hshift : Shift m t after) (htag : m = .tag → t.isPunctuator "\x7d" = false)
    (h : ∀ q, q.lookahead = t → q.scanner.mode = m → Grabs action keep after q)
    (h' : ∀ q, q.lookahead = t' → q.scanner.mode = m → Grabs action' keep after q)
    (hf : ∀ u u', Alike u u' → Tracks (openings [⟨t, after, isLater⟩] ++ owed)
      (fuel - 1) after m' u u'
      (f (keep t)) (f' (keep t')) fun w tr => post w (.single ⟨t, after, isLater⟩ ++ tr)) :
    Tracks owed fuel m m' t t' (action >>= f) (action' >>= f') post := by
  have hmoves : Moves owed (openings [⟨t, after, isLater⟩] ++ owed) fuel m after t t' action action'
      (fun v tr u => v = keep t ∧ tr = .single ⟨t, after, isLater⟩) fun _ v' _ => v' = keep t' := by
    rintro q s v r hs rfl hm rfl hrun
    obtain ⟨htakes, hr⟩ := h q rfl hm
    rw [hr] at hrun
    split at hrun <;> cases hrun
    rename_i v hnext
    have hsq : Stands s (inMode q after) :=
      ⟨hs.quiet, hs.cursor, hs.braces, hs.scanned, hs.complete⟩
    obtain ⟨s₁, hs₁, hm₁, hm₂, hstep, rfl, hnodes, he⟩ := next_run hsq hnext heof hshift htag
    refine ⟨s₁, hs₁, hm₁, hm₂, ?_, ⟨[⟨q.lookahead, after, isLater⟩], ?_, ?_, rfl, ?_⟩, ?_⟩
    · rw [htakes]
      exact ⟨s₁, hstep, rfl⟩
    · rw [htakes]
      rfl
    · rintro more u ⟨new, hnew, hmk⟩
      refine ⟨new, by rw [hnew, hnodes]; rfl, fun o => ?_⟩
      rw [hmk, openings_append, List.mem_append, List.mem_append]
      rw [or_left_comm, or_assoc]
    · exact Trace.append_empty _
    · intro nodes rest q' hn hq ht' hl
      rw [htakes] at hq ⊢
      obtain ⟨-, hr'⟩ := h' q' ht' (hq.mode.trans hm)
      obtain ⟨s', hs', hls⟩ := hq.stands
      have hq' : Agrees s (⟨q.lookahead, after, isLaterIn nodes q.lookahead⟩ :: rest)
        (inMode q after)
          (inMode q' after) :=
        ⟨⟨s', ⟨hs'.quiet, hs'.cursor, hs'.braces, hs'.scanned, hs'.complete⟩, hls⟩, rfl, hq.pending,
          hq.tolerant⟩
      obtain ⟨r', hrun', hag, hl'⟩ := he hq'
      refine ⟨keep t', r', ?_, hag, rfl, hl'⟩
      rw [hr', hrun', ← ht']
      rfl
  have hrel (u : Token) : ∃ v' u', Alike u u' ∧ v' = keep t' :=
    let ⟨u', hu⟩ := Alike.exists u
    ⟨keep t', u', hu, rfl⟩
  refine ofMoves hmoves (fun _ _ u _ => hrel u) ?_ (Nat.le_refl _)
  rintro v v' tr u u' ⟨rfl, rfl⟩ hu rfl
  exact hf u u' hu

omit [Exchange] in
theorem grabs_next (q : Parser) : Grabs Parse.next id q.scanner.mode q := by
  refine ⟨rfl, ?_⟩
  change Parser.next q = match Parser.next q with
    | .ok v r => .ok v r
    | .error e r => .error e r
  split <;> simp_all

omit [Exchange] [Placed β] in
theorem Grabs.map {action : Parse α} {keep : Token → α} {after : Mode} {q : Parser}
    (h : Grabs action keep after q) (g : α → β) :
    Grabs (action >>= fun v => Pure.pure (g v)) (g ∘ keep) after q := by
  constructor
  · change (Parse.andThen action _).takes q = _
    rw [Parse.takes, h.takes]
    cases action.run q <;> rfl
  · rw [Parse.run_bind, h.run]
    cases Parser.next (inMode q after) <;> rfl

omit [Exchange] in
theorem Grabs.setMode {action : Parse α} {keep : Token → α} {after : Mode} {q : Parser}
    (h : Grabs action keep after (inMode q after)) :
    Grabs (Parse.setMode after >>= fun _ => action) keep after q :=
  ⟨h.takes, h.run⟩

section

variable {post : β → Trace → Token → Prop} {tr₀ : Trace}

/-- Taking a token that is no template piece, behind which the mode may stay. -/
theorem nextStay {f f' : Token → Parse β} (hshift : Shift m t m)
    (htag : m = .tag → t.isPunctuator "\x7d" = false) (ht : Alike t t') (hs : t.Spells tr₀)
    (h : ∀ u u', Alike u u' → Tracks owed (fuel - 1) m m' u u' (f t) (f' t')
      fun w tr => post w (tr₀ ++ tr)) :
    Tracks owed fuel m m' t t' (Parse.next >>= f) (Parse.next >>= f') post := by
  refine grab id false ht hs.notEof hshift htag (fun q _ hm => hm ▸ grabs_next q)
    (fun q _ hm => hm ▸ grabs_next q) ?_
  intro u u' hu
  rw [hs.openings, hs.trace]
  exact h u u' hu

/-- Taking a token that is no template piece where tokens are spaced. -/
theorem next [m.Spaced] {f f' : Token → Parse β} (htag : m = .tag → t.isPunctuator "\x7d" = false)
    (ht : Alike t t') (hs : t.Spells tr₀)
    (h : ∀ u u', Alike u u' → Tracks owed (fuel - 1) m m' u u' (f t) (f' t')
      fun w tr => post w (tr₀ ++ tr)) :
    Tracks owed fuel m m' t t' (Parse.next >>= f) (Parse.next >>= f') post :=
  nextStay .spaced htag ht hs h

/-- Taking a token of which the trivia is kept. -/
theorem lead [m.Spaced] {f f' : String → Parse β}
    (htag : m = .tag → t.isPunctuator "\x7d" = false) (ht : Alike t t') (hs : t.Spells tr₀)
    (h : ∀ u u', Alike u u' → Tracks owed (fuel - 1) m m' u u' (f t.lead) (f' t.lead)
      fun w tr => post w (tr₀ ++ tr)) :
    Tracks owed fuel m m' t t' (Parse.lead >>= f) (Parse.lead >>= f') post := by
  have hgrab : ∀ q : Parser, q.scanner.mode = m → Grabs Parse.lead Token.lead m q :=
    fun q hm => hm ▸ (grabs_next q).map Token.lead
  refine grab Token.lead false ht hs.notEof .spaced htag (fun q _ => hgrab q)
    (fun q _ => hgrab q) ?_
  intro u u' hu
  rw [hs.openings, hs.trace, ht.lead]
  exact h u u' hu

/-- Taking a token behind which another mode holds. -/
theorem leadThen {f f' : String → Parse β} {after : Mode}
    (htag : m = .tag → t.isPunctuator "\x7d" = false) (ht : Alike t t')
    (hs : t.Spells tr₀) (hshift : Shift m t after)
    (h : ∀ u u', Alike u u' → Tracks owed (fuel - 1) after m' u u' (f t.lead) (f' t.lead)
      fun w tr => post w (tr₀ ++ tr)) :
    Tracks owed fuel m m' t t' (Grammar.leadThen after >>= f) (Grammar.leadThen after >>= f')
      post := by
  have hgrab : ∀ q : Parser, Grabs (Grammar.leadThen after) Token.lead after q :=
    fun q => ((grabs_next (inMode q after)).map Token.lead).setMode
  refine grab Token.lead false ht hs.notEof hshift htag (fun q _ _ => hgrab q)
    (fun q _ _ => hgrab q) ?_
  intro u u' hu
  rw [hs.openings, hs.trace, ht.lead]
  exact h u u' hu

end

/-! ## Scanning again

Two tokens are scanned a second time before they are taken, under other rules. -/

/-- An action goes back to the place in front of the lookahead, scans the token there by `scan` in
the given mode, and takes it. -/
structure Regrabs (action : Parse Token) (scan : Scan Token) (mode : Mode) (q : Parser) :
    Prop where
  /-- What a run that ends well did. -/
  done : ∀ {x r}, action.run q = .ok x r →
    ∃ sc, scan { q.scanner.restore q.before with mode } = .ok x sc ∧
      action.takes q = [(x, sc.mode)] ∧ ∃ u sc', Scan.next sc = .ok u sc' ∧
        r = { q with scanner := sc', lookahead := x }.advance sc.save u
  /-- How a run ends well. -/
  run : ∀ {x u sc sc'}, scan { q.scanner.restore q.before with mode } = .ok x sc →
    Scan.next sc = .ok u sc' →
      action.run q = .ok x ({ q with scanner := sc', lookahead := x }.advance sc.save u)

/-- A second scan, in the given mode, of a token such that `seen`; the token taken is such that
`becomes`. -/
structure Second (scan : Scan Token) (mode : Mode) (seen becomes : Token → Prop) : Prop where
  /-- It does not change the mode. -/
  mode_eq : ∀ {s x sc}, scan s = .ok x sc → sc.mode = s.mode
  /-- It goes the same way without comments. -/
  quiet : ∀ {s x sc}, scan s = .ok x sc → scan s.quiet = .ok x sc.quiet
  /-- It goes the same way with comments. -/
  ofQuiet : ∀ {s x sc}, scan s.quiet = .ok x sc → ∃ r, scan s = .ok x r ∧ r.quiet = sc
  /-- It takes characters. -/
  shorter : ∀ {s x sc}, scan s = .ok x sc → becomes x →
    sc.cursor.rest.length < s.cursor.rest.length
  /-- Alike tokens are both such that `becomes`, or none is. -/
  alike : ∀ {x x'}, Alike x x' → becomes x → becomes x'
  /-- What it takes is a step. -/
  step : ∀ {s t s₀ x sc}, s.mode = .normal → Scan.next s = .ok t s₀ → seen t →
    scan { s with mode } = .ok x sc → Step s x mode sc ∧ becomes x
  /-- Such a step is what it takes. -/
  ofStep : ∀ {s t s₀ x s₁}, s.mode = .normal → Scan.next s = .ok t s₀ → seen t →
    Step s x mode s₁ → becomes x → scan { s with mode } = .ok x s₁

omit [Exchange] in
/-- The place in front of the lookahead, where it is scanned again. -/
theorem quiet_restore {s : Scanner} {q : Parser} {mode : Mode} (hs : Stands s q) :
    ({ q.scanner.restore q.before with mode } : Scanner).quiet = { s with mode } := by
  have hi := hs.isModule
  have hc := hs.cursor
  have hb := hs.braces
  have hq := hs.quiet
  cases s
  simp_all [Scanner.quiet, Scanner.restore]

omit [Exchange] in
/-- What scanning again and taking leaves stands behind the token. -/
theorem stands_advance {q : Parser} {u : Token} {sc sc' : Scanner} (hk : q.records = {})
    (h : Scan.next sc = .ok u sc') :
    Stands sc.quiet ({ q with scanner := sc' }.advance sc.save u) := by
  refine ⟨rfl, rfl, rfl, ?_, hk⟩
  rw [Scan.next_quiet_ok h]
  change _ = EStateM.Result.ok u { sc'.quiet with mode := sc.mode }
  rw [← Scan.next_mode h]
  rfl

/-- Scanning again, taking, and the rest of the sequence. -/
theorem regrab {action action' : Parse Token} {f f' : Token → Parse β}
    {post : β → Trace → Token → Prop} {scan : Scan Token} {mode : Mode}
    {seen becomes : Token → Prop} {trace : Token → Trace}
    (hscan : Second scan mode seen becomes) (hseen : seen t) (hseen' : seen t')
    (htrace : ∀ {x}, becomes x → x.Spells (trace x))
    (h : ∀ q, q.scanner.mode = .normal → Regrabs action scan mode q)
    (h' : ∀ q, q.scanner.mode = .normal → Regrabs action' scan mode q)
    (hf : ∀ x x' u u', becomes x → Alike x x' → Alike u u' →
      Tracks owed (fuel - 1) mode m' u u' (f x) (f' x') fun w tr => post w (trace x ++ tr)) :
    Tracks owed fuel .normal m' t t' (action >>= f) (action' >>= f') post := by
  have hmoves : Moves owed owed fuel .normal mode t t' action action'
      (fun x tr u => becomes x ∧ tr = trace x) fun x x' _ => Alike x x' := by
    rintro q s x r hs hm hm' rfl hrun
    obtain ⟨sc, hsc, htakes, u, sc', hu, rfl⟩ := (h q hm').done hrun
    have hquiet := hscan.quiet hsc
    rw [quiet_restore hs] at hquiet
    have hmode : sc.mode = mode := hscan.mode_eq hsc
    obtain ⟨hstep, hx⟩ := hscan.step hm hs.scanned hseen hquiet
    have hsp := htrace hx
    rw [hmode] at htakes
    refine ⟨sc.quiet, stands_advance (q := { q with lookahead := x }) hs.complete hu, hmode,
      (Scan.next_mode hu).trans hmode, ?_, ⟨[⟨x, mode, false⟩], ?_, ?_, hx, ?_⟩, ?_⟩
    · rw [htakes]
      exact ⟨_, hstep, rfl⟩
    · rw [htakes]
      rfl
    · rintro more u' ⟨new, hnew, hmk⟩
      refine ⟨new, hnew, fun o => ?_⟩
      rw [hmk, openings_append, hsp.openings]
      rfl
    · rw [← hsp.trace mode]
      exact Trace.append_empty _
    · rintro nodes rest q' - hq rfl hl
      rw [htakes] at hq ⊢
      obtain ⟨s', hs', hls⟩ := hq.stands
      have hm₁ : s'.mode = .normal := hls.looks.mode.trans hm
      obtain ⟨-, s₁, x', s₁', hone, hone', ha, -, hrest⟩ := hls
      have hx' := hscan.alike ha hx
      have hsame := hscan.ofStep hm hs.scanned hseen hone hx
      rw [hquiet] at hsame
      cases hsame
      have hagain := hscan.ofStep hm₁ hs'.scanned hseen' hone' hx'
      rw [← quiet_restore hs'] at hagain
      obtain ⟨r', hr', rfl⟩ := hscan.ofQuiet hagain
      obtain ⟨u', sc₁, hu', -, -⟩ := hrest.looks.alike (Scan.next_quiet_ok hu)
      obtain ⟨sc₂, hsc₂, -⟩ := Scan.next_of_quiet hu'
      refine ⟨x', _, (h' q' (hq.mode.trans hm')).run hr' hsc₂,
        ⟨⟨_, stands_advance (q := { q' with lookahead := x' }) hs'.complete hsc₂, hrest⟩, ?_,
          hq.pending, hq.tolerant⟩, ha, ?_⟩
      · change sc₂.mode = sc'.mode
        rw [Scan.next_mode hsc₂, Scan.next_mode hu, hscan.mode_eq hr', hmode]
      · exact hscan.shorter hr' hx'
  refine ofMoves hmoves ?_ ?_ (Nat.le_refl _)
  · rintro x tr u ⟨hx, rfl⟩
    obtain ⟨x', hx'⟩ := Alike.exists x
    obtain ⟨u', hu'⟩ := Alike.exists u
    exact ⟨x', u', hu', hx'⟩
  · rintro x x' tr u u' ⟨hx, rfl⟩ hu hxx
    refine (hf x x' u u' hx hxx hu).weaken (fun _ _ _ h => h) ?_
    exact Nat.le_of_eq (congrArg (fuel - ·.count) ((htrace hx).trace .normal).symm)

/-! ### Regular expressions -/

/-- A slash is scanned again as a regular expression. -/
theorem second_regex :
    Second Scan.nextRegex .normal (fun t => t.isOneOf ["/", "/="] = true)
      fun x => x.kind = .regex where
  mode_eq := Scan.nextRegex_mode
  quiet := Scan.nextRegex_quiet_ok
  ofQuiet := Scan.nextRegex_of_quiet
  shorter := fun h _ => Scan.nextRegex_shorter h
  alike := fun h hx => h.kind.trans hx
  step := by
    intro s t s₀ x sc hm hs ht hx
    have hs' : ({ s with mode := .normal } : Scanner) = s := by rw [← hm]
    rw [hs'] at hx
    exact ⟨.regex hm hs ht hx, Scan.nextRegex_kind hx⟩
  ofStep := by
    intro s t s₀ x s₁ hm hs ht hstep hx
    have hs' : ({ s with mode := .normal } : Scanner) = s := by rw [← hm]
    rw [hs']
    generalize hmode : Mode.normal = mode at hstep
    cases hstep with
    | plain scanned => exact absurd hx (Scan.next_kind scanned)
    | regex _ _ _ scanned => exact scanned
    | markup => cases hmode

omit [Exchange] in
/-- Scanning the lookahead again. -/
theorem rescanWith_eq (scan : Scan Token) (q : Parser) :
    Parser.rescanWith scan q = match scan (q.scanner.restore q.before) with
      | .ok x sc => .ok () { q with scanner := sc, lookahead := x }
      | .error e sc => .error (e.label q.report.source) { q with scanner := sc } := by
  unfold Parser.rescanWith
  change EStateM.bind (Parser.scan scan) _ { q with scanner := q.scanner.restore q.before } = _
  simp only [EStateM.bind, Parser.scan]
  cases scan (q.scanner.restore q.before) <;> rfl

omit [Exchange] in
/-- Scanning the lookahead again and taking it, in any mode that holds. -/
theorem regrabs_rescan {action : Parse Token} {scan : Scan Token} {q : Parser} {mode : Mode}
    (htakes : ∀ {r}, Parser.rescanWith scan (inMode q mode) = .ok () r →
      action.takes q = [(r.lookahead, r.scanner.mode)])
    (hrun : action.run q = match Parser.rescanWith scan (inMode q mode) with
      | .ok _ r => Parser.next r
      | .error e r => .error e r) : Regrabs action scan mode q := by
  constructor
  · intro x r h
    rw [hrun, rescanWith_eq] at h
    rw [rescanWith_eq] at htakes
    cases hsc : scan ((inMode q mode).scanner.restore (inMode q mode).before) with
    | error e sc => rw [hsc] at h; cases h
    | ok y sc =>
      rw [hsc] at h htakes
      obtain ⟨u, sc', hu, rfl, rfl⟩ := next_eq_ok h
      exact ⟨sc, hsc, htakes rfl, u, sc', hu, rfl⟩
  · intro x u sc sc' hsc hu
    rw [hrun, rescanWith_eq]
    have hsc : scan ((inMode q mode).scanner.restore (inMode q mode).before) = .ok x sc := hsc
    rw [hsc]
    exact next_of_scan (q := { inMode q mode with scanner := sc, lookahead := x }) hu

/-- A regular expression is scanned in place of a slash and taken. -/
theorem regex {f f' : Token → Parse β} {post : β → Trace → Token → Prop} (ht : Alike t t')
    (hslash : t.isOneOf ["/", "/="] = true)
    (h : ∀ x x' u u', x.kind = .regex → Alike x x' → Alike u u' →
      Tracks owed (fuel - 1) .normal m' u u' (f x) (f' x') fun w tr =>
        post w (.word x.lead x.raw ++ tr)) :
    Tracks owed fuel .normal m' t t' (Parse.rescanRegex >>= fun _ => Parse.next >>= f)
      (Parse.rescanRegex >>= fun _ => Parse.next >>= f') post := by
  have hgrab : ∀ q, q.scanner.mode = .normal →
      Regrabs (Parse.rescanRegex >>= fun _ => Parse.next) Scan.nextRegex .normal q := by
    intro q hm
    have hq : inMode q .normal = q := by rw [inMode, ← hm]
    refine regrabs_rescan (fun hr => ?_) ?_
    · rw [hq] at hr
      exact Parse.takes_bind hr
    · have hr : Parse.rescanRegex.run q = Parser.rescanWith Scan.nextRegex q := rfl
      rw [hq, Parse.run_bind, hr]
      cases Parser.rescanWith Scan.nextRegex q <;> rfl
  exact congr Parse.Same.assoc.symm Parse.Same.assoc.symm
    (regrab second_regex hslash ((ht.isOneOf _).trans hslash)
      (fun hx => .plain (by simp [hx])) hgrab
      hgrab h)

/-! ### Markup -/

/-- An angle bracket is scanned again as the beginning of a tag. -/
theorem second_angle :
    Second Scan.next .tag (fun t => t.isPunctuator "<" = true)
      fun x => x.isPunctuator "<" = true where
  mode_eq := Scan.next_mode
  quiet := Scan.next_quiet_ok
  ofQuiet := Scan.next_of_quiet
  shorter := fun h hx => Scan.next_shorter h (Token.Spells.punctuator hx).notEof
  alike := fun h hx => (h.isPunctuator _).trans hx
  step := fun hm hs ht hx => ⟨.markup hm hs ht hx, Scan.next_tag_of_angle hm hs ht hx⟩
  ofStep := by
    intro s t s₀ x s₁ hm hs ht hstep hx
    generalize hmode : Mode.tag = mode at hstep
    cases hstep with
    | plain scanned _ shift =>
      subst hmode
      exact absurd shift (Lockstep.not_shift_markup hm hx)
    | regex => cases hmode
    | markup _ _ _ scanned => exact scanned

omit [Exchange] [Placed β] in
/-- Keeping the start and the trivia of a token. -/
theorem same_hereLead {g : Position → String → Parse β} :
    (Parse.here >>= fun start => Parse.lead >>= fun lead => g start lead).Same
      (Parse.next >>= fun x => g x.start x.lead) := by
  intro q
  have hhere : Parse.here.run q = .ok q.lookahead.start q := rfl
  have hnext : Parse.next.run q = Parser.next q := rfl
  have hlead : Parse.lead = (Parse.next >>= fun x => Pure.pure x.lead) := rfl
  have htakes : Parse.lead.takes q = [(q.lookahead, q.scanner.mode)] :=
    ((grabs_next q).map Token.lead).takes
  cases h : Parser.next q with
  | ok x r =>
    obtain ⟨u, sc, -, rfl, -⟩ := next_eq_ok h
    have hl := hnext.trans h
    have hl' : Parse.lead.run q = .ok q.lookahead.lead r := by
      rw [hlead, Parse.run_bind, hl]
      rfl
    constructor
    · rw [Parse.run_bind, hhere]
      dsimp only
      rw [Parse.run_bind, hl', Parse.run_bind, hl]
    · rw [Parse.takes_bind hhere, Parse.takes_bind hl', Parse.takes_bind hl, htakes]
      rfl
  | error e r =>
    have hl := hnext.trans h
    have hl' : Parse.lead.run q = .error e r := by
      rw [hlead, Parse.run_bind, hl]
    constructor
    · rw [Parse.run_bind, hhere]
      dsimp only
      rw [Parse.run_bind, hl', Parse.run_bind, hl]
    · rw [Parse.takes_bind hhere]
      change [] ++ (Parse.andThen Parse.lead _).takes q = (Parse.andThen Parse.next _).takes q
      rw [Parse.takes, Parse.takes, hl, hl', htakes]
      rfl

/-- Where markup begins, the mode is changed, and the angle bracket is scanned again and taken. -/
theorem angle {f f' : Position → String → Parse β} {post : β → Trace → Token → Prop}
    (ht : Alike t t') (hangle : t.isPunctuator "<" = true)
    (h : ∀ start start' lead u u', Alike u u' →
      Tracks owed (fuel - 1) .tag m' u u' (f start lead) (f' start' lead) fun w tr =>
        post w (.mark lead "<" ++ tr)) :
    Tracks owed fuel .normal m' t t'
      (Parse.setMode .tag >>= fun _ => Parse.rescan >>= fun _ => Parse.here >>= fun start =>
        Parse.lead >>= fun lead => f start lead)
      (Parse.setMode .tag >>= fun _ => Parse.rescan >>= fun _ => Parse.here >>= fun start =>
        Parse.lead >>= fun lead => f' start lead) post := by
  have hgrab : ∀ q, q.scanner.mode = .normal →
      Regrabs (Parse.setMode .tag >>= fun _ => Parse.rescan >>= fun _ => Parse.next) Scan.next .tag
        q := by
    intro q hm
    refine regrabs_rescan (fun hr => ?_) ?_
    · change (Parse.rescan >>= fun _ => Parse.next).takes (inMode q .tag) = _
      exact Parse.takes_bind hr
    · have hr : Parse.rescan.run (inMode q .tag) = Parser.rescanWith Scan.next
        (inMode q .tag) := rfl
      change (Parse.rescan >>= fun _ => Parse.next).run (inMode q .tag) = _
      rw [Parse.run_bind, hr]
      cases Parser.rescanWith Scan.next (inMode q .tag) <;> rfl
  have hsame : ∀ g : Position → String → Parse β,
      (Parse.setMode .tag >>= fun _ => Parse.rescan >>= fun _ => Parse.here >>= fun start =>
        Parse.lead >>= fun lead => g start lead).Same
      ((Parse.setMode .tag >>= fun _ => Parse.rescan >>= fun _ => Parse.next) >>= fun x =>
        g x.start x.lead) := by
    intro g
    refine .trans ?_ Parse.Same.assoc.symm
    refine .bind (.refl _) fun _ => .trans ?_ Parse.Same.assoc.symm
    exact .bind (.refl _) fun _ => same_hereLead
  refine congr (hsame f) (hsame f')
    (regrab second_angle hangle ((ht.isPunctuator _).trans hangle) Token.Spells.punctuator hgrab
      hgrab ?_)
  intro x x' u u' hx ha hu
  rw [ha.lead]
  exact h x.start x'.start x.lead u u' hu

/-! ## What is known of the lookahead -/

section

variable {post : β → Trace → Token → Prop}

/-- The lookahead has the form of the tokens of its kind. -/
theorem formed {action action' : Parse β}
    (h : t.Formed → Tracks owed fuel m m' t t' action action' post) :
    Tracks owed fuel m m' t t' action action' post := by
  intro q s v r hs hm hm' hq hrun
  exact h (hq ▸ Scan.next_formed hs.scanned) q s v r hs hm hm' hq hrun

omit [Exchange] in
/-- A step in front of a template piece takes that piece. -/
theorem step_template {s s₀ s₁ : Scanner} {x : Token} {after : Mode} (h : Step s x after s₁)
    (hs : Scan.next s = .ok t s₀) (hk : t.kind = .template) : x = t ∧ Shift s.mode t after := by
  cases h with
  | plain scanned _ shift =>
    rw [hs] at scanned
    cases scanned
    exact ⟨rfl, shift⟩
  | regex _ seen isSlash =>
    rw [hs] at seen
    cases seen
    simp [Token.isOneOf, hk] at isSlash
  | markup _ seen isAngle =>
    rw [hs] at seen
    cases seen
    simp [Token.isPunctuator, hk] at isAngle

omit [Exchange] [Placed β] in
/-- A template that begins at the lookahead and is read to its end does not begin with a later piece
of another one. -/
theorem first_of_reads {action : Parse β} {s s' : Scanner} {q r : Parser} {v : β}
    (hr : Reads [] action post s q v s' r) (hs : Stands s q)
    (hk : q.lookahead.kind = .template)
    (hpost : ∀ v tr u, post v tr u → 0 < tr.count ∧ tr.nest [] ≠ none) :
    ∃ after more, action.takes q = (q.lookahead, after) :: more ∧
      Shift s.mode q.lookahead after ∧
        ∀ nodes, r.nodes.toList ⊆ nodes → isLaterIn nodes q.lookahead = false := by
  obtain ⟨hw, taken, htk, ⟨new, hnew, hmk⟩, hp⟩ := hr
  obtain ⟨hcount, hnest⟩ := hpost _ _ _ hp
  cases taken with
  | nil => exact absurd hcount (by simp [Trace.of])
  | cons x more =>
    rw [List.map_cons] at htk
    rw [← htk] at hw
    obtain ⟨s₁, hstep, -⟩ := hw
    obtain ⟨hx, hshift⟩ := step_template hstep hs.scanned hk
    have hlater : x.isLater = false := by
      cases hl : x.isLater with
      | false => rfl
      | true =>
        refine absurd ?_ hnest
        change (x.nest []).bind _ = none
        simp [Taken.nest, hx, hk, hl]
    refine ⟨x.after, _, by rw [← htk, hx], hshift, fun nodes hn => ?_⟩
    have ho : q.lookahead.start.offset ∈ templateStarts nodes := by
      have hnew' : q.lookahead.start.offset ∈ templateStarts new :=
        (hmk _).2 (.inr (by simp [openings, hx, hk, hlater]))
      obtain ⟨n, hn', ho⟩ := List.mem_filterMap.1 hnew'
      exact List.mem_filterMap.2 ⟨n, hn (by rw [hnew]; simp [hn']), ho⟩
    simp [isLaterIn, ho]

/-- Two branches under a condition that hangs on whether a template begins at the lookahead. The
companion sees a template begin if one is then read to its end, and none if there is none. -/
theorem iteHead {b b' : Bool} {yes no yes' no' : Parse β} {post' : β → Trace → Token → Prop}
    (hb : t'.isTemplateHead = t.isTemplateHead → b' = b)
    (hyes : b = true → Tracks [] fuel m m' t t' yes yes' post')
    (hpost : ∀ v tr u, post' v tr u → (0 < tr.count ∧ tr.nest [] ≠ none) ∧ post v tr u)
    (hno : b = false → t.isTemplateHead = false ∧ Tracks [] fuel m m' t t' no no' post) :
    Tracks [] fuel m m' t t' (if b = true then yes else no) (if b' = true then yes' else no')
      post := by
  rintro q s v r hs hm hm' rfl hrun
  -- Both branches behave as if the condition were the same for the companion.
  have hboth : Tracks [] fuel m m' q.lookahead t' (if b = true then yes else no)
      (if b = true then yes' else no') post :=
    ite rfl (fun h => (hyes h).imp fun v tr u hp => (hpost v tr u hp).2) fun h => (hno h).2
  obtain ⟨s', hs', hm₁, hm₂, hr, he⟩ := hboth q s v r hs hm hm' rfl hrun
  refine ⟨s', hs', hm₁, hm₂, hr, ?_⟩
  intro nodes rest q' hn hq ht' hl
  have hhead : t'.isTemplateHead = q.lookahead.isTemplateHead := by
    obtain ⟨s'', hs'', hls⟩ := hq.stands
    cases hh : q.lookahead.isTemplateHead with
    | false =>
      obtain ⟨x', s₀', hx', -, hh'⟩ := hls.looks.alike hs.scanned
      rw [hs''.scanned] at hx'
      cases hx'
      rw [← ht', hh' hh]
    | true =>
      have hk := Token.kind_of_isTemplateHead hh
      cases b with
      | false => exact absurd (hno rfl).1 (by simp [hh])
      | true =>
        obtain ⟨_, _, _, _, hr', _⟩ := hyes rfl q s v r hs hm hm' rfl hrun
        obtain ⟨after, more, htakes, hshift, hfirst⟩ :=
          first_of_reads hr' hs hk fun v tr u hp => (hpost v tr u hp).1
        rw [if_pos rfl, htakes, roles_cons, hfirst nodes hn] at hls
        obtain ⟨x', s₀', hx', -, -, hh', -⟩ := hls.plain hs.scanned hshift
        rw [hs''.scanned] at hx'
        cases hx'
        rw [← ht', hh' rfl, hh]
  rw [hb hhead]
  exact he nodes rest q' hn hq ht' hl

/-- If a run takes tokens, the companion has characters left. -/
theorem exhausted {action action' action'' : Parse β}
    (h : Tracks owed fuel m m' t t' action action' post)
    (hpost : ∀ v tr u, post v tr u → 0 < tr.count) :
    Tracks owed 1 m m' t t' action action'' post := by
  rintro q s v r hs hm hm' hq hrun
  obtain ⟨s', hs', hm₁, hm₂, hr, -⟩ := h q s v r hs hm hm' hq hrun
  refine ⟨s', hs', hm₁, hm₂, hr, ?_⟩
  intro nodes rest q' hn hagrees ht' hl
  obtain ⟨-, taken, htk, -, hp⟩ := hr
  have hcount := hpost _ _ _ hp
  cases taken with
  | nil => exact absurd hcount (by simp [Trace.of])
  | cons x more =>
    obtain ⟨s'', hs'', hls⟩ := hagrees.stands
    rw [← htk] at hls
    obtain ⟨-, s₁, x', s₁', -, hstep, -⟩ := hls
    have hshort := hstep.shorter
    rw [Parser.left, hs''.cursor] at hl
    omega

end

end Verbatim.Tracks
