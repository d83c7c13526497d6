import Verbatim.Proofs.Contract
import Verbatim.Proofs.Layout.Laid
import Verbatim.Proofs.Scan.Again
import Verbatim.Proofs.Taking

/-!
# The course of a parse

While a source is parsed, tokens are taken one behind the other, and nodes are finished, each of
them between the start of a token and the end of one. What a production reads is laid out over the
tokens that it takes, and the nodes that it finishes lie between these, so a node never lies across
the border of another one. The contract keeps track of the tokens that were taken and of the nodes
that were finished.

## Main definitions

* `Verbatim.Course` — the tokens that were taken and the nodes that were finished.
* `Verbatim.Outlook` — what is known of a parser.
* `Verbatim.courses` — the contract.
* `Verbatim.Course.Of` — a parser of which a course is known.

## Main results

* `Verbatim.courses_holds` — the contract is true of parsers.

## Design

An angle bracket is scanned again where markup may begin, and what is found then may start
elsewhere. Nothing can be scanned behind it in that case, so such a parser is known to be at a dead
end, and nothing else is known of it.
-/

namespace Verbatim

/-! ## Extents in their order -/

/-- An extent between two points of a source that lie between the given offsets. -/
def Span.Lies (source : String) (low high : Nat) (span : Span) : Prop :=
  ∃ start stop : Position, span = .between start stop ∧ start.IsOf source ∧ stop.IsOf source ∧
    low ≤ start.offset ∧ start.offset ≤ stop.offset ∧ stop.offset ≤ high

/-- An extent lies within a later one, or in front of it. -/
def Span.Precedes (span later : Span) : Prop :=
  ∃ range range', span.range = some range ∧ later.range = some range' ∧
    (range'.1 ≤ range.1 ∧ range.2 ≤ range'.2 ∨ range.2 ≤ range'.1)

/-- Each node lies within or in front of those that were finished later. -/
def InOrder (nodes : List NodeRecord) : Prop :=
  nodes.Pairwise fun node later => node.span.Precedes later.span

section

variable {source : String} {low high : Nat} {span : Span}

theorem Span.Lies.mono {low' high' : Nat} (h : span.Lies source low high) (hl : low' ≤ low)
    (hh : high ≤ high') : span.Lies source low' high' := by
  obtain ⟨start, stop, hs, hstart, hstop, hlow, hle, hhigh⟩ := h
  exact ⟨start, stop, hs, hstart, hstop, Nat.le_trans hl hlow, hle, Nat.le_trans hhigh hh⟩

/-- What lies in a range precedes an extent that begins behind it. -/
theorem Span.Lies.precedes {start stop : Position} (h : span.Lies source low high)
    (hs : high ≤ start.offset) : span.Precedes (.between start stop) := by
  obtain ⟨start', stop', rfl, -, -, -, -, hhigh⟩ := h
  exact ⟨_, _, rfl, rfl, .inr (Nat.le_trans hhigh hs)⟩

/-- What lies in a range precedes an extent around it. -/
theorem Span.Lies.precedes_around {start stop : Position} (h : span.Lies source low high)
    (hs : start.offset ≤ low) (ht : high ≤ stop.offset) : span.Precedes (.between start stop) := by
  obtain ⟨start', stop', rfl, -, -, hlow, -, hhigh⟩ := h
  exact ⟨_, _, rfl, rfl, .inl ⟨Nat.le_trans hs hlow, Nat.le_trans hhigh ht⟩⟩

end

/-! ## Courses -/

/-- A token in a source, whose end is not in front of its start. -/
structure Token.Lies (source : String) (t : Token) : Prop extends t.IsOf source where
  /-- It ends behind its start. -/
  forward : t.start.offset ≤ t.stop.offset

/-- The tokens that were taken, and the nodes that were finished in the course of it. -/
structure Course (source : String) where
  /-- The tokens that were taken, oldest first. -/
  taken : List Token
  /-- The token that comes next. -/
  ahead : Token
  /-- The nodes that were finished, oldest first. -/
  nodes : List NodeRecord
  /-- Which tokens there are. -/
  mode : Mode
  /-- The tokens stand in the source. -/
  lies : ∀ t ∈ taken ++ [ahead], t.Lies source
  /-- Each token stands behind those before it. -/
  ordered : (taken ++ [ahead]).Pairwise fun t u => t.stop.offset ≤ u.start.offset
  /-- The next token is well formed. -/
  formed : ahead.Formed
  /-- No node reaches behind the start of the next token. -/
  bounded : ∀ node ∈ nodes, node.span.Lies source 0 ahead.start.offset
  /-- The nodes were finished in their order. -/
  inOrder : InOrder nodes

namespace Course

variable {source : String} (c : Course source)

/-- The point behind the last token that was taken. -/
def lastEnd : Position := (c.taken.getLast?.map (·.stop)).getD {}

/-- A token may come next behind the lookahead. -/
structure MayFollow (u : Token) : Prop extends u.Lies source where
  /-- It stands behind the lookahead. -/
  behind : c.ahead.stop.offset ≤ u.start.offset
  /-- It is well formed. -/
  formed : u.Formed

/-- A token may come in place of the lookahead. -/
structure MayReplace (u : Token) : Prop extends u.Lies source where
  /-- It starts where the lookahead does. -/
  same : u.start = c.ahead.start
  /-- It is well formed. -/
  formed : u.Formed

/-- A node may be finished. -/
structure MayFinish (span : Span) : Prop where
  /-- It does not reach behind the start of the next token. -/
  lies : span.Lies source 0 c.ahead.start.offset
  /-- It does not lie across the border of another node. -/
  precedes : ∀ node ∈ c.nodes, node.span.Precedes span

theorem ahead_lies : c.ahead.Lies source := c.lies _ (by simp)

/-- The tokens that were taken end in front of the next one. -/
theorem stop_le {t : Token} (ht : t ∈ c.taken) : t.stop.offset ≤ c.ahead.start.offset :=
  (List.pairwise_append.1 c.ordered).2.2 t ht _ (List.mem_singleton.2 rfl)

/-- The last token that was taken ends in front of the next one. -/
theorem lastEnd_le : c.lastEnd.offset ≤ c.ahead.start.offset := by
  unfold lastEnd
  cases h : c.taken.getLast? with
  | none => exact Nat.zero_le _
  | some t => exact c.stop_le (List.mem_of_getLast? h)

/-- The course behind the lookahead. -/
def take (u : Token) (h : c.MayFollow u) : Course source where
  taken := c.taken ++ [c.ahead]
  ahead := u
  nodes := c.nodes
  mode := c.mode
  lies t ht := by
    rcases List.mem_append.1 ht with ht | ht
    · exact c.lies t ht
    · exact List.mem_singleton.1 ht ▸ h.toLies
  ordered := by
    refine List.pairwise_append.2 ⟨c.ordered, List.pairwise_singleton _ _, fun t ht v hv => ?_⟩
    obtain rfl := List.mem_singleton.1 hv
    have hahead := c.ahead_lies.forward
    have hbehind := h.behind
    rcases List.mem_append.1 ht with ht | ht
    · have := c.stop_le ht
      omega
    · rwa [List.mem_singleton.1 ht]
  formed := h.formed
  bounded node hn :=
    (c.bounded node hn).mono (Nat.le_refl _) (Nat.le_trans c.ahead_lies.forward h.behind)
  inOrder := c.inOrder

/-- The course with another token in place of the lookahead. -/
def replace (u : Token) (h : c.MayReplace u) : Course source where
  taken := c.taken
  ahead := u
  nodes := c.nodes
  mode := c.mode
  lies t ht := by
    rcases List.mem_append.1 ht with ht | ht
    · exact c.lies t (List.mem_append_left _ ht)
    · exact List.mem_singleton.1 ht ▸ h.toLies
  ordered := by
    have hordered := List.pairwise_append.1 c.ordered
    refine List.pairwise_append.2 ⟨hordered.1, List.pairwise_singleton _ _, fun t ht v hv => ?_⟩
    obtain rfl := List.mem_singleton.1 hv
    rw [h.same]
    exact c.stop_le ht
  formed := h.formed
  bounded := by
    rw [h.same]
    exact c.bounded
  inOrder := c.inOrder

/-- The course in another mode. -/
def inMode (mode : Mode) : Course source := { c with mode }

/-- The course behind a node that is finished. -/
def finish (kind : NodeKind) (span : Span) (h : c.MayFinish span) : Course source where
  taken := c.taken
  ahead := c.ahead
  nodes := c.nodes ++ [{ kind, span }]
  mode := c.mode
  lies := c.lies
  ordered := c.ordered
  formed := c.formed
  bounded node hn := by
    rcases List.mem_append.1 hn with hn | hn
    · exact c.bounded node hn
    · exact List.mem_singleton.1 hn ▸ h.lies
  inOrder := by
    refine List.pairwise_append.2 ⟨c.inOrder, List.pairwise_singleton _ _, fun node hn m hm => ?_⟩
    obtain rfl := List.mem_singleton.1 hm
    exact h.precedes node hn

end Course

/-! ## The contract -/

/-- What is known of a parser. -/
inductive Outlook (source : String) where
  /-- It is on a course. -/
  | on (c : Course source)
  /-- Nothing can be scanned behind the lookahead. -/
  | deadEnd (ahead : Token)
  /-- The whole source was read, and its node was finished last. -/
  | ended (c : Course source) (span : Span)

/-- What is known of tokens and demanded of nodes. A slash may be scanned again as a regular
expression, and an angle bracket as the beginning of markup. -/
def courses (source : String) : Contract (Outlook source) where
  allows request s post :=
    match s, request, post with
    | .ended .., _, _ => False
    | .on c, .look, post => post c.ahead (.on c)
    | .on c, .next, post => ∀ u (h : c.MayFollow u), post c.ahead (.on (c.take u h))
    | .on c, .peek, post => ∀ t : Token, post t (.on c)
    | .on c, .rescan, post => c.mode = .tag ∧ c.ahead.isPunctuator "<" = true ∧
        (∀ u (h : c.MayReplace u), u.isPunctuator "<" = true → post () (.on (c.replace u h))) ∧
        ∀ u, post () (.deadEnd u)
    | .on c, .rescanRegex, post => c.ahead.isOneOf ["/", "/="] = true ∧
        ∀ u (h : c.MayReplace u), post () (.on (c.replace u h))
    | .on c, .setMode mode, post => post () (.on (c.inMode mode))
    | .on c, .lastEnd, post => post c.lastEnd (.on c)
    | .on c, .span start stop, post => post (.between start stop) (.on c)
    | .on c, .pending, post => ∀ o : Option Site, post o (.on c)
    | .on c, .setPending _, post | .on c, .tolerate .., post => post () (.on c)
    | .on c, .finish kind span, post =>
        (kind = .program → post () (.ended c span)) ∧
        (kind ≠ .program → ∃ h : c.MayFinish span, post () (.on (c.finish kind span h)))
    | .deadEnd u, .look, post => post u (.deadEnd u)
    | _, .fail _, _ | .deadEnd _, .next, _ => True
    | .deadEnd _, _, _ => False
  mono := by
    intro request s post post' h ha
    cases s with
    | on c =>
      cases request with
      | look | setMode | lastEnd | span | setPending | tolerate => exact h _ _ ha
      | next => exact fun u hu => h _ _ (ha u hu)
      | peek => exact fun t => h _ _ (ha t)
      | rescan =>
        exact ⟨ha.1, ha.2.1, fun u hu ht => h _ _ (ha.2.2.1 u hu ht), fun u => h _ _ (ha.2.2.2 u)⟩
      | rescanRegex => exact ⟨ha.1, fun u hu => h _ _ (ha.2 u hu)⟩
      | pending => exact fun o => h _ _ (ha o)
      | finish =>
        exact ⟨fun hk => h _ _ (ha.1 hk), fun hk => (ha.2 hk).imp fun _ => h _ _⟩
      | fail => trivial
    | ended => exact ha
    | deadEnd u =>
      cases request with
      | look => exact h _ _ ha
      | next | fail => trivial
      | _ => exact ha

/-! ## The contract is true -/

/-- A parser that is on a course. -/
structure Course.Of {source : String} (c : Course source) (q : Parser) : Prop where
  /-- The lookahead. -/
  lookahead : q.lookahead = c.ahead
  /-- The nodes. -/
  nodes : q.nodes.toList = c.nodes
  /-- The point behind the last token. -/
  lastEnd : q.lastEnd = c.lastEnd
  /-- The mode. -/
  mode : q.scanner.mode = c.mode
  /-- The scanner is in the source. -/
  scanner : q.scanner.IsOf source
  /-- It stands behind the lookahead. -/
  behind : q.scanner.cursor.position.offset = c.ahead.stop.offset
  /-- The place in front of the lookahead is in the source. -/
  before : q.before.cursor.IsOf source
  /-- It is not in front of the tokens that were taken. -/
  front : ∀ t ∈ c.taken, t.stop.offset ≤ q.before.cursor.position.offset
  /-- Unless it is a regular expression, the lookahead is the token that comes next there. -/
  found : c.ahead.kind = .regex ∨ ∃ s, Stands s q
  /-- Everything is recorded. -/
  complete : q.records = {}

/-- What is known of a parser that has taken the given tokens. -/
def Outlook.Of {source : String} (past : List (Token × Mode)) : Outlook source → Parser → Prop
  | .on c, q => c.taken = past.map (·.1) ∧ c.Of q
  | .deadEnd u, q => q.lookahead = u ∧ (∀ t s, Scan.next q.scanner ≠ .ok t s) ∧
      InOrder q.nodes.toList
  | .ended c span, q => c.taken = past.map (·.1) ∧ q.lookahead = c.ahead ∧
      q.nodes.toList = c.nodes ++ [{ kind := .program, span }]

/-! ### Scanning -/

section

variable {q : Parser}

/-- Taking the lookahead scans the token behind it, or fails. -/
theorem Parser.next_cases (q : Parser) :
    (∃ u s, Scan.next q.scanner = .ok u s ∧
      next q = .ok q.lookahead ({ q with scanner := s }.advance q.scanner.save u)) ∨
    ∃ e r, next q = .error e r ∧ r.nodes = q.nodes := by
  cases h : Scan.next q.scanner with
  | ok u s => exact .inl ⟨u, s, rfl, Tracks.next_of_scan h⟩
  | error e s =>
    refine .inr ⟨e.label q.report.source, { q with scanner := s }, ?_, rfl⟩
    change EStateM.bind _ _ q = _
    simp only [EStateM.bind, scan, h]

/-- Scanning the lookahead again replaces it, or fails. -/
theorem Parser.rescanWith_cases (action : Scan Token) (q : Parser) :
    (∃ u s, action (q.scanner.restore q.before) = .ok u s ∧
      rescanWith action q = .ok () { q with scanner := s, lookahead := u }) ∨
    ∃ e r, rescanWith action q = .error e r ∧ r.nodes = q.nodes := by
  have hrun : rescanWith action q = (scan action >>= fun lookahead =>
      (modify ({ · with lookahead }) : Run Unit))
        { q with scanner := q.scanner.restore q.before } := rfl
  rw [hrun]
  change (∃ u s, _ ∧ EStateM.bind _ _ _ = _) ∨ ∃ e r, EStateM.bind _ _ _ = _ ∧ _
  simp only [EStateM.bind, scan]
  cases action (q.scanner.restore q.before) with
  | ok u s => exact .inl ⟨u, s, rfl, rfl⟩
  | error e s => exact .inr ⟨_, _, rfl, rfl⟩

/-- Looking one token further comes back, or fails. -/
theorem Parser.peek_cases (q : Parser) :
    (∃ u s, Scan.next q.scanner = .ok u s ∧
      peek q = .ok u { q with scanner := s.restore q.scanner.save }) ∨
    ∃ e r, peek q = .error e r ∧ r.nodes = q.nodes := by
  unfold peek
  split
  · rename_i u s h
    exact .inl ⟨u, s, h, rfl⟩
  · exact .inr ⟨_, _, rfl, rfl⟩

/-- What is scanned where the lookahead stands is what is scanned where it was found. -/
theorem Stands.restore {s : Scanner} (h : Stands s q) :
    (q.scanner.restore q.before).quiet = { s with mode := q.scanner.mode } :=
  Tracks.quiet_restore h

/-- The lookahead that was scanned again stands where it was scanned. -/
theorem Stands.rescanned {u : Token} {s : Scanner} (hq : q.records = {})
    (h : Scan.next (q.scanner.restore q.before) = .ok u s) :
    Stands (q.scanner.restore q.before).quiet { q with scanner := s, lookahead := u } := by
  refine ⟨rfl, rfl, rfl, ?_, hq⟩
  rw [Scan.next_quiet_ok h]
  change _ = EStateM.Result.ok u { s.quiet with mode := (q.scanner.restore q.before).mode }
  rw [← Scan.next_mode h]
  rfl

end

namespace Course.Of

variable {source : String} {c : Course source} {q : Parser}

/-- A token that is scanned behind the lookahead may follow it. -/
theorem mayFollow (h : c.Of q) {u : Token} {s : Scanner} (hs : Scan.next q.scanner = .ok u s) :
    c.MayFollow u ∧ s.IsOf source := by
  have hkeeps := Scan.next_keeps source _ h.scanner
  rw [hs] at hkeeps
  have hplaces := Scan.next_places hs
  have hfront := hplaces.front
  rw [h.behind] at hfront
  exact ⟨⟨⟨hkeeps.2, hplaces.forward⟩, hfront, Scan.next_formed hs⟩, hkeeps.1⟩

/-- The parser behind the lookahead is on the course behind it. -/
theorem take (h : c.Of q) {u : Token} {s : Scanner} (hs : Scan.next q.scanner = .ok u s)
    (hu : c.MayFollow u) :
    (c.take u hu).Of ({ q with scanner := s }.advance q.scanner.save u) := by
  refine ⟨rfl, h.nodes, ?_, (Scan.next_mode hs).trans h.mode, (h.mayFollow hs).2,
    (Scan.next_places hs).behind, h.scanner.cursor, fun t ht => ?_,
    .inr ⟨_, Tracks.stands_advance (q := q) h.complete hs⟩, h.complete⟩
  · change q.lookahead.stop = ((c.taken ++ [c.ahead]).getLast?.map (·.stop)).getD {}
    rw [List.getLast?_concat, h.lookahead]
    rfl
  · change _ ≤ q.scanner.cursor.position.offset
    rw [h.behind]
    rcases List.mem_append.1 ht with ht | ht
    · exact Nat.le_trans (c.stop_le ht) c.ahead_lies.forward
    · exact List.mem_singleton.1 ht ▸ Nat.le_refl _

/-- Looking one token further stays on the course. -/
theorem peek (h : c.Of q) {u : Token} {s : Scanner} (hs : Scan.next q.scanner = .ok u s) :
    c.Of { q with scanner := s.restore q.scanner.save } := by
  have hmode := Scan.next_mode hs
  have hmodule := Scan.next_isModule hs
  have hquiet : (s.restore q.scanner.save).quiet = q.scanner.quiet := by
    generalize q.scanner = s₀ at hmode hmodule
    cases s
    cases s₀
    cases hmode
    cases hmodule
    rfl
  refine ⟨h.lookahead, h.nodes, h.lastEnd, hmode.trans h.mode,
    (h.mayFollow hs).2.restore h.scanner.cursor, h.behind, h.before, h.front, h.found.imp_right ?_,
    h.complete⟩
  rintro ⟨s₀, hs₀⟩
  refine ⟨s₀, hs₀.quiet, hs₀.cursor, hs₀.braces, ?_, h.complete⟩
  change _ = EStateM.Result.ok q.lookahead
    { (s.restore q.scanner.save).quiet with mode := s₀.mode }
  rw [hquiet]
  exact hs₀.scanned

/-- A token that is scanned in place of the lookahead, and starts where it does, may replace it, and
the parser is on the course with it. -/
theorem replace (h : c.Of q) {action : Scan Token} {u : Token} {s : Scanner}
    (haction : Scan.Keeps source action (·.IsOf source))
    (hs : action (q.scanner.restore q.before) = .ok u s)
    (hplaces : Scanned (q.scanner.restore q.before) u s) (hformed : u.Formed)
    (hmode : s.mode = q.scanner.mode) (hstart : u.start = c.ahead.start)
    (hfound : u.kind = .regex ∨ ∃ s₀, Stands s₀ { q with scanner := s, lookahead := u }) :
    ∃ hu : c.MayReplace u, (c.replace u hu).Of { q with scanner := s, lookahead := u } := by
  have hkeeps := haction _ (h.scanner.restore h.before)
  rw [hs] at hkeeps
  exact ⟨⟨⟨hkeeps.2, hplaces.forward⟩, hstart, hformed⟩, rfl, h.nodes, h.lastEnd,
    hmode.trans h.mode, hkeeps.1, hplaces.behind, h.before, h.front, hfound, h.complete⟩

end Course.Of

section

variable {source : String} {past : List (Token × Mode)} {c : Course source} {q : Parser}

/-- What is known of a parser that scans its lookahead again where markup begins. -/
theorem Course.Of.rescan (h : c.Of q) (htaken : c.taken = past.map (·.1)) (hm : c.mode = .tag)
    (hangle : c.ahead.isPunctuator "<" = true) {u : Token} {s : Scanner}
    (hs : Scan.next (q.scanner.restore q.before) = .ok u s) :
    ∃ o : Outlook source, o.Of past { q with scanner := s, lookahead := u } ∧
      ((∃ hu : c.MayReplace u, u.isPunctuator "<" = true ∧ o = .on (c.replace u hu)) ∨
        o = .deadEnd u) := by
  obtain ⟨s₀, hs₀⟩ := h.found.resolve_left fun hk => by
    simp [Token.isPunctuator, hk] at hangle
  have hquiet := Scan.next_quiet_ok hs
  rw [hs₀.restore, h.mode, hm] at hquiet
  have hmode : s.mode = (q.scanner.restore q.before).mode := Scan.next_mode hs
  rcases Scan.tag_again hs₀.scanned (h.lookahead ▸ hangle) hquiet with ⟨hstart, hagain⟩ | hdead
  · rw [h.lookahead] at hstart
    obtain ⟨hu, hc⟩ := h.replace (Scan.next_keeps source) hs (Scan.next_places hs)
      (Scan.next_formed hs) hmode hstart (.inr ⟨_, Stands.rescanned h.complete hs⟩)
    exact ⟨.on (c.replace u hu), ⟨htaken, hc⟩, .inl ⟨hu, hagain, rfl⟩⟩
  · refine ⟨.deadEnd u, ⟨rfl, fun t s' ht => hdead _ _ (Scan.next_quiet_ok ht), ?_⟩, .inr rfl⟩
    change InOrder q.nodes.toList
    rw [h.nodes]
    exact c.inOrder

/-- What is known of a parser that scans its lookahead again as a regular expression. -/
theorem Course.Of.rescanRegex (h : c.Of q) (hslash : c.ahead.isOneOf ["/", "/="] = true) {u : Token}
    {s : Scanner} (hs : Scan.nextRegex (q.scanner.restore q.before) = .ok u s) :
    ∃ hu : c.MayReplace u, (c.replace u hu).Of { q with scanner := s, lookahead := u } := by
  obtain ⟨s₀, hs₀⟩ := h.found.resolve_left fun hk => by
    simp [Token.isOneOf, hk] at hslash
  have hquiet := Scan.nextRegex_quiet_ok hs
  rw [hs₀.restore] at hquiet
  have hstart := Scan.regex_again hs₀.scanned (h.lookahead ▸ hslash) hquiet
  rw [h.lookahead] at hstart
  have hmode : s.mode = (q.scanner.restore q.before).mode := Scan.nextRegex_mode hs
  exact h.replace (Scan.nextRegex_keeps source) hs (Scan.nextRegex_places hs)
    (Scan.nextRegex_formed hs) hmode hstart (.inl (Scan.nextRegex_kind hs))

/-- The contract is true of parsers. Whatever ends a parse, its nodes were finished in their
order. -/
theorem courses_holds {request : Request} {o : Outlook source}
    {post : request.Answer → Outlook source → Prop} (h : o.Of past q)
    (ha : (courses source).allows request o post) :
    EndsIn (Outlook.Of (past ++ (Parse.ask request).takes q))
      (fun _ r => InOrder r.nodes.toList) post
      (Parser.answer request q) := by
  cases o with
  | ended c span => exact ha.elim
  | deadEnd u =>
    obtain ⟨hlook, hdead, horder⟩ := h
    cases request with
    | look => exact ⟨.deadEnd u, ⟨hlook, hdead, horder⟩, hlook ▸ ha⟩
    | next =>
      change EndsIn _ _ post (Parser.next q)
      rcases Parser.next_cases q with ⟨u, s, hs, -⟩ | ⟨e, r, hr, hnodes⟩
      · exact absurd hs (hdead u s)
      · rw [hr]
        change InOrder r.nodes.toList
        rwa [hnodes]
    | fail => exact horder
    | _ => exact ha.elim
  | on c =>
    obtain ⟨htaken, h⟩ := h
    have horder : InOrder q.nodes.toList := h.nodes ▸ c.inOrder
    have hpast : c.taken = (past ++ ([] : List (Token × Mode))).map (·.1) := by
      rwa [List.append_nil]
    cases request with
    | look =>
      refine ⟨.on c, ⟨hpast, h⟩, ?_⟩
      rw [h.lookahead]
      exact ha
    | next =>
      change EndsIn _ _ post (Parser.next q)
      rcases Parser.next_cases q with ⟨u, s, hs, hr⟩ | ⟨e, r, hr, hnodes⟩
      · rw [hr]
        have hu := (h.mayFollow hs).1
        refine ⟨.on (c.take u hu), ⟨?_, h.take hs hu⟩, h.lookahead ▸ ha u hu⟩
        change c.taken ++ [c.ahead] = (past ++ (Parse.ask .next).takes q).map (·.1)
        rw [List.map_append, ← htaken, ← h.lookahead]
        rfl
      · rw [hr]
        change InOrder r.nodes.toList
        rwa [hnodes]
    | peek =>
      change EndsIn _ _ post (Parser.peek q)
      rcases Parser.peek_cases q with ⟨u, s, hs, hr⟩ | ⟨e, r, hr, hnodes⟩
      · rw [hr]
        exact ⟨.on c, ⟨hpast, h.peek hs⟩, ha u⟩
      · rw [hr]
        change InOrder r.nodes.toList
        rwa [hnodes]
    | rescan =>
      change EndsIn _ _ post (Parser.rescanWith Scan.next q)
      rcases Parser.rescanWith_cases Scan.next q with ⟨u, s, hs, hr⟩ | ⟨e, r, hr, hnodes⟩
      · rw [hr]
        obtain ⟨hm, hangle, hon, hdead⟩ := ha
        obtain ⟨o, ho, ⟨hu, hagain, rfl⟩ | rfl⟩ := h.rescan hpast hm hangle hs
        · exact ⟨_, ho, hon u hu hagain⟩
        · exact ⟨_, ho, hdead u⟩
      · rw [hr]
        change InOrder r.nodes.toList
        rwa [hnodes]
    | rescanRegex =>
      change EndsIn _ _ post (Parser.rescanWith Scan.nextRegex q)
      rcases Parser.rescanWith_cases Scan.nextRegex q with ⟨u, s, hs, hr⟩ | ⟨e, r, hr, hnodes⟩
      · rw [hr]
        obtain ⟨hu, hc⟩ := h.rescanRegex ha.1 hs
        exact ⟨.on (c.replace u hu), ⟨hpast, hc⟩, ha.2 u hu⟩
      · rw [hr]
        change InOrder r.nodes.toList
        rwa [hnodes]
    | setMode mode =>
      refine ⟨.on (c.inMode mode), ⟨hpast, h.lookahead, h.nodes, h.lastEnd, rfl,
        h.scanner.setMode mode, h.behind, h.before, h.front, h.found.imp_right ?_, h.complete⟩, ha⟩
      exact fun ⟨s, hs⟩ => ⟨s, hs.quiet, hs.cursor, hs.braces, hs.scanned, hs.complete⟩
    | lastEnd =>
      refine ⟨.on c, ⟨hpast, h⟩, ?_⟩
      rw [h.lastEnd]
      exact ha
    | span start stop =>
      refine ⟨.on c, ⟨hpast, h⟩, ?_⟩
      rw [h.complete]
      exact ha
    | pending => exact ⟨.on c, ⟨hpast, h⟩, ha _⟩
    | setPending site =>
      refine ⟨.on c, ⟨hpast, h.lookahead, h.nodes, h.lastEnd, h.mode, h.scanner, h.behind, h.before,
        h.front, h.found.imp_right ?_, h.complete⟩, ha⟩
      exact fun ⟨s, hs⟩ => ⟨s, hs.quiet, hs.cursor, hs.braces, hs.scanned, hs.complete⟩
    | tolerate finder fault site =>
      change EndsIn _ _ post (Parser.tolerate _ _ q)
      unfold Parser.tolerate
      split
      · refine ⟨.on c, ⟨hpast, h.lookahead, h.nodes, h.lastEnd, h.mode, h.scanner, h.behind,
          h.before, h.front, h.found.imp_right ?_, h.complete⟩, ha⟩
        exact fun ⟨s, hs⟩ => ⟨s, hs.quiet, hs.cursor, hs.braces, hs.scanned, hs.complete⟩
      · exact horder
    | finish kind span =>
      have hnodes : (q.nodes.push (NodeRecord.mk kind span)).toList =
          c.nodes ++ [NodeRecord.mk kind span] := by
        rw [Array.toList_push, h.nodes]
      by_cases hk : kind = .program
      · subst hk
        exact ⟨.ended c span, ⟨hpast, h.lookahead, hnodes⟩, ha.1 rfl⟩
      · obtain ⟨hf, ha⟩ := ha.2 hk
        refine ⟨.on (c.finish kind span hf), ⟨hpast, h.lookahead, hnodes, h.lastEnd, h.mode,
          h.scanner, h.behind, h.before, h.front, h.found.imp_right ?_, h.complete⟩, ha⟩
        exact fun ⟨s, hs⟩ => ⟨s, hs.quiet, hs.cursor, hs.braces, hs.scanned, hs.complete⟩
    | fail => exact horder

end

end Verbatim
