import Verbatim.Proofs.Consumed
import Verbatim.Proofs.Course.Basic
import Verbatim.Proofs.Recorded.Tree
import Verbatim.Proofs.Results
import Verbatim.Proofs.Scan.Regex

/-!
# Reading what a tree records

What a tree records of its commas and of the spelling of its literals comes from tokens. Of a token
it is known that trivia stands in front of it, unless it is the first of its source, in front of
which the name of an interpreter may stand. So where a comma is taken, some token has been taken
before. A text between tags goes on up to a sign that no text begins with, so that the token behind
it is no text.

## Main definitions

* `Verbatim.Token.Genuine` — what is known of a token.
* `Verbatim.prospects` — the contract.
* `Verbatim.Parse.Notes` — actions whose value is known, perhaps only where a token was taken
  before.
* `Verbatim.Productions.Record` — what is known of the productions that others call.

## Main results

* `Verbatim.prospects_holds` — the contract is true of parsers.
* `Verbatim.Parse.Notes.bind` — one action after the other.
-/

namespace Verbatim

open Grammar Parse

/-! ## Tokens -/

/-- What is known of a token: of its trivia if a token stands in front of it, and of the spelling of
a regular expression, of a name in a tag and of a text between tags. -/
structure Token.Genuine (t : Token) (begun : Bool) : Prop where
  /-- Trivia stands in front of a comma. -/
  comma : begun = true → t.isPunctuator "," = true → IsTrivia t.lead.toList [',']
  /-- A regular expression is spelled by its body and flags. -/
  regex : ∀ pattern flags, t.kind = .regex → t.value = .regex pattern flags →
    t.raw = "/" ++ pattern ++ "/" ++ flags
  /-- A name in a tag has none of the signs that join names. -/
  tagName : t.kind = .tagName → IsUnjoined t.raw
  /-- A text between tags has a spelling. -/
  markupText : t.kind = .markupText → t.raw ≠ ""

/-- If anything remains at a place, then the place is not the start of the source. -/
def Cursor.HasBegun (c : Cursor) : Prop := c.position.offset = 0 → c.rest = []

/-- What remains at a place does not go on with text between tags. -/
def Cursor.EndsText (c : Cursor) : Prop := ∀ d ∈ c.rest.head?, d = '\x7b' ∨ d = '<'

namespace Find.Next

variable {s : Scanner} {f : Find}

/-- The token of a reader that takes a run of characters is that run. -/
theorem raw_of_takeWhile {p : Char → Bool} {g : List Char → Read Lexeme}
    (hreads : (Read.takeWhile p >>= g) (f.raw ++ f.rest) = .ok f.lexeme f.rest)
    (hg : ∀ {run l v m}, g run l = .ok v m → m = l) :
    (∀ c ∈ f.raw, p c = true) ∧ ∀ c ∈ f.rest.head?, p c = false := by
  obtain ⟨run, l, hrun, hrest⟩ := Run.bind_eq_ok.1 hreads
  obtain ⟨rfl, rfl⟩ := EStateM.Result.ok.inj
    (show EStateM.Result.ok ((f.raw ++ f.rest).takeWhile p)
      ((f.raw ++ f.rest).dropWhile p) = _ from hrun)
  have hrest := hg hrest
  have hall := List.takeWhile_append_dropWhile (p := p) (l := f.raw ++ f.rest)
  rw [← hrest] at hall
  have hraw : f.raw = (f.raw ++ f.rest).takeWhile p := (List.append_cancel_right hall).symm
  refine ⟨fun c hc => ?_, fun c hc => ?_⟩
  · rw [hraw] at hc
    exact List.all_eq_true.1 List.all_takeWhile c hc
  · have hnot := List.head?_dropWhile_not p (f.raw ++ f.rest)
    rw [← hrest, Option.mem_def.1 hc] at hnot
    simpa using hnot

/-- A name in a tag has none of the signs that join names. -/
theorem isUnjoined (h : f.Next s) (hk : f.lexeme.kind = .tagName) :
    IsUnjoined (String.ofList f.raw) := by
  have hkind := h.kind
  have hreads := h.reads
  rw [hk] at hkind
  have hopening : f.opening s = .tagName := by
    cases ho : f.opening s <;> rw [ho] at hkind <;>
      first
      | rfl
      | simp [Opening.kinds] at hkind
  rw [hopening] at hreads
  intro c hc
  rw [String.toList_ofList] at hc
  have hpart := (raw_of_takeWhile hreads fun h => (Run.pure_eq_ok.1 h).2.symm).1 c hc
  constructor <;> rintro rfl <;> exact absurd hpart (by decide)

/-- A text between tags is found where one begins, and goes on to where none does. -/
theorem markupText (h : f.Next s) (hk : f.lexeme.kind = .markupText) :
    f.raw ≠ [] ∧ ¬ s.cursor.EndsText ∧ ∀ c ∈ f.rest.head?, c = '\x7b' ∨ c = '<' := by
  have hkind := h.kind
  have hreads := h.reads
  have hraw := h.raw_ne_nil (by rw [hk]; decide)
  rw [hk] at hkind
  have hopening : f.opening s = .markupText := by
    cases ho : f.opening s <;> rw [ho] at hkind <;>
      first
      | rfl
      | simp [Opening.kinds] at hkind
  rw [hopening] at hreads
  have hdecoded : ∀ {run l m : List Char} {v : Lexeme},
      (do return { kind := .markupText, value := .text (← Read.decoded run) } : Read Lexeme)
      l = .ok v m →
      m = l := by
    intro run l m v h
    obtain ⟨_, l', hdecoded, hpure⟩ := Run.bind_eq_ok.1 h
    obtain ⟨-, rfl⟩ := Run.pure_eq_ok.1 hpure
    unfold Read.decoded at hdecoded
    cases hentity : Entity.decode (String.ofList run) <;> rw [hentity] at hdecoded
    · exact absurd hdecoded Run.throw_ne_ok
    · exact (Run.pure_eq_ok.1 hdecoded).2.symm
  have hrun := raw_of_takeWhile hreads hdecoded
  refine ⟨hraw, fun hends => ?_, fun c hc => ?_⟩
  rotate_left
  · simpa [Decidable.or_iff_not_imp_left] using hrun.2 c hc
  have hlead : f.pieces = [] := by
    have htrivia := h.trivia
    rwa [if_pos (Opening.mode_of_markupText hopening)] at htrivia
  obtain ⟨c, l, hcons⟩ := List.exists_cons_of_ne_nil hraw
  have hrest : s.cursor.rest = c :: (l ++ f.rest) := by
    rw [h.chars, Find.lead, hlead, hcons]
    rfl
  have hc : c ≠ '\x7b' ∧ c ≠ '<' := by simpa using hrun.1 c (hcons ▸ List.mem_cons_self)
  rcases hends c (by rw [hrest]; rfl) with rfl | rfl
  · exact hc.1 rfl
  · exact hc.2 rfl

end Find.Next

section

variable {s s' : Scanner} {t : Token}

/-- What is scanned at a place is known if it is known whether the place is the start. -/
theorem Scan.next_genuine (begun : Bool) (h : Scan.next s = .ok t s')
    (hs : begun = true → s.cursor.HasBegun) :
    t.Genuine begun ∧ s'.cursor.HasBegun ∧ (t.kind = .markupText → s'.cursor.EndsText) := by
  have hkind := Scan.next_kind h
  obtain ⟨f, hf, rfl, rfl⟩ := Scan.next_eq_ok.1 h
  refine ⟨⟨fun hbegun hcomma => ?_, fun _ _ hregex => absurd hregex hkind, hf.isUnjoined,
    fun htext hnone => ?_⟩, fun hzero => ?_, fun htext => ?_⟩
  · have hraw : f.raw = [','] := Find.raw_of_isPunctuator hcomma
    have htrivia := hf.at.trivia
    unfold IsTriviaAt at htrivia
    split at htrivia
    · -- At the start nothing remains, and so no comma.
      have hrest := hf.chars
      rw [hs hbegun ‹_›, hraw] at hrest
      simp at hrest
    · rw [hraw] at htrivia
      change IsTrivia (String.ofList f.lead).toList [',']
      rw [String.toList_ofList]
      exact htrivia.before
  · refine (hf.markupText htext).1 ?_
    simpa using congrArg String.toList (show String.ofList f.raw = "" from hnone)
  · by_cases hk : f.lexeme.kind = .eof
    · exact (Find.back_spec hf.chars).1.trans (hf.eof hk).2
    · have hback := (Find.back_spec hf.chars).2
      have hraw := Text.byteLength_pos (hf.raw_ne_nil hk)
      have hoffset : (f.back s).position.offset = 0 := hzero
      omega
  · intro d hd
    rw [show (f.after s _).cursor.rest = f.rest from (Find.back_spec hf.chars).1] at hd
    exact (hf.markupText htext).2.2 d hd

/-- Where no text goes on, no text is scanned. -/
theorem Scan.next_not_text (h : Scan.next s = .ok t s') (hs : s.cursor.EndsText) :
    t.kind ≠ .markupText := by
  obtain ⟨f, hf, rfl, rfl⟩ := Scan.next_eq_ok.1 h
  exact fun htext => (hf.markupText htext).2.1 hs

/-- A scanned regular expression is genuine, and the source has begun behind it. -/
theorem Scan.nextRegex_genuine (begun : Bool) (h : Scan.nextRegex s = .ok t s') :
    t.Genuine begun ∧ s'.cursor.HasBegun := by
  have hkind := Scan.nextRegex_kind h
  obtain ⟨f, hf, rfl, rfl⟩ := Scan.nextRegex_eq_ok.1 h
  obtain ⟨body, flags, hspelled, hlexeme⟩ := Read.regex_spelled hf.reads
  have hraw : f.raw = '/' :: (body ++ '/' :: flags) := by
    refine List.append_cancel_right (hspelled.trans ?_)
    simp
  refine ⟨⟨fun _ hcomma => ?_, fun pattern flags' _ hvalue => ?_, fun hname => ?_, fun htext => ?_⟩,
    fun hzero => ?_⟩
  · simp [Token.isPunctuator, hkind] at hcomma
  · have hvalue : f.lexeme.value = .regex pattern flags' := hvalue
    rw [hlexeme] at hvalue
    obtain ⟨rfl, rfl⟩ := TokenValue.regex.inj hvalue
    change String.ofList f.raw = _
    rw [hraw, ← String.toList_inj]
    simp
  · cases hkind.symm.trans hname
  · cases hkind.symm.trans htext
  · have hback := (Find.back_spec hf.chars).2
    have hpos := Text.byteLength_pos hf.raw_ne_nil
    have hoffset : (f.back s).position.offset = 0 := hzero
    omega

end

/-! ## The contract -/

/-- What is known of a parser: its lookahead, and whether a token was taken. -/
structure Prospect where
  /-- The lookahead. -/
  token : Token
  /-- Whether a token was taken. -/
  begun : Bool
  /-- What is known of the lookahead. -/
  genuine : token.Genuine begun

/-- The lookahead is what is taken, and behind it a token was taken. Behind a text between tags
there is no other. -/
def prospects : Contract Prospect where
  allows request s post :=
    match request, post with
    | .look, post => post s.token s
    | .next, post => ∀ s' : Prospect, s'.begun = true →
      (s.token.kind = .markupText → s'.token.kind ≠ .markupText) → post s.token s'
    | .peek, post => ∀ u, post u s
    | .rescan, post | .rescanRegex, post => ∀ s' : Prospect, s'.begun = s.begun → post () s'
    | .lastEnd, post => ∀ p, post p s
    | .span .., post => ∀ span, post span s
    | .pending, post => ∀ o, post o s
    | .setMode _, post | .setPending _, post | .finish .., post | .tolerate .., post => post () s
    | .fail _, _ => True
  mono := by
    intro request s post post' h ha
    cases request with
    | look | setMode | setPending | finish | tolerate => exact h _ _ ha
    | next => exact fun s' hs' htext => h _ _ (ha s' hs' htext)
    | rescan | rescanRegex => exact fun s' hs' => h _ _ (ha s' hs')
    | peek | lastEnd | span | pending => exact fun v => h _ _ (ha v)
    | fail => trivial

/-- What is known is true of a parser. -/
structure Parser.Shows (s : Prospect) (q : Parser) : Prop where
  /-- The lookahead. -/
  lookahead : q.lookahead = s.token
  /-- If a token was taken, the lookahead is not at the start. -/
  front : s.begun = true → q.before.cursor.HasBegun
  /-- What is behind the lookahead is not at the start. -/
  behind : q.scanner.cursor.HasBegun
  /-- What is behind a text between tags does not go on with it. -/
  text : s.token.kind = .markupText → q.scanner.cursor.EndsText

/-- The contract is true of parsers. -/
theorem prospects_holds : prospects.Holds (fun s q => q.Shows s) fun _ _ => True := by
  intro request s q post hq ha
  cases request with
  | look =>
    refine ⟨s, hq, ?_⟩
    rw [hq.lookahead]
    exact ha
  | next =>
    change EndsIn _ _ post (Parser.next q)
    rcases Parser.next_cases q with ⟨u, sc, hs, hr⟩ | ⟨e, r, hr, -⟩
    · obtain ⟨hu, hsc, htext⟩ := Scan.next_genuine true hs fun _ => hq.behind
      rw [hr, hq.lookahead]
      exact ⟨⟨u, true, hu⟩, ⟨rfl, fun _ => hq.behind, hsc, htext⟩,
        ha _ rfl fun hk => Scan.next_not_text hs (hq.text hk)⟩
    · rw [hr]
      trivial
  | peek =>
    change EndsIn _ _ post (Parser.peek q)
    rcases Parser.peek_cases q with ⟨u, sc, hs, hr⟩ | ⟨e, r, hr, -⟩
    · rw [hr]
      exact ⟨s, ⟨hq.lookahead, hq.front, hq.behind, hq.text⟩, ha u⟩
    · rw [hr]
      trivial
  | rescan =>
    change EndsIn _ _ post (Parser.rescanWith Scan.next q)
    rcases Parser.rescanWith_cases Scan.next q with ⟨u, sc, hs, hr⟩ | ⟨e, r, hr, -⟩
    · obtain ⟨hu, hsc, htext⟩ := Scan.next_genuine s.begun hs hq.front
      rw [hr]
      exact ⟨⟨u, s.begun, hu⟩, ⟨rfl, hq.front, hsc, htext⟩, ha _ rfl⟩
    · rw [hr]
      trivial
  | rescanRegex =>
    change EndsIn _ _ post (Parser.rescanWith Scan.nextRegex q)
    rcases Parser.rescanWith_cases Scan.nextRegex q with ⟨u, sc, hs, hr⟩ | ⟨e, r, hr, -⟩
    · obtain ⟨hu, hsc⟩ := Scan.nextRegex_genuine s.begun hs
      have hregex := Scan.nextRegex_kind hs
      rw [hr]
      exact ⟨⟨u, s.begun, hu⟩, ⟨rfl, hq.front, hsc, fun htext => by cases hregex.symm.trans htext⟩,
        ha _ rfl⟩
    · rw [hr]
      trivial
  | lastEnd => exact ⟨s, hq, ha _⟩
  | span => exact ⟨s, hq, ha _⟩
  | pending => exact ⟨s, hq, ha _⟩
  | setMode | setPending | finish => exact ⟨s, ⟨hq.lookahead, hq.front, hq.behind, hq.text⟩, ha⟩
  | tolerate finder fault site =>
    change EndsIn _ _ post (Parser.tolerate _ _ q)
    unfold Parser.tolerate
    split
    · exact ⟨s, ⟨hq.lookahead, hq.front, hq.behind, hq.text⟩, ha⟩
    · trivial
  | fail e => trivial

/-! ## Actions whose value is known -/

/-- What follows a look at the lookahead meets the contract with what is known of the lookahead. -/
theorem Parse.Meets.look {α : Type} {s : Prospect} {f : Token → Parse α}
    {post : α → Prospect → Prop}
    (h : (f s.token).Meets prospects s post) : (Parse.look >>= f).Meets prospects s post := h

/-- The value of an action is such that `P`, and if a token was taken before, one was when it
ends. -/
def Parse.Keeps {α : Type} (action : Parse α) (P : α → Prop) : Prop :=
  ∀ s : Prospect, action.Meets prospects s fun v s' => (s.begun = true → s'.begun = true) ∧ P v

/-- The value of an action is such that `P`, and a token was taken when it ends. If `begun`, this is
known only of runs that begin behind a token. -/
def Parse.Notes {α : Type} (action : Parse α) (begun : Bool) (P : α → Prop) : Prop :=
  ∀ s : Prospect, (begun = true → s.begun = true) →
    action.Meets prospects s fun v s' => s'.begun = true ∧ P v

namespace Parse.Keeps

variable {α β : Type} {action : Parse α} {f : α → Parse β} {P : α → Prop} {Q : β → Prop}

/-- What is known wherever an action is run is known here, and no action goes back to the start. -/
theorem of_returns (h : action.Returns P) : action.Keeps P := by
  induction action with
  | done value => exact fun _ => ⟨id, h⟩
  | ask request =>
    intro s
    cases request with
    | look | setMode | setPending | finish | tolerate => exact ⟨id, h _⟩
    | next => exact fun s' hs' _ => ⟨fun _ => hs', h _⟩
    | peek | lastEnd | span | pending => exact fun v => ⟨id, h v⟩
    | rescan | rescanRegex => exact fun s' hs' => ⟨hs'.trans, h _⟩
    | fail => trivial
  | andThen first resume ih ih' =>
    have hfirst : first.Returns fun v => (resume v).Returns P := h
    exact fun s => (ih hfirst s).imp fun v s' hv => (ih' v hv.2 s').imp fun w s'' hw =>
      ⟨fun hs => hw.1 (hv.1 hs), hw.2⟩

theorem pure {value : α} (h : P value) : (Pure.pure value : Parse α).Keeps P := fun _ => ⟨id, h⟩

theorem of_notes (h : action.Notes false P) : action.Keeps P := fun s =>
  (h s nofun).imp fun _ _ hv => ⟨fun _ => hv.1, hv.2⟩

theorem bind (h : action.Keeps P) (hf : ∀ v, P v → (f v).Keeps Q) : (action >>= f).Keeps Q :=
  fun s => (h s).imp fun v s' hv => (hf v hv.2 s').imp fun _ _ hw =>
    ⟨fun hs => hw.1 (hv.1 hs), hw.2⟩

/-- Behind an action of whose value nothing is known. -/
theorem bindAny (hf : ∀ v, (f v).Keeps Q) : (action >>= f).Keeps Q :=
  (of_returns (.triv action)).bind fun v _ => hf v

theorem ite {c : Prop} [Decidable c] {yes no : Parse α} (hyes : c → yes.Keeps P)
    (hno : ¬ c → no.Keeps P) : (if c then yes else no).Keeps P := fun s =>
  Meets.ite (fun h => hyes h s) fun h => hno h s

theorem stalled : (stalled : Parse α).Keeps P := fun _ => trivial

/-- Items one after the other. -/
theorem many {ends : Token → Bool} {item : Parse α} {rounds : Nat} (hitem : item.Notes false P) :
    (many ends item rounds).Keeps fun vs => ∀ v ∈ vs, P v := by
  induction rounds with
  | zero => exact stalled
  | succ rounds ih =>
    unfold Parse.many
    refine bindAny fun _ => ite (fun _ => pure (List.forall_mem_nil _)) fun _ => ?_
    refine (of_notes hitem).bind fun v hv => ih.bind fun vs hvs => ?_
    exact pure (List.forall_mem_cons.2 ⟨hv, hvs⟩)

end Parse.Keeps

namespace Parse.Notes

variable {α β : Type} {action : Parse α} {f : α → Parse β} {begun : Bool} {P : α → Prop}
  {Q : β → Prop} {ctx : Context}

/-- What is known of all runs is known of those behind a token. -/
theorem behind (h : action.Notes false P) : action.Notes begun P := fun s _ => h s nofun

theorem of_keeps (h : action.Keeps P) : action.Notes true P := fun s hs =>
  (h s).imp fun _ _ hv => ⟨hv.1 (hs rfl), hv.2⟩

/-- What is known wherever an action is run is known behind a token. -/
theorem of_returns (h : action.Returns P) : action.Notes true P := of_keeps (.of_returns h)

/-- Nothing is known of any value. -/
theorem any : action.Notes true fun _ => True := of_returns (.triv action)

theorem pure {value : α} (h : P value) : (Pure.pure value : Parse α).Notes true P :=
  of_keeps (.pure h)

/-- One action after the other. -/
theorem bind (h : action.Notes begun P) (hf : ∀ v, P v → (f v).Notes true Q) :
    (action >>= f).Notes begun Q := fun s hs =>
  (h s hs).imp fun v s' hv => hf v hv.2 s' fun _ => hv.1

/-- Behind an action that may take no token. -/
theorem bindKeeps (h : action.Keeps P) (hf : ∀ v, P v → (f v).Notes begun Q) :
    (action >>= f).Notes begun Q := fun s hs =>
  (h s).imp fun v s' hv => hf v hv.2 s' fun hb => hv.1 (hs hb)

/-- Behind an action whose value is known wherever it is run. -/
theorem bindReturns (h : action.Returns P) (hf : ∀ v, P v → (f v).Notes begun Q) :
    (action >>= f).Notes begun Q := bindKeeps (.of_returns h) hf

/-- Behind an action of whose value nothing is known. -/
theorem bindAny (hf : ∀ v, (f v).Notes begun Q) : (action >>= f).Notes begun Q :=
  bindReturns (.triv action) fun v _ => hf v

/-- Behind a value by itself. -/
theorem bindPure {v : α} (h : (f v).Notes begun Q) : (Pure.pure v >>= f).Notes begun Q := h

theorem map {g : α → β} (h : action.Notes begun P) (hg : ∀ v, P v → Q (g v)) :
    (g <$> action).Notes begun Q := fun s hs =>
  (h s hs).imp fun v _ hv => ⟨hv.1, hg v hv.2⟩

theorem ite {c : Prop} [Decidable c] {yes no : Parse α} (hyes : c → yes.Notes begun P)
    (hno : ¬ c → no.Notes begun P) : (if c then yes else no).Notes begun P := fun s hs =>
  Meets.ite (fun h => hyes h s hs) fun h => hno h s hs

/-- An action that fails has no value, and neither has what follows it. -/
theorem of_fails (h : action.Returns fun _ => False) : (action >>= f).Notes begun Q :=
  bindReturns h fun _ hfalse => hfalse.elim

/-- Behind a check. -/
theorem check {c : Prop} [Decidable c] {action : Parse Unit} {f : Unit → Parse β}
    (hf : ∀ u, (f u).Notes begun Q) : (if c then action >>= f else f ()).Notes begun Q :=
  ite (fun _ => bindAny hf) fun _ => hf ()

/-- Behind a choice of whose value nothing is known. -/
theorem choose {c : Prop} [Decidable c] {yes no : Parse α} (hf : ∀ v, (f v).Notes begun Q) :
    (if c then yes >>= f else no >>= f).Notes begun Q :=
  ite (fun _ => bindAny hf) fun _ => bindAny hf

/-! ### Failures -/

theorem fail {stage : Stage} {fault : Fault} {site : Site} :
    (fail stage fault site : Parse α).Notes begun P := fun _ _ => trivial

theorem reject {fault : Fault} {site : Site} : (reject fault site : Parse α).Notes begun P := fail

theorem unexpected {t : Token} : (unexpected ctx t : Parse α).Notes begun P := fail

theorem unexpectedHere : (unexpectedHere ctx : Parse α).Notes begun P := fun _ _ => trivial

theorem stalled : (stalled : Parse α).Notes begun P := fun _ _ => trivial

/-! ### Tokens -/

/-- A token that is taken is known. -/
theorem next : Parse.next.Notes false fun t => ∃ begun, t.Genuine begun := fun s _ _ hs' _ =>
  ⟨hs', s.begun, s.genuine⟩

/-- Behind a token that is taken. -/
theorem nextThen {f : Token → Parse β} (hf : ∀ t, (f t).Notes true Q) :
    (Parse.next >>= f).Notes begun Q := next.behind.bind fun t _ => hf t

theorem lead : Parse.lead.Notes false fun _ => True := fun _ _ _ hs' _ => ⟨hs', trivial⟩

/-- Behind a token of which the trivia is kept. -/
theorem leadThen {f : String → Parse β} (hf : ∀ text, (f text).Notes true Q) :
    (Parse.lead >>= f).Notes begun Q := lead.behind.bind fun text _ => hf text

theorem expect {spelling : String} : (expect ctx spelling).Notes false fun _ => True :=
  bindAny fun _ => ite (fun _ => lead) fun _ => unexpectedHere

/-- Behind a punctuator. -/
theorem expectThen {spelling : String} {f : String → Parse β} (hf : ∀ text, (f text).Notes true Q) :
    (Parse.expect ctx spelling >>= f).Notes begun Q := expect.behind.bind fun text _ => hf text

/-- Behind a reserved word. -/
theorem expectKeywordThen {word : String} {f : String → Parse β}
    (hf : ∀ text, (f text).Notes true Q) :
    (Parse.expectKeyword ctx word >>= f).Notes begun Q := by
  have hword : (expectKeyword ctx word).Notes false fun _ => True :=
    bindAny fun _ => ite (fun _ => lead) fun _ => unexpectedHere
  exact hword.behind.bind fun text _ => hf text

/-- Behind a token, what is taken as a comma is one. -/
theorem separator : (separator ctx).Notes true IsComma := by
  intro s hs
  change Meets prospects (if s.token.isPunctuator "," = true then Parse.lead
    else Parse.unexpectedHere ctx) s fun text s' => s'.begun = true ∧ IsComma (text ++ ",")
  refine Meets.ite (fun hcomma s' hs' _ => ⟨hs', s.token.lead, rfl, ?_⟩) fun _ => trivial
  exact s.genuine.comma (hs rfl) hcomma

/-- Items one after the other, behind a token. -/
theorem many {ends : Token → Bool} {item : Parse α} {rounds : Nat} (hitem : item.Notes true P) :
    (many ends item rounds).Notes true fun vs => ∀ v ∈ vs, P v := by
  induction rounds with
  | zero => exact stalled
  | succ rounds ih =>
    unfold Parse.many
    refine bindAny fun _ => ite (fun _ => pure (List.forall_mem_nil _)) fun _ => ?_
    exact hitem.bind fun v hv => ih.bind fun vs hvs => pure (List.forall_mem_cons.2 ⟨hv, hvs⟩)

/-- Repeating a step on a value. -/
theorem iterate {step : α → Parse (Option α)} {rounds : Nat} {v : α}
    (hstep : ∀ v, P v → (step v).Notes true fun w => ∀ v ∈ w, P v) (hv : P v) :
    (iterate step rounds v).Notes true P := by
  induction rounds generalizing v with
  | zero => exact stalled
  | succ rounds ih =>
    unfold Parse.iterate
    refine (hstep v hv).bind fun w hw => ?_
    cases w with
    | none => exact pure hv
    | some w => exact ih (hw w rfl)

end Parse.Notes

/-! ## Lists with commas -/

/-- What is known of one round of reading a list with commas. -/
def Parse.Round.Noted {α : Type} (P : α → Prop) (isHole : α → Bool) : Round α → Prop
  | .item v | .last v => P v ∧ isHole v = false
  | .hole v comma => P v ∧ IsComma comma

/-- What is known of the items and commas of a list. -/
structure Listed {α : Type} (P : α → Prop) (isHole : α → Bool)
    (r : List α × List String) : Prop where
  /-- The items are such that `P`. -/
  items : ∀ v ∈ r.1, P v
  /-- Each comma is one. -/
  commas : ∀ comma ∈ r.2, IsComma comma
  /-- There is a comma between two items. -/
  between : r.1.length ≤ r.2.length + 1
  /-- There is at most one behind an item. -/
  behind : r.2.length ≤ r.1.length
  /-- There is one behind a hole. -/
  hole : r.1.getLast?.any isHole = true → r.2.length = r.1.length

namespace Listed

variable {α : Type} {P : α → Prop} {isHole : α → Bool} {r : List α × List String} {v : α}

theorem nil : Listed P isHole ([], []) :=
  ⟨List.forall_mem_nil _, List.forall_mem_nil _, Nat.zero_le _, Nat.le_refl _, nofun⟩

theorem single (hv : P v) (hhole : isHole v = false) : Listed P isHole ([v], []) := by
  refine ⟨List.forall_mem_singleton.2 hv, List.forall_mem_nil _, Nat.le_refl _, Nat.zero_le _, ?_⟩
  intro h
  cases hhole.symm.trans h

theorem cons (h : Listed P isHole r) (hv : P v) {comma : String} (hcomma : IsComma comma) :
    Listed P isHole (v :: r.1, comma :: r.2) := by
  refine ⟨List.forall_mem_cons.2 ⟨hv, h.items⟩, List.forall_mem_cons.2 ⟨hcomma, h.commas⟩,
    Nat.succ_le_succ h.between, Nat.succ_le_succ h.behind, fun hhole => congrArg (· + 1) ?_⟩
  obtain ⟨values, commas⟩ := r
  cases values with
  | nil => exact Nat.le_antisymm h.behind (Nat.zero_le _)
  | cons next rest =>
    rw [List.getLast?_cons_cons] at hhole
    exact h.hole hhole

/-- The commas of a list match its items. -/
theorem matched (h : Listed P isHole r) {l : CommaList} (hcount : l.count = r.1.length)
    (hcommas : l.commas = r.2) (hbare : l.isBare = false)
    (hhole : l.endsInHole = true → r.1.getLast?.any isHole = true) : l.Matched := by
  refine ⟨hcommas ▸ h.commas, ?_, ?_, fun h' => ?_, fun h' => ?_⟩
  · rw [hcount, hcommas]
    exact h.between
  · rw [hcount, hcommas]
    exact h.behind
  · cases hbare.symm.trans h'
  · rw [hcount, hcommas]
    exact h.hole (hhole h')

end Listed

namespace Parse.Notes

variable {α : Type} {P : α → Prop} {isHole : α → Bool} {ctx : Context} {rounds : Nat}

/-- A list notes what each of its rounds notes, and a comma for each item but the last at least. -/
theorem listed {close : String} {round : Parse (Round α)}
    (hround : round.Notes true (Round.Noted P isHole)) :
    (listed ctx close round rounds).Notes true (Listed P isHole) := by
  induction rounds with
  | zero => exact stalled
  | succ rounds ih =>
    unfold Parse.listed
    refine bindAny fun _ => ite (fun _ => pure .nil) fun _ => hround.bind fun r hr => ?_
    cases r with
    | last v => exact pure (.single hr.1 hr.2)
    | hole v comma => exact ih.bind fun rest hrest => pure (hrest.cons hr.1 hr.2)
    | item v =>
      refine bindAny fun _ => ite (fun _ => pure (.single hr.1 hr.2)) fun _ => ?_
      exact separator.bind fun comma hcomma => ih.bind fun rest hrest =>
        pure (hrest.cons hr.1 hcomma)

/-- Behind each comma stands an item. -/
theorem afterCommas {item : Parse α} (hitem : item.Notes true P) :
    (afterCommas ctx item rounds).Notes true fun r =>
      (∀ v ∈ r.1, P v) ∧ (∀ comma ∈ r.2, IsComma comma) ∧ r.2.length = r.1.length := by
  induction rounds with
  | zero => exact stalled
  | succ rounds ih =>
    unfold Parse.afterCommas
    refine bindAny fun _ => ite (fun _ => ?_) fun _ => ?_
    · exact pure ⟨List.forall_mem_nil _, List.forall_mem_nil _, rfl⟩
    · refine separator.bind fun comma hcomma => hitem.bind fun v hv => ih.bind fun r hr => pure ?_
      exact ⟨List.forall_mem_cons.2 ⟨hv, hr.1⟩, List.forall_mem_cons.2 ⟨hcomma, hr.2.1⟩,
        congrArg (· + 1) hr.2.2⟩

end Parse.Notes

namespace Tree

variable {c : Category}

/-- Only what is optional may be absent. -/
theorem isAbsent_eq_false (t : Tree c) (h : ∀ d, c ≠ .maybe d) : t.isAbsent = false := by
  cases t
  case absent => exact absurd rfl (h _)
  all_goals rfl

/-- The items of a list end in a hole if the last of them is absent. -/
theorem endsInHole_ofList (items : List (Tree c)) :
    (Tree.ofList items).endsInHole = items.getLast?.any isAbsent := by
  rw [endsInHole, Tree.toList_ofList, List.getLast?_map]
  cases items.getLast? with
  | none => rfl
  | some t => cases h : t.isAbsent <;> simp [h]

/-- Items that are no holes do not end in one. -/
theorem endsInHole_eq_false (items : Tree (.many c)) (h : ∀ d, c ≠ .maybe d) :
    items.endsInHole = false := by
  rw [endsInHole, List.getLast?_map]
  cases items.toList.getLast? with
  | none => rfl
  | some t => simp [t.isAbsent_eq_false h]

end Tree

/-- The commas of a list of trees match its items. -/
theorem Listed.commaList {c : Category} {P : Tree c → Prop} {r : List (Tree c) × List String}
    (h : Listed P Tree.isAbsent r) : ((Tree.ofList r.1).commaList r.2).Matched := by
  refine h.matched ?_ rfl rfl fun hhole => ?_
  · rw [Tree.commaList, Tree.toList_ofList]
  · rwa [Tree.commaList, Tree.endsInHole_ofList] at hhole

theorem Listed.targetList {c : Category} {P : Tree c → Prop} {r : List (Tree c) × List String}
    (h : Listed P Tree.isAbsent r) : ((Tree.ofList r.1).targetList r.2).Matched :=
  have hm := h.commaList
  ⟨hm.commas, hm.between, hm.behind, hm.bare, hm.hole⟩

/-- A comma behind each item but the last matches items without holes. -/
theorem CommaList.Matched.of_bare {l : CommaList} (hcount : l.count = l.commas.length + 1)
    (hcommas : ∀ comma ∈ l.commas, IsComma comma) (hhole : l.endsInHole = false) : l.Matched :=
  ⟨hcommas, Nat.le_of_eq hcount, hcount ▸ Nat.le_succ _, fun _ => hcount ▸ Nat.lt_succ_self _,
    fun h => nomatch hhole.symm.trans h⟩

/-! ## The productions that others call -/

/-- Markup that obeys the rules. -/
def Markup.Faithful : Markup → Prop
  | .element e => Tree.Faithful e
  | .fragment f => Tree.Faithful f

/-- What is known of the productions that others call. -/
structure Productions.Record (p : Productions) : Prop where
  expression : ∀ ctx, (p.expression ctx).Notes false Tree.Faithful
  assignment : ∀ ctx, (p.assignment ctx).Notes false Tree.Faithful
  cover : ∀ ctx, (p.cover ctx).Notes false Tree.Faithful
  binary : ∀ least ctx, (p.binary least ctx).Notes false Tree.Faithful
  exponentiation : ∀ ctx, (p.exponentiation ctx).Notes false Tree.Faithful
  unary : ∀ ctx, (p.unary ctx).Notes false Tree.Faithful
  chain : ∀ ctx, (p.chain ctx).Notes false Tree.Faithful
  callee : ∀ ctx, (p.callee ctx).Notes false Tree.Faithful
  binding : ∀ fault ctx, (p.binding fault ctx).Notes false Tree.Faithful
  statement : ∀ ctx, (p.statement ctx).Notes false Tree.Faithful
  item : ∀ ctx, (p.item ctx).Notes false Tree.Faithful
  markup : ∀ start lead after ctx, (p.markup start lead after ctx).Notes true Markup.Faithful

end Verbatim
