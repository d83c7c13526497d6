import Verbatim.Proofs.Progress.Faults

/-!
# Every call and every round takes a token

A production calls others, and begins a further round of a loop, only behind a token that it has
taken. So the depth of the calls and the number of rounds are bounded by the number of characters
that remain, and productions of any two depths beyond it do the same.

What is said about an action and its companion of another depth has one bound on the characters that
remain in front of the lookahead. Whether a token was taken since the bound was set is all that has
to be known besides: it makes the bound a strict one, which is what a call needs.

## Main definitions

* `Verbatim.Parser.Within` — a parser with a bound on the characters that remain.
* `Verbatim.Parse.Concur` — actions that do the same and do not run out of rounds.
* `Verbatim.Parse.Advances`, `Verbatim.Parse.Continues` — actions and steps that take tokens.
* `Verbatim.Productions.Ready` — productions that concur as long as few characters remain.

## Main results

* `Verbatim.Parse.Concur.bind`, `Verbatim.Parse.Concur.next`, … — a rule for each step.
* `Verbatim.Parse.Concur.many`, `Verbatim.Parse.Concur.listed`, `Verbatim.Parse.Concur.afterCommas`,
  `Verbatim.Parse.Concur.iterate` — loops whose rounds take tokens.
-/

namespace Verbatim

/-! ## Scanning at the same place -/

namespace Scan

variable {s s' s₀ s₁ : Scanner} {t u : Token}

/-- Scanning never goes back. -/
theorem next_forward (h : next s = .ok t s₀) :
    s₀.cursor.rest.length ≤ s.cursor.rest.length := by
  obtain ⟨f, hf, -, rfl⟩ := next_eq_ok.1 h
  change (f.back s).rest.length ≤ _
  rw [(Find.back_spec hf.chars).1, hf.chars, List.length_append]
  exact Nat.le_add_left ..

/-- No trivia begins with an angle bracket unless the comments of web pages count. -/
theorem lead_of_angle {atStart : Bool} {l rest : List Char} {pieces : List Trivium}
    (h : Lead false atStart ('<' :: l) pieces rest) : rest = '<' :: l := by
  have hread : Trivia.read false atStart ('<' :: l) = ⟨[], '<' :: l, true⟩ := by
    cases atStart <;> rfl
  have hl := (Lead.of_read.2 h).symm.trans hread
  exact congrArg (·.rest) hl

/-- Where an angle bracket was scanned in any mode, a tag begins with one. -/
theorem next_tag_of_found (h : next s = .ok t s₀) (ht : t.isPunctuator "<" = true)
    (hc : s'.cursor = s.cursor) (hb : s'.braces = s.braces) (hi : s'.isModule = s.isModule)
    (hm : s'.mode = .tag) (h' : next s' = .ok u s₁) : u.isPunctuator "<" = true := by
  have hsame : s'.quiet = ({ s with mode := .tag } : Scanner).quiet := by
    cases s
    cases s'
    simp_all [Scanner.quiet]
  have hnext := next_quiet_ok h'
  rw [hsame] at hnext
  obtain ⟨r, hr, -⟩ := next_of_quiet hnext
  cases hmode : s.mode with
  | normal => exact next_tag_of_angle hmode h ht hr
  | tag =>
    rw [← hmode, h] at hr
    cases hr
    exact ht
  | text =>
    obtain ⟨f, hf, rfl, -⟩ := next_eq_ok.1 h
    obtain ⟨g, hg, rfl, -⟩ := next_eq_ok.1 hr
    have hpieces := hf.trivia
    rw [if_pos hmode] at hpieces
    have hchars : s.cursor.rest = '<' :: f.rest := by
      rw [hf.chars, Find.lead, hpieces, Find.raw_of_isPunctuator ht]
      rfl
    have htrivia := hg.trivia
    rw [if_neg (by simp)] at htrivia
    have hhtml : ({ s with mode := .tag } : Scanner).allowsHtml = false := by
      simp [Scanner.allowsHtml]
    rw [hhtml, show ({ s with mode := .tag } : Scanner).cursor = s.cursor from rfl,
      hchars] at htrivia
    exact isPunctuator_of_tag_angle hg rfl (lead_of_angle htrivia)

end Scan

/-! ## Parsers -/

namespace Parser

/-- The lookahead was scanned at the place in front of it. -/
def Found (q : Parser) : Prop :=
  ∃ s s₀, (Scan.next s = .ok q.lookahead s₀ ∨ Scan.nextRegex s = .ok q.lookahead s₀) ∧
    s.cursor = q.before.cursor ∧ s.braces = q.before.braces ∧ s.isModule = q.scanner.isModule ∧
    s₀.cursor = q.scanner.cursor

/-- The lookahead is `t`, and at most `n` characters remain in front of it, and fewer if a token was
taken since there were `n`. -/
structure Within (n : Nat) (taken : Bool) (t : Token) (q : Parser) : Prop where
  /-- The lookahead was scanned where it stands. -/
  found : q.Found
  /-- The lookahead. -/
  lookahead : q.lookahead = t
  /-- The bound. -/
  bounded : q.left ≤ n
  /-- The bound behind a token. -/
  fewer : taken = true → q.left < n

section

variable {q : Parser} {s : Scanner} {u : Token}

/-- Scanning the lookahead did not go back. -/
theorem Found.forward (h : q.Found) : q.scanner.cursor.rest.length ≤ q.left := by
  obtain ⟨s, s₀, hs, hc, -, -, hc'⟩ := h
  rw [left, ← hc, ← hc']
  exact hs.elim Scan.next_forward fun h => Nat.le_of_lt (Scan.nextRegex_shorter h)

/-- Unless it is the end of the source, the lookahead is spelled by something. -/
theorem Found.shorter (h : q.Found) (ht : q.lookahead.isEof = false) :
    q.scanner.cursor.rest.length < q.left := by
  obtain ⟨s, s₀, hs, hc, -, -, hc'⟩ := h
  rw [left, ← hc, ← hc']
  exact hs.elim (Scan.next_shorter · ht) Scan.nextRegex_shorter

/-- The parser behind the lookahead has found what was scanned there. -/
theorem found_advance (h : Scan.next q.scanner = .ok u s) :
    ({ q with scanner := s }.advance q.scanner.save u).Found :=
  ⟨q.scanner, s, .inl h, rfl, rfl, (Scan.next_isModule h).symm, rfl⟩

/-- A parser at the start of a source has found its first token. -/
theorem found_start {source : String} {isModule tolerant : Bool} {records : Records}
    (h : start source isModule tolerant records = .ok q) : q.Found := by
  unfold start at h
  dsimp only at h
  split at h
  · rename_i u s hs
    cases h
    exact ⟨_, s, .inl hs, rfl, rfl, (Scan.next_isModule hs).symm, rfl⟩
  · cases h

end

end Parser

/-! ## The judgement -/

namespace Parse

/-- What is known of the end of a run: it is not out of rounds, and `post` holds if it is well. -/
def EndsWithin {α : Type} (n : Nat) (post : α → Bool → Token → Prop) :
    EStateM.Result SyntaxError Parser α → Prop
  | .ok v r => ∃ taken u, r.Within n taken u ∧ post v taken u
  | .error e _ => e.fault ≠ .stalled

/-- From any parser that has the lookahead `t` and at most `n` characters in front of it, the two
actions do the same. They do not run out of rounds, and `post` holds of what they end with. -/
def Concur {α : Type} (n : Nat) (taken : Bool) (t : Token) (a a' : Parse α)
    (post : α → Bool → Token → Prop) : Prop :=
  ∀ q : Parser, q.Within n taken t → a'.run q = a.run q ∧ EndsWithin n post (a.run q)

namespace Concur

/-- A token was taken. -/
def Took {α : Type} (_ : α) (taken : Bool) (_ : Token) : Prop := taken = true

/-- The lookahead stayed, and nothing was taken. -/
abbrev Idle (taken : Bool) (t : Token) {α : Type} (_ : α) (taken' : Bool) (u : Token) : Prop :=
  taken' = taken ∧ u = t

end Concur

/-- The postcondition that a token was taken if there is a new value. -/
def Concur.Moved {α : Type} (new : Option α) (taken : Bool) (_ : Token) : Prop :=
  new.isSome = true → taken = true

/-- As long as fewer than `n` characters remain, the two actions concur, and take a token. -/
def Advances {α : Type} (n : Nat) (a a' : Parse α) : Prop :=
  ∀ m < n, ∀ t, Concur m false t a a' Concur.Took

/-- As long as fewer than `n` characters remain, the two steps concur, and take a token unless they
are the last. -/
def Continues {α : Type} (n : Nat) (step step' : α → Parse (Option α)) : Prop :=
  ∀ m < n, ∀ value t, Concur m false t (step value) (step' value) Concur.Moved

namespace Concur

variable {α β : Type} {n : Nat} {b : Bool} {t : Token} {post : β → Bool → Token → Prop}

/-! ### Values and sequences -/

theorem pure {v : β} (h : post v b t) : Concur n b t (Pure.pure v) (Pure.pure v) post :=
  fun _ hq => ⟨rfl, b, t, hq, h⟩

theorem imp {a a' : Parse β} {post' : β → Bool → Token → Prop} (h : Concur n b t a a' post)
    (hp : ∀ v b u, post v b u → post' v b u) : Concur n b t a a' post' := by
  intro q hq
  obtain ⟨heq, hend⟩ := h q hq
  refine ⟨heq, ?_⟩
  cases hrun : a.run q with
  | ok v r =>
    rw [hrun] at hend
    obtain ⟨b', u, hr, hv⟩ := hend
    exact ⟨b', u, hr, hp _ _ _ hv⟩
  | error e r =>
    rw [hrun] at hend
    exact hend

/-- One action after the other. -/
theorem bind {a a' : Parse α} {f f' : α → Parse β} {M : α → Bool → Token → Prop}
    (h : Concur n b t a a' M) (hf : ∀ v b u, M v b u → Concur n b u (f v) (f' v) post) :
    Concur n b t (a >>= f) (a' >>= f') post := by
  intro q hq
  obtain ⟨heq, hend⟩ := h q hq
  rw [run_bind, run_bind, heq]
  cases hrun : a.run q with
  | ok v r =>
    rw [hrun] at hend
    obtain ⟨b', u, hr, hv⟩ := hend
    exact hf v b' u hv r hr
  | error e r =>
    rw [hrun] at hend
    exact ⟨rfl, hend⟩

/-- Behind a value, the sequence goes on with the value. -/
theorem pureThen {v : α} {f f' : α → Parse β} (h : Concur n b t (f v) (f' v) post) :
    Concur n b t (Pure.pure v >>= f) (Pure.pure v >>= f') post := h

/-- An action that takes a token, and another one after it. -/
theorem call {a a' : Parse α} {f f' : α → Parse β} (h : Concur n b t a a' Took)
    (hf : ∀ v u, Concur n true u (f v) (f' v) post) : Concur n b t (a >>= f) (a' >>= f') post :=
  bind h fun v b' u hb => by
    cases (show b' = true from hb)
    exact hf v u

/-- An action that takes nothing, and another one after it. -/
theorem aside {a a' : Parse α} {f f' : α → Parse β} (h : Concur n b t a a' (Idle b t))
    (hf : ∀ v, Concur n b t (f v) (f' v) post) : Concur n b t (a >>= f) (a' >>= f') post :=
  bind h fun v b' u => by
    rintro ⟨rfl, rfl⟩
    exact hf v

/-- An action behind which nothing is left to do. -/
theorem last {a a' : Parse β} (h : Concur n b t (a >>= Pure.pure) (a' >>= Pure.pure) post) :
    Concur n b t a a' post := by
  have hrun : ∀ (x : Parse β) q, (x >>= Pure.pure).run q = x.run q := fun x q => by
    rw [run_bind]
    cases x.run q <;> rfl
  intro q hq
  rw [← hrun a, ← hrun a']
  exact h q hq

theorem map {a a' : Parse α} {f : α → β} (h : Concur n b t a a' Took) :
    Concur n b t (f <$> a) (f <$> a') Took :=
  call h fun _ _ => pure rfl

/-- Where something else is known of a parser, the actions may be seen as starting with less. -/
theorem weaken {a a' : Parse β} (h : Concur n false t a a' post) : Concur n b t a a' post :=
  fun q hq => h q ⟨hq.found, hq.lookahead, hq.bounded, nofun⟩

/-- Behind a token, a smaller bound holds. -/
theorem below {a a' : Parse β} {post : β → Token → Prop}
    (h : ∀ m < n, Concur m false t a a' fun v _ u => post v u) :
    Concur n true t a a' fun v b u => b = true ∧ post v u := by
  intro q hq
  obtain ⟨heq, hend⟩ := h q.left (hq.fewer rfl) q ⟨hq.found, hq.lookahead, Nat.le_refl _, nofun⟩
  refine ⟨heq, ?_⟩
  cases hrun : a.run q with
  | ok v r =>
    rw [hrun] at hend
    obtain ⟨b', u, hr, hv⟩ := hend
    have hlt := Nat.lt_of_le_of_lt hr.bounded (hq.fewer rfl)
    exact ⟨true, u, ⟨hr.found, hr.lookahead, Nat.le_of_lt hlt, fun _ => hlt⟩, rfl, hv⟩
  | error e r =>
    rw [hrun] at hend
    exact hend

/-- An action that may begin with any bound below may begin behind a token. -/
theorem behind {a a' : Parse β} (h : ∀ m < n, Concur m false t a a' fun _ _ _ => True) :
    Concur n true t a a' Took :=
  (below h).imp fun _ _ _ h => h.1

/-! ### Branches -/

theorem branch {c : Prop} [Decidable c] {yes yes' no no' : Parse β}
    (hyes : c → Concur n b t yes yes' post) (hno : ¬ c → Concur n b t no no' post) :
    Concur n b t (if c then yes else no) (if c then yes' else no') post := by
  split
  · exact hyes ‹_›
  · exact hno ‹_›

/-! ### Failures -/

theorem fail {stage : Stage} {fault : Fault} {site : Site} (h : fault ≠ .stalled) :
    Concur n b t (Parse.fail stage fault site) (Parse.fail stage fault site) post :=
  fun _ _ => ⟨rfl, h⟩

theorem reject {fault : Fault} {site : Site} (h : fault ≠ .stalled) :
    Concur n b t (Parse.reject fault site) (Parse.reject fault site) post := fail h

theorem misplaced_ne_stalled (u : Token) (strict : Bool) : u.misplaced strict ≠ .stalled := by
  unfold Token.misplaced
  cases u.kind
  case identifier =>
    dsimp only
    split <;> nofun
  all_goals nofun

theorem unexpected {ctx : Context} {u : Token} :
    Concur n b t (Parse.unexpected ctx u) (Parse.unexpected ctx u) post :=
  reject (misplaced_ne_stalled u _)

/-- A failure, with the rest of the sequence behind it. -/
theorem failThen {stage : Stage} {fault : Fault} {site : Site} {f f' : α → Parse β}
    (h : fault ≠ .stalled) :
    Concur n b t (Parse.fail stage fault site >>= f) (Parse.fail stage fault site >>= f') post :=
  fun _ _ => ⟨rfl, h⟩

theorem rejectThen {fault : Fault} {site : Site} {f f' : α → Parse β}
    (h : fault ≠ .stalled) :
    Concur n b t (Parse.reject fault site >>= f) (Parse.reject fault site >>= f') post :=
  failThen h

theorem unexpectedThen {ctx : Context} {u : Token} {f f' : α → Parse β} :
    Concur n b t (Parse.unexpected ctx u >>= f) (Parse.unexpected ctx u >>= f') post :=
  rejectThen (misplaced_ne_stalled u _)

theorem unexpectedHere {ctx : Context} :
    Concur n b t (Parse.unexpectedHere ctx) (Parse.unexpectedHere ctx) post :=
  fun q _ => ⟨rfl, misplaced_ne_stalled q.lookahead _⟩

theorem unexpectedHereThen {ctx : Context} {f f' : α → Parse β} :
    Concur n b t (Parse.unexpectedHere ctx >>= f) (Parse.unexpectedHere ctx >>= f') post :=
  fun q _ => ⟨rfl, misplaced_ne_stalled q.lookahead _⟩

/-! ### Requests that take nothing -/

theorem label_ne_stalled {e : SyntaxError} {label : Option String} (h : e.fault ≠ .stalled) :
    (e.label label).fault ≠ .stalled := by
  rwa [e.fault_label]

theorem look {f f' : Token → Parse β} (h : Concur n b t (f t) (f' t) post) :
    Concur n b t (Parse.look >>= f) (Parse.look >>= f') post := by
  rintro q hq
  cases hq.lookahead
  exact h q hq

theorem here {f f' : Position → Parse β} (h : Concur n b t (f t.start) (f' t.start) post) :
    Concur n b t (Parse.here >>= f) (Parse.here >>= f') post := by
  rintro q hq
  cases hq.lookahead
  exact h q hq

theorem sees {f f' : Bool → Parse β} {spelling : String}
    (h : Concur n b t (f (t.isPunctuator spelling)) (f' (t.isPunctuator spelling)) post) :
    Concur n b t (Parse.sees spelling >>= f) (Parse.sees spelling >>= f') post := by
  rintro q hq
  cases hq.lookahead
  exact h q hq

theorem seesKeyword {f f' : Bool → Parse β} {word : String}
    (h : Concur n b t (f (t.isKeyword word)) (f' (t.isKeyword word)) post) :
    Concur n b t (Parse.seesKeyword word >>= f) (Parse.seesKeyword word >>= f') post := by
  rintro q hq
  cases hq.lookahead
  exact h q hq

theorem seesWord {f f' : Bool → Parse β} {word : String}
    (h : Concur n b t (f (t.isWord word)) (f' (t.isWord word)) post) :
    Concur n b t (Parse.seesWord word >>= f) (Parse.seesWord word >>= f') post := by
  rintro q hq
  cases hq.lookahead
  exact h q hq

/-- An action that always ends well and changes nothing about the tokens. -/
theorem still {a : Parse α} {f f' : α → Parse β}
    (ha : ∀ q, ∃ v r, a.run q = .ok v r ∧ r.scanner = q.scanner ∧ r.before = q.before ∧
      r.lookahead = q.lookahead)
    (h : ∀ v, Concur n b t (f v) (f' v) post) : Concur n b t (a >>= f) (a >>= f') post := by
  refine aside (fun q hq => ?_) h
  obtain ⟨v, r, hr, hs, hb, hl⟩ := ha q
  rw [hr]
  refine ⟨rfl, b, t, ⟨?_, hl.trans hq.lookahead, ?_, ?_⟩, rfl, rfl⟩
  · simpa [Parser.Found, hs, hb, hl] using hq.found
  · simpa [Parser.left, hb] using hq.bounded
  · simpa [Parser.left, hb] using hq.fewer

theorem lastEnd {f f' : Position → Parse β} (h : ∀ p, Concur n b t (f p) (f' p) post) :
    Concur n b t (Parse.lastEnd >>= f) (Parse.lastEnd >>= f') post :=
  still (fun _ => ⟨_, _, rfl, rfl, rfl, rfl⟩) h

theorem pending {f f' : Option Site → Parse β} (h : ∀ o, Concur n b t (f o) (f' o) post) :
    Concur n b t (Parse.pending >>= f) (Parse.pending >>= f') post :=
  still (fun _ => ⟨_, _, rfl, rfl, rfl, rfl⟩) h

theorem setPending {o : Option Site} {f f' : Unit → Parse β}
    (h : Concur n b t (f ()) (f' ()) post) :
    Concur n b t (Parse.setPending o >>= f) (Parse.setPending o >>= f') post :=
  still (fun _ => ⟨_, _, rfl, rfl, rfl, rfl⟩) fun _ => h

theorem finishAt {kind : NodeKind} {start stop : Position} {f f' : Span → Parse β}
    (h : ∀ span, Concur n b t (f span) (f' span) post) :
    Concur n b t (Parse.finishAt kind start stop >>= f)
      (Parse.finishAt kind start stop >>= f') post :=
  still (fun _ => ⟨_, _, rfl, rfl, rfl, rfl⟩) h

theorem finish {kind : NodeKind} {start : Position} {f f' : Span → Parse β}
    (h : ∀ span, Concur n b t (f span) (f' span) post) :
    Concur n b t (Parse.finish kind start >>= f) (Parse.finish kind start >>= f') post :=
  still (fun _ => ⟨_, _, rfl, rfl, rfl, rfl⟩) h

theorem extent {start : Position} {f f' : Span → Parse β}
    (h : ∀ span, Concur n b t (f span) (f' span) post) :
    Concur n b t (Parse.extent start >>= f) (Parse.extent start >>= f') post :=
  still (fun _ => ⟨_, _, rfl, rfl, rfl, rfl⟩) h

theorem finishName {u : Token} {f f' : Ident → Parse β}
    (h : ∀ id, Concur n b t (f id) (f' id) post) :
    Concur n b t (Parse.finishName u >>= f) (Parse.finishName u >>= f') post :=
  still (fun _ => ⟨_, _, rfl, rfl, rfl, rfl⟩) h

theorem setMode {mode : Mode} {f f' : Unit → Parse β} (h : Concur n b t (f ()) (f' ()) post) :
    Concur n b t (Parse.setMode mode >>= f) (Parse.setMode mode >>= f') post := by
  refine aside (fun q hq => ⟨rfl, b, t, ?_, rfl, rfl⟩) fun _ => h
  obtain ⟨s, s₀, hs, hc, hb, hi, hc'⟩ := hq.found
  exact ⟨⟨s, s₀, hs, hc, hb, hi, hc'⟩, hq.lookahead, hq.bounded, hq.fewer⟩

/-- A fault that may be survived. -/
theorem tolerate {finder : Finder} {fault : Fault} {site : Site} {f f' : Unit → Parse β}
    (hf : fault ≠ .stalled) (h : Concur n b t (f ()) (f' ()) post) :
    Concur n b t (.ask (.tolerate finder fault site) >>= f)
      (.ask (.tolerate finder fault site) >>= f') post := by
  refine aside (fun q hq => ⟨rfl, ?_⟩) fun _ => h
  change EndsWithin n _ (Parser.tolerate _ _ q)
  unfold Parser.tolerate
  cases q.report.tolerate ((Finder.recorded fault site).label q.report.source) with
  | ok report =>
    obtain ⟨s, s₀, hs, hc, hb, hi, hc'⟩ := hq.found
    exact ⟨b, t, ⟨⟨s, s₀, hs, hc, hb, hi, hc'⟩, hq.lookahead, hq.bounded, hq.fewer⟩, rfl, rfl⟩
  | error e =>
    cases finder with
    | grammar => exact hf
    | parameters => nofun

theorem peek {f f' : Token → Parse β} (h : ∀ u, Concur n b t (f u) (f' u) post) :
    Concur n b t (Parse.peek >>= f) (Parse.peek >>= f') post := by
  refine aside (fun q hq => ⟨rfl, ?_⟩) h
  change EndsWithin n _ (Parser.peek q)
  unfold Parser.peek
  cases hs : Scan.next q.scanner with
  | ok u s =>
    obtain ⟨s₁, s₀, hs₁, hc, hb, hi, hc'⟩ := hq.found
    exact ⟨b, t, ⟨⟨s₁, s₀, hs₁, hc, hb, hi.trans (Scan.next_isModule hs).symm, hc'⟩,
      hq.lookahead, hq.bounded, hq.fewer⟩, rfl, rfl⟩
  | error e s => exact label_ne_stalled (Scan.Spares.next.error hs)

/-! ### Requests that take the lookahead or replace it -/

/-- Taking the lookahead. -/
theorem taking {f f' : Token → Parse β} (h : ∀ b' u, (b = true ∨ t.isEof = false → b' = true) →
    Concur n b' u (f t) (f' t) post) :
    Concur n b t (Parse.next >>= f) (Parse.next >>= f') post := by
  refine bind (M := fun v b' _ => v = t ∧ (b = true ∨ t.isEof = false → b' = true))
    (fun q hq => ⟨rfl, ?_⟩) ?_
  · change EndsWithin n _ (Parser.next q)
    cases hs : Scan.next q.scanner with
    | ok u s =>
      have hnext : Parser.next q = .ok q.lookahead
          ({ q with scanner := s }.advance q.scanner.save u) := by
        change EStateM.bind _ _ q = _
        simp only [EStateM.bind, Parser.scan, hs]
        rfl
      rw [hnext]
      have hle := Nat.le_trans hq.found.forward hq.bounded
      refine ⟨b || !t.isEof, u, ⟨Parser.found_advance hs, rfl, hle, fun hb => ?_⟩, hq.lookahead, ?_⟩
      · rcases Bool.or_eq_true_iff.1 hb with hb | hb
        · exact Nat.lt_of_le_of_lt hq.found.forward (hq.fewer hb)
        · refine Nat.lt_of_lt_of_le (hq.found.shorter ?_) hq.bounded
          rw [hq.lookahead]
          simpa using hb
      · rintro (hb | hb) <;> simp [hb]
    | error e s =>
      have hnext : Parser.next q = .error (e.label q.report.source) { q with scanner := s } := by
        change EStateM.bind _ _ q = _
        simp only [EStateM.bind, Parser.scan, hs]
      rw [hnext]
      exact label_ne_stalled (Scan.Spares.next.error hs)
  · rintro v b' u ⟨rfl, hb⟩
    exact h b' u hb

/-- Taking the lookahead, where it is not the end of the source. -/
theorem next {f f' : Token → Parse β} (ht : t.isEof = false)
    (h : ∀ u, Concur n true u (f t) (f' t) post) :
    Concur n b t (Parse.next >>= f) (Parse.next >>= f') post :=
  taking fun b' u hb => by
    cases hb (.inr ht)
    exact h u

theorem lead {f f' : String → Parse β} (ht : t.isEof = false)
    (h : ∀ u, Concur n true u (f t.lead) (f' t.lead) post) :
    Concur n b t (Parse.lead >>= f) (Parse.lead >>= f') post :=
  bind (M := fun v b' _ => v = t.lead ∧ b' = true) (next ht fun _ => pure ⟨rfl, rfl⟩)
    fun v b' u => by
    rintro ⟨rfl, rfl⟩
    exact h u

/-- Scanning the lookahead again as a regular expression. -/
theorem rescanRegex {f f' : Unit → Parse β}
    (h : ∀ u, u.isEof = false → Concur n b u (f ()) (f' ()) post) :
    Concur n b t (Parse.rescanRegex >>= f) (Parse.rescanRegex >>= f') post := by
  refine bind (M := fun _ b' u => b' = b ∧ u.isEof = false) (fun q hq => ⟨rfl, ?_⟩) ?_
  · change EndsWithin n _ (Parser.rescanWith Scan.nextRegex q)
    rw [Tracks.rescanWith_eq]
    cases hs : Scan.nextRegex (q.scanner.restore q.before) with
    | ok u s =>
      have hk := Scan.nextRegex_kind hs
      exact ⟨b, u, ⟨⟨_, _, .inr hs, rfl, rfl, (Scan.nextRegex_isModule hs).symm, rfl⟩, rfl,
        hq.bounded, hq.fewer⟩, rfl, by simp [Token.isEof, hk]⟩
    | error e s => exact label_ne_stalled (Scan.Spares.nextRegex.error hs)
  · rintro v _ u ⟨rfl, hu⟩
    exact h u hu

/-- Scanning an angle bracket again as the beginning of a tag. -/
theorem rescanTag {f f' : Unit → Parse β} (ht : t.isPunctuator "<" = true)
    (h : ∀ u, u.isPunctuator "<" = true → Concur n b u (f ()) (f' ()) post) :
    Concur n b t (Parse.setMode .tag >>= fun _ => Parse.rescan >>= f)
      (Parse.setMode .tag >>= fun _ => Parse.rescan >>= f') post := by
  intro q hq
  let q' : Parser := { q with scanner := { q.scanner with mode := .tag } }
  change (Parse.rescan >>= f').run q' = (Parse.rescan >>= f).run q' ∧
    EndsWithin n post ((Parse.rescan >>= f).run q')
  have hrun : Parse.rescan.run q' = Parser.rescanWith Scan.next q' := rfl
  rw [run_bind, run_bind, hrun, Tracks.rescanWith_eq]
  cases hs : Scan.next (q'.scanner.restore q'.before) with
  | ok u s =>
    obtain ⟨s₁, s₀, hfound, hc, hb, hi, -⟩ := hq.found
    rw [hq.lookahead] at hfound
    have hu : u.isPunctuator "<" = true := by
      rcases hfound with hfound | hfound
      · refine Scan.next_tag_of_found hfound ht ?_ ?_ ?_ ?_ hs
        · exact hc.symm
        · exact hb.symm
        · exact hi.symm
        · rfl
      · have hk := Scan.nextRegex_kind hfound
        simp [Token.isPunctuator, hk] at ht
    exact h u hu _ ⟨⟨_, _, .inl hs, rfl, rfl, (Scan.next_isModule hs).symm, rfl⟩, rfl, hq.bounded,
      hq.fewer⟩
  | error e s => exact ⟨rfl, label_ne_stalled (Scan.Spares.next.error hs)⟩

/-! ### Steps that take the lookahead -/

end Concur

end Parse

namespace Token

variable {t : Token} {spelling : String}

/-- The end of the source is no token of any other kind. -/
theorem isEof_of_kind (h : t.kind ≠ .eof) : t.isEof = false := decide_eq_false h

theorem isEof_of_isPunctuator (h : t.isPunctuator spelling = true) : t.isEof = false := by
  simp_all [isPunctuator, isEof]

theorem isEof_of_isKeyword (h : t.isKeyword spelling = true) : t.isEof = false := by
  simp_all [isKeyword, isEof]

theorem isEof_of_isWord (h : t.isWord spelling = true) : t.isEof = false := by
  simp_all [isWord, isEof]

theorem isEof_of_isName (h : t.isName = true) : t.isEof = false := by
  simp_all [isName, isEof]

theorem isEof_of_isAnyName (h : t.isAnyName = true) : t.isEof = false := by
  refine isEof_of_kind fun hk => ?_
  simp [isAnyName, hk] at h

theorem isEof_of_isString (h : t.isString = true) : t.isEof = false := by
  simp_all [isString, isEof]

end Token

namespace Parse

namespace Concur

variable {α β : Type} {n : Nat} {b : Bool} {t : Token} {post : β → Bool → Token → Prop}

theorem expect {ctx : Context} {spelling : String} {f f' : String → Parse β}
    (h : ∀ lead u, Concur n true u (f lead) (f' lead) post) :
    Concur n b t (Parse.expect ctx spelling >>= f) (Parse.expect ctx spelling >>= f') post :=
  call (sees
    (branch (fun hs => last (lead (Token.isEof_of_isPunctuator hs) fun _ => pure rfl)) fun _ =>
    unexpectedHere)) h

theorem expectKeyword {ctx : Context} {word : String} {f f' : String → Parse β}
    (h : ∀ lead u, Concur n true u (f lead) (f' lead) post) :
    Concur n b t (Parse.expectKeyword ctx word >>= f) (Parse.expectKeyword ctx word >>= f') post :=
  call (seesKeyword (branch (fun hs => last (lead (Token.isEof_of_isKeyword hs) fun _ => pure rfl))
    fun _ => unexpectedHere)) h

theorem expectWord {ctx : Context} {word : String} {f f' : String → Parse β}
    (h : ∀ lead u, Concur n true u (f lead) (f' lead) post) :
    Concur n b t (Parse.expectWord ctx word >>= f) (Parse.expectWord ctx word >>= f') post :=
  call (seesWord
    (branch (fun hs => last (lead (Token.isEof_of_isWord hs) fun _ => pure rfl)) fun _ =>
    unexpectedHere)) h

theorem separator {ctx : Context} {f f' : String → Parse β}
    (h : ∀ comma u, Concur n true u (f comma) (f' comma) post) :
    Concur n b t (Parse.separator ctx >>= f) (Parse.separator ctx >>= f') post :=
  call (expect fun _ _ => pure rfl) h

/-- A punctuator may be taken or not. -/
theorem accept {spelling : String} {f f' : Option String → Parse β}
    (hyes : ∀ lead u, Concur n true u (f (some lead)) (f' (some lead)) post)
    (hno : Concur n b t (f none) (f' none) post) :
    Concur n b t (Parse.accept spelling >>= f) (Parse.accept spelling >>= f') post := by
  refine bind (M := fun o b' u => (o.isSome = true ∧ b' = true) ∨ (o = none ∧ b' = b ∧ u = t)) ?_ ?_
  · exact sees
      (branch (fun hs => lead (Token.isEof_of_isPunctuator hs) fun _ => pure (.inl ⟨rfl, rfl⟩))
      fun _ => pure (.inr ⟨rfl, rfl, rfl⟩))
  · rintro o b' u (⟨ho, rfl⟩ | ⟨rfl, rfl, rfl⟩)
    · obtain ⟨lead, rfl⟩ := Option.isSome_iff_exists.1 ho
      exact hyes lead u
    · exact hno

/-- Behind a token it makes no difference whether a punctuator is taken. -/
theorem acceptAny {spelling : String} {f f' : Option String → Parse β}
    (h : ∀ o u, Concur n true u (f o) (f' o) post) :
    Concur n true t (Parse.accept spelling >>= f) (Parse.accept spelling >>= f') post :=
  accept (fun _ u => h _ u) (h _ t)

theorem anyName {f f' : Ident → Parse β} (ht : t.isEof = false)
    (h : ∀ id u, Concur n true u (f id) (f' id) post) :
    Concur n b t (Parse.anyName >>= f) (Parse.anyName >>= f') post :=
  call (next ht fun _ => last (finishName fun _ => pure rfl)) h

/-- The end of a statement, behind the statement. -/
theorem terminator {ctx : Context} {f f' : Terminator → Parse β}
    (h : ∀ ending u, Concur n true u (f ending) (f' ending) post) :
    Concur n true t (Parse.terminator ctx >>= f) (Parse.terminator ctx >>= f') post := by
  refine call
    (look (branch (fun hs => ?_) fun _ => branch (fun _ => pure rfl) fun _ => unexpected)) h
  exact lead (Token.isEof_of_isPunctuator hs) fun _ => pure rfl

/-! ### Loops -/

variable {a a' : Parse α} {rounds rounds' : Nat}

theorem many {ends : Token → Bool} (h : Advances n a a')
    (hr : n ≤ rounds) (hr' : n ≤ rounds') :
    Concur n true t (Parse.many ends a rounds) (Parse.many ends a' rounds') Took := by
  refine behind fun m hm => ?_
  induction rounds generalizing n m t rounds' with
  | zero => omega
  | succ rounds ih =>
    obtain ⟨rounds', rfl⟩ : ∃ k, rounds' = k + 1 := ⟨rounds' - 1, by omega⟩
    refine look (branch (fun _ => pure trivial) fun _ => call (h m hm t) fun v u => ?_)
    refine bind (behind fun k hk => ih (n := m) (fun k hk => h k (by omega)) ?_ ?_ k hk)
      fun _ _ _ _ =>
      pure trivial
    all_goals omega

/-- A list needs no more rounds than there are characters, because each round takes a token. -/
theorem listed {ctx : Context} {close : String} {a a' : Parse (Round α)}
    (h : Advances n a a') (hr : n ≤ rounds) (hr' : n ≤ rounds') :
    Concur n true t (Parse.listed ctx close a rounds) (Parse.listed ctx close a' rounds') Took := by
  refine behind fun m hm => ?_
  induction rounds generalizing n m t rounds' with
  | zero => omega
  | succ rounds ih =>
    obtain ⟨rounds', rfl⟩ : ∃ k, rounds' = k + 1 := ⟨rounds' - 1, by omega⟩
    have hrest : ∀ u, Concur m true u (Parse.listed ctx close a rounds)
        (Parse.listed ctx close a' rounds') Took := fun u =>
      behind fun k hk => ih (n := m) (fun k hk => h k (by omega)) (by omega) (by omega) k hk
    refine sees (branch (fun _ => pure trivial) fun _ => call (h m hm t) fun round u => ?_)
    cases round with
    | item value =>
      exact sees (branch (fun _ => pure trivial) fun _ => separator fun _ u =>
        call (hrest u) fun _ _ =>
        pure trivial)
    | hole value comma => exact call (hrest u) fun _ _ => pure trivial
    | last value => exact pure trivial

theorem afterCommas {ctx : Context} (h : Advances n a a')
    (hr : n ≤ rounds) (hr' : n ≤ rounds') :
    Concur n true t (Parse.afterCommas ctx a rounds) (Parse.afterCommas ctx a' rounds') Took := by
  refine behind fun m hm => ?_
  induction rounds generalizing n m t rounds' with
  | zero => omega
  | succ rounds ih =>
    obtain ⟨rounds', rfl⟩ : ∃ k, rounds' = k + 1 := ⟨rounds' - 1, by omega⟩
    refine sees (branch (fun _ => pure trivial) fun _ => separator fun _ u => ?_)
    refine call (behind fun k hk => (h k (by omega) u).imp fun _ _ _ _ => trivial) fun _ u => ?_
    refine call (behind fun k hk => ih (n := m) (fun k hk => h k (by omega)) ?_ ?_ k hk) fun _ _ =>
      pure trivial
    all_goals omega

/-- An iteration needs no more rounds than there are characters, because each step takes a token. -/
theorem iterate {step step' : α → Parse (Option α)} {v : α}
    (h : Continues n step step')
    (hr : n ≤ rounds) (hr' : n ≤ rounds') :
    Concur n true t (Parse.iterate step rounds v) (Parse.iterate step' rounds' v) Took := by
  refine behind fun m hm => ?_
  induction rounds generalizing n m t rounds' v with
  | zero => omega
  | succ rounds ih =>
    obtain ⟨rounds', rfl⟩ : ∃ k, rounds' = k + 1 := ⟨rounds' - 1, by omega⟩
    refine bind (h m hm v t) fun o b u hb => ?_
    cases o with
    | none => exact pure trivial
    | some w =>
      cases hb rfl
      refine (behind fun k hk => ih (n := m) (fun k hk => h k (by omega)) ?_ ?_ k hk).imp
        fun _ _ _ _ =>
        trivial
      all_goals omega

end Concur

end Parse

/-! ## Productions -/

/-- Two families of productions concur as long as fewer than `n` characters remain, and each of them
takes a token. -/
structure Productions.Ready (n : Nat) (p p' : Productions) : Prop where
  /-- There are enough rounds. -/
  rounds : n < p.rounds ∧ n < p'.rounds
  expression (ctx : Context) : (p.expression ctx).Advances n (p'.expression ctx)
  assignment (ctx : Context) : (p.assignment ctx).Advances n (p'.assignment ctx)
  cover (ctx : Context) : (p.cover ctx).Advances n (p'.cover ctx)
  binary (least : Nat) (ctx : Context) : (p.binary least ctx).Advances n (p'.binary least ctx)
  exponentiation (ctx : Context) : (p.exponentiation ctx).Advances n (p'.exponentiation ctx)
  unary (ctx : Context) : (p.unary ctx).Advances n (p'.unary ctx)
  chain (ctx : Context) : (p.chain ctx).Advances n (p'.chain ctx)
  callee (ctx : Context) : (p.callee ctx).Advances n (p'.callee ctx)
  binding {restricted : Fault} (h : restricted ≠ .stalled) (ctx : Context) :
    (p.binding restricted ctx).Advances n (p'.binding restricted ctx)
  statement (ctx : Context) : (p.statement ctx).Advances n (p'.statement ctx)
  item (ctx : Context) : (p.item ctx).Advances n (p'.item ctx)
  markup (start : Position) (lead : String) (after : Mode) (ctx : Context) :
    (p.markup start lead after ctx).Advances n (p'.markup start lead after ctx)

namespace Parse.Advances

variable {α β : Type} {n : Nat} {t : Token} {a a' : Parse α}

theorem mono {m : Nat} (h : a.Advances n a') (hm : m ≤ n) : a.Advances m a' :=
  fun k hk => h k (Nat.lt_of_lt_of_le hk hm)

theorem map (h : a.Advances n a') {f : α → β} : (f <$> a).Advances n (f <$> a') := fun m hm t =>
  (h m hm t).map

/-- Behind a token, the actions may be called. -/
theorem concur (h : a.Advances n a') : Concur n true t a a' Concur.Took :=
  Concur.behind fun m hm => (h m hm t).imp fun _ _ _ _ => trivial

/-- The actions are called behind a token, with another one after them. -/
theorem thenDo {f f' : α → Parse β} {post : β → Bool → Token → Prop} (h : a.Advances n a')
    (hf : ∀ v u, Concur n true u (f v) (f' v) post) :
    Concur n true t (a >>= f) (a' >>= f') post :=
  .call h.concur hf

end Parse.Advances

namespace Productions.Ready

variable {n m : Nat} {p p' : Productions}

theorem mono (h : Ready n p p') (hm : m ≤ n) : Ready m p p' where
  rounds := ⟨Nat.lt_of_le_of_lt hm h.rounds.1, Nat.lt_of_le_of_lt hm h.rounds.2⟩
  expression ctx := (h.expression ctx).mono hm
  assignment ctx := (h.assignment ctx).mono hm
  cover ctx := (h.cover ctx).mono hm
  binary least ctx := (h.binary least ctx).mono hm
  exponentiation ctx := (h.exponentiation ctx).mono hm
  unary ctx := (h.unary ctx).mono hm
  chain ctx := (h.chain ctx).mono hm
  callee ctx := (h.callee ctx).mono hm
  binding hf ctx := (h.binding hf ctx).mono hm
  statement ctx := (h.statement ctx).mono hm
  item ctx := (h.item ctx).mono hm
  markup start lead after ctx := (h.markup start lead after ctx).mono hm

/-- With fewer characters remaining, the productions are ready, too. -/
theorem below (h : Ready n p p') (hm : m < n) : Ready m p p' := h.mono (Nat.le_of_lt hm)

/-! ### Loops with the rounds of the productions -/

section

open Parse.Concur

variable {α : Type} {t : Token} {a a' : Parse α} (hp : Ready n p p')
include hp

theorem many {ends : Token → Bool} (h : a.Advances n a') :
    (Parse.Concur n true t (Parse.many ends a p.rounds) (Parse.many ends a' p'.rounds)) Took :=
  Parse.Concur.many h (Nat.le_of_lt hp.rounds.1) (Nat.le_of_lt hp.rounds.2)

theorem listed {ctx : Context} {close : String} {a a' : Parse (Parse.Round α)}
    (h : a.Advances n a') :
    (Parse.Concur n true t (Parse.listed ctx close a p.rounds)
      (Parse.listed ctx close a' p'.rounds)) Took :=
  Parse.Concur.listed h (Nat.le_of_lt hp.rounds.1) (Nat.le_of_lt hp.rounds.2)

theorem afterCommas {ctx : Context} (h : a.Advances n a') :
    (Parse.Concur n true t (Parse.afterCommas ctx a p.rounds)
      (Parse.afterCommas ctx a' p'.rounds)) Took :=
  Parse.Concur.afterCommas h (Nat.le_of_lt hp.rounds.1) (Nat.le_of_lt hp.rounds.2)

theorem iterate {step step' : α → Parse (Option α)} {v : α}
    (h : Parse.Continues n step step') :
    (Parse.Concur n true t (Parse.iterate step p.rounds v)
      (Parse.iterate step' p'.rounds v)) Took :=
  Parse.Concur.iterate h (Nat.le_of_lt hp.rounds.1) (Nat.le_of_lt hp.rounds.2)

end

end Productions.Ready

end Verbatim
