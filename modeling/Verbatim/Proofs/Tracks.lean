import Verbatim.Proofs.Alike
import Verbatim.Proofs.Walk

/-!
# Tracking what a production reads

The judgement of this file says two things of a parsing action at once. First, whenever the action
ends well it has walked over tokens whose trace satisfies a given property, which for a production
is that they spell the text of the tree that it built. Second, a companion action, run where alike
tokens come, ends well too, with an alike result.

## Main definitions

* `Verbatim.Lockstep` — two places behind which alike tokens come.
* `Verbatim.Tracks` — the judgement.

## Main results

* `Verbatim.Tracks.bind`, `Verbatim.Tracks.look`, … — a rule for each way to build an action.
-/

namespace Verbatim

/-! ## The parts that pieces play in templates -/

/-- Where the templates among finished nodes start. -/
def templateStarts (nodes : List NodeRecord) : List Nat :=
  nodes.filterMap fun n => if n.kind = .template then n.span.range.map (·.1) else none

/-- Where the pieces start that are the first of their template. -/
def openings (taken : List Taken) : List Nat :=
  taken.filterMap fun x =>
    if x.token.kind = .template && !x.isLater then some x.token.start.offset else none

/-- Whether a token is a template piece at which none of the nodes' templates starts. -/
def isLaterIn (nodes : List NodeRecord) (t : Token) : Bool :=
  t.kind = .template && !(templateStarts nodes).contains t.start.offset

/-- Tokens with the parts that they play in the templates among the given nodes. -/
def roles (nodes : List NodeRecord) (tokens : List (Token × Mode)) : List Taken :=
  tokens.map fun (t, after) => ⟨t, after, isLaterIn nodes t⟩

/-- The nodes finished on the way from one parser to another mark the first pieces among the tokens
taken on the way, and those at the places that are still `owed`. -/
def Marked (owed : List Nat) (q : Parser) (taken : List Taken) (r : Parser) : Prop :=
  ∃ new, r.nodes.toList = q.nodes.toList ++ new ∧
    ∀ o, o ∈ templateStarts new ↔ o ∈ owed ∨ o ∈ openings taken

@[simp]
theorem roles_nil (nodes : List NodeRecord) : roles nodes [] = [] := rfl

@[simp]
theorem roles_cons (nodes : List NodeRecord) (t : Token) (after : Mode)
    (tokens : List (Token × Mode)) :
    roles nodes ((t, after) :: tokens) =
      ⟨t, after, isLaterIn nodes t⟩ :: roles nodes tokens := rfl

@[simp]
theorem roles_append (nodes : List NodeRecord) (l l' : List (Token × Mode)) :
    roles nodes (l ++ l') = roles nodes l ++ roles nodes l' := List.map_append

theorem templateStarts_append (l l' : List NodeRecord) :
    templateStarts (l ++ l') = templateStarts l ++ templateStarts l' := List.filterMap_append

theorem openings_append (l l' : List Taken) :
    openings (l ++ l') = openings l ++ openings l' := List.filterMap_append

namespace Marked

variable {owed : List Nat} {q r u : Parser} {l l' : List Taken}

/-- Nothing happens while no nodes are finished. -/
theorem nil (h : r.nodes = q.nodes) : Marked [] q [] r :=
  ⟨[], by rw [h, List.append_nil], by simp [templateStarts, openings]⟩

theorem subset (h : Marked owed q l r) : q.nodes.toList ⊆ r.nodes.toList := by
  obtain ⟨new, hr, -⟩ := h
  rw [hr]
  exact List.subset_append_left _ _

theorem append (h : Marked [] q l r) (h' : Marked owed r l' u) : Marked owed q (l ++ l') u := by
  obtain ⟨new, hr, hn⟩ := h
  obtain ⟨new', hu, hn'⟩ := h'
  refine ⟨new ++ new', by rw [hu, hr, List.append_assoc], fun o => ?_⟩
  rw [templateStarts_append, openings_append, List.mem_append, List.mem_append, hn, hn']
  simp only [List.not_mem_nil, false_or]
  exact or_left_comm

/-- A node of another kind marks nothing. -/
theorem of_push {r₁ : Parser} {kind : NodeKind} {span : Span} (hk : kind ≠ .template)
    (hq : r₁.nodes = q.nodes.push ⟨kind, span⟩) (h : Marked owed r₁ l r) : Marked owed q l r := by
  obtain ⟨new, hr, hn⟩ := h
  refine ⟨⟨kind, span⟩ :: new, by rw [hr, hq]; simp, fun o => ?_⟩
  rw [← hn]
  simp [templateStarts, hk]

/-- A template node marks the place where it starts. -/
theorem of_push_template {r₁ : Parser} {start stop : Position}
    (hq : r₁.nodes = q.nodes.push ⟨.template, .between start stop⟩) (h : Marked owed r₁ l r) :
    Marked (start.offset :: owed) q l r := by
  obtain ⟨new, hr, hn⟩ := h
  refine ⟨⟨.template, .between start stop⟩ :: new, by rw [hr, hq]; simp, fun o => ?_⟩
  rw [List.mem_cons, or_assoc, ← hn]
  simp [templateStarts, Span.between]

end Marked

/-! ## What single tokens spell -/

/-- The first piece of a template is a template piece. -/
theorem Token.kind_of_isTemplateHead {t : Token} (h : t.isTemplateHead = true) :
    t.kind = .template := by
  unfold Token.isTemplateHead at h
  split at h
  · assumption
  · exact absurd h (by decide)

/-- A token is no template piece, and has the given trace. -/
structure Token.Spells (t : Token) (tr : Trace) : Prop where
  /-- It is not the end of the source. -/
  notEof : t.isEof = false
  /-- It is no template piece. -/
  notTemplate : t.kind ≠ .template
  /-- It has the trace. -/
  trace : ∀ after, Trace.single ⟨t, after, false⟩ = tr

namespace Token.Spells

variable {t : Token} {spelling : String}

theorem openings {tr : Trace} (h : t.Spells tr) (after : Mode) :
    openings [⟨t, after, false⟩] = [] := by
  simp [Verbatim.openings, h.notTemplate]

theorem punctuator (h : t.isPunctuator spelling = true) : t.Spells (.mark t.lead spelling) := by
  obtain ⟨hk, hr⟩ : t.kind = .punctuator ∧ t.raw = spelling := by
    simpa [Token.isPunctuator] using h
  refine ⟨by simp [isEof, hk], by simp [hk], fun after => ?_⟩
  subst hr
  exact Trace.ext (by simp [Trace.single, Taken.print, Taken.spelling, hk])
    (fun braces => by simp [Trace.single, Trace.mark, Taken.nest, hk]) rfl

/-- A token whose kind has neither braces nor a spelling of its own spells itself. -/
theorem plain (h : t.kind ≠ .eof ∧ t.kind ≠ .template ∧ t.kind ≠ .privateName ∧
    t.kind ≠ .punctuator) : t.Spells (.word t.lead t.raw) := by
  obtain ⟨he, ht, hp, hq⟩ := h
  refine ⟨by simp [isEof, he], ht, fun after => ?_⟩
  refine Trace.ext ?_ (fun braces => ?_) rfl
  · simp only [Trace.single, Trace.word, Taken.print, Taken.spelling]
  · simp only [Trace.single, Trace.word, Taken.nest]

theorem keyword (h : t.isKeyword spelling = true) : t.Spells (.word t.lead spelling) := by
  obtain ⟨hk, rfl⟩ : t.kind = .keyword ∧ t.raw = spelling := by
    simpa [Token.isKeyword] using h
  exact plain (by simp [hk])

theorem word (h : t.isWord spelling = true) : t.Spells (.word t.lead spelling) := by
  obtain ⟨⟨hk, -⟩, rfl⟩ : (t.kind = .identifier ∧ t.escaped = false) ∧ t.raw = spelling := by
    simpa [Token.isWord] using h
  exact plain (by simp [hk])

theorem anyName (h : t.isAnyName = true) : t.Spells (.word t.lead t.raw) :=
  plain (by cases hk : t.kind <;> simp_all [Token.isAnyName])

theorem privateName (h : t.kind = .privateName) : t.Spells (.word t.lead ("#" ++ t.text)) := by
  refine ⟨by simp [isEof, h], by simp [h], fun after => ?_⟩
  refine Trace.ext ?_ (fun braces => ?_) rfl
  · simp [Trace.single, Trace.word, Taken.print, Taken.spelling, h]
  · simp [Trace.single, Trace.word, Taken.nest, h]

end Token.Spells

/-! ## Places behind which alike tokens come -/

section

variable [Exchange]

/-- The tokens that come next at two places are alike. -/
structure Looks (s s' : Scanner) : Prop where
  /-- The modes are the same. -/
  mode : s'.mode = s.mode
  /-- The second place has an alike token if the first has one, and no first piece of a template
  where the first place has none. -/
  alike : ∀ {t : Token} {s₁ : Scanner}, Scan.next s = .ok t s₁ →
    ∃ t' s₁', Scan.next s' = .ok t' s₁' ∧ Alike t t' ∧
      (t.isTemplateHead = false → t'.isTemplateHead = false)

/-- The given tokens and then the end of the source come behind the first place, and alike tokens
behind the second. A first piece of a template begins as such in both. -/
def Lockstep : Scanner → List Taken → Scanner → Prop
  | s, [], s' => Looks s s' ∧ ∃ t s₁, Scan.next s = .ok t s₁ ∧ t.isEof = true
  | s, x :: rest, s' => Looks s s' ∧
    ∃ s₁ t' s₁', Step s x.token x.after s₁ ∧ Step s' t' x.after s₁' ∧ Alike x.token t' ∧
      (x.isLater = false → t'.isTemplateHead = x.token.isTemplateHead) ∧ Lockstep s₁ rest s₁'

namespace Lockstep

variable {s s' s₀ : Scanner} {t : Token} {after : Mode} {isLater : Bool} {rest : List Taken}

theorem looks : {l : List Taken} → Lockstep s l s' → Looks s s'
  | [], h => h.1
  | _ :: _, h => h.1

omit [Exchange] in
/-- A mode that may follow a token in its own right is not that of markup behind a bracket. -/
theorem not_shift_markup (hm : s.mode = .normal) (ht : t.isPunctuator "<" = true) :
    ¬ Shift s.mode t .tag := by
  rw [hm]
  rintro ⟨⟩
  simp_all [Token.isPunctuator]

/-- If a token is taken in its own right at the first place, so is the alike one at the second. -/
theorem plain (h : Lockstep s (⟨t, after, isLater⟩ :: rest) s') (hs : Scan.next s = .ok t s₀)
    (hm : Shift s.mode t after) :
    ∃ t' s₀', Scan.next s' = .ok t' s₀' ∧ t'.isEof = false ∧ Alike t t' ∧
      (isLater = false → t'.isTemplateHead = t.isTemplateHead) ∧
      Lockstep { s₀ with mode := after } rest { s₀' with mode := after } := by
  obtain ⟨hl, s₁, t', s₁', hstep, hstep', ha, hh, hrest⟩ := h
  dsimp only at hstep hstep' ha hh
  have h₁ : s₁ = { s₀ with mode := after } := by
    cases hstep with
    | plain scanned => rw [hs] at scanned; cases scanned; rfl
    | regex _ _ _ scanned => exact absurd (Scan.nextRegex_kind scanned) (Scan.next_kind hs)
    | markup mode seen isAngle =>
      rw [hs] at seen
      cases seen
      exact absurd hm (not_shift_markup mode isAngle)
  subst h₁
  cases hstep' with
  | plain scanned notEof => exact ⟨t', _, scanned, notEof, ha, hh, hrest⟩
  | regex _ _ _ scanned =>
    exact absurd (ha.kind ▸ Scan.nextRegex_kind scanned) (Scan.next_kind hs)
  | markup mode seen isAngle =>
    obtain ⟨t₁, s₂, hs₂, ha₂, -⟩ := hl.alike hs
    rw [hs₂] at seen
    cases seen
    rw [ha₂.isPunctuator] at isAngle
    exact absurd hm (not_shift_markup (hl.mode ▸ mode) isAngle)

/-- The tokens behind words that come next are alike, since the mode does not change behind a
word. -/
theorem behindWord {s₀' s₁ : Scanner} {t' u : Token} (h : Lockstep s rest s')
    (hw : t.kind = .identifier ∨ t.kind = .keyword) (hs : Scan.next s = .ok t s₀)
    (hs' : Scan.next s' = .ok t' s₀') (hu : Scan.next s₀ = .ok u s₁) :
    ∃ u' s₁', Scan.next s₀' = .ok u' s₁' ∧ Alike u u' := by
  have hp : ∀ spelling, t.isPunctuator spelling = false := by
    rcases hw with hw | hw <;> simp [Token.isPunctuator, hw]
  have ho : ∀ spellings, t.isOneOf spellings = false := by
    rcases hw with hw | hw <;> simp [Token.isOneOf, hw]
  cases rest with
  | nil =>
    obtain ⟨-, t₀, s₂, hs₂, heof⟩ := h
    rw [hs] at hs₂
    cases hs₂
    rcases hw with hw | hw <;> simp [Token.isEof, hw] at heof
  | cons x rest =>
    obtain ⟨x, after, isLater⟩ := x
    have hstep : x = t ∧ after = s.mode ∧ Shift s.mode t s.mode := by
      obtain ⟨-, s₂, t₂, s₂', hstep, -⟩ := h
      cases hstep with
      | plain scanned _ shift =>
        rw [hs] at scanned
        cases scanned
        refine ⟨rfl, ?_⟩
        generalize s.mode = mode at shift
        cases shift with
        | stay h => exact ⟨rfl, .stay h⟩
        | close h | finish h | enter h | tag h => simp [hp] at h
      | regex _ seen isSlash =>
        rw [hs] at seen
        cases seen
        simp [ho] at isSlash
      | markup _ seen isAngle =>
        rw [hs] at seen
        cases seen
        simp [hp] at isAngle
    obtain ⟨rfl, rfl, hshift⟩ := hstep
    have hmode := h.looks.mode
    obtain ⟨t₂, s₂, hs₂, -, -, -, hrest⟩ := h.plain hs hshift
    rw [hs'] at hs₂
    cases hs₂
    have h₀ : ({ s₀ with mode := s.mode } : Scanner) = s₀ := by rw [← Scan.next_mode hs]
    have h₀' : ({ s₀' with mode := s.mode } : Scanner) = s₀' := by
      rw [← hmode, ← Scan.next_mode hs']
    rw [h₀, h₀'] at hrest
    obtain ⟨u', s₁', hu', ha, -⟩ := hrest.looks.alike hu
    exact ⟨u', s₁', hu', ha⟩

end Lockstep

end

/-! ## Actions that fail, and actions that do the same -/

namespace Parse

/-- Whatever it is run on, the action fails. -/
def Fails {α : Type} (action : Parse α) : Prop := ∀ q v r, action.run q ≠ .ok v r

section

variable {α β γ : Type}

@[simp]
theorem fails_fail (stage : Stage) (fault : Fault) (site : Site) :
    (fail stage fault site : Parse α).Fails := by
  intro q v r h
  cases h

@[simp]
theorem fails_reject (fault : Fault) (site : Site) : (reject fault site : Parse α).Fails :=
  fails_fail _ _ _

@[simp]
theorem fails_stalled : (stalled : Parse α).Fails :=
    fun q => fails_fail _ _ q.lookahead.start.site q

@[simp]
theorem fails_unexpected (ctx : Context) (t : Token) : (unexpected ctx t : Parse α).Fails :=
  fails_fail _ _ _

@[simp]
theorem fails_unexpectedHere (ctx : Context) : (unexpectedHere ctx : Parse α).Fails :=
  fun q => fails_unexpected ctx q.lookahead q

@[simp]
theorem fails_bind {action : Parse α} {f : α → Parse β} (h : action.Fails) :
    (action >>= f).Fails := by
  intro q v r hrun
  rw [run_bind] at hrun
  split at hrun
  · exact h _ _ _ ‹_›
  · cases hrun

/-- Two actions do the same where they are run on the given parser. -/
def SameAt (q : Parser) (action action' : Parse α) : Prop :=
  action.run q = action'.run q ∧ action.takes q = action'.takes q

/-- What follows an action has to be the same only where the action may lead. -/
theorem SameAt.behind {action : Parse α} {f g : α → Parse β} {q : Parser}
    (h : ∀ v r, action.run q = .ok v r → SameAt r (f v) (g v)) :
    SameAt q (action >>= f) (action >>= g) := by
  constructor
  · rw [run_bind, run_bind]
    cases hrun : action.run q with
    | ok v r => exact (h v r hrun).1
    | error e r => rfl
  · change (andThen action f).takes q = (andThen action g).takes q
    rw [takes, takes]
    cases hrun : action.run q with
    | ok v r => exact congrArg (_ ++ ·) (h v r hrun).2
    | error e r => rfl

/-- Two actions do the same wherever they are run. -/
def Same (action action' : Parse α) : Prop := ∀ q, SameAt q action action'

namespace Same

theorem refl (action : Parse α) : action.Same action := fun _ => ⟨rfl, rfl⟩

theorem symm {a b : Parse α} (h : a.Same b) : b.Same a :=
  fun q => ⟨(h q).1.symm, (h q).2.symm⟩

theorem trans {a b c : Parse α} (h : a.Same b) (h' : b.Same c) : a.Same c :=
  fun q => ⟨(h q).1.trans (h' q).1, (h q).2.trans (h' q).2⟩

/-- One action after the other. -/
theorem bind {action action' : Parse α} {f f' : α → Parse β} (h : action.Same action')
    (hf : ∀ v, (f v).Same (f' v)) : (action >>= f).Same (action' >>= f') := by
  intro q
  obtain ⟨hr, ht⟩ := h q
  constructor
  · rw [run_bind, run_bind, hr]
    cases action'.run q with
    | ok v r => exact (hf v r).1
    | error e r => rfl
  · change (andThen action f).takes q = (andThen action' f').takes q
    rw [takes, takes, ht, hr]
    cases action'.run q with
    | ok v r => exact congrArg (_ ++ ·) (hf v r).2
    | error e r => rfl

/-- Actions may be bracketed either way. -/
theorem assoc {action : Parse α} {f : α → Parse β} {g : β → Parse γ} :
    ((action >>= f) >>= g).Same (action >>= fun v => f v >>= g) := by
  intro q
  constructor
  · simp only [run_bind]
    cases action.run q <;> rfl
  · change (andThen (andThen action f) g).takes q =
      (andThen action fun v => andThen (f v) g).takes q
    simp only [takes, run]
    cases action.run q with
    | ok v r => simp only [List.append_assoc]
    | error e r => simp only [List.append_nil]

theorem bindPure {action : Parse α} : action.Same (action >>= Pure.pure) := by
  intro q
  constructor
  · rw [run_bind]
    cases action.run q <;> rfl
  · change _ = (andThen action done).takes q
    rw [takes]
    cases action.run q <;> exact (List.append_nil _).symm

end Same

end

end Parse

/-! ## The judgement -/

/-- The number of characters that remain in front of the lookahead. -/
def Parser.left (q : Parser) : Nat := q.before.cursor.rest.length

variable [Exchange]

/-- The first parser stands at the given place in front of the given tokens, and the second in
front of alike ones; what else could make a difference is the same. -/
structure Agrees (s : Scanner) (rest : List Taken) (q q' : Parser) : Prop where
  /-- Alike tokens come. -/
  stands : ∃ s', Stands s' q' ∧ Lockstep s rest s'
  /-- The mode is the same. -/
  mode : q'.scanner.mode = q.scanner.mode
  /-- A shorthand property is pending in both or in none. -/
  pending : Alike q.pending q'.pending
  /-- Faults are tolerated in both or in none. -/
  tolerant : q'.report.tolerant = q.report.tolerant

/-- Parsers in step have alike lookaheads. -/
theorem Agrees.lookahead {s : Scanner} {rest : List Taken} {q q' : Parser}
    (h : Agrees s rest q q') (hs : Stands s q) : Alike q.lookahead q'.lookahead := by
  obtain ⟨s', hs', hls⟩ := h.stands
  obtain ⟨u, _, hu, ha, -⟩ := hls.looks.alike hs.scanned
  rw [hs'.scanned] at hu
  cases hu
  exact ha

section

variable {α : Type} [Placed α]

/-- What a run of an action has done: it walked over tokens, with a trace such that `post` holds,
and marked their parts in templates. -/
def Reads (owed : List Nat) (action : Parse α) (post : α → Trace → Token → Prop) (s : Scanner)
    (q : Parser) (value : α) (s' : Scanner) (r : Parser) : Prop :=
  Walk s (action.takes q) s' ∧
    ∃ taken : List Taken, taken.map (fun x => (x.token, x.after)) = action.takes q ∧
      Marked owed q taken r ∧ post value (.of taken) r.lookahead

/-- What a run of a companion does: it ends well and in step, with an alike value. -/
def Echoes (fuel : Nat) (t' : Token) (action action' : Parse α) (s : Scanner) (q : Parser)
    (value : α) (s' : Scanner) (r : Parser) : Prop :=
  ∀ nodes rest q', r.nodes.toList ⊆ nodes → Agrees s (roles nodes (action.takes q) ++ rest) q q' →
    q'.lookahead = t' → q'.left < fuel →
      ∃ value' r', action'.run q' = .ok value' r' ∧ Agrees s' rest r r' ∧ Alike value value' ∧
        r'.left + (action.takes q).length ≤ q'.left

/-- The judgement. The action and its companion start in front of the tokens `t` and `t'` in the
mode `m` and end in the mode `m'`; the companion is run with at most `fuel` characters before it.
The starts of the templates that are not yet finished are `owed`. -/
def Tracks (owed : List Nat) (fuel : Nat) (m m' : Mode) (t t' : Token) (action action' : Parse α)
    (post : α → Trace → Token → Prop) : Prop :=
  ∀ q s value r, Stands s q → s.mode = m → q.scanner.mode = m → q.lookahead = t →
    action.run q = .ok value r →
      ∃ s', Stands s' r ∧ s'.mode = m' ∧ r.scanner.mode = m' ∧
        Reads owed action post s q value s' r ∧ Echoes fuel t' action action' s q value s' r

end

namespace Tracks

variable {α β : Type} [Placed β] {owed : List Nat} {fuel fuel' : Nat} {m m₁ m' : Mode}
    {t t' : Token}

/-! ## Values and sequences -/

section

variable [Placed α]

theorem pure {value value' : α} {post : α → Trace → Token → Prop} (h : post value .empty t)
    (ha : Alike value value') :
    Tracks [] fuel m m t t' (pure value) (pure value') post := by
  rintro q s v r hs rfl hm rfl hrun
  cases hrun
  refine ⟨s, hs, rfl, hm, ⟨rfl, [], rfl, .nil rfl, h⟩, ?_⟩
  rintro nodes rest q' - hq - -
  exact ⟨value', q', rfl, hq, ha, Nat.le_refl _⟩

/-- A larger bound on the companion's characters and a weaker postcondition. -/
theorem weaken {action action' : Parse α} {post post' : α → Trace → Token → Prop}
    (h : Tracks owed fuel' m m' t t' action action' post)
    (hp : ∀ v tr u, post v tr u → post' v tr u) (hf : fuel ≤ fuel') :
    Tracks owed fuel m m' t t' action action' post' := by
  intro q s v r hs hm hm' ht hrun
  obtain ⟨s', hs', hm₁, hm₂, ⟨hw, taken, htk, hmk, hpost⟩, he⟩ := h q s v r hs hm hm' ht hrun
  refine ⟨s', hs', hm₁, hm₂, ⟨hw, taken, htk, hmk, hp _ _ _ hpost⟩, ?_⟩
  exact fun nodes rest q' hn hq ht' hl => he nodes rest q' hn hq ht' (by omega)

theorem imp {action action' : Parse α} {post post' : α → Trace → Token → Prop}
    (h : Tracks owed fuel m m' t t' action action' post)
    (hp : ∀ v tr u, post v tr u → post' v tr u) :
    Tracks owed fuel m m' t t' action action' post' :=
  h.weaken hp (Nat.le_refl _)

end

/-! ## Sequences

A step is what an action does at the front of a sequence. It may leave templates owed, and it may
tell more of the companion's value and lookahead than that they are alike. -/

/-- A step of a sequence: what the action does and its companion does in step. What the rest of the
sequence owes in templates is `owed'`, and `rel` relates value, companion's value and companion's
lookahead. -/
def Moves (owed owed' : List Nat) (fuel : Nat) (m m' : Mode) (t t' : Token)
    (action action' : Parse α)
    (mid : α → Trace → Token → Prop) (rel : α → α → Token → Prop) : Prop :=
  ∀ q s value r, Stands s q → s.mode = m → q.scanner.mode = m → q.lookahead = t →
    action.run q = .ok value r →
      ∃ s', Stands s' r ∧ s'.mode = m' ∧ r.scanner.mode = m' ∧ Walk s (action.takes q) s' ∧
        (∃ taken : List Taken, taken.map (fun x => (x.token, x.after)) = action.takes q ∧
          (∀ {more u}, Marked owed' r more u → Marked owed q (taken ++ more) u) ∧
          mid value (.of taken) r.lookahead) ∧
        ∀ nodes rest q', r.nodes.toList ⊆ nodes →
          Agrees s (roles nodes (action.takes q) ++ rest) q q' → q'.lookahead = t' →
          q'.left < fuel →
            ∃ value' r', action'.run q' = .ok value' r' ∧ Agrees s' rest r r' ∧
              rel value value' r'.lookahead ∧ r'.left + (action.takes q).length ≤ q'.left

/-- A step and the rest of a sequence. -/
theorem ofMoves {action action' : Parse α} {f f' : α → Parse β} {owed' : List Nat}
    {mid : α → Trace → Token → Prop} {rel : α → α → Token → Prop}
    {post : β → Trace → Token → Prop} (h : Moves owed owed' fuel' m m₁ t t' action action' mid rel)
    (hrel : ∀ v tr u, mid v tr u → ∃ v' u', Alike u u' ∧ rel v v' u')
    (hf : ∀ v v' tr u u', mid v tr u → Alike u u' → rel v v' u' →
      Tracks owed' (fuel - tr.count) m₁ m' u u' (f v) (f' v') fun w tr' => post w (tr ++ tr'))
    (hfuel : fuel ≤ fuel') :
    Tracks owed fuel m m' t t' (action >>= f) (action' >>= f') post := by
  intro q s w r hs hm hm' ht hrun
  rw [Parse.run_bind] at hrun
  split at hrun
  case h_2 => cases hrun
  case h_1 v q₁ hq₁ =>
  obtain ⟨s₁, hs₁, hm₁, hm₁', hw, ⟨taken, htk, hmk, hmid⟩, he⟩ := h q s v q₁ hs hm hm' ht hq₁
  obtain ⟨v₀, u₀, hu₀, hrel₀⟩ := hrel v _ q₁.lookahead hmid
  obtain ⟨s₂, hs₂, hm₂, hm₂', ⟨hw₂, taken₂, htk₂, hmk₂, hpost⟩, -⟩ :=
    hf v v₀ _ _ u₀ hmid hu₀ hrel₀ q₁ s₁ w r hs₁ hm₁ hm₁' rfl hrun
  have hcount : (Trace.of taken).count = (action.takes q).length := by
    rw [Trace.count_of, ← htk, List.length_map]
  refine ⟨s₂, hs₂, hm₂, hm₂', ⟨?_, taken ++ taken₂, ?_, hmk hmk₂, ?_⟩, ?_⟩
  · rw [Parse.takes_bind hq₁]
    exact hw.append hw₂
  · rw [Parse.takes_bind hq₁, List.map_append, htk, htk₂]
  · rw [Trace.of_append]
    exact hpost
  · intro nodes rest q' hn hq ht' hl
    rw [Parse.takes_bind hq₁, roles_append, List.append_assoc] at hq
    obtain ⟨v', q₁', hrun', hag, hv, hl₁⟩ :=
      he nodes _ q' (fun _ h => hn (hmk₂.subset h)) hq ht' (by omega)
    have hu : Alike q₁.lookahead q₁'.lookahead := hag.lookahead hs₁
    obtain ⟨s₃, hs₃, hm₃, -, -, he₂⟩ :=
      hf v v' _ _ q₁'.lookahead hmid hu hv q₁ s₁ w r hs₁ hm₁ hm₁' rfl hrun
    obtain rfl := hs₂.unique hs₃ (hm₂.trans hm₃.symm)
    obtain ⟨w', r', hrun₂, hag₂, hw', hl₂⟩ := he₂ nodes rest q₁' hn hag rfl (by omega)
    refine ⟨w', r', ?_, hag₂, hw', ?_⟩
    · rw [Parse.run_bind, hrun']
      exact hrun₂
    · rw [Parse.takes_bind hq₁, List.length_append]
      omega

/-- One action after the other. The companion of the second gets whatever value and lookahead are
alike to those that the first leaves. -/
theorem bind [Placed α] {action action' : Parse α} {f f' : α → Parse β}
    {mid : α → Trace → Token → Prop} {post : β → Trace → Token → Prop} (hfuel : fuel ≤ fuel')
    (h : Tracks [] fuel' m m₁ t t' action action' mid)
    (hf : ∀ v v' tr u u', mid v tr u → Alike v v' → Alike u u' →
      Tracks owed (fuel - tr.count) m₁ m' u u' (f v) (f' v') fun w tr' => post w (tr ++ tr')) :
    Tracks owed fuel m m' t t' (action >>= f) (action' >>= f') post := by
  have hmoves : Moves owed owed fuel' m m₁ t t' action action' mid fun v v' _ => Alike v v' := by
    intro q s v r hs hm hm' ht hrun
    obtain ⟨s', hs', hm₁, hm₂, ⟨hw, taken, htk, hmk, hmid⟩, he⟩ := h q s v r hs hm hm' ht hrun
    exact ⟨s', hs', hm₁, hm₂, hw, ⟨taken, htk, fun h' => hmk.append h', hmid⟩, he⟩
  have hrel (v : α) (u : Token) : ∃ v' u', Alike u u' ∧ Alike v v' := by
    obtain ⟨v', hv⟩ := Alike.exists v
    obtain ⟨u', hu⟩ := Alike.exists u
    exact ⟨v', u', hu, hv⟩
  exact ofMoves hmoves (fun v _ u _ => hrel v u)
    (fun v v' tr u u' h₁ h₂ h₃ => hf v v' tr u u' h₁ h₃ h₂) hfuel

/-- One action after the other, where the first is tracked with as many characters before the
companion as the whole. -/
theorem seq [Placed α] {action action' : Parse α} {f f' : α → Parse β}
    {mid : α → Trace → Token → Prop} {post : β → Trace → Token → Prop}
    (h : Tracks [] fuel m m₁ t t' action action' mid)
    (hf : ∀ v v' tr u u', mid v tr u → Alike v v' → Alike u u' →
      Tracks owed (fuel - tr.count) m₁ m' u u' (f v) (f' v') fun w tr' => post w (tr ++ tr')) :
    Tracks owed fuel m m' t t' (action >>= f) (action' >>= f') post :=
  bind (Nat.le_refl _) h hf

/-! ## Requests that take nothing -/

/-- A step that stays in front of its token, and the rest of the sequence. -/
theorem still {action action' : Parse α} {f f' : α → Parse β} {post : β → Trace → Token → Prop}
    (owed' : List Nat) (mid : α → Prop) (rel : α → α → Prop) (ht : Alike t t')
    (hrel : ∀ v, mid v → ∃ v', rel v v')
    (h : ∀ {q : Parser} {s : Scanner} {v : α} {r : Parser}, Stands s q →
      s.mode = q.scanner.mode → q.lookahead = t → action.run q = .ok v r →
      (action.takes q = [] ∧ r.before = q.before ∧ r.lookahead = q.lookahead ∧
        r.scanner.quiet = q.scanner.quiet ∧ mid v ∧
        ∀ {more u}, Marked owed' r more u → Marked owed q more u) ∧
      ∀ {rest : List Taken} {q' : Parser}, Agrees s rest q q' → q'.lookahead = t' →
        ∃ v' r', action'.run q' = .ok v' r' ∧ r'.before = q'.before ∧
          r'.lookahead = q'.lookahead ∧ r'.scanner.quiet = q'.scanner.quiet ∧
          Alike r.pending r'.pending ∧ r'.report.tolerant = r.report.tolerant ∧ rel v v')
    (hf : ∀ v v', mid v → rel v v' → Tracks owed' fuel m m' t t' (f v) (f' v') post) :
    Tracks owed fuel m m' t t' (action >>= f) (action' >>= f') post := by
  have hmoves : Moves owed owed' fuel m m t t' action action'
      (fun v tr u => mid v ∧ tr = .empty ∧ u = t) fun v v' u' => rel v v' ∧ u' = t' := by
    rintro q s v r hs rfl hm ht hrun
    obtain ⟨⟨htakes, hbefore, hlook, hquiet, hmid, hmk⟩, he⟩ := h hs hm.symm ht hrun
    have hmode : r.scanner.mode = q.scanner.mode := congrArg (·.mode) hquiet
    refine ⟨s, ⟨hs.quiet, by rw [hbefore, hs.cursor], by rw [hbefore, hs.braces],
      by rw [hlook, hquiet, hs.scanned], (Parse.run_records hrun).1.trans hs.complete⟩, rfl,
        by rw [hmode, hm], by rw [htakes]; rfl,
      ⟨[], by rw [htakes]; rfl, fun h' => hmk h', hmid, rfl, by rw [hlook, ht]⟩, ?_⟩
    intro nodes rest q' hn hq ht' hl
    rw [htakes] at hq ⊢
    obtain ⟨v', r', hrun', hbefore', hlook', hquiet', hp, htol, hrel⟩ := he hq ht'
    obtain ⟨s', hs', hls⟩ := hq.stands
    have hmode' : r'.scanner.mode = q'.scanner.mode := congrArg (·.mode) hquiet'
    refine ⟨v', r', hrun', ⟨⟨s', ⟨hs'.quiet, by rw [hbefore', hs'.cursor],
      by rw [hbefore', hs'.braces], by rw [hlook', hquiet', hs'.scanned],
      (Parse.run_records hrun').1.trans hs'.complete⟩, hls⟩,
      by rw [hmode', hmode, hq.mode], hp, htol⟩, ⟨hrel, by rw [hlook', ht']⟩, ?_⟩
    exact Nat.le_of_eq (congrArg (·.cursor.rest.length) hbefore')
  refine ofMoves hmoves ?_ ?_ (Nat.le_refl _)
  · rintro v tr u ⟨hv, -, rfl⟩
    obtain ⟨v', hv'⟩ := hrel v hv
    exact ⟨v', t', ht, hv', rfl⟩
  · rintro v v' tr u u' ⟨hv, rfl, rfl⟩ - ⟨hv', rfl⟩
    refine (hf v v' hv hv').weaken (fun w tr u h => ?_) (by simp)
    rwa [Trace.empty_append]

section

variable {post : β → Trace → Token → Prop}

theorem look {f f' : Token → Parse β} (ht : Alike t t')
    (h : Tracks owed fuel m m' t t' (f t) (f' t') post) :
    Tracks owed fuel m m' t t' (Parse.look >>= f) (Parse.look >>= f') post := by
  refine still owed (· = t) (fun _ v' => v' = t') ht (fun _ _ => ⟨t', rfl⟩) ?_ ?_
  · rintro q s v r hs hm ht hrun
    cases hrun
    exact ⟨⟨rfl, rfl, rfl, rfl, ht, id⟩,
      fun hq ht' => ⟨_, _, rfl, rfl, rfl, rfl, hq.pending, hq.tolerant, ht'⟩⟩
  · rintro v v' rfl rfl
    exact h

theorem lastEnd {f f' : Position → Parse β} (ht : Alike t t')
    (h : ∀ p p', Tracks owed fuel m m' t t' (f p) (f' p') post) :
    Tracks owed fuel m m' t t' (Parse.lastEnd >>= f) (Parse.lastEnd >>= f') post := by
  refine still owed (fun _ => True) (fun _ _ => True) ht (fun v _ => ⟨v, trivial⟩) ?_
    (fun v v' _ _ => h v v')
  rintro q s v r hs hm ht hrun
  cases hrun
  exact ⟨⟨rfl, rfl, rfl, rfl, trivial, id⟩,
    fun hq ht' => ⟨_, _, rfl, rfl, rfl, rfl, hq.pending, hq.tolerant, trivial⟩⟩

theorem pending {f f' : Option Site → Parse β} (ht : Alike t t')
    (h : ∀ o o', Alike o o' → Tracks owed fuel m m' t t' (f o) (f' o') post) :
    Tracks owed fuel m m' t t' (Parse.pending >>= f) (Parse.pending >>= f') post := by
  refine still owed (fun _ => True) (fun v v' => Alike v v') ht (fun v _ => Alike.exists v) ?_
    (fun v v' _ hv => h v v' hv)
  rintro q s v r hs hm ht hrun
  cases hrun
  exact ⟨⟨rfl, rfl, rfl, rfl, trivial, id⟩,
    fun hq ht' => ⟨_, _, rfl, rfl, rfl, rfl, hq.pending, hq.tolerant, hq.pending⟩⟩

theorem setPending {f f' : Unit → Parse β} {o o' : Option Site} (ht : Alike t t')
    (ho : Alike o o') (h : Tracks owed fuel m m' t t' (f ()) (f' ()) post) :
    Tracks owed fuel m m' t t' (Parse.setPending o >>= f) (Parse.setPending o' >>= f') post := by
  refine still owed (fun _ => True) (fun _ _ => True) ht (fun v _ => ⟨v, trivial⟩) ?_
    (fun _ _ _ _ => h)
  rintro q s v r hs hm ht hrun
  cases hrun
  exact ⟨⟨rfl, rfl, rfl, rfl, trivial, id⟩,
    fun hq ht' => ⟨_, _, rfl, rfl, rfl, rfl, ho, hq.tolerant, trivial⟩⟩

/-- A parse survives a fault if it tolerates faults, and so does its companion. -/
theorem tolerated {f f' : Unit → Parse β} {finder finder' : Finder} {fault fault' : Fault}
    {site site' : Site} (ht : Alike t t')
    (h : Tracks owed fuel m m' t t' (f ()) (f' ()) post) :
    Tracks owed fuel m m' t t' (Parse.ask (.tolerate finder fault site) >>= f)
      (Parse.ask (.tolerate finder' fault' site') >>= f') post := by
  have hrun : ∀ {q r : Parser} {e d : SyntaxError} {v : Unit}, Parser.tolerate e d q = .ok v r →
      q.report.tolerant = true ∧ r = { q with report := { q.report with
        errors := q.report.errors.push (e.label q.report.source) } } := by
    intro q r e d v h
    unfold Parser.tolerate Report.tolerate at h
    by_cases htol : q.report.tolerant = true
    · rw [if_pos htol] at h
      cases h
      exact ⟨htol, rfl⟩
    · rw [if_neg htol] at h
      cases h
  refine still owed (fun _ => True) (fun _ _ => True) ht (fun v _ => ⟨v, trivial⟩) ?_
    (fun _ _ _ _ => h)
  rintro q s v r hs hm ht hr
  obtain ⟨htol, rfl⟩ := hrun hr
  refine ⟨⟨rfl, rfl, rfl, rfl, trivial, id⟩, fun {rest q'} hq ht' => ?_⟩
  have htol' : q'.report.tolerant = true := hq.tolerant.trans htol
  refine ⟨(), { q' with report := { q'.report with
    errors := q'.report.errors.push ((Finder.recorded fault' site').label q'.report.source) } },
    ?_, rfl, rfl, rfl,
    hq.pending, hq.tolerant, trivial⟩
  change Parser.tolerate _ _ q' = _
  unfold Parser.tolerate Report.tolerate
  rw [if_pos htol']

/-- Complete extents are recorded in both runs. -/
theorem spanBetween {f f' : Span → Parse β} {start start' stop stop' : Position} (ht : Alike t t')
    (h : Tracks owed fuel m m' t t' (f (.between start stop)) (f' (.between start' stop')) post) :
    Tracks owed fuel m m' t t' (Parse.spanBetween start stop >>= f)
      (Parse.spanBetween start' stop' >>= f') post := by
  refine still owed (· = .between start stop) (fun _ v' => v' = .between start' stop') ht
    (fun _ _ => ⟨_, rfl⟩) ?_ ?_
  · rintro q s v r hs hm ht hrun
    cases hrun
    refine ⟨⟨rfl, rfl, rfl, rfl, by rw [hs.complete]; rfl, id⟩, fun hq ht' => ?_⟩
    obtain ⟨s', hs', -⟩ := hq.stands
    exact ⟨_, _, rfl, rfl, rfl, rfl, hq.pending, hq.tolerant, by rw [hs'.complete]; rfl⟩
  · rintro v v' rfl rfl
    exact h

theorem report {f f' : Unit → Parse β} {kind : NodeKind} {span span' : Span} (ht : Alike t t')
    (hk : kind ≠ .template) (h : Tracks owed fuel m m' t t' (f ()) (f' ()) post) :
    Tracks owed fuel m m' t t' (Parse.report kind span >>= f) (Parse.report kind span' >>= f')
      post := by
  refine still owed (fun _ => True) (fun _ _ => True) ht (fun v _ => ⟨v, trivial⟩) ?_
    (fun _ _ _ _ => h)
  rintro q s v r hs hm ht hrun
  cases hrun
  exact ⟨⟨rfl, rfl, rfl, rfl, trivial, fun h' => .of_push hk rfl h'⟩,
    fun hq ht' => ⟨_, _, rfl, rfl, rfl, rfl, hq.pending, hq.tolerant, trivial⟩⟩

/-- The template that starts at an owed place is finished. -/
theorem reportTemplate {f f' : Unit → Parse β} {start start' stop stop' : Position}
    (ht : Alike t t') (h : Tracks owed fuel m m' t t' (f ()) (f' ()) post) :
    Tracks (start.offset :: owed) fuel m m' t t'
      (Parse.report .template (.between start stop) >>= f)
      (Parse.report .template (.between start' stop') >>= f') post := by
  refine still owed (fun _ => True) (fun _ _ => True) ht (fun v _ => ⟨v, trivial⟩) ?_
    (fun _ _ _ _ => h)
  rintro q s v r hs hm ht hrun
  cases hrun
  exact ⟨⟨rfl, rfl, rfl, rfl, trivial, fun h' => .of_push_template rfl h'⟩,
    fun hq ht' => ⟨_, _, rfl, rfl, rfl, rfl, hq.pending, hq.tolerant, trivial⟩⟩

omit [Exchange] [Placed β] in
/-- Seeing one token further scans it and goes back. -/
theorem peek_eq_ok {q r : Parser} {v : Token} (h : Parser.peek q = .ok v r) :
    ∃ sc, Scan.next q.scanner = .ok v sc ∧
      r = { q with scanner := sc.restore q.scanner.save } := by
  unfold Parser.peek at h
  split at h <;> cases h
  exact ⟨_, ‹_›, rfl⟩

omit [Exchange] [Placed β] in
/-- A scanner that went back differs from what it was in its comments only. -/
theorem quiet_goBack {s sc : Scanner} {v : Token} (h : Scan.next s = .ok v sc) :
    (sc.restore s.save).quiet = s.quiet := by
  simp [Scanner.restore, Scanner.quiet, Scanner.save, Scan.next_mode h, Scan.next_isModule h]

/-- The token behind a word. The word itself is taken next, and the mode does not change behind
it, so that the companion sees an alike token. -/
theorem peek {f f' : Token → Parse β} (ht : Alike t t')
    (hw : t.kind = .identifier ∨ t.kind = .keyword)
    (h : ∀ u u', Alike u u' → Tracks owed fuel m m' t t' (f u) (f' u') post) :
    Tracks owed fuel m m' t t' (Parse.peek >>= f) (Parse.peek >>= f') post := by
  refine still owed (fun _ => True) (fun v v' => Alike v v') ht (fun v _ => Alike.exists v) ?_
    (fun v v' _ hv => h v v' hv)
  rintro q s v r hs hm rfl hr
  obtain ⟨sc, hsc, rfl⟩ := peek_eq_ok hr
  refine ⟨⟨rfl, rfl, rfl, quiet_goBack hsc, trivial, id⟩, fun {rest q'} hq ht' => ?_⟩
  obtain ⟨s', hs', hls⟩ := hq.stands
  have hmode : q'.scanner.mode = s'.mode := by rw [hq.mode, ← hm, hls.looks.mode]
  obtain ⟨v', sc', hv', ha⟩ := hls.behindWord hw (hs.settled hm.symm)
    (hs'.settled hmode) (Scan.next_quiet_ok hsc)
  obtain ⟨r', hr', -⟩ := Scan.next_of_quiet hv'
  refine ⟨v', { q' with scanner := r'.restore q'.scanner.save }, ?_, rfl, rfl,
    quiet_goBack hr', hq.pending, hq.tolerant, ha⟩
  change Parser.peek q' = _
  unfold Parser.peek
  rw [hr']

end

/-! ## Checks

A check is an action of its own that takes nothing. -/

/-- What a check leaves: a value such that `P`, and the same lookahead. -/
def Still (P : α → Prop) (t : Token) : α → Trace → Token → Prop :=
  fun v tr u => P v ∧ tr = .empty ∧ u = t

/-- A check, and the rest of the sequence. -/
theorem check [Placed α] {action action' : Parse α} {f f' : α → Parse β} {P : α → Prop}
    {post : β → Trace → Token → Prop} (h : Tracks [] fuel m m t t' action action' (Still P t))
    (hf : ∀ v v' u', P v → Alike v v' → Alike t u' →
      Tracks owed fuel m m' t u' (f v) (f' v') post) :
    Tracks owed fuel m m' t t' (action >>= f) (action' >>= f') post := by
  refine seq h ?_
  rintro v v' tr u u' ⟨hv, rfl, rfl⟩ ha hu
  refine (hf v v' u' hv ha hu).weaken (fun w tr x h => ?_) (by simp)
  rwa [Trace.empty_append]

/-! ## Branches -/

section

variable {post : β → Trace → Token → Prop}

/-- Two branches under a condition that is the same in both runs. -/
theorem ite {b b' : Bool} {yes no yes' no' : Parse β} (hb : b' = b)
    (hyes : b = true → Tracks owed fuel m m' t t' yes yes' post)
    (hno : b = false → Tracks owed fuel m m' t t' no no' post) :
    Tracks owed fuel m m' t t' (if b = true then yes else no) (if b' = true then yes' else no')
      post := by
  subst hb
  cases b' with
  | true => exact hyes rfl
  | false => exact hno rfl

/-- Two branches under a proposition. -/
theorem iteProp {c c' : Prop} [Decidable c] [Decidable c'] {yes no yes' no' : Parse β}
    (hc : c' ↔ c) (hyes : c → Tracks owed fuel m m' t t' yes yes' post)
    (hno : ¬ c → Tracks owed fuel m m' t t' no no' post) :
    Tracks owed fuel m m' t t' (if c then yes else no) (if c' then yes' else no') post := by
  by_cases h : c
  · rw [if_pos h, if_pos (hc.2 h)]
    exact hyes h
  · rw [if_neg h, if_neg fun h' => h (hc.1 h')]
    exact hno h

/-- An action that always fails tracks anything. -/
theorem stuck {action action' : Parse β} (h : action.Fails) :
    Tracks owed fuel m m' t t' action action' post :=
  fun q _ v r _ _ _ _ hrun => absurd hrun (h q v r)

/-- A check behind which a sequence goes on. -/
theorem guard {b b' : Bool} {failing failing' rest rest' : Parse β} (hfail : failing.Fails)
    (hb : b' = b) (h : b = false → Tracks owed fuel m m' t t' rest rest' post) :
    Tracks owed fuel m m' t t' (if b = true then failing else rest)
      (if b' = true then failing' else rest') post :=
  ite hb (fun _ => stuck hfail) h

/-- Actions that do the same can be exchanged. -/
theorem congr {action₁ action₁' action₂ action₂' : Parse β} (h : action₁.Same action₂)
    (h' : action₁'.Same action₂') (ht : Tracks owed fuel m m' t t' action₂ action₂' post) :
    Tracks owed fuel m m' t t' action₁ action₁' post := by
  intro q s v r hs hm hm' hq hrun
  rw [(h q).1] at hrun
  obtain ⟨s', hs', hm₁, hm₂, hr, he⟩ := ht q s v r hs hm hm' hq hrun
  refine ⟨s', hs', hm₁, hm₂, ?_, ?_⟩
  · unfold Reads at hr ⊢
    rw [(h q).2]
    exact hr
  · intro nodes rest q' hn hq' ht' hl
    rw [(h q).2] at hq' ⊢
    rw [(h' q').1]
    exact he nodes rest q' hn hq' ht' hl

/-- A fault that may be survived. -/
theorem tolerate {f f' : Unit → Parse β} {fault fault' : Fault} {site site' : Site}
    (ht : Alike t t') (h : Tracks owed fuel m m' t t' (f ()) (f' ()) post) :
    Tracks owed fuel m m' t t' (Parse.tolerate fault site >>= f)
      (Parse.tolerate fault' site' >>= f') post :=
  tolerated ht h

/-- A fault that may be survived, at the end of a check. -/
theorem tolerateLast {fault fault' : Fault} {site site' : Site} (ht : Alike t t') :
    Tracks [] fuel m m t t' (Parse.tolerate fault site) (Parse.tolerate fault' site')
      (Still (fun _ => True) t) :=
  congr .bindPure .bindPure (tolerate ht (pure ⟨trivial, rfl, rfl⟩ (.refl _ rfl)))

/-- A check whose fault may be survived. -/
theorem checked {b b' : Bool} {fault fault' : Fault} {site site' : Site}
    {rest rest' : Parse β} (ht : Alike t t') (hb : b' = b)
    (h : Tracks owed fuel m m' t t' rest rest' post) :
    Tracks owed fuel m m' t t'
      (if b = true then Parse.tolerate fault site >>= fun _ => rest else rest)
      (if b' = true then Parse.tolerate fault' site' >>= fun _ => rest' else rest') post :=
  ite hb (fun _ => tolerate ht h) fun _ => h

/-! ## Regrouping -/

/-- Sequences group either way. -/
theorem assoc {γ : Type} {action action' : Parse α} {f f' : α → Parse γ} {g g' : γ → Parse β}
    (h : Tracks owed fuel m m' t t' (action >>= fun v => f v >>= g)
      (action' >>= fun v => f' v >>= g') post) :
    Tracks owed fuel m m' t t' ((action >>= f) >>= g) ((action' >>= f') >>= g') post :=
  congr .assoc .assoc h

theorem regroup {γ : Type} {action action' : Parse α} {f f' : α → Parse γ} {g g' : γ → Parse β}
    (h : Tracks owed fuel m m' t t' ((action >>= f) >>= g) ((action' >>= f') >>= g') post) :
    Tracks owed fuel m m' t t' (action >>= fun v => f v >>= g) (action' >>= fun v => f' v >>= g')
      post :=
  congr Parse.Same.assoc.symm Parse.Same.assoc.symm h

/-- The result of an action under a function. -/
theorem wrap [Placed α] {action action' : Parse α} {g g' : α → β}
    {mid : α → Trace → Token → Prop} (hfuel : fuel ≤ fuel')
    (h : Tracks [] fuel' m m' t t' action action' mid)
    (hpost : ∀ v tr u, mid v tr u → post (g v) tr u)
    (ha : ∀ v v', Alike v v' → Alike (g v) (g' v')) :
    Tracks [] fuel m m' t t' (action >>= fun v => Pure.pure (g v))
      (action' >>= fun v => Pure.pure (g' v)) post := by
  refine bind hfuel h ?_
  intro v v' tr u u' hv hv' hu
  refine pure ?_ (ha v v' hv')
  rw [Trace.append_empty]
  exact hpost v tr u hv

theorem map [Placed α] {action action' : Parse α} {g g' : α → β} {mid : α → Trace → Token → Prop}
    (hfuel : fuel ≤ fuel') (h : Tracks [] fuel' m m' t t' action action' mid)
    (hpost : ∀ v tr u, mid v tr u → post (g v) tr u)
    (ha : ∀ v v', Alike v v' → Alike (g v) (g' v')) :
    Tracks [] fuel m m' t t' (g <$> action) (g' <$> action') post :=
  wrap hfuel h hpost ha

end

end Tracks

end Verbatim
