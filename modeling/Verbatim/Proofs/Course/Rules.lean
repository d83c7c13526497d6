import Verbatim.Proofs.Course.Basic

/-!
# Reading what a layout lays out

The rules by which productions are gone through. A production reads a layout if the layout is laid
out over the tokens that the production takes, and if the nodes that it finishes lie between these.
Layouts are put together as the productions are: one behind the other, and with an extent around
them where a node is finished.

## Main definitions

* `Verbatim.Course.Moves` — tokens are taken, and nodes between them are finished.
* `Verbatim.Course.Passes`, `Verbatim.Course.Builds` — a layout or a tree is read.
* `Verbatim.Course.Rows` — items are read with commas between them.
* `Verbatim.Parse.Proceeds`, `Verbatim.Parse.Yields` — what is known of the course behind an action.

## Main results

* `Verbatim.Parse.Proceeds.finish` — a node is finished around what was read.
* `Verbatim.Parse.Proceeds.listed`, `Verbatim.Parse.Proceeds.many` — lists are read.
-/

namespace Verbatim

/-! ## Moving along a course -/

/-- The last of some tokens in their order ends behind the start of the first. -/
theorem start_le_stop {source : String} {tokens : List Token} {first last : Token}
    (hl : ∀ t ∈ tokens, t.Lies source)
    (ho : tokens.Pairwise fun t u => t.stop.offset ≤ u.start.offset)
    (hf : tokens.head? = some first) (ht : tokens.getLast? = some last) :
    first.start.offset ≤ last.stop.offset := by
  cases tokens with
  | nil => cases hf
  | cons t rest =>
    obtain rfl : t = first := Option.some.inj hf
    rcases List.mem_cons.1 (List.mem_of_getLast? ht) with rfl | hmem
    · exact (hl _ List.mem_cons_self).forward
    · have hbefore := (List.pairwise_cons.1 ho).1 last hmem
      have hfirst := (hl t List.mem_cons_self).forward
      have hlast := (hl last (List.mem_cons_of_mem _ hmem)).forward
      omega

namespace Course

variable {source : String}

@[simp]
theorem lastEnd_take {c : Course source} {u : Token} {h : c.MayFollow u} :
    (c.take u h).lastEnd = c.ahead.stop := by
  simp [lastEnd, take]

/-- A token is the lookahead, or what the lookahead was scanned again as. -/
structure Replaces (c : Course source) (t : Token) : Prop where
  /-- It starts where the lookahead does. -/
  start : t.start = c.ahead.start
  /-- Only punctuators are scanned again. -/
  same : t = c.ahead ∨ c.ahead.kind = .punctuator

theorem Replaces.refl {c : Course source} : c.Replaces c.ahead := ⟨rfl, .inl rfl⟩

theorem Replaces.trans {c c' : Course source} {t : Token} (h : c.Replaces c'.ahead)
    (h' : c'.Replaces t) : c.Replaces t := by
  refine ⟨h'.start.trans h.start, h.same.elim (fun hsame => ?_) .inr⟩
  rw [← hsame]
  exact h'.same

/-- From one course to a later one, the given tokens are taken, the first of which replaces the
lookahead, and the nodes that are finished lie between them. -/
structure Moves (us : List Token) (c c' : Course source) : Prop where
  /-- The tokens are taken. -/
  taken : c'.taken = c.taken ++ us
  /-- The nodes lie between them. -/
  nodes : ∃ ms, c'.nodes = c.nodes ++ ms ∧ ∀ node ∈ ms,
    node.kind ≠ .program ∧ node.span.Lies source c.ahead.start.offset c'.lastEnd.offset
  /-- The first token replaces the lookahead. -/
  head : ∀ t, us.head? = some t → c.Replaces t
  /-- If no token is taken, no node is finished. -/
  idle : us = [] → c'.nodes = c.nodes ∧ c.Replaces c'.ahead

namespace Moves

variable {us vs : List Token} {c c₁ c' : Course source}

/-- Staying. -/
theorem refl : c.Moves [] c where
  taken := (List.append_nil _).symm
  nodes := ⟨[], (List.append_nil _).symm, fun _ h => absurd h List.not_mem_nil⟩
  head _ h := by cases h
  idle _ := ⟨rfl, .refl⟩

/-- Taking the lookahead. -/
theorem take {u : Token} (h : c.MayFollow u) : c.Moves [c.ahead] (c.take u h) where
  taken := rfl
  nodes := ⟨[], (List.append_nil _).symm, fun _ h => absurd h List.not_mem_nil⟩
  head t h := by
    cases h
    exact .refl
  idle h := by cases h

theorem getLast? (h : c.Moves us c') (hu : us ≠ []) : c'.taken.getLast? = us.getLast? := by
  rw [h.taken, List.getLast?_append]
  cases hl : us.getLast? with
  | none => exact absurd (List.getLast?_eq_none_iff.1 hl) hu
  | some last => rfl

theorem lies (h : c.Moves us c') : ∀ t ∈ us, t.Lies source := fun t ht =>
  c'.lies t (List.mem_append_left _ (h.taken ▸ List.mem_append_right _ ht))

/-- What is taken ends behind the start of the lookahead in front of it. -/
theorem start_le (h : c.Moves us c') (hu : us ≠ []) :
    c.ahead.start.offset ≤ c'.lastEnd.offset := by
  obtain ⟨last, hlast⟩ : ∃ last, us.getLast? = some last := by
    cases hl : us.getLast? with
    | none => exact absurd (List.getLast?_eq_none_iff.1 hl) hu
    | some last => exact ⟨last, rfl⟩
  obtain ⟨first, hfirst⟩ : ∃ first, us.head? = some first := by
    cases us with
    | nil => exact absurd rfl hu
    | cons t us => exact ⟨t, rfl⟩
  have hordered := (List.pairwise_append.1 c'.ordered).1
  rw [h.taken] at hordered
  have hle := start_le_stop h.lies (List.pairwise_append.1 hordered).2.1 hfirst hlast
  rw [(h.head first hfirst).start] at hle
  rwa [lastEnd, h.getLast? hu, hlast]

/-- The lookahead behind what is taken starts behind the one in front. -/
theorem ahead_le (h : c.Moves us c') : c.ahead.start.offset ≤ c'.ahead.start.offset := by
  by_cases hu : us = []
  · exact Nat.le_of_eq (by rw [(h.idle hu).2.start])
  · exact Nat.le_trans (h.start_le hu) c'.lastEnd_le

theorem lastEnd_mono (h : c.Moves us c') : c.lastEnd.offset ≤ c'.lastEnd.offset := by
  by_cases hu : us = []
  · have htaken := h.taken
    rw [hu, List.append_nil] at htaken
    exact Nat.le_of_eq (by rw [lastEnd, lastEnd, htaken])
  · exact Nat.le_trans c.lastEnd_le (h.start_le hu)

/-- One behind the other. -/
theorem trans (h : c.Moves us c₁) (h' : c₁.Moves vs c') : c.Moves (us ++ vs) c' := by
  obtain ⟨ms, hms, hin⟩ := h.nodes
  obtain ⟨ms', hms', hin'⟩ := h'.nodes
  refine ⟨by rw [h'.taken, h.taken, List.append_assoc], ⟨ms ++ ms', by
    rw [hms', hms, List.append_assoc], fun node hn => ?_⟩, fun t ht => ?_, fun hnil => ?_⟩
  · rcases List.mem_append.1 hn with hn | hn
    · exact ⟨(hin node hn).1, (hin node hn).2.mono (Nat.le_refl _) h'.lastEnd_mono⟩
    · exact ⟨(hin' node hn).1, (hin' node hn).2.mono h.ahead_le (Nat.le_refl _)⟩
  · cases us with
    | nil => exact (h.idle rfl).2.trans (h'.head t ht)
    | cons u us => exact h.head t ht
  · obtain ⟨hus, hvs⟩ := List.append_eq_nil_iff.1 hnil
    exact ⟨(h'.idle hvs).1.trans (h.idle hus).1, (h.idle hus).2.trans (h'.idle hvs).2⟩

/-- What is taken from a course is taken from one that differs in its mode or its lookahead only. -/
theorem of_same (h : c₁.Moves us c') (ht : c₁.taken = c.taken) (hn : c₁.nodes = c.nodes)
    (ha : c.Replaces c₁.ahead) : c.Moves us c' where
  taken := ht ▸ h.taken
  nodes := hn ▸ ha.start ▸ h.nodes
  head t hu := ha.trans (h.head t hu)
  idle hu := ⟨(h.idle hu).1.trans hn, ha.trans (h.idle hu).2⟩

/-- What is taken reaches from the lookahead in front of it to its end. -/
theorem covers (h : c.Moves us c') (hu : us ≠ []) :
    (Span.between c.ahead.start c'.lastEnd).Covers id us := by
  obtain ⟨first, hfirst⟩ : ∃ first, us.head? = some first := by
    cases us with
    | nil => exact absurd rfl hu
    | cons t us => exact ⟨t, rfl⟩
  cases hl : us.getLast? with
  | none => exact absurd (List.getLast?_eq_none_iff.1 hl) hu
  | some last =>
    refine ⟨first, last, hfirst, hl, ?_⟩
    rw [← (h.head first hfirst).start, lastEnd, h.getLast? hu, hl]
    rfl

/-- The end of what was taken is a point of the source. -/
theorem lastEnd_isOf (h : c.Moves us c') (hu : us ≠ []) : c'.lastEnd.IsOf source := by
  cases hl : us.getLast? with
  | none => exact absurd (List.getLast?_eq_none_iff.1 hl) hu
  | some last =>
    rw [lastEnd, h.getLast? hu, hl]
    exact (h.lies last (List.mem_of_getLast? hl)).stop

/-- A node may be finished around what is taken, as long as all that was finished since lies in
it. -/
theorem mayFinish (h : c.Moves us c₁) (hu : us ≠ []) (hn : c'.nodes = c₁.nodes)
    (hle : c₁.lastEnd.offset ≤ c'.ahead.start.offset) :
    c'.MayFinish (.between c.ahead.start c₁.lastEnd) := by
  refine ⟨⟨_, _, rfl, c.ahead_lies.start, h.lastEnd_isOf hu, Nat.zero_le _, h.start_le hu, hle⟩,
    fun node hnode => ?_⟩
  obtain ⟨ms, hms, hin⟩ := h.nodes
  rw [hn, hms] at hnode
  rcases List.mem_append.1 hnode with hnode | hnode
  · exact (c.bounded node hnode).precedes (Nat.le_refl _)
  · exact (hin node hnode).2.precedes_around (Nat.le_refl _) (Nat.le_refl _)

/-- A node is finished between what was taken. -/
theorem finish {kind : NodeKind} {span : Span} (h : c.Moves us c') (hu : us ≠ [])
    (hk : kind ≠ .program) (hf : c'.MayFinish span)
    (hs : span.Lies source c.ahead.start.offset c'.lastEnd.offset) :
    c.Moves us (c'.finish kind span hf) := by
  obtain ⟨ms, hms, hin⟩ := h.nodes
  refine ⟨h.taken, ⟨ms ++ [NodeRecord.mk kind span], ?_, fun node hn => ?_⟩, h.head,
    fun hnil => absurd hnil hu⟩
  · rw [← List.append_assoc, ← hms]
    rfl
  · rcases List.mem_append.1 hn with hn | hn
    · exact hin node hn
    · obtain rfl := List.mem_singleton.1 hn
      exact ⟨hk, hs⟩

end Moves

/-- What is read on the way from one course to a later one is laid out as the given layout. -/
def Passes (c : Course source) (l : Layout) (c' : Course source) : Prop :=
  ∃ us, c.Moves us c' ∧ l.Laid id us

/-- What is read on the way from one course to a later one is a given tree. -/
abbrev Builds {k : Category} (c : Course source) (t : Tree k) (c' : Course source) : Prop :=
  c.Passes (.part .standalone t) c'

namespace Passes

variable {l l' : Layout} {c c₁ c' : Course source}

/-- Nothing is read. -/
theorem blank : c.Passes .blank c := ⟨[], .refl, .loose⟩

/-- One thing is read behind another. -/
theorem seq (h : c.Passes l c₁) (h' : c₁.Passes l' c') : c.Passes (.seq l l') c' := by
  obtain ⟨us, hmoves, hlaid⟩ := h
  obtain ⟨vs, hmoves', hlaid'⟩ := h'
  exact ⟨us ++ vs, hmoves.trans hmoves', .seq hlaid hlaid'⟩

/-- What is laid out in the same places is read, too. -/
theorem imp (h : c.Passes l c') (hl : ∀ us, l.Laid id us → l'.Laid id us) : c.Passes l' c' := by
  obtain ⟨us, hmoves, hlaid⟩ := h
  exact ⟨us, hmoves, hl us hlaid⟩

theorem part {k : Category} {t : Tree k} {s : Setting} (h : c.Passes (t.shape s) c')
    (fits : t.fits s = true) : c.Passes (.part s t) c' := h.imp fun _ hl => .part hl fits

theorem hidden (h : c.Passes .blank c') : c.Passes (.hidden .blank) c' := by
  refine h.imp fun _ hl => ?_
  cases hl
  exact .hidden

/-- The lookahead is taken. -/
theorem take {u : Token} {h : c.MayFollow u} (hl : l.Laid id [c.ahead]) :
    c.Passes l (c.take u h) := ⟨_, .take h, hl⟩

/-- The lookahead is taken as a word or mark. -/
theorem token {u : Token} {h : c.MayFollow u} {spelling : String} (hs : c.ahead.raw = spelling) :
    c.Passes (.token (c.ahead.lead ++ spelling)) (c.take u h) :=
  take (.token rfl (hs ▸ Nat.le_refl _))

/-- What is read is one or more tokens. -/
theorem exists_solid (h : c.Passes l c') (hl : l.isSolid = true) :
    ∃ us, us ≠ [] ∧ c.Moves us c' ∧ l.Laid id us := by
  obtain ⟨us, hmoves, hlaid⟩ := h
  exact ⟨us, hlaid.ne_nil hl, hmoves, hlaid⟩

/-- What is read is at least one token. -/
theorem length_lt (h : c.Passes l c') (hl : l.isSolid = true) :
    c.taken.length < c'.taken.length := by
  obtain ⟨us, hne, hmoves, -⟩ := h.exists_solid hl
  have hpos := List.length_pos_iff.2 hne
  rw [hmoves.taken, List.length_append]
  omega

/-- The extent of what is read. -/
theorem node (h : c.Passes l c') (hl : l.isSolid = true) :
    c.Passes (.node (.between c.ahead.start c'.lastEnd) l) c' := by
  obtain ⟨us, hne, hmoves, hlaid⟩ := h.exists_solid hl
  exact ⟨us, hmoves, .node hlaid (hmoves.covers hne)⟩

/-- What is read after a change of the mode is read in any case. -/
theorem of_inMode {mode : Mode} (h : (c.inMode mode).Passes l c') : c.Passes l c' := by
  obtain ⟨us, hmoves, hlaid⟩ := h
  exact ⟨us, hmoves.of_same rfl rfl .refl, hlaid⟩

/-- What is read behind another lookahead is read from where that one starts. -/
theorem of_replace {u : Token} {hu : c.MayReplace u} (h : (c.replace u hu).Passes l c')
    (ht : c.ahead.kind = .punctuator) : c.Passes l c' := by
  obtain ⟨us, hmoves, hlaid⟩ := h
  exact ⟨us, hmoves.of_same rfl rfl ⟨hu.same, .inr ht⟩, hlaid⟩

/-- What is in front of a layout has no tokens. -/
theorem drop {text : String} (h : c.Passes (.seq (.loose text) l) c') : c.Passes l c' := by
  refine h.imp fun us hl => ?_
  cases hl with
  | seq first rest =>
    cases first
    exact rest

theorem assoc {l'' : Layout} (h : c.Passes (.seq (.seq l l') l'') c') :
    c.Passes (.seq l (.seq l' l'')) c' := by
  refine h.imp fun us hl => ?_
  cases hl with
  | seq first rest =>
    cases first with
    | seq first middle =>
      rw [List.append_assoc]
      exact .seq first (.seq middle rest)

end Passes

/-! ### Rows -/

/-- Items that are read with commas between them, and maybe one behind the last. `F` says of an item
between which courses it is read. -/
inductive Rows {α : Type} (F : α → Course source → Course source → Prop) :
    List α → List String → Course source → Course source → Prop where
  /-- There is no item. -/
  | nil {c : Course source} : Rows F [] [] c c
  /-- There is one item without a comma behind it. -/
  | last {v : α} {c c' : Course source} (item : F v c c') : Rows F [v] [] c c'
  /-- There is an item with a comma behind it, and the others. -/
  | cons {v : α} {vs : List α} {comma : String} {commas : List String}
    {c c₁ c₂ c' : Course source} (item : F v c c₁) (separator : c₁.Passes (.token comma) c₂)
    (rest : Rows F vs commas c₂ c') : Rows F (v :: vs) (comma :: commas) c c'

namespace Rows

variable {α : Type} {F : α → Course source → Course source → Prop} {vs : List α}
  {commas : List String} {c c' : Course source}

/-- The layout of what is read. -/
theorem reads {f : α → Layout} (h : Rows F vs commas c c')
    (hf : ∀ {v c c'}, F v c c' → c.Passes (f v) c') : c.Passes (.list (vs.map f) commas) c' := by
  refine Passes.imp ?_ fun _ => .list
  induction h with
  | nil => exact .blank
  | last item => exact (hf item).seq .blank
  | @cons v vs comma commas c c₁ c₂ c' item separator rest ih =>
    cases rest with
    | nil => exact (hf item).seq separator
    | last | cons => exact (hf item).seq (separator.seq ih)

end Rows

end Course

open Course

/-- A list of trees. -/
theorem Course.Rows.builds {source : String} {k : Category} {vs : List (Tree k)}
    {commas : List String} {c c' : Course source}
    (h : Rows (fun v c c' => c.Builds v c') vs commas c c') :
    c.Passes (Tree.listOf (.ofList vs) commas) c' := by
  unfold Tree.listOf
  rw [Tree.toList_ofList]
  exact h.reads id

/-! ## What actions make of a course -/

/-- What is known of an action on a course: `post` holds behind it of its value and of what is then
known. -/
def Parse.Proceeds {source : String} {α : Type} (action : Parse α) (c : Course source)
    (post : α → Outlook source → Prop) : Prop := action.Meets (courses source) (.on c) post

/-- A value that is read between two courses, the latter of which the parser is then on. -/
def Parse.Yields {source : String} {α : Type} (action : Parse α) (c : Course source)
    (F : α → Course source → Prop) : Prop :=
  action.Proceeds c fun v o => ∃ c', o = .on c' ∧ F v c'

namespace Parse

section

variable {source : String} {α β : Type} {c : Course source} {post : α → Outlook source → Prop}

@[simp]
theorem proceeds_pure {value : α} : (pure value : Parse α).Proceeds c post = post value (.on c) :=
  rfl

@[simp]
theorem proceeds_bind {action : Parse β} {f : β → Parse α} :
    (action >>= f).Proceeds c post =
      action.Proceeds c fun v o => (f v).Meets (courses source) o post := rfl

@[simp]
theorem meets_on {action : Parse α} :
    action.Meets (courses source) (.on c) post = action.Proceeds c post := rfl

@[simp]
theorem proceeds_map {action : Parse β} {f : β → α} :
    (f <$> action).Proceeds c post = action.Proceeds c fun v o => post (f v) o := rfl

@[simp]
theorem proceeds_ite {b : Prop} [Decidable b] {yes no : Parse α} :
    (if b then yes else no).Proceeds c post =
      ((b → yes.Proceeds c post) ∧ (¬ b → no.Proceeds c post)) := by
  split <;> simp_all

@[simp]
theorem proceeds_fail {stage : Stage} {fault : Fault} {site : Site} :
    (fail stage fault site : Parse α).Proceeds c post = True := rfl

@[simp]
theorem proceeds_reject {fault : Fault} {site : Site} :
    (reject fault site : Parse α).Proceeds c post = True := rfl

@[simp]
theorem proceeds_look {post : Token → Outlook source → Prop} :
    look.Proceeds c post = post c.ahead (.on c) := rfl

@[simp]
theorem proceeds_next {post : Token → Outlook source → Prop} :
    next.Proceeds c post = ∀ u (h : c.MayFollow u), post c.ahead (.on (c.take u h)) := rfl

@[simp]
theorem proceeds_peek {post : Token → Outlook source → Prop} :
    peek.Proceeds c post = ∀ t : Token, post t (.on c) := rfl

@[simp]
theorem proceeds_rescan {post : Unit → Outlook source → Prop} :
    rescan.Proceeds c post = (c.mode = .tag ∧ c.ahead.isPunctuator "<" = true ∧
      (∀ u (h : c.MayReplace u), u.isPunctuator "<" = true → post () (.on (c.replace u h))) ∧
      ∀ u, post () (.deadEnd u)) := rfl

@[simp]
theorem proceeds_rescanRegex {post : Unit → Outlook source → Prop} :
    rescanRegex.Proceeds c post = (c.ahead.isOneOf ["/", "/="] = true ∧
      ∀ u (h : c.MayReplace u), post () (.on (c.replace u h))) := rfl

@[simp]
theorem proceeds_setMode {mode : Mode} {post : Unit → Outlook source → Prop} :
    (setMode mode).Proceeds c post = post () (.on (c.inMode mode)) := rfl

@[simp]
theorem proceeds_lastEnd {post : Position → Outlook source → Prop} :
    lastEnd.Proceeds c post = post c.lastEnd (.on c) := rfl

@[simp]
theorem proceeds_pending {post : Option Site → Outlook source → Prop} :
    pending.Proceeds c post = ∀ o : Option Site, post o (.on c) := rfl

@[simp]
theorem proceeds_setPending {o : Option Site} {post : Unit → Outlook source → Prop} :
    (setPending o).Proceeds c post = post () (.on c) := rfl

@[simp]
theorem proceeds_tolerate {fault : Fault} {site : Site} {post : Unit → Outlook source → Prop} :
    (tolerate fault site).Proceeds c post = post () (.on c) := rfl

@[simp]
theorem proceeds_here {post : Position → Outlook source → Prop} :
    here.Proceeds c post = post c.ahead.start (.on c) := rfl

@[simp]
theorem proceeds_sees {spelling : String} {post : Bool → Outlook source → Prop} :
    (sees spelling).Proceeds c post = post (c.ahead.isPunctuator spelling) (.on c) := rfl

@[simp]
theorem proceeds_seesKeyword {word : String} {post : Bool → Outlook source → Prop} :
    (seesKeyword word).Proceeds c post = post (c.ahead.isKeyword word) (.on c) := rfl

@[simp]
theorem proceeds_seesWord {word : String} {post : Bool → Outlook source → Prop} :
    (seesWord word).Proceeds c post = post (c.ahead.isWord word) (.on c) := rfl

@[simp]
theorem proceeds_stalled : (stalled : Parse α).Proceeds c post = True := rfl

@[simp]
theorem proceeds_unexpected {ctx : Context} {t : Token} :
    (unexpected ctx t : Parse α).Proceeds c post = True := rfl

@[simp]
theorem proceeds_unexpectedHere {ctx : Context} :
    (unexpectedHere ctx : Parse α).Proceeds c post = True := rfl

end

/-! ### Steps -/

namespace Proceeds

variable {source : String} {α β : Type} {c c₀ : Course source} {post : α → Outlook source → Prop}
  {ctx : Context}

theorem imp {action : Parse α} {post' : α → Outlook source → Prop} (h : action.Proceeds c post)
    (hp : ∀ v o, post v o → post' v o) : action.Proceeds c post' := Meets.imp h hp

/-! ### Single tokens -/

/-- The lookahead is taken as a word or mark. -/
theorem lead {spelling : String} {post : String → Outlook source → Prop}
    (hs : c.ahead.raw = spelling)
    (h : ∀ lead c', c.Passes (.token (lead ++ spelling)) c' → post lead (.on c')) :
    Parse.lead.Proceeds c post := fun _ _ => h _ _ (.token hs)

theorem kind_of_isPunctuator {t : Token} {spelling : String}
    (h : t.isPunctuator spelling = true) : t.kind = .punctuator := by
  simp only [Token.isPunctuator, Bool.and_eq_true, decide_eq_true_eq] at h
  exact h.1

theorem raw_of_isPunctuator {t : Token} {spelling : String}
    (h : t.isPunctuator spelling = true) : t.raw = spelling := by
  simp only [Token.isPunctuator, Bool.and_eq_true, beq_iff_eq] at h
  exact h.2

theorem raw_of_isKeyword {t : Token} {word : String} (h : t.isKeyword word = true) :
    t.raw = word := by
  simp only [Token.isKeyword, Bool.and_eq_true, beq_iff_eq] at h
  exact h.2

theorem raw_of_isWord {t : Token} {word : String} (h : t.isWord word = true) : t.raw = word := by
  simp only [Token.isWord, Bool.and_eq_true, beq_iff_eq] at h
  exact h.2

section

variable {spelling word : String} {post : String → Outlook source → Prop}

/-- The lookahead is taken if it is the given punctuator. -/
theorem expectTaken (h : ∀ u (hu : c.MayFollow u), c.ahead.raw = spelling →
    post c.ahead.lead (.on (c.take u hu))) : (Parse.expect ctx spelling).Proceeds c post := by
  simp only [Parse.expect, proceeds_bind, proceeds_sees, meets_on, proceeds_ite,
    proceeds_unexpectedHere, implies_true, and_true]
  exact fun ht u hu => h u hu (raw_of_isPunctuator ht)

theorem expect (h : ∀ lead c', c.Passes (.token (lead ++ spelling)) c' → post lead (.on c')) :
    (Parse.expect ctx spelling).Proceeds c post :=
  expectTaken fun _ _ hs => h _ _ (.token hs)

theorem expectKeyword (h : ∀ lead c', c.Passes (.token (lead ++ word)) c' → post lead (.on c')) :
    (Parse.expectKeyword ctx word).Proceeds c post := by
  simp only [Parse.expectKeyword, proceeds_bind, proceeds_seesKeyword, meets_on, proceeds_ite,
    proceeds_unexpectedHere, implies_true, and_true]
  exact fun ht => lead (raw_of_isKeyword ht) h

theorem expectWord (h : ∀ lead c', c.Passes (.token (lead ++ word)) c' → post lead (.on c')) :
    (Parse.expectWord ctx word).Proceeds c post := by
  simp only [Parse.expectWord, proceeds_bind, proceeds_seesWord, meets_on, proceeds_ite,
    proceeds_unexpectedHere, implies_true, and_true]
  exact fun ht => lead (raw_of_isWord ht) h

theorem separator (h : ∀ comma c', c.Passes (.token comma) c' → post comma (.on c')) :
    (Parse.separator ctx).Proceeds c post := expect fun _ c' hr => h _ c' hr

end

/-- A mark that may be missing. -/
theorem accept {spelling : String} {post : Option String → Outlook source → Prop}
    (hnone : post none (.on c))
    (hsome : ∀ lead c', c.Passes (.token (lead ++ spelling)) c' → post (some lead) (.on c')) :
    (Parse.accept spelling).Proceeds c post := by
  simp only [Parse.accept, proceeds_bind, proceeds_sees, meets_on,
    proceeds_ite, proceeds_pure]
  exact ⟨fun ht => lead (raw_of_isPunctuator ht) hsome, fun _ => hnone⟩

/-- A mark that may be missing, whose layout says whether it is. -/
theorem acceptMark {spelling : String} {post : Option String → Outlook source → Prop}
    (h : ∀ lead c', c.Passes (.mark lead spelling) c' → post lead (.on c')) :
    (Parse.accept spelling).Proceeds c post :=
  accept (h _ _ .blank) fun _ c' hr => h (some _) c' hr

theorem terminator {post : Terminator → Outlook source → Prop}
    (h : ∀ ending c', c.Passes ending.layout c' → post ending (.on c')) :
    (Parse.terminator ctx).Proceeds c post := by
  simp only [Parse.terminator, proceeds_bind, proceeds_look, meets_on, proceeds_ite, proceeds_pure,
    proceeds_unexpected, implies_true, and_true]
  exact ⟨fun ht => lead (raw_of_isPunctuator ht) fun _ c' hr => h _ c' hr, fun _ _ => h _ _ .blank⟩

/-! ### Nodes -/

/-- A node is finished around what was read. -/
theorem finish {l : Layout} {kind : NodeKind} {post : Span → Outlook source → Prop}
    (hr : c₀.Passes l c) (hl : l.isSolid = true) (hk : kind ≠ .program)
    (h : ∀ span c', c₀.Passes (.node span l) c' → post span (.on c')) :
    (Parse.finish kind c₀.ahead.start).Proceeds c post := by
  obtain ⟨us, hne, hmoves, hlaid⟩ := hr.exists_solid hl
  have hf := hmoves.mayFinish hne rfl c.lastEnd_le
  refine ⟨fun hp => absurd hp hk, fun _ => ⟨hf, h _ _ ⟨us, hmoves.finish hne hk hf ?_, .node hlaid
    (hmoves.covers hne)⟩⟩⟩
  exact ⟨_, _, rfl, c₀.ahead_lies.start, hmoves.lastEnd_isOf hne, Nat.le_refl _,
    hmoves.start_le hne, Nat.le_refl _⟩

/-- An extent of which no node is reported. -/
theorem extent {l : Layout} {post : Span → Outlook source → Prop} (hr : c₀.Passes l c)
    (hl : l.isSolid = true) (h : ∀ span, c₀.Passes (.node span l) c → post span (.on c)) :
    (Parse.extent c₀.ahead.start).Proceeds c post := h _ (hr.node hl)

/-- The extent of the token that was just taken. -/
theorem finishLeaf {kind : NodeKind} {u : Token} {hu : c.MayFollow u}
    {post : Span → Outlook source → Prop} (hk : kind ≠ .program)
    (h : ∀ span c', span = .between c.ahead.start c.ahead.stop → c'.ahead = u →
      c.Moves [c.ahead] c' → post span (.on c')) :
    (Parse.finish kind c.ahead.start).Proceeds (c.take u hu) post := by
  have hmoves : c.Moves [c.ahead] (c.take u hu) := .take hu
  have hne : [c.ahead] ≠ [] := List.cons_ne_nil _ _
  have hf := hmoves.mayFinish hne rfl (c.take u hu).lastEnd_le
  have hle := hmoves.start_le hne
  have hstop := hmoves.lastEnd_isOf hne
  refine ⟨fun hp => absurd hp hk, fun _ => ⟨hf, h _ _ (by rw [lastEnd_take]) rfl
    (hmoves.finish hne hk hf ?_)⟩⟩
  exact ⟨_, _, rfl, c.ahead_lies.start, hstop, Nat.le_refl _, hle, Nat.le_refl _⟩

theorem finishName {u : Token} {hu : c.MayFollow u} {post : Ident → Outlook source → Prop}
    (h : ∀ id c', c.Passes (.ident id) c' → post id (.on c')) :
    (Parse.finishName c.ahead).Proceeds (c.take u hu) post :=
  finishLeaf (by decide) fun _ c' hspan _ hmoves => h _ c' ⟨_, hmoves, .ident rfl rfl hspan⟩

theorem anyName {post : Ident → Outlook source → Prop}
    (h : ∀ id c', c.Passes (.ident id) c' → post id (.on c')) : Parse.anyName.Proceeds c post :=
  fun _ _ => finishName h

theorem finishPrivateName {u : Token} {hu : c.MayFollow u}
    {post : PrivateName → Outlook source → Prop} (ht : c.ahead.kind = .privateName)
    (h : ∀ name c', c.Passes name.layout c' → post name (.on c')) :
    (Parse.finishPrivateName c.ahead).Proceeds (c.take u hu) post := by
  refine finishLeaf (by decide) fun span c' hspan _ hmoves => h _ c' ⟨_, hmoves, ?_⟩
  obtain ⟨text, hvalue, hlength⟩ := c.formed.privateName ht
  refine .node (@Layout.Laid.token _ ("#" ++ text) _ _ ?_ ?_) (Span.covers_singleton.2 hspan)
  · simp [PrivateName.print, Token.text, hvalue, String.append_assoc]
  · rw [String.length_append]
    change 1 + text.length ≤ _
    omega

/-! ### Loops -/

/-- Reading items one after the other. -/
theorem many {k : Category} {ends : Token → Bool} {item : Parse (Tree k)} {rounds : Nat}
    {post : List (Tree k) → Outlook source → Prop}
    (hitem : ∀ c : Course source, item.Yields c fun v c' => c.Builds v c')
    (h : ∀ vs c', c.Builds (.ofList vs) c' → post vs (.on c')) :
    (Parse.many ends item rounds).Proceeds c post := by
  induction rounds generalizing c post with
  | zero => trivial
  | succ rounds ih =>
    simp only [Parse.many, proceeds_bind, proceeds_look, meets_on, proceeds_ite, proceeds_pure]
    refine ⟨fun _ => h [] _ (.part .blank rfl), fun _ => (hitem c).imp ?_⟩
    rintro v _ ⟨c₁, rfl, hv⟩
    exact ih fun vs c' hvs => h (v :: vs) c' (.part (hv.seq hvs) rfl)

/-- What a round of reading a list has read. -/
def RoundPasses (F : α → Course source → Course source → Prop) (c : Course source) :
    Round α → Course source → Prop
  | .item v, c' | .last v, c' => F v c c'
  | .hole v comma, c' => ∃ c₁, F v c c₁ ∧ c₁.Passes (.token comma) c'

/-- Reading a list with commas. -/
theorem listed {F : α → Course source → Course source → Prop} {close : String}
    {round : Parse (Round α)} {rounds : Nat} {post : List α × List String → Outlook source → Prop}
    (hround : ∀ c : Course source, round.Yields c (RoundPasses F c))
    (h : ∀ vs commas c', Rows F vs commas c c' → post (vs, commas) (.on c')) :
    (Parse.listed ctx close round rounds).Proceeds c post := by
  induction rounds generalizing c post with
  | zero => trivial
  | succ rounds ih =>
    simp only [Parse.listed, proceeds_bind, proceeds_sees, meets_on,
      proceeds_ite, proceeds_pure]
    refine ⟨fun _ => h _ _ _ .nil, fun _ => (hround c).imp ?_⟩
    rintro r _ ⟨c₁, rfl, hr⟩
    cases r with
    | last v => exact h _ _ _ (.last hr)
    | hole v comma =>
      obtain ⟨c₂, hv, hcomma⟩ := hr
      exact ih fun vs commas c' hvs => h _ _ _ (.cons hv hcomma hvs)
    | item v =>
      simp only [proceeds_bind, proceeds_sees, meets_on, proceeds_ite, proceeds_pure]
      refine ⟨fun _ => h _ _ _ (.last hr), fun _ => separator fun comma c₂ hcomma => ?_⟩
      exact ih fun vs commas c' hvs => h _ _ _ (.cons hr hcomma hvs)

/-- Reading items behind an item that was read, as long as commas follow. -/
theorem afterCommas {F : α → Course source → Course source → Prop} {item : Parse α} {rounds : Nat}
    {v : α} {post : List α × List String → Outlook source → Prop} (hv : F v c₀ c)
    (hitem : ∀ c : Course source, item.Yields c fun v c' => F v c c')
    (h : ∀ vs commas c', Rows F (v :: vs) commas c₀ c' → post (vs, commas) (.on c')) :
    (Parse.afterCommas ctx item rounds).Proceeds c post := by
  induction rounds generalizing c₀ c v post with
  | zero => trivial
  | succ rounds ih =>
    simp only [Parse.afterCommas, proceeds_bind, proceeds_sees, meets_on,
      proceeds_ite, proceeds_pure]
    refine ⟨fun _ => h _ _ _ (.last hv), fun _ => separator fun comma c₁ hcomma => ?_⟩
    refine (hitem c₁).imp ?_
    rintro w _ ⟨c₂, rfl, hw⟩
    exact ih hw fun vs commas c' hvs => h _ _ _ (.cons hv hcomma hvs)

/-- Repeating a step on a value that is read behind `c₀`. -/
theorem iterate {F : α → Course source → Prop} {step : α → Parse (Option α)} {rounds : Nat} {v : α}
    (hstep : ∀ v (c : Course source), F v c → (step v).Yields c fun w c' => F (w.getD v) c')
    (hv : F v c) (h : ∀ v c', F v c' → post v (.on c')) :
    (Parse.iterate step rounds v).Proceeds c post := by
  induction rounds generalizing c v with
  | zero => trivial
  | succ rounds ih =>
    simp only [Parse.iterate, proceeds_bind]
    refine (hstep v c hv).imp ?_
    rintro w _ ⟨c', rfl, hw⟩
    cases w with
    | none => exact h _ _ hw
    | some w => exact ih hw

end Proceeds

end Parse

end Verbatim
