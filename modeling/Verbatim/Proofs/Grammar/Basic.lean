import Verbatim.Proofs.Taking

/-!
# The rules for the steps that productions are made of

A rule for each way to take a certain token or to close a node, and for each kind of loop. A loop
tracks its companion as long as the companion has at least as many rounds as there may be
characters before it, since every round takes a token.

## Main results

* `Verbatim.Tracks.expect`, `Verbatim.Tracks.accept`, `Verbatim.Tracks.terminator` — taking a token.
* `Verbatim.Tracks.finish` — closing a node.
* `Verbatim.Tracks.many`, `Verbatim.Tracks.listed`, `Verbatim.Tracks.afterCommas`,
  `Verbatim.Tracks.iterate` — loops.
-/

namespace Verbatim

/-! ## Rounds of a list -/

namespace Parse.Round

variable {α : Type}

/-- The item of a round. -/
def value : Round α → α
  | .item value | .hole value _ | .last value => value

/-- The text of a round. -/
def text (print : α → String) : Round α → String
  | .item value | .last value => print value
  | .hole value separator => print value ++ separator

section

variable (value : α) (separator : String) (print : α → String)

@[simp]
theorem value_item : (item value).value = value := rfl

@[simp]
theorem value_hole : (hole value separator).value = value := rfl

@[simp]
theorem value_last : (last value).value = value := rfl

@[simp]
theorem text_item : (item value).text print = print value := rfl

@[simp]
theorem text_hole : (hole value separator).text print = print value ++ separator := rfl

@[simp]
theorem text_last : (last value).text print = print value := rfl

end

/-- A round has taken tokens that spell its text, and has an item such that `P`. -/
def Spells (print : α → String) (P : α → Prop) (r : Round α) (tr : Trace) (_ : Token) : Prop :=
  Verbatim.Spells (r.text print) tr ∧ 0 < tr.count ∧ P r.value

variable [Placed α] {a b : α} {r : Round α} {separator : String}

@[simp]
theorem alike_items : Alike (item a) (item b) ↔ Alike a b :=
  iff_of_eq (item.injEq (expected a) (unplace b))

@[simp]
theorem alike_lasts : Alike (last a) (last b) ↔ Alike a b :=
  iff_of_eq (last.injEq (expected a) (unplace b))

@[simp]
theorem alike_holes {separator' : String} :
    Alike (hole a separator) (hole b separator') ↔ Alike a b ∧ separator = separator' :=
  iff_of_eq (hole.injEq (expected a) separator (unplace b) separator')

/-- What is alike to a round with an item is such a round. -/
theorem of_alike_item (h : Alike (item a) r) : ∃ b, r = item b ∧ Alike a b := by
  cases r with
  | item b => exact ⟨b, rfl, alike_items.1 h⟩
  | hole | last => cases h

theorem of_alike_hole (h : Alike (hole a separator) r) :
    ∃ b, r = hole b separator ∧ Alike a b := by
  cases r with
  | hole b separator' =>
    obtain ⟨hb, rfl⟩ := alike_holes.1 h
    exact ⟨b, rfl, hb⟩
  | item | last => cases h

theorem of_alike_last (h : Alike (last a) r) : ∃ b, r = last b ∧ Alike a b := by
  cases r with
  | last b => exact ⟨b, rfl, alike_lasts.1 h⟩
  | item | hole => cases h

end Parse.Round

namespace Tracks

variable [Exchange] {α β : Type} [Placed β] {owed : List Nat} {fuel fuel' : Nat} {m m' : Mode}
    {t t' : Token}
  {post : β → Trace → Token → Prop}

/-! ## The lookahead -/

theorem here {f f' : Position → Parse β} (ht : Alike t t')
    (h : Tracks owed fuel m m' t t' (f t.start) (f' t'.start) post) :
    Tracks owed fuel m m' t t' (Parse.here >>= f) (Parse.here >>= f') post :=
  assoc (look ht h)

theorem sees {f f' : Bool → Parse β} {spelling : String} (ht : Alike t t')
    (h : Tracks owed fuel m m' t t' (f (t.isPunctuator spelling)) (f' (t.isPunctuator spelling))
      post) :
    Tracks owed fuel m m' t t' (Parse.sees spelling >>= f) (Parse.sees spelling >>= f') post := by
  refine assoc (look ht ?_)
  rw [ht.isPunctuator]
  exact h

theorem seesKeyword {f f' : Bool → Parse β} {word : String} (ht : Alike t t')
    (h : Tracks owed fuel m m' t t' (f (t.isKeyword word)) (f' (t.isKeyword word)) post) :
    Tracks owed fuel m m' t t' (Parse.seesKeyword word >>= f) (Parse.seesKeyword word >>= f')
      post := by
  refine assoc (look ht ?_)
  rw [ht.isKeyword]
  exact h

theorem seesWord {f f' : Bool → Parse β} {word : String} (ht : Alike t t')
    (h : Tracks owed fuel m m' t t' (f (t.isWord word)) (f' (t.isWord word)) post) :
    Tracks owed fuel m m' t t' (Parse.seesWord word >>= f) (Parse.seesWord word >>= f') post := by
  refine assoc (look ht ?_)
  rw [ht.isWord]
  exact h

/-! ## Taking tokens -/

/-- Behind a value, the sequence goes on with the value. -/
theorem pureThen {γ : Type} {v v' : γ} {f f' : γ → Parse β}
    (h : Tracks owed fuel m m' t t' (f v) (f' v') post) :
    Tracks owed fuel m m' t t' (Pure.pure v >>= f) (Pure.pure v' >>= f') post :=
  h

/-- A branch, and the rest of the sequence behind it. -/
theorem iteThen {γ : Type} {b b' : Bool} {yes no yes' no' : Parse γ} {f f' : γ → Parse β}
    (hb : b' = b) (hyes : b = true → Tracks owed fuel m m' t t' (yes >>= f) (yes' >>= f') post)
    (hno : b = false → Tracks owed fuel m m' t t' (no >>= f) (no' >>= f') post) :
    Tracks owed fuel m m' t t' ((if b = true then yes else no) >>= f)
      ((if b' = true then yes' else no') >>= f') post := by
  subst hb
  cases b' with
  | true => exact hyes rfl
  | false => exact hno rfl

omit [Exchange] [Placed β] in
/-- A punctuator that may be taken is no closing brace in a tag. -/
theorem noClosing {spelling : String} (htag : m ≠ .tag ∨ spelling ≠ "\x7d")
    (hs : t.isPunctuator spelling = true) : m = .tag → t.isPunctuator "\x7d" = false := by
  rintro rfl
  have hr : t.raw = spelling := by simp_all [Token.isPunctuator]
  simp_all [Token.isPunctuator]

/-- The given punctuator is taken. No tag has a closing brace of its own. -/
theorem expect [m.Spaced] {f f' : String → Parse β} {ctx : Context} {spelling : String}
    (htag : m ≠ .tag ∨ spelling ≠ "\x7d") (ht : Alike t t')
    (h : t.isPunctuator spelling = true → ∀ u u', Alike u u' →
      Tracks owed (fuel - 1) m m' u u' (f t.lead) (f' t.lead) fun w tr =>
        post w (.mark t.lead spelling ++ tr)) :
    Tracks owed fuel m m' t t' (Parse.expect ctx spelling >>= f) (Parse.expect ctx spelling >>= f')
      post := by
  refine assoc (sees ht (iteThen rfl (fun hs => ?_) fun _ => stuck (by simp)))
  exact lead (noClosing htag hs) ht (.punctuator hs) (h hs)

theorem expectKeyword [m.Spaced] {f f' : String → Parse β} {ctx : Context} {word : String}
    (ht : Alike t t')
    (h : t.isKeyword word = true → ∀ u u', Alike u u' →
      Tracks owed (fuel - 1) m m' u u' (f t.lead) (f' t.lead) fun w tr =>
        post w (.word t.lead word ++ tr)) :
    Tracks owed fuel m m' t t' (Parse.expectKeyword ctx word >>= f)
      (Parse.expectKeyword ctx word >>= f') post := by
  refine assoc (seesKeyword ht (iteThen rfl (fun hs => ?_) fun _ => stuck (by simp)))
  refine lead (fun _ => ?_) ht (.keyword hs) (h hs)
  simp_all [Token.isPunctuator, Token.isKeyword]

theorem expectWord [m.Spaced] {f f' : String → Parse β} {ctx : Context} {word : String}
    (ht : Alike t t')
    (h : t.isWord word = true → ∀ u u', Alike u u' →
      Tracks owed (fuel - 1) m m' u u' (f t.lead) (f' t.lead) fun w tr =>
        post w (.word t.lead word ++ tr)) :
    Tracks owed fuel m m' t t' (Parse.expectWord ctx word >>= f)
      (Parse.expectWord ctx word >>= f') post := by
  refine assoc (seesWord ht (iteThen rfl (fun hs => ?_) fun _ => stuck (by simp)))
  refine lead (fun _ => ?_) ht (.word hs) (h hs)
  simp_all [Token.isPunctuator, Token.isWord]

/-- A comma is taken. -/
theorem separator [m.Spaced] {f f' : String → Parse β} {ctx : Context} (ht : Alike t t')
    (h : ∀ u u', Alike u u' → Tracks owed (fuel - 1) m m' u u' (f (t.lead ++ ","))
      (f' (t.lead ++ ","))
      fun w tr => post w (.mark t.lead "," ++ tr)) :
    Tracks owed fuel m m' t t' (Parse.separator ctx >>= f) (Parse.separator ctx >>= f') post :=
  assoc (expect (by simp) ht fun _ u u' hu => pureThen (h u u' hu))

/-- The given punctuator is taken if it is there. -/
theorem accept [m.Spaced] {f f' : Option String → Parse β} {spelling : String}
    (htag : m ≠ .tag ∨ spelling ≠ "\x7d") (ht : Alike t t')
    (hyes : t.isPunctuator spelling = true → ∀ u u', Alike u u' →
      Tracks owed (fuel - 1) m m' u u' (f (some t.lead)) (f' (some t.lead)) fun w tr =>
        post w (.mark t.lead spelling ++ tr))
    (hno : t.isPunctuator spelling = false → Tracks owed fuel m m' t t' (f none) (f' none) post) :
    Tracks owed fuel m m' t t' (Parse.accept spelling >>= f) (Parse.accept spelling >>= f')
      post := by
  refine assoc (sees ht (iteThen rfl (fun hs => ?_) fun hs => pureThen (hno hs)))
  exact assoc (lead (noClosing htag hs) ht (.punctuator hs) fun u u' hu =>
    pureThen (hyes hs u u' hu))

/-- The same of a punctuator that is no brace, with both cases as one. -/
theorem acceptMark [m.Spaced] {f f' : Option String → Parse β} {spelling : String}
    (hopen : spelling ≠ "\x7b") (hclose : spelling ≠ "\x7d") (ht : Alike t t')
    (h : ∀ o u u', Alike u u' → Tracks owed fuel m m' u u' (f o) (f' o) fun w tr =>
      post w (.perhaps o spelling ++ tr)) :
    Tracks owed fuel m m' t t' (Parse.accept spelling >>= f) (Parse.accept spelling >>= f')
      post := by
  refine accept (.inr hclose) ht (fun _ u u' hu => ?_) fun _ => ?_
  · refine (h (some t.lead) u u' hu).weaken (fun v tr u h => ?_) (Nat.sub_le _ _)
    rwa [Trace.mark_eq_word _ _ hopen hclose]
  · exact (h none t t' ht).imp fun v tr u h => by simpa using h

omit [Exchange] in
/-- Where the given punctuator is the lookahead, expecting it takes it. -/
theorem grabs_expect {q : Parser} {ctx : Context} {spelling : String}
    (h : q.lookahead.isPunctuator spelling = true) :
    Grabs (Parse.expect ctx spelling) Token.lead q.scanner.mode q := by
  obtain ⟨htakes, hrun⟩ := (grabs_next q).map Token.lead
  have hif : (if q.lookahead.isPunctuator spelling = true then Parse.lead
      else Parse.unexpectedHere ctx) = Parse.lead := if_pos h
  constructor
  · change (if q.lookahead.isPunctuator spelling = true then Parse.lead
      else Parse.unexpectedHere ctx).takes q = _
    rw [hif]
    exact htakes
  · change (if q.lookahead.isPunctuator spelling = true then Parse.lead
      else Parse.unexpectedHere ctx).run q = _
    rw [hif]
    exact hrun

/-- A punctuator is taken, behind which another mode holds. -/
theorem expectThen {f f' : String → Parse β} {ctx : Context} {spelling : String} {after : Mode}
    (htag : m ≠ .tag ∨ spelling ≠ "\x7d") (ht : Alike t t')
    (hshift : t.isPunctuator spelling = true → Shift m t after)
    (h : t.isPunctuator spelling = true → ∀ u u', Alike u u' →
      Tracks owed (fuel - 1) after m' u u' (f t.lead) (f' t.lead) fun w tr =>
        post w (.mark t.lead spelling ++ tr)) :
    Tracks owed fuel m m' t t' (Grammar.expectThen ctx spelling after >>= f)
      (Grammar.expectThen ctx spelling after >>= f') post := by
  cases hs : t.isPunctuator spelling with
  | true =>
    have hsp := Token.Spells.punctuator hs
    have hgrab : ∀ q : Parser, q.lookahead.isPunctuator spelling = true →
        Grabs (Grammar.expectThen ctx spelling after) Token.lead after q :=
      fun q hq => (grabs_expect (q := inMode q after) hq).setMode
    refine grab Token.lead false ht hsp.notEof (hshift hs) (noClosing htag hs)
      (fun q hq _ => hgrab q (hq ▸ hs)) (fun q hq _ => hgrab q (hq ▸ (ht.isPunctuator _).trans hs))
      ?_
    intro u u' hu
    rw [hsp.openings, hsp.trace, ht.lead]
    exact h hs u u' hu
  | false =>
    rintro q s v r - - - rfl hrun
    rw [Parse.run_bind] at hrun
    have hfail : ∀ v r, (Grammar.expectThen ctx spelling after).run q ≠ .ok v r := by
      intro v r hr
      have hr : (if q.lookahead.isPunctuator spelling = true then Parse.lead
        else Parse.unexpectedHere ctx).run (inMode q after) = .ok v r := hr
      rw [hs] at hr
      exact Parse.fails_unexpectedHere ctx _ _ _ hr
    split at hrun
    · exact absurd ‹_› (hfail _ _)
    · cases hrun

/-- The end of a statement. -/
theorem terminator {ctx : Context} (ht : Alike t t') :
    Tracks [] fuel .normal .normal t t' (Parse.terminator ctx) (Parse.terminator ctx) fun e tr _ =>
      Spells e.print tr := by
  unfold Parse.terminator
  refine look ht (ite (ht.isPunctuator _) (fun hs => ?_) fun _ => ?_)
  · refine lead notTag ht (.punctuator hs) fun u u' hu => pure ⟨?_, ?_⟩ (.refl _ rfl)
    · simp [Terminator.print]
    · simp
  · refine ite ?_ (fun _ => pure ⟨rfl, fun _ => rfl⟩ (.refl _ rfl)) fun _ => stuck (by simp)
    rw [ht.newlineBefore, ht.isPunctuator, ht.isEof]

/-! ## Nodes -/

theorem finishAt {f f' : Span → Parse β} {kind : NodeKind} {start start' stop stop' : Position}
    (ht : Alike t t') (hk : kind ≠ .template)
    (h : ∀ span span', Tracks owed fuel m m' t t' (f span) (f' span') post) :
    Tracks owed fuel m m' t t' (Parse.finishAt kind start stop >>= f)
      (Parse.finishAt kind start' stop' >>= f') post :=
  assoc (spanBetween ht (assoc (report ht hk (pureThen (h _ _)))))

/-- A node is closed, of which it counts where it starts. -/
theorem finishFrom {f f' : Span → Parse β} {kind : NodeKind} {start start' : Position}
    (hk : kind ≠ .template) (ht : Alike t t')
    (h : ∀ stop stop', Tracks owed fuel m m' t t' (f (.between start stop))
      (f' (.between start' stop')) post) :
    Tracks owed fuel m m' t t' (Parse.finish kind start >>= f) (Parse.finish kind start' >>= f')
      post :=
  assoc (lastEnd ht fun stop stop' => assoc (spanBetween ht
    (assoc (report ht hk (pureThen (h stop stop'))))))

/-- A node is closed. -/
theorem finish {f f' : Span → Parse β} {kind : NodeKind} {start start' : Position}
    (hk : kind ≠ .template) (ht : Alike t t')
    (h : ∀ span span', Tracks owed fuel m m' t t' (f span) (f' span') post) :
    Tracks owed fuel m m' t t' (Parse.finish kind start >>= f) (Parse.finish kind start' >>= f')
      post :=
  finishFrom hk ht fun _ _ => h _ _

theorem extent {f f' : Span → Parse β} {start start' : Position} (ht : Alike t t')
    (h : ∀ span span', Tracks owed fuel m m' t t' (f span) (f' span') post) :
    Tracks owed fuel m m' t t' (Parse.extent start >>= f) (Parse.extent start' >>= f') post :=
  assoc (lastEnd ht fun _ _ => spanBetween ht (h _ _))

/-- The token of a name becomes a name. -/
theorem finishName {x x' : Token} (ht : Alike t t') (hx : Alike x x')
    (hk : x.kind.isOvert = true) :
    Tracks [] fuel m m t t' (Parse.finishName x) (Parse.finishName x') fun id tr u =>
      id.lead = x.lead ∧ id.raw = x.raw ∧ id.name = x.text ∧ tr = .empty ∧ u = t := by
  unfold Parse.finishName
  refine finish (by decide) ht fun span span' => pure ⟨rfl, rfl, rfl, rfl, rfl⟩ ?_
  rw [hx.lead, hx.raw hk, hx.text hk]
  rfl

/-- Any word is taken as a name. -/
theorem anyName [m.Spaced] (ht : Alike t t') (hn : t.isAnyName = true) :
    Tracks [] fuel m m t t' Parse.anyName Parse.anyName fun id tr _ =>
      Spells id.print tr ∧ tr.count = 1 ∧ id.lead = t.lead ∧ id.raw = t.raw ∧ id.name = t.text := by
  have hk : t.kind.isOvert = true ∧ t.kind ≠ .punctuator := by
    cases hk : t.kind <;> simp_all [Token.isAnyName, TokenKind.isOvert]
  unfold Parse.anyName
  refine next (fun _ => by simp [Token.isPunctuator, hk.2]) ht (.anyName hn) fun u u' hu => ?_
  refine (finishName hu ht hk.1).weaken ?_ (Nat.le_refl _)
  rintro id tr u ⟨hl, hr, hnm, rfl, -⟩
  refine ⟨⟨?_, fun _ => rfl⟩, rfl, hl, hr, hnm⟩
  simp [Ident.print, hl, hr]

/-- The token of a private name becomes a private name. -/
theorem privateName [m.Spaced] (ht : Alike t t') (hk : t.kind = .privateName) :
    Tracks [] fuel m m t t' (Parse.next >>= Parse.finishPrivateName)
      (Parse.next >>= Parse.finishPrivateName) fun name tr _ =>
        Spells name.print tr ∧ tr.count = 1 := by
  refine formed fun hform => next (fun _ => by simp [Token.isPunctuator, hk]) ht (.privateName hk)
    fun u u' hu => ?_
  unfold Parse.finishPrivateName
  obtain ⟨text, hv, -⟩ := hform.privateName hk
  refine finish (by decide) hu fun span span' => pure ⟨⟨?_, fun _ => rfl⟩, rfl⟩ ?_
  · simp [PrivateName.print, String.append_assoc]
  · rw [ht.lead, ht.text_eq (by simp [hk]) hv]
    rfl

/-! ## Loops -/

section

variable [Placed α] {print : α → String} {P : α → Prop}

/-- With no characters left, the companion is never run. -/
theorem zero {action action' action'' : Parse β}
    (h : Tracks owed fuel m m' t t' action action' post) :
    Tracks owed 0 m m' t t' action action'' post := by
  intro q s v r hs hm hm' hq hrun
  obtain ⟨s', hs', hm₁, hm₂, hr, -⟩ := h q s v r hs hm hm' hq hrun
  exact ⟨s', hs', hm₁, hm₂, hr, fun nodes rest q' _ _ _ hl => absurd hl (Nat.not_lt_zero _)⟩

/-- A companion with enough rounds may be taken to have one more. -/
theorem rounds {action : Parse β} (loop : Nat → Parse β) {n : Nat} (hn : fuel ≤ n)
    (h : ∀ n, fuel ≤ n + 1 → Tracks owed fuel m m' t t' action (loop (n + 1)) post) :
    Tracks owed fuel m m' t t' action (loop n) post := by
  cases n with
  | zero =>
    obtain rfl : fuel = 0 := Nat.le_zero.1 hn
    exact (h 0 (Nat.zero_le _)).zero
  | succ n => exact h n hn

/-- The same of a loop that takes a token in its last round, too. -/
theorem roundsTaking {action : Parse β} (loop : Nat → Parse β) {n : Nat} (hn : fuel ≤ n + 1)
    (hpost : ∀ v tr u, post v tr u → 0 < tr.count)
    (h : ∀ n, fuel ≤ n + 2 → Tracks owed fuel m m' t t' action (loop (n + 1)) post) :
    Tracks owed fuel m m' t t' action (loop n) post := by
  cases n with
  | zero => exact (exhausted (h 0 (Nat.le_succ_of_le hn)) hpost).weaken (fun _ _ _ h => h) hn
  | succ n => exact h n hn

/-- Items up to a token that ends the list. -/
theorem many {item item' : Parse α} {ends : Token → Bool} {n' : Nat}
    (hfuel : fuel ≤ fuel') (hn : fuel ≤ n')
    (hends : ∀ {t t'}, Alike t t' → ends t' = ends t)
    (hitem : ∀ {t t'}, Alike t t' → Tracks [] fuel' m m t t' item item' fun v tr _ =>
      Spells (print v) tr ∧ 0 < tr.count) (n : Nat) (ht : Alike t t') :
    Tracks [] fuel m m t t' (Parse.many ends item n) (Parse.many ends item' n') fun vs tr u =>
      Spells (concat (vs.map print)) tr ∧ ends u = true := by
  induction n generalizing n' fuel t t' with
  | zero => exact stuck (Parse.fails_stalled)
  | succ n ih =>
    refine rounds _ hn fun n' hn => ?_
    unfold Parse.many
    refine look ht (ite (hends ht) (fun he => ?_) fun _ => ?_)
    · exact pure ⟨⟨rfl, fun _ => rfl⟩, he⟩ (.refl _ rfl)
    · refine bind (by omega) (hitem ht) ?_
      rintro v v' tr u u' ⟨hv, hc⟩ ha hu
      refine seq (ih (by omega) (by omega) hu) ?_
      rintro vs vs' tr' w w' ⟨hvs, he⟩ has hw
      refine pure ⟨⟨?_, ?_⟩, he⟩ (alike_cons.2 ⟨ha, has⟩)
      · simp [hv.text_eq, hvs.text_eq]
      · simp [hv.nest_eq, hvs.nest_eq]

/-- A list with commas: each round takes an item, or an item with its comma. -/
theorem listed [m.Spaced] {round round' : Parse (Parse.Round α)} {ctx : Context} {close : String}
    {n' : Nat} (hfuel : fuel ≤ fuel') (hn : fuel ≤ n')
    (hround : ∀ {t t'}, Alike t t' → Tracks [] fuel' m m t t' round round'
      (Parse.Round.Spells print P))
    (n : Nat) (ht : Alike t t') :
    Tracks [] fuel m m t t' (Parse.listed ctx close round n) (Parse.listed ctx close round' n')
      fun v tr _ => Spells (joinList (v.1.map print) v.2) tr ∧ (v.1 = [] → v.2 = []) ∧
        ∀ x ∈ v.1, P x := by
  induction n generalizing n' fuel t t' with
  | zero => exact stuck (Parse.fails_stalled)
  | succ n ih =>
    refine rounds _ hn fun n' hn => ?_
    unfold Parse.listed
    refine sees ht (ite rfl (fun _ => ?_) fun _ => ?_)
    · exact pure ⟨⟨rfl, fun _ => rfl⟩, by simp, by simp⟩ (.refl _ rfl)
    refine bind (by omega) (hround ht) ?_
    rintro r r' tr u u' ⟨hr, hc, hP⟩ ha hu
    -- An item with the comma behind it, in front of the rest of the list.
    have hcons : ∀ {v v' : α} {comma : String} {w w' : Token} {fuel₁ : Nat} {tr : Trace},
        Spells (print v ++ comma) tr → P v → Alike v v' → Alike w w' → fuel₁ ≤ fuel' → fuel₁ ≤ n' →
        Tracks [] fuel₁ m m w w'
          (Parse.listed ctx close round n >>= fun x => Pure.pure (v :: x.1, comma :: x.2))
          (Parse.listed ctx close round' n' >>= fun x => Pure.pure (v' :: x.1, comma :: x.2))
          fun v tr' _ => Spells (joinList (v.1.map print) v.2) (tr ++ tr') ∧
            (v.1 = [] → v.2 = []) ∧ ∀ x ∈ v.1, P x := by
      intro v v' comma w w' fuel₁ tr hv hPv hvv hww h₁ h₂
      refine seq (ih h₁ h₂ hww) ?_
      rintro ⟨vs, commas⟩ ⟨vs', commas'⟩ tr' w w' ⟨hvs, he, hPs⟩ has hw
      obtain ⟨has, hcs⟩ := alike_prod.1 has
      refine pure ⟨⟨?_, ?_⟩, by simp, ?_⟩ ?_
      · have he : vs.map print = [] → commas = [] := by simpa using he
        simp [hv.text_eq, hvs.text_eq, joinList_cons _ _ he, String.append_assoc]
      · simp [hv.nest_eq, hvs.nest_eq]
      · simpa using ⟨hPv, hPs⟩
      · exact alike_prod.2 ⟨alike_cons.2 ⟨hvv, has⟩, alike_cons.2 ⟨rfl, hcs⟩⟩
    cases r with
    | item v =>
      obtain ⟨v', rfl, hv⟩ := Parse.Round.of_alike_item ha
      dsimp only
      refine sees hu (ite rfl (fun _ => ?_) fun _ => ?_)
      · refine pure ⟨⟨?_, ?_⟩, by simp, by simpa using hP⟩ (by simpa using hv)
        · simp [hr.text_eq]
        · simp [hr.nest_eq]
      refine separator hu fun w w' hw => ?_
      have hcomma : Spells (print v ++ (u.lead ++ ",")) (tr ++ .mark u.lead ",") :=
        ⟨by simp [hr.text_eq], by simp [hr.nest_eq]⟩
      refine (hcons hcomma hP hv hw (by omega) (by omega)).weaken ?_ (Nat.le_refl _)
      intro x tr' _ h
      rw [← Trace.append_assoc]
      exact h
    | hole v comma =>
      obtain ⟨v', rfl, hv⟩ := Parse.Round.of_alike_hole ha
      exact hcons hr hP hv hu (by omega) (by omega)
    | last v =>
      obtain ⟨v', rfl, hv⟩ := Parse.Round.of_alike_last ha
      refine pure ⟨⟨?_, ?_⟩, by simp, by simpa using hP⟩ (by simpa using hv)
      · simp [hr.text_eq]
      · simp [hr.nest_eq]

/-- Items behind commas. -/
theorem afterCommas [m.Spaced] {item item' : Parse α} {ctx : Context} {n' : Nat}
    (hfuel : fuel ≤ fuel') (hn : fuel ≤ n')
    (hitem : ∀ {t t'}, Alike t t' → Tracks [] fuel' m m t t' item item' fun v tr _ =>
      Spells (print v) tr) (n : Nat) (ht : Alike t t') :
    Tracks [] fuel m m t t' (Parse.afterCommas ctx item n) (Parse.afterCommas ctx item' n')
      fun v tr _ => ∀ first, Adds first (joinList (first :: v.1.map print) v.2) tr := by
  induction n generalizing n' fuel t t' with
  | zero => exact stuck (Parse.fails_stalled)
  | succ n ih =>
    refine rounds _ hn fun n' hn => ?_
    unfold Parse.afterCommas
    refine sees ht (ite rfl (fun _ => ?_) fun _ => ?_)
    · exact pure (fun first => ⟨by simp, fun _ => rfl⟩) (.refl _ rfl)
    refine separator ht fun u u' hu => ?_
    refine bind (by omega) (hitem hu) ?_
    rintro v v' tr u u' hv ha hu
    refine seq (ih (by omega) (by omega) hu) ?_
    rintro ⟨vs, commas⟩ ⟨vs', commas'⟩ tr' w w' hvs has hw
    obtain ⟨has, hcs⟩ := alike_prod.1 has
    refine pure (fun first => ⟨?_, ?_⟩)
      (alike_prod.2 ⟨alike_cons.2 ⟨ha, has⟩, alike_cons.2 ⟨rfl, hcs⟩⟩)
    · rw [List.map_cons, joinList_cons _ _ (by simp), (hvs _).text_eq]
      simp [hv.text_eq, String.append_assoc]
    · simp [hv.nest_eq, (hvs "").nest_eq]

/-- A value that grows by steps, each of which takes what it adds. -/
theorem iterate {step step' : α → Parse (Option α)} {n' : Nat} (hfuel : fuel ≤ fuel')
    (hn : fuel ≤ n')
    (hstep : ∀ {v v' : α} {t t' : Token}, P v → Alike v v' → Alike t t' →
      Tracks [] fuel' m m t t' (step v) (step' v') fun w tr _ =>
        (∀ x ∈ w, Adds (print v) (print x) tr ∧ 0 < tr.count ∧ P x) ∧ (w = none → tr = .empty))
    (n : Nat) {v v' : α} (hP : P v) (hv : Alike v v') (ht : Alike t t') :
    Tracks [] fuel m m t t' (Parse.iterate step n v) (Parse.iterate step' n' v') fun w tr _ =>
      Adds (print v) (print w) tr ∧ P w := by
  induction n generalizing n' fuel t t' v v' with
  | zero => exact stuck (Parse.fails_stalled)
  | succ n ih =>
    refine rounds (fun n => Parse.iterate step' n v') hn fun n' hn => ?_
    unfold Parse.iterate
    refine bind (by omega) (hstep hP hv ht) ?_
    rintro w w' tr u u' ⟨hsome, hnone⟩ ha hu
    cases w with
    | none =>
      cases w' with
      | some w' => exact absurd ha not_alike_none_some
      | none =>
        obtain rfl := hnone rfl
        exact pure ⟨.refl _, hP⟩ hv
    | some w =>
      cases w' with
      | none => exact absurd ha not_alike_some_none
      | some w' =>
        obtain ⟨hw, hc, hPw⟩ := hsome w rfl
        refine (ih (by omega) (by omega) hPw (alike_some.1 ha) hu).weaken ?_ (Nat.le_refl _)
        rintro x tr' _ ⟨hx, hPx⟩
        exact ⟨hw.trans hx, hPx⟩

end

end Tracks

end Verbatim
