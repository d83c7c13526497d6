import Verbatim.Scan.Read
import Verbatim.Source.Fault

/-!
# Readers take a front part and look little further

A reader leaves the end of the text that it was given. What it reads depends on the characters that
it takes, and on those behind them only as far as to see that it has to stop. So it reads the same
where the text behind goes on in another way, as long as the other way begins alike: two private
names begin with the same sign, neither a back quote nor a closing brace continues any token, and
what comes behind the sign that ends code or a tag is of no importance to what stands in front.

What it means that a run of a stateful action ends well comes first, by the way the action is built.

## Main definitions

* `Verbatim.Parts` — how two texts may part.
* `Verbatim.Read.Local` — readers that read the same where the text behind parts.
* `Verbatim.Read.Takes`, `Verbatim.Read.Yields` — how much a reader takes, and what it reads.

## Main results

* `Verbatim.Read.Local.bind`, `Verbatim.Read.Local.peek`, … — a rule for each way to build a reader.
-/

namespace Verbatim

/-! ## Runs that end well -/

namespace Run

variable {ε σ α β : Type} {s s' : σ} {value : β}

/-- A sequence ends well if both parts do. -/
@[simp]
theorem bind_eq_ok {x : EStateM ε σ α} {f : α → EStateM ε σ β} :
    (x >>= f) s = .ok value s' ↔ ∃ a s₁, x s = .ok a s₁ ∧ f a s₁ = .ok value s' := by
  change EStateM.bind x f s = _ ↔ _
  unfold EStateM.bind
  cases x s with
  | ok a s₁ =>
    constructor
    · exact fun h => ⟨a, s₁, rfl, h⟩
    · rintro ⟨_, _, h, h'⟩
      cases h
      exact h'
  | error e s₁ =>
    constructor
    · intro h
      cases h
    · rintro ⟨_, _, h, -⟩
      cases h

theorem get_bind (f : σ → EStateM ε σ α) : (get >>= f) s = f s s := rfl

@[simp]
theorem pure_eq_ok {v : β} :
    (pure v : EStateM ε σ β) s = .ok value s' ↔ v = value ∧ s = s' :=
  ⟨fun h => by cases h; exact ⟨rfl, rfl⟩, fun ⟨h, h'⟩ => by rw [h, h']; rfl⟩

@[simp]
theorem throw_ne_ok {e : ε} : ¬ (throw e : EStateM ε σ β) s = .ok value s' := fun h => by cases h

@[simp]
theorem get_eq_ok {v : σ} : (get : EStateM ε σ σ) s = .ok v s' ↔ v = s ∧ s' = s :=
  ⟨fun h => by cases h; exact ⟨rfl, rfl⟩, fun ⟨h, h'⟩ => by rw [h, h']; rfl⟩

@[simp]
theorem modify_eq_ok {f : σ → σ} {v : Unit} :
    (modify f : EStateM ε σ Unit) s = .ok v s' ↔ s' = f s :=
  ⟨fun h => by cases h; rfl, fun h => by rw [h]; rfl⟩

end Run

/-! ## Texts that part -/

/-- Two texts that begin with private names, or with a template piece behind either of its
delimiters, or with the same sign of two that end code and tags. -/
inductive Parts : List Char → List Char → Prop where
  /-- Two private names, neither of which is the line that names an interpreter. -/
  | number {l l' : List Char} (h : l.head? ≠ some '!') (h' : l'.head? ≠ some '!') :
      Parts ('#' :: l) ('#' :: l')
  /-- A template piece. -/
  | piece {l l' : List Char} : Parts ('\x60' :: l) ('\x7d' :: l')
  /-- The end of code in braces or of a tag. -/
  | sign {c : Char} {l l' : List Char} (hc : c = '>' ∨ c = '\x7d') : Parts (c :: l) (c :: l')

/-- A text without any of the signs at which texts part, but for an angle bracket at its end. -/
structure Blunt (text : List Char) : Prop where
  /-- It has no other sign. -/
  plain : ∀ c ∈ text, c ≠ '#' ∧ c ≠ '\x60' ∧ c ≠ '\x7d'
  /-- An angle bracket is the last character. -/
  last : '>' ∉ text.dropLast

theorem Blunt.drop {text : List Char} (h : Blunt text) (n : Nat) : Blunt (text.drop n) := by
  refine ⟨fun c hc => h.plain c (List.mem_of_mem_drop hc), fun hm => h.last ?_⟩
  rw [List.dropLast_eq_take] at hm ⊢
  have hpos := List.length_pos_of_mem (List.mem_of_mem_take hm)
  rw [List.length_drop] at hm hpos
  rw [List.take_drop] at hm
  exact List.take_subset_take_left _ (by omega) (List.mem_of_mem_drop hm)

namespace Parts

variable {a b x y : List Char}

theorem length_pos (h : Parts a b) : 0 < a.length := by
  cases h <;> exact Nat.succ_pos _

/-- What is behind the place where texts part is not reached by taking more than is in front. -/
theorem le_of_drop (h : Parts a b) {n : Nat} (hd : (x ++ a).drop n = y ++ a) : n ≤ x.length := by
  have hlen := congrArg List.length hd
  have hpos := h.length_pos
  simp only [List.length_drop, List.length_append] at hlen
  omega

/-- The front of the text stands in front of the place where texts part. -/
theorem drop_eq (h : Parts a b) {n : Nat} (hd : (x ++ a).drop n = y ++ a) :
    (x ++ b).drop n = y ++ b := by
  have hn := h.le_of_drop hd
  rw [List.drop_append_of_le_length hn] at hd ⊢
  rw [List.append_cancel_right hd]

/-- A run of characters that ends in front of the place where texts part ends there in both. -/
theorem span_eq (h : Parts a b) {p : Char → Bool} (hp : p '\x60' = false → p '\x7d' = false)
    (hd : (x ++ a).dropWhile p = y ++ a) :
    (x ++ b).dropWhile p = y ++ b ∧ (x ++ b).takeWhile p = (x ++ a).takeWhile p := by
  induction x with
  | cons c x ih =>
    by_cases hc : p c = true
    · simp only [List.cons_append, List.dropWhile_cons, List.takeWhile_cons, hc, if_true] at hd ⊢
      exact ⟨(ih hd).1, congrArg _ (ih hd).2⟩
    · simp only [List.cons_append, List.dropWhile_cons, List.takeWhile_cons, hc] at hd ⊢
      obtain rfl : c :: x = y := List.append_cancel_right (show c :: x ++ a = y ++ a from hd)
      exact ⟨rfl, rfl⟩
  | nil =>
    have hlen : (a.dropWhile p).length ≤ a.length := (List.dropWhile_suffix p).length_le
    have hy : y = [] := by
      rw [List.nil_append] at hd
      rw [hd, List.length_append] at hlen
      exact List.length_eq_zero_iff.1 (by omega)
    subst hy
    -- Nothing is taken, so the first character is not one of the run.
    have hstop : ∀ c l, (c :: l).dropWhile p = c :: l → p c = false := by
      intro c l hcl
      refine Bool.eq_false_iff.2 fun hc => ?_
      have hle := (List.dropWhile_suffix (l := l) p).length_le
      rw [List.dropWhile_cons, if_pos hc] at hcl
      rw [hcl, List.length_cons] at hle
      omega
    cases h with
    | number | sign =>
      have hc := hstop _ _ hd
      simp [hc]
    | piece =>
      have hc := hstop _ _ hd
      simp [hc, hp hc]

/-- Whether a text begins with one that has none of the signs behind the place where texts part. -/
theorem isPrefixOf_eq (h : Parts a b) {text : List Char} (ht : Blunt (text.drop x.length)) :
    text.isPrefixOf (x ++ a) = text.isPrefixOf (x ++ b) := by
  induction x generalizing text with
  | cons c x ih =>
    cases text with
    | nil => rfl
    | cons d text =>
      simp only [List.cons_append, List.isPrefixOf]
      rw [ih ht]
  | nil =>
    cases text with
    | nil => rfl
    | cons d text =>
      obtain ⟨h₁, h₂, h₃⟩ := ht.plain d List.mem_cons_self
      rw [← beq_eq_false_iff_ne] at h₁ h₂ h₃
      cases h with
      | number | piece => simp only [List.nil_append, List.isPrefixOf, h₁, h₂, h₃, Bool.false_and]
      | @sign c _ _ hc =>
        simp only [List.nil_append, List.isPrefixOf]
        by_cases hd : d = c
        · -- Nothing comes behind an angle bracket.
          subst hd
          obtain rfl := hc.resolve_right (beq_eq_false_iff_ne.1 h₃)
          cases text with
          | nil => rfl
          | cons e text => exact absurd List.mem_cons_self ht.last
        · rw [beq_eq_false_iff_ne.2 hd, Bool.false_and, Bool.false_and]

end Parts

namespace Read

variable {α β : Type} {guard : Char → Bool}

/-- A text holds a character of a class, unless the class is empty. -/
def Guarded (guard : Char → Bool) (text : List Char) : Prop :=
  ∀ c, guard c = true → ∃ d ∈ text, guard d = true

namespace Guarded

variable {x y : List Char}

theorem free : Guarded (fun _ => false) y := nofun

theorem append_left (h : Guarded guard y) : Guarded guard (x ++ y) := fun c hc =>
  let ⟨d, hd, hg⟩ := h c hc
  ⟨d, List.mem_append_right _ hd, hg⟩

theorem of_mem {c : Char} (hc : c ∈ y) (hg : guard c = true) : Guarded guard y :=
  fun _ _ => ⟨c, hc, hg⟩

theorem of_ne_nil (h : y ≠ []) : Guarded (fun _ => true) y := by
  obtain ⟨c, l, rfl⟩ := List.exists_cons_of_ne_nil h
  exact of_mem List.mem_cons_self rfl

/-- In front of nothing no class has characters. -/
theorem eq_false (h : Guarded guard []) (c : Char) : guard c = false := by
  refine Bool.eq_false_iff.2 fun hc => ?_
  obtain ⟨d, hd, -⟩ := h c hc
  cases hd

end Guarded

/-- What a reader leaves is the end of what it was given, and it reads the same where the text
behind what it takes parts. If `guard` has characters, this is only said of a reader that leaves
one of them in front of the place where the texts part. -/
structure Local (guard : Char → Bool) (r : Read α) : Prop where
  /-- It leaves the end of what it was given. -/
  suffix : ∀ {l m : List Char} {v : α}, r l = .ok v m → m <:+ l
  /-- It reads the same where the text behind parts. -/
  same : ∀ {x y a b : List Char} {v : α}, Parts a b → Guarded guard y →
    r (x ++ a) = .ok v (y ++ a) → r (x ++ b) = .ok v (y ++ b)

/-- A reader that takes at least the given number of characters. -/
def Takes (count : Nat) (r : Read α) : Prop :=
  ∀ ⦃l m : List Char⦄ ⦃v : α⦄, r l = .ok v m → m.length + count ≤ l.length

/-- Two readers behind the same one do the same if they do so on what that one leaves. -/
theorem bind_congr {r : Read α} {f g : α → Read β} {l : List Char}
    (h : ∀ v m, r l = .ok v m → f v m = g v m) : (r >>= f) l = (r >>= g) l := by
  change EStateM.bind r f l = EStateM.bind r g l
  unfold EStateM.bind
  cases hr : r l with
  | ok v m => exact h v m hr
  | error e m => rfl

/-- A reader that is local takes nothing back. -/
theorem Local.takes_zero {r : Read α} (h : Local guard r) : Takes 0 r :=
  fun _ _ _ hr => (h.suffix hr).length_le

/-- Taking a character takes one, unless there is none to take. -/
theorem Takes.skip_bind {f : Unit → Read α} {k : Nat} (hf : Takes k (f ()))
    (hnil : ∀ v m, f () [] ≠ .ok v m) : Takes (k + 1) (Read.skip 1 >>= f) := by
  intro l m v h
  cases l with
  | nil => exact absurd h (hnil v m)
  | cons c l =>
    have hlen := hf (show f () l = _ from h)
    simp only [List.length_cons]
    omega

theorem peek_bind (f : Option Char → Read α) (l : List Char) :
    (Read.peek >>= f) l = f l.head? l := rfl

theorem skip_bind (n : Nat) (f : Unit → Read α) (l : List Char) :
    (Read.skip n >>= f) l = f () (l.drop n) := rfl

theorem peekSecond_bind (f : Option Char → Read α) (l : List Char) :
    (Read.peekSecond >>= f) l = f l.tail.head? l := rfl

theorem remaining_bind (f : List Char → Read α) (l : List Char) :
    (Read.remaining >>= f) l = f l l := rfl

/-- A line terminator that is taken is not left. -/
theorem skipLineTerminator_suffix {l m : List Char} {v : Unit}
    (h : skipLineTerminator l = .ok v m) : m <:+ l.drop 1 := by
  obtain rfl : m = l.drop (if "\r\n".toList.isPrefixOf l then 2 else 1) := Run.modify_eq_ok.1 h
  split
  · rw [← List.drop_drop (i := 1)]
    exact List.drop_suffix 1 _
  · exact List.suffix_refl _

/-- What a reader reads together with the characters that it took. -/
theorem spelled_eq_ok {r : Read α} {l m : List Char} {v : α × List Char} :
    Read.spelled r l = .ok v m ↔ r l = .ok v.1 m ∧ v.2 = l.take (l.length - m.length) := by
  change EStateM.bind r _ l = _ ↔ _
  unfold EStateM.bind
  cases r l with
  | error e m => simp
  | ok u n =>
    change EStateM.Result.ok (u, l.take (l.length - n.length)) n = _ ↔ _
    constructor
    · rintro ⟨⟩
      exact ⟨rfl, rfl⟩
    · rintro ⟨⟨⟩, h⟩
      rw [← h]

theorem run_ite {c : Prop} [Decidable c] (r r' : Read α) (l : List Char) :
    (if c then r else r') l = if c then r l else r' l := by
  split <;> rfl

namespace Local

/-! ## Ways to build readers -/

/-- What is left is a part of what was given, and behind it is what was behind. -/
theorem exists_append {r : Read α} (h : Local guard r) {x y a : List Char} {v : α}
    (hr : r (x ++ a) = .ok v (y ++ a)) : ∃ w, x = w ++ y := by
  obtain ⟨w, hw⟩ := h.suffix hr
  rw [← List.append_assoc] at hw
  exact ⟨w, (List.append_cancel_right hw).symm⟩

theorem pure (v : α) : Local guard (Pure.pure v : Read α) where
  suffix h := by
    obtain ⟨-, rfl⟩ := Run.pure_eq_ok.1 h
    exact List.suffix_refl _
  same _ _ h := by
    obtain ⟨rfl, hy⟩ := Run.pure_eq_ok.1 h
    exact Run.pure_eq_ok.2 ⟨rfl, congrArg (· ++ _) (List.append_cancel_right hy)⟩

theorem throw (e : Fault) : Local guard (MonadExcept.throw e : Read α) where
  suffix h := absurd h Run.throw_ne_ok
  same _ _ h := absurd h Run.throw_ne_ok

/-- One reader after the other, where what the second takes guards the first. -/
theorem bindWith {guard' : Char → Bool} {r : Read α} {f : α → Read β} (hr : Local guard' r)
    (hf : ∀ v, Local guard (f v))
    (hg : ∀ {v u w y a}, f v (w ++ y ++ a) = .ok u (y ++ a) → Guarded guard y →
      Guarded guard' (w ++ y)) :
    Local guard (r >>= f) where
  suffix h := by
    obtain ⟨u, m, hu, hv⟩ := Run.bind_eq_ok.1 h
    exact ((hf u).suffix hv).trans (hr.suffix hu)
  same {x y a b v} hp hy h := by
    obtain ⟨u, m, hu, hv⟩ := Run.bind_eq_ok.1 h
    obtain ⟨w, rfl⟩ := (hf u).suffix hv
    rw [← List.append_assoc] at hu hv
    exact Run.bind_eq_ok.2 ⟨u, _, hr.same hp (hg hv hy) hu, (hf u).same hp hy hv⟩

theorem bind {r : Read α} {f : α → Read β} (hr : Local guard r) (hf : ∀ v, Local guard (f v)) :
    Local guard (r >>= f) :=
  bindWith hr hf fun _ hy => hy.append_left

/-- One reader after the other, where the second takes something. -/
theorem bindTakes {r : Read α} {f : α → Read β} (hr : Local (fun _ => true) r)
    (hf : ∀ v, Local guard (f v)) (ht : ∀ v, Takes 1 (f v)) : Local guard (r >>= f) := by
  refine bindWith hr hf fun {v u w y a} h _ => Guarded.of_ne_nil fun hnil => ?_
  have hlen := ht v h
  simp only [hnil, List.nil_append, List.length_append] at hlen
  omega

theorem ite {c : Prop} [Decidable c] {r r' : Read α} (h : Local guard r) (h' : Local guard r') :
    Local guard (if c then r else r') := by
  split
  · exact h
  · exact h'

theorem skip (n : Nat) : Local guard (Read.skip n) where
  suffix h := by
    obtain rfl := Run.modify_eq_ok.1 h
    exact List.drop_suffix _ _
  same hp _ h := Run.modify_eq_ok.2 (hp.drop_eq (Run.modify_eq_ok.1 h).symm).symm

/-- A reader that goes by the next character reads the same if it stops alike in front of a back
quote and of a closing brace. -/
theorem peek {f : Option Char → Read α} (hf : ∀ c, Local guard (f c))
    (hstop : (∀ c, guard c = false) → ∀ {l l' : List Char} {v : α},
      f (some '\x60') ('\x60' :: l) = .ok v ('\x60' :: l) →
        f (some '\x7d') ('\x7d' :: l') = .ok v ('\x7d' :: l')) :
    Local guard (Read.peek >>= f) := by
  refine ⟨fun {l m v} h => ?_, fun {x y a b v} hab hg h => ?_⟩
  · rw [peek_bind] at h
    exact (hf _).suffix h
  · rw [peek_bind] at h ⊢
    cases x with
    | cons c x => exact (hf _).same (x := c :: x) hab hg h
    | nil =>
      obtain ⟨w, hw⟩ := (hf _).exists_append h
      obtain ⟨-, rfl⟩ := List.append_eq_nil_iff.1 hw.symm
      cases hab with
      | number h₁ h₂ => exact (hf _).same (x := []) (y := []) (.number h₁ h₂) hg h
      | piece => exact hstop hg.eq_false h
      | sign hc => exact (hf _).same (x := []) (y := []) (.sign hc) hg h

/-- A reader that goes by the next character and takes it. -/
theorem peekTakes {f : Option Char → Read α} (hf : ∀ c, Local guard (f c))
    (ht : Takes 1 (Read.peek >>= f)) : Local guard (Read.peek >>= f) := by
  refine peek hf fun _ l l' v h => ?_
  have hlen := ht (show (Read.peek >>= f) ('\x60' :: l) = _ from h)
  simp only [List.length_cons] at hlen
  omega

/-- A reader that goes by the character after the next and takes both. -/
theorem peekSecondTakes {f : Option Char → Read α} (hf : ∀ c, Local guard (f c))
    (ht : Takes 2 (Read.peekSecond >>= f)) : Local guard (Read.peekSecond >>= f) := by
  refine ⟨fun {l m v} h => ?_, fun {x y a b v} hab hg h => ?_⟩
  · rw [peekSecond_bind] at h
    exact (hf _).suffix h
  · have hlen := ht h
    rw [peekSecond_bind] at h ⊢
    simp only [List.length_append] at hlen
    rcases x with _ | ⟨c, _ | ⟨d, x⟩⟩
    · simp only [List.length_nil] at hlen
      omega
    · simp only [List.length_cons, List.length_nil] at hlen
      omega
    · exact (hf _).same (x := c :: d :: x) hab hg h

/-- What a reader asks of the next character has the same answer for a back quote as for a closing
brace. -/
theorem peekIs {p : Char → Bool} (hp : (∀ c, guard c = false) → p '\x60' = p '\x7d') :
    Local guard (Read.peekIs p) := by
  refine peek (f := fun c => Pure.pure (c.any p)) (fun c => pure _) fun hg l l' v h => ?_
  obtain ⟨rfl, -⟩ := Run.pure_eq_ok.1 h
  exact Run.pure_eq_ok.2 ⟨(hp hg).symm, rfl⟩

/-- Taking characters that a back quote and a closing brace are not among. -/
theorem takeWhile {p : Char → Bool} (hp : p '\x60' = false → p '\x7d' = false) :
    Local guard (Read.takeWhile p) := by
  have hrun : ∀ l : List Char, Read.takeWhile p l = .ok (l.takeWhile p) (l.dropWhile p) :=
    fun _ => rfl
  refine ⟨fun {l m v} h => ?_, fun {x y a b v} hab _ h => ?_⟩
  · obtain ⟨-, rfl⟩ : l.takeWhile p = v ∧ l.dropWhile p = m := by simpa [hrun] using h
    exact List.dropWhile_suffix _
  · obtain ⟨rfl, hd⟩ : (x ++ a).takeWhile p = v ∧ (x ++ a).dropWhile p = y ++ a := by
      simpa [hrun] using h
    obtain ⟨hd', ht'⟩ := hab.span_eq hp hd
    rw [hrun, hd', ht']

theorem skipLineTerminator : Local guard Read.skipLineTerminator := by
  have hrun : ∀ {l m : List Char} {v}, Read.skipLineTerminator l = .ok v m ↔
      m = l.drop (if "\r\n".toList.isPrefixOf l then 2 else 1) := by
    intro l m v
    exact Run.modify_eq_ok
  refine ⟨fun h => ?_, fun {x y a b v} hab _ h => ?_⟩
  · rw [hrun.1 h]
    exact List.drop_suffix _ _
  · rw [hrun] at h ⊢
    have hblunt : Blunt "\r\n".toList := ⟨by simp, by simp⟩
    rw [← hab.isPrefixOf_eq (hblunt.drop _)]
    exact (hab.drop_eq h.symm).symm

/-- What a reader reads together with the characters that it took. -/
theorem spelled {r : Read α} (hr : Local guard r) : Local guard (Read.spelled r) := by
  refine ⟨fun {l m v} h => hr.suffix (spelled_eq_ok.1 h).1, fun {x y a b v} hab hg h => ?_⟩
  obtain ⟨h₁, h₂⟩ := spelled_eq_ok.1 h
  refine spelled_eq_ok.2 ⟨hr.same hab hg h₁, h₂.trans ?_⟩
  simp only [List.length_append, Nat.add_sub_add_right]
  rw [List.take_append_of_le_length (Nat.sub_le _ _),
    List.take_append_of_le_length (Nat.sub_le _ _)]

/-- A reader with a bound on its steps, where more steps than characters make no difference. -/
theorem bounded {r : Nat → Read α} (k : Nat) (hr : ∀ n, Local guard (r n))
    (hn : ∀ {n l}, l.length + k ≤ n → r n l = r (l.length + k) l) :
    Local guard (Read.remaining >>= fun l => r (l.length + k)) := by
  refine ⟨fun h => (hr _).suffix h, fun {x y a b v} hab hg h => ?_⟩
  rw [remaining_bind] at h ⊢
  have ha : (x ++ a).length + k ≤ (x ++ a).length + (x ++ b).length + k := by omega
  have hb : (x ++ b).length + k ≤ (x ++ a).length + (x ++ b).length + k := by omega
  rw [← hn ha] at h
  rw [← hn hb]
  exact (hr _).same hab hg h

end Local

/-- What the second of two readers leaves is left of what the first one leaves. -/
theorem bind_suffix {r : Read α} {f : α → Read β} {l m k : List Char} {v : β}
    (h : (r >>= f) l = .ok v m) (hr : ∀ {u m}, r l = .ok u m → m <:+ k)
    (hf : ∀ u, Local (fun _ => true) (f u)) : m <:+ k := by
  obtain ⟨u, m₁, hu, hv⟩ := Run.bind_eq_ok.1 h
  exact ((hf u).suffix hv).trans (hr hu)

/-! ## What a reader reads -/

/-- Whatever a reader reads has a property. -/
def Yields (P : α → Prop) (r : Read α) : Prop := ∀ ⦃l m : List Char⦄ ⦃v : α⦄, r l = .ok v m → P v

namespace Yields

variable {P : β → Prop}

theorem pure {v : β} (h : P v) : Yields P (Pure.pure v : Read β) := fun _ _ _ hr =>
  (Run.pure_eq_ok.1 hr).1 ▸ h

theorem throw (e : Fault) : Yields P (MonadExcept.throw e : Read β) := fun _ _ _ hr =>
  absurd hr Run.throw_ne_ok

theorem bind {r : Read α} {f : α → Read β} (h : ∀ v, Yields P (f v)) : Yields P (r >>= f) := by
  intro l m v hr
  obtain ⟨u, m₁, -, hv⟩ := Run.bind_eq_ok.1 hr
  exact h u hv

theorem ite {c : Prop} [Decidable c] {r r' : Read β} (h : Yields P r) (h' : Yields P r') :
    Yields P (if c then r else r') := by
  split
  · exact h
  · exact h'

end Yields

end Read

end Verbatim
