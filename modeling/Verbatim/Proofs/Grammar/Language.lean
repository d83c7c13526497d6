import Verbatim.Proofs.Grammar.Module

/-!
# Whole programs are tracked

The productions of one depth mirror those of another. By induction on the depth, from the theorems
on the single productions: the productions of a depth call those of the depth below, behind at least
one token of their own.

## Main results

* `Verbatim.Productions.mirrors` — productions of any two depths track each other.
* `Verbatim.Tracks.program` — a program spells what it was read from, and a companion reads an
  alike one.
-/

namespace Verbatim

variable [Exchange]

namespace Productions

omit [Exchange] in
@[simp]
theorem rounds_ofDepth (n : Nat) : (ofDepth n).rounds = n := by
  induction n with
  | zero => rfl
  | succ n ih => exact congrArg (· + 1) ih

/-- Productions that are never reached mirror any others. -/
theorem mirrors_exhausted (k : Nat) : Mirrors exhausted (ofDepth k) k where
  rounds := rounds_ofDepth k
  expression _ := fun _ => .stuck Parse.fails_stalled
  assignment _ := fun _ => .stuck Parse.fails_stalled
  cover _ := fun _ => .stuck Parse.fails_stalled
  binary _ _ := fun _ => .stuck Parse.fails_stalled
  exponentiation _ := fun _ => .stuck Parse.fails_stalled
  unary _ := fun _ => .stuck Parse.fails_stalled
  chain _ := fun _ => .stuck Parse.fails_stalled
  callee _ := fun _ => .stuck Parse.fails_stalled
  binding _ _ := fun _ => .stuck Parse.fails_stalled
  statement _ := fun _ => .stuck Parse.fails_stalled
  item _ := fun _ => .stuck Parse.fails_stalled
  markup _ := .stuck Parse.fails_stalled

/-- If productions mirror others, so do the productions that call them, one token further. -/
theorem mirrors_deepen {p p' : Productions} {k : Nat} (h : Mirrors p p' k) :
    Mirrors p.deepen p'.deepen (k + 1) where
  rounds := congrArg (· + 1) h.rounds
  expression _ := .expression h
  assignment _ := .assignment h
  cover _ := .cover h
  binary _ _ := .binary h
  exponentiation _ := .exponentiation h
  unary _ := .unary h
  chain _ := .chain h
  callee _ := .callee h
  binding _ _ := .binding h
  statement _ := .statement h
  item _ := .item h
  markup ht := .markup h ht

/-- With no characters left, a companion is never run. -/
theorem mirrors_zero {p p' : Productions} {k : Nat} (h : Mirrors p p' k) :
    Mirrors p exhausted 0 where
  rounds := rfl
  expression ctx := fun ht => (h.expression ctx ht).zero
  assignment ctx := fun ht => (h.assignment ctx ht).zero
  cover ctx := fun ht => (h.cover ctx ht).zero
  binary least ctx := fun ht => (h.binary least ctx ht).zero
  exponentiation ctx := fun ht => (h.exponentiation ctx ht).zero
  unary ctx := fun ht => (h.unary ctx ht).zero
  chain ctx := fun ht => (h.chain ctx ht).zero
  callee ctx := fun ht => (h.callee ctx ht).zero
  binding fault ctx := fun ht => (h.binding fault ctx ht).zero
  statement ctx := fun ht => (h.statement ctx ht).zero
  item ctx := fun ht => (h.item ctx ht).zero
  markup {start _ lead after ctx _ _} ht :=
    (show Tracks [] k .tag after _ _ (p.markup start lead after ctx)
      (p'.markup default lead after ctx) _
      from h.markup ht).zero

/-- Productions of any two depths track each other. -/
theorem mirrors (n k : Nat) : Mirrors (ofDepth n) (ofDepth k) k := by
  induction n generalizing k with
  | zero => exact mirrors_exhausted k
  | succ n ih =>
    cases k with
    | zero => exact mirrors_zero (mirrors_deepen (ih 0))
    | succ k => exact mirrors_deepen (ih k)

end Productions

namespace Tracks

variable {k : Nat} {t t' : Token} {p p' : Productions} {ctx : Context}

/-- What the body of a program is made of. -/
theorem goalItem (hp : Mirrors p p' k) {goal : Goal} :
    Follows k
      (match goal with | .script => p.item ctx | .module => Grammar.moduleItem p ctx)
      (match goal with | .script => p'.item ctx | .module => Grammar.moduleItem p' ctx) Prints := by
  cases goal with
  | script => exact hp.item _
  | module => exact fun ht => (moduleItem hp ht).weaken (fun _ _ _ h => h) (by omega)

/-- A whole source. -/
theorem program (hp : Mirrors p p' k) {goal : Goal} {allowsMarkup : Bool} (ht : Alike t t') :
    Tracks [] k .normal .normal t t' (Grammar.program p goal allowsMarkup)
      (Grammar.program p' goal allowsMarkup) fun v tr u =>
        Spells (concat (v.body.map (·.print))) tr ∧ u.isEof = true ∧ v.tail = u.lead := by
  have hr := hp.rounds
  unfold Grammar.program
  refine here ht (bind (by omega) (prologue hp ht) ?_)
  rintro ⟨ds, strict⟩ ⟨ds', strict'⟩ tr u u' hds ha hu
  obtain ⟨hd, hst⟩ := alike_prod.1 ha
  obtain rfl := alike_bool.1 hst
  dsimp only
  have hrest : Tracks [] (k - tr.count) .normal .normal u u' _ _
      fun (vs : List Stmt) tr u => Spells (concat (vs.map Tree.print)) tr ∧ u.isEof = true :=
    many (Nat.sub_le _ _) (show k - tr.count ≤ p'.rounds by omega) (fun h => h.isEof)
      (@goalItem _ k p p' { Context.start goal allowsMarkup with strict } hp goal)
      p.rounds hu
  refine seq hrest ?_
  rintro vs vs' tr' w w' ⟨hvs, heof⟩ hv hw
  refine look hw (finish (by decide) hw fun span span' => pure ⟨⟨?_, ?_⟩, heof, rfl⟩ ?_)
  · simp [hds.text_eq, hvs.text_eq]
  · simp [hds.nest_eq, hvs.nest_eq]
  · change Program.retouch _ _ = Program.retouch _ _
    simp only [Program.retouch, List.map_append, hd.trees, hv.trees, hw.lead]
    rfl

end Tracks

end Verbatim
