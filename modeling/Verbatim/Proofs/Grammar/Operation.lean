import Verbatim.Proofs.Grammar.Chain

/-!
# Operations are tracked

An operator is kept as what it means, and its text is what its token spelled.

## Main results

* `Verbatim.Tracks.unary`, `Verbatim.Tracks.exponentiation`, `Verbatim.Tracks.binary`,
  `Verbatim.Tracks.conditional` — the levels of operators.
-/

namespace Verbatim

open Verbatim.Grammar

/-! ## Operators of tokens -/

theorem UnaryOp.text_of_ofText? {text : String} {op : UnaryOp} (h : ofText? text = some op) :
    op.text = text := by
  simpa using List.find?_some h

theorem BinaryOp.text_of_ofText? {text : String} {op : BinaryOp} (h : ofText? text = some op) :
    op.text = text := by
  simpa using List.find?_some h

/-- A punctuator or reserved word that is no brace spells itself. -/
theorem Token.Spells.operator {t : Token} {text : String}
    (hk : t.kind = .punctuator ∨ t.kind = .keyword) (hr : t.raw = text) (ho : text ≠ "\x7b")
    (hc : text ≠ "\x7d") : t.Spells (.word t.lead text) := by
  subst hr
  rcases hk with hk | hk
  · have hs : t.isPunctuator t.raw = true := by simp [Token.isPunctuator, hk]
    rw [← Trace.mark_eq_word _ _ ho hc]
    exact .punctuator hs
  · exact .plain (by simp [hk])

theorem spells_unaryOp {t : Token} {op : UnaryOp} (h : unaryOp? t = some op) :
    t.Spells (.word t.lead op.text) := by
  unfold unaryOp? at h
  have hbrace : op.text ≠ "\x7b" ∧ op.text ≠ "\x7d" := by cases op <;> decide
  split at h
  · exact .operator (.inl ‹_›) (UnaryOp.text_of_ofText? h).symm hbrace.1 hbrace.2
  · exact .operator (.inr ‹_›) (UnaryOp.text_of_ofText? h).symm hbrace.1 hbrace.2
  · cases h

theorem isPunctuator_of_updateOp {t : Token} {op : UpdateOp} (h : updateOp? t = some op) :
    t.isPunctuator op.text = true := by
  unfold updateOp? at h
  split at h
  · cases h; assumption
  · split at h <;> cases h
    assumption

/-- The token of a binary operator spells it. -/
theorem spells_binaryOp {ctx : Context} {t : Token} {op : BinaryOp}
    (h : binaryOp? ctx t = some op) : t.Spells (.word t.lead op.text) := by
  have hbrace : op.text ≠ "\x7b" ∧ op.text ≠ "\x7d" := by cases op <;> decide
  unfold binaryOp? at h
  split at h
  · obtain ⟨hop, -⟩ := Option.filter_eq_some_iff.1 h
    exact .operator (.inl ‹_›) (BinaryOp.text_of_ofText? hop).symm hbrace.1 hbrace.2
  · refine .operator (.inr ‹_›) ?_ hbrace.1 hbrace.2
    split at h
    · cases h; simp_all [BinaryOp.text]
    · split at h <;> cases h
      simp_all [BinaryOp.text]
  · cases h

variable [Exchange]

namespace Alike

variable {t t' : Token}

theorem unaryOp? (h : Alike t t') : Grammar.unaryOp? t' = Grammar.unaryOp? t := by
  unfold Grammar.unaryOp?
  rw [h.kind]
  split <;> first | rfl | rw [h.raw (by simp [*])]

theorem updateOp? (h : Alike t t') : Grammar.updateOp? t' = Grammar.updateOp? t := by
  unfold Grammar.updateOp?
  rw [h.isPunctuator, h.isPunctuator]

theorem isAwait (h : Alike t t') (ctx : Context) :
    Grammar.isAwait ctx t' = Grammar.isAwait ctx t := by
  unfold Grammar.isAwait
  rw [h.isWord]

theorem binaryOp? (h : Alike t t') (ctx : Context) :
    Grammar.binaryOp? ctx t' = Grammar.binaryOp? ctx t := by
  unfold Grammar.binaryOp?
  rw [h.kind]
  split <;> first | rfl | rw [h.raw (by simp [*])]

theorem isOperationOf {e e' : Expr} (h : Alike e e') (ops : List BinaryOp) :
    Grammar.isOperationOf ops e' = Grammar.isOperationOf ops e :=
  h.congr _ fun _ _ e => by cases e <;> rfl

theorem mixesCoalescing {l l' r r' : Expr} (hl : Alike l l') (hr : Alike r r') (op : BinaryOp) :
    Grammar.mixesCoalescing op l' r' = Grammar.mixesCoalescing op l r := by
  unfold Grammar.mixesCoalescing
  simp only [hl.isOperationOf, hr.isOperationOf]

end Alike

namespace Tracks

variable {fuel k : Nat} {m : Mode} {t t' : Token} {ctx : Context} {p p' : Productions}

theorem rejectCover {e e' : Expr} (he : Alike e e') :
    Tracks [] fuel m m t t' (Grammar.rejectCover ctx e) (Grammar.rejectCover ctx e')
      (Still (fun _ => e.isCover = false) t) := by
  unfold Grammar.rejectCover
  exact ite he.isCover (fun _ => stuck (by simp)) fun hc => pure ⟨hc, rfl, rfl⟩ (.refl _ rfl)

/-! ## Unary operators -/

omit [Exchange] in
theorem checkUpdateTarget_other {e : Expr} {first : Token} {fault : Fault} (h : e.ident? = none) :
    Grammar.checkUpdateTarget ctx e first fault =
      if !e.isSimpleTarget then Parse.tolerate .invalidAssignmentTarget first.site
      else Pure.pure () := by
  unfold Grammar.checkUpdateTarget
  cases e <;> first | rfl | cases h

/-- Whether a step may change its operand is decided alike. -/
theorem checkUpdateTarget {e e' : Expr} {first first' : Token} {fault : Fault} (he : Alike e e')
    (ht : Alike t t') :
    Tracks [] fuel m m t t' (Grammar.checkUpdateTarget ctx e first fault)
      (Grammar.checkUpdateTarget ctx e' first' fault) (Still (fun _ => True) t) := by
  cases hi : e.ident? with
  | some id =>
    obtain rfl := Tree.eq_identifier hi
    obtain ⟨id', rfl, hid⟩ := he.identifier
    exact ite (by rw [hid.name]) (fun _ => tolerateLast ht) fun _ =>
      pure ⟨trivial, rfl, rfl⟩ (.refl _ rfl)
  | none =>
    rw [checkUpdateTarget_other hi, checkUpdateTarget_other (he.ident?_none hi)]
    exact ite (by rw [he.isSimpleTarget]) (fun _ => tolerateLast ht) fun _ =>
      pure ⟨trivial, rfl, rfl⟩ (.refl _ rfl)

/-- An operator and its operand. -/
theorem unaryOperation (hp : Mirrors p p' k) {op : UnaryOp} (ht : Alike t t')
    (hop : Grammar.unaryOp? t = some op) :
    Tracks [] (k + 1) .normal .normal t t' (Grammar.unaryOperation p ctx op)
      (Grammar.unaryOperation p' ctx op) Tells := by
  unfold Grammar.unaryOperation
  refine next notTag ht (spells_unaryOp hop) fun u u' hu => bind (by omega) (hp.unary _ hu) ?_
  rintro e e' tr v v' ⟨he, -, -⟩ ha hv
  refine check (rejectCover ha) fun _ _ w' _ _ hw => ?_
  extract_lets rest rest'
  have hrest : ∀ {fuel}, Tracks [] fuel .normal .normal v w' (rest ()) (rest' ()) fun e tr' =>
      Tells e (.word t.lead op.text ++ (tr ++ tr')) := by
    intro fuel
    refine finish (by decide) hw fun span span' => pure
      ⟨⟨?_, ?_⟩, Trace.append_pos Nat.one_pos, rfl⟩ ?_
    · simp [Tree.print_eq, he.text_eq, String.append_assoc]
    · simp [he.nest_eq]
    · exact .of_tree (by simp [ht.lead, ha.tree])
  cases hi : e.ident? with
  | some id =>
    obtain rfl := Tree.eq_identifier hi
    obtain ⟨id', rfl, -⟩ := ha.identifier
    cases op with
    | delete => exact ite rfl (fun _ => tolerate hw hrest) fun _ => hrest
    | _ => exact hrest
  | none =>
    have hi' := ha.ident?_none hi
    split
    · cases hi
    · split
      · cases hi'
      · exact hrest

/-- A value that is waited for. -/
theorem awaitOperation (hp : Mirrors p p' k) (ht : Alike t t') (hs : t.isWord "await" = true) :
    Tracks [] (k + 1) .normal .normal t t' (Grammar.awaitOperation p ctx)
      (Grammar.awaitOperation p' ctx) Tells := by
  unfold Grammar.awaitOperation
  dsimp only
  refine ite rfl (fun _ => ?_) fun _ => ?_
  · exact look ht (stuck (by simp))
  refine next notTag ht (.word hs) fun u u' hu => bind (by omega) (hp.unary _ hu) ?_
  rintro e e' tr v v' ⟨he, -, -⟩ ha hv
  refine check (rejectCover ha) fun _ _ w' _ _ hw => finish (by decide) hw fun span span' => ?_
  refine pure ⟨⟨?_, ?_⟩, Trace.append_pos Nat.one_pos, rfl⟩ ?_
  · simp [Tree.print_eq, he.text_eq, String.append_assoc]
  · simp [he.nest_eq]
  · exact .of_tree (by simp [ht.lead, ha.tree])

/-- A step in front of its operand. -/
theorem updateBefore (hp : Mirrors p p' k) {op : UpdateOp} (ht : Alike t t')
    (hop : Grammar.updateOp? t = some op) :
    Tracks [] (k + 1) .normal .normal t t' (Grammar.updateBefore p ctx op)
      (Grammar.updateBefore p' ctx op) Tells := by
  unfold Grammar.updateBefore
  refine next notTag ht (.punctuator (isPunctuator_of_updateOp hop)) fun u u' hu => look hu ?_
  refine bind (by omega) (hp.unary _ hu) ?_
  rintro e e' tr v v' ⟨he, -, -⟩ ha hv
  refine check (checkUpdateTarget ha hv) fun _ _ w' _ _ hw =>
    finish (by decide) hw fun span span' => ?_
  refine pure ⟨⟨?_, ?_⟩, Trace.append_pos Nat.one_pos, rfl⟩ ?_
  · simp [Tree.print_eq, he.text_eq, String.append_assoc]
  · cases op <;> simp [UpdateOp.text, he.nest_eq]
  · exact .of_tree (by simp [ht.lead, ha.tree])

/-- A chain, with a step behind it if one stands on the same line. -/
theorem updateAfter (hp : Mirrors p p' k) :
    Follows (k + 1) (Grammar.updateAfter p ctx) (Grammar.updateAfter p' ctx) Tells := by
  intro t t' ht
  unfold Grammar.updateAfter
  refine look ht (bind (by omega) (chain hp ht) ?_)
  rintro e e' tr u u' ⟨he, hc, hcv⟩ ha hu
  have hdone : ∀ {fuel}, Tracks [] fuel .normal .normal u u' (Pure.pure e) (Pure.pure e')
      fun v tr' => Tells v (tr ++ tr') := by
    intro fuel
    refine pure ?_ ha
    rw [Trace.append_empty]
    exact ⟨he, hc, hcv⟩
  refine look hu ?_
  rw [hu.updateOp?]
  split
  · exact hdone
  rename_i op hop
  refine ite hu.newlineBefore (fun _ => hdone) fun _ => ?_
  refine check (checkUpdateTarget ha hu) fun _ _ w' _ _ hw => ?_
  refine lead notTag hw (.punctuator (isPunctuator_of_updateOp hop)) fun x x' hx => ?_
  refine finish (by decide) hx fun span span' => pure ⟨⟨?_, ?_⟩, Trace.append_pos hc, rfl⟩ ?_
  · simp [Tree.print_eq, he.text_eq]
  · cases op <;> simp [UpdateOp.text, he.nest_eq]
  · exact .of_tree (by simp [ha.tree])

/-- Unary operators and steps. -/
theorem unary (hp : Mirrors p p' k) :
    Follows (k + 1) (Grammar.unary p ctx) (Grammar.unary p' ctx) Tells := by
  intro t t' ht
  unfold Grammar.unary
  refine look ht ?_
  rw [ht.unaryOp?]
  split
  · exact unaryOperation hp ht ‹_›
  refine ite (ht.isAwait ctx) (fun hs => ?_) fun _ => ?_
  · exact awaitOperation hp ht (by simp_all [Grammar.isAwait])
  rw [ht.updateOp?]
  split
  · exact updateBefore hp ht ‹_›
  · exact updateAfter hp ht

/-! ## Binary operators -/

/-- Exponentiation. -/
theorem exponentiation (hp : Mirrors p p' k) :
    Follows (k + 1) (Grammar.exponentiation p ctx) (Grammar.exponentiation p' ctx) Tells := by
  intro t t' ht
  unfold Grammar.exponentiation
  refine look ht (bind (by omega) (unary hp ht) ?_)
  rintro e e' tr u u' ⟨he, hc, hcv⟩ ha hu
  refine look hu (ite (by rw [hu.isPunctuator]) (fun _ => ?_) fun hs => ?_)
  · refine pure ?_ ha
    rw [Trace.append_empty]
    exact ⟨he, hc, hcv⟩
  refine guard (by simp) (by rw [ht.unaryOp?, ht.isAwait]) fun _ => ?_
  have hpower : u.isPunctuator "**" = true := by simpa using hs
  refine check (rejectCover ha) fun _ _ w' _ _ hw => ?_
  refine lead notTag hw (.punctuator hpower) fun x x' hx => ?_
  refine bind (by omega) (hp.exponentiation _ hx) ?_
  rintro r r' tr' y y' ⟨hr, -, -⟩ har hy
  refine check (rejectCover har) fun _ _ z' _ _ hz => finish (by decide) hz fun span span' => ?_
  refine pure ⟨⟨?_, ?_⟩, Trace.append_pos hc, rfl⟩ ?_
  · simp [Tree.print_eq, he.text_eq, hr.text_eq, BinaryOp.text, String.append_assoc]
  · simp [he.nest_eq, hr.nest_eq]
  · exact .of_tree (by simp [ha.tree, har.tree])

/-- One operator with its right operand. -/
theorem binaryStep (hp : Mirrors p p' k) {start start' : Position} {least : Nat} {e e' : Expr}
    (he : Alike e e') (ht : Alike t t') :
    Tracks [] (k + 1) .normal .normal t t' (Grammar.binaryStep p ctx start least e)
      (Grammar.binaryStep p' ctx start' least e') (LinksOption e) := by
  unfold Grammar.binaryStep
  refine look ht ?_
  rw [ht.binaryOp?]
  split
  · exact pure ⟨by simp, fun _ => rfl⟩ alike_none
  rename_i op hop
  refine iteProp Iff.rfl (fun _ => pure ⟨by simp, fun _ => rfl⟩ alike_none) fun _ => ?_
  refine check (rejectCover he) fun _ _ w' _ _ hw => ?_
  refine lead notTag hw (spells_binaryOp hop) fun x x' hx => bind (by omega) (hp.binary _ _ hx) ?_
  rintro r r' tr y y' ⟨hr, -, -⟩ har hy
  refine check (rejectCover har) fun _ _ z' _ _ hz => ?_
  refine guard (by simp) (he.mixesCoalescing har op) fun _ =>
    finish (by cases op.isLogical <;> decide) hz fun span span' => ?_
  refine pure ⟨?_, by simp⟩ (alike_some.2 (.of_tree (by simp [he.tree, har.tree])))
  intro x hx
  cases hx
  refine ⟨⟨?_, ?_⟩, Trace.append_pos Nat.one_pos, rfl⟩
  · simp [Tree.print_eq, hr.text_eq, String.append_assoc]
  · simp [hr.nest_eq]

/-- Binary operators of at least the given precedence. -/
theorem binary (hp : Mirrors p p' k) {least : Nat} :
    Follows (k + 1) (Grammar.binary p least ctx) (Grammar.binary p' least ctx) Tells := by
  intro t t' ht
  have hr := hp.rounds
  unfold Grammar.binary
  refine here ht (bind (by omega) (exponentiation hp ht) ?_)
  rintro e e' tr u u' ⟨he, hc, hcv⟩ ha hu
  refine imp (iterate (by omega) (by omega) (P := (·.isConvertible = true))
    (fun _ h₁ h₂ => binaryStep hp h₁ h₂) _ hcv ha
    hu) ?_
  rintro v tr' w ⟨hadds, hvcv⟩
  exact ⟨hadds.spells he, Trace.append_pos hc, hvcv⟩

/-! ## Choice -/

/-- A binary operation, or a choice between two values. -/
theorem conditional (hp : Mirrors p p' k) :
    Follows (k + 1) (Grammar.conditional p ctx) (Grammar.conditional p' ctx) Tells := by
  intro t t' ht
  unfold Grammar.conditional
  refine here ht (bind (by omega) (binary hp ht) ?_)
  rintro e e' tr u u' ⟨he, hc, hcv⟩ ha hu
  refine sees hu (ite rfl (fun _ => ?_) fun hs => ?_)
  · refine pure ?_ ha
    rw [Trace.append_empty]
    exact ⟨he, hc, hcv⟩
  refine check (rejectCover ha) fun _ _ w' _ _ hw => ?_
  have hquestion : u.isPunctuator "?" = true := by simpa using hs
  refine lead notTag hw (.punctuator hquestion) fun x x' hx =>
    bind (by omega) (hp.assignment _ hx) ?_
  rintro e₁ e₁' tr₁ y y' ⟨he₁, -, -⟩ ha₁ hy
  refine expect (by simp) hy fun _ z z' hz => bind (by omega) (hp.assignment _ hz) ?_
  rintro e₂ e₂' tr₂ v v' ⟨he₂, -, -⟩ ha₂ hv
  refine finish (by decide) hv fun span span' => pure ⟨⟨?_, ?_⟩, Trace.append_pos hc, rfl⟩ ?_
  · simp [Tree.print_eq, he.text_eq, he₁.text_eq, he₂.text_eq, String.append_assoc]
  · simp [he.nest_eq, he₁.nest_eq, he₂.nest_eq]
  · exact .of_tree (by simp [ha.tree, ha₁.tree, ha₂.tree])

end Tracks

end Verbatim
