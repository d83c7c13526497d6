import Verbatim.Proofs.Grammar.Declaration

/-!
# Loops are tracked

The three loops with `for` share what stands in front of their first part. What follows it adds to
that text.

## Main results

* `Verbatim.Tracks.forLoop`, `Verbatim.Tracks.whileLoop`, `Verbatim.Tracks.doWhileLoop`.
-/

namespace Verbatim

open Verbatim.Grammar

/-- The text in front of the first part of a loop with `for`. -/
def Grammar.ForHead.print (head : ForHead) : String :=
  head.lead ++ ("for" ++ (printMark head.awaitLead "await" ++ (head.openLead ++ "(")))

/-- The same in front of the first part of a loop, at other places. -/
structure Grammar.ForHead.Alike (head head' : ForHead) : Prop where
  /-- The trivia in front of `for`. -/
  lead : head'.lead = head.lead
  /-- The word `await`. -/
  awaitLead : head'.awaitLead = head.awaitLead
  /-- The trivia in front of the parenthesis. -/
  openLead : head'.openLead = head.openLead

variable [Exchange]

namespace Alike

/-- What is alike to a declarator has alike parts. -/
theorem declarator {target : Pattern} {value : Tree (.maybe .initializer)} {span : Span}
    {d' : Tree .declarator} (h : Alike (.declarator target value span) d') :
    ∃ target' value' span', d' = .declarator target' value' span' ∧ Alike target target' ∧
      Alike value value' := by
  cases d' with
  | declarator target' value' span' =>
    obtain ⟨ht, hv, -⟩ := Tree.declarator.inj h.tree
    exact ⟨target', value', span', rfl, ht, hv⟩

/-- What is alike to an expression in parentheses is one, with the same trivia. -/
theorem parenthesized {openLead closeLead : String} {e : Expr} {x : String × Expr × String}
    (h : Alike (openLead, e, closeLead) x) : ∃ e', x = (openLead, e', closeLead) ∧ Alike e e' := by
  obtain ⟨openLead', e', closeLead'⟩ := x
  obtain ⟨ho, h⟩ := alike_prod.1 h
  obtain ⟨he, hc⟩ := alike_prod.1 h
  obtain rfl := alike_string.1 ho
  obtain rfl := alike_string.1 hc
  exact ⟨e', rfl, he⟩

theorem allowsLoopValue {target target' : Pattern} {t t' : Token} (h : Alike target target')
    (ht : Alike t t') (ctx : Context) (kind : VariableKind) :
    Grammar.allowsLoopValue ctx kind target' t' = Grammar.allowsLoopValue ctx kind target t := by
  unfold Grammar.allowsLoopValue
  rw [ht.isKeyword, h.isNamePattern]

theorem hasPart {c : Category} {v v' : Tree (.maybe c)} (h : Alike v v') :
    v'.toOption.isSome = v.toOption.isSome := by
  have ht := h.tree
  cases v <;> cases v' <;> first | rfl | cases ht

end Alike

namespace Tracks

variable {fuel k : Nat} {m : Mode} {t t' : Token} {ctx : Context} {p p' : Productions}
  {head head' : ForHead}

/-- What the rest of a statement has taken behind the given text. -/
def AddsStmt (text : String) (s : Stmt) (tr : Trace) (_ : Token) : Prop := Adds text s.print tr

/-! ## The parts of loops -/

/-- An expression in parentheses that belong to a statement. -/
theorem inParentheses (hp : Mirrors p p' k) :
    Follows (k + 1) (Grammar.inParentheses p ctx) (Grammar.inParentheses p' ctx) fun v tr _ =>
      Spells (v.1 ++ ("(" ++ (v.2.1.print ++ (v.2.2 ++ ")")))) tr ∧ 0 < tr.count := by
  intro t t' ht
  unfold Grammar.inParentheses
  refine expect (by simp) ht fun _ u u' hu => bind (by omega) (hp.expression _ hu) ?_
  rintro e e' tr v v' ⟨he, -, -⟩ ha hv
  refine expect (by simp) hv fun _ w w' hw => pure ⟨⟨?_, ?_⟩, Trace.append_pos Nat.one_pos⟩ ?_
  · simp [he.text_eq, String.append_assoc]
  · simp [he.nest_eq]
  · exact alike_prod.2 ⟨rfl, alike_prod.2 ⟨ha, rfl⟩⟩

/-- An expression that may be missing. -/
theorem optionalBefore (hp : Mirrors p p' k) {close : String} :
    Follows k (Grammar.optionalBefore p ctx close) (Grammar.optionalBefore p' ctx close)
      fun v tr _ => Spells v.print tr := by
  intro t t' ht
  unfold Grammar.optionalBefore
  refine sees ht (ite rfl (fun _ => ?_) fun _ => ?_)
  · exact pure ⟨by simp [Tree.print_eq], fun _ => rfl⟩ (.refl _ rfl)
  · exact wrap (by omega) (hp.expression _ ht) (fun v tr u h => h.1) fun _ _ h =>
      congrArg Tree.present h

/-- A loop with a start, a test and a step, behind its start. -/
theorem finishFor (hp : Mirrors p p' k) {init init' : Tree (.maybe .forInit)}
    (hh : head.Alike head') (hi : Alike init init') (ht : Alike t t') :
    Tracks [] (k + 1) .normal .normal t t' (Grammar.finishFor p ctx head init)
      (Grammar.finishFor p' ctx head' init') (AddsStmt (head.print ++ init.print)) := by
  unfold Grammar.finishFor
  refine guard (by simp) (by rw [hh.awaitLead]) fun hnone => ?_
  refine expect (by simp) ht fun _ u u' hu => bind (by omega) (optionalBefore hp hu) ?_
  rintro test test' tr₁ v v' htest hta hv
  refine expect (by simp) hv fun _ w w' hw => bind (by omega) (optionalBefore hp hw) ?_
  rintro step step' tr₂ x x' hstep hsa hx
  refine expect (by simp) hx fun _ y y' hy => bind (by omega) (hp.statement _ hy) ?_
  rintro body body' tr₃ z z' ⟨hbody, -⟩ hba hz
  refine finish (by decide) hz fun span span' => pure ⟨?_, ?_⟩ ?_
  · have hawait : head.awaitLead = none := by simpa using hnone
    simp [ForHead.print, hawait, printMark, Tree.print_eq, htest.text_eq, hstep.text_eq,
      hbody.text_eq, String.append_assoc]
  · simp [htest.nest_eq, hstep.nest_eq, hbody.nest_eq]
  · exact .of_tree (by simp [hh.lead, hh.openLead, hi.tree, hta.tree, hsa.tree, hba.tree])

/-- A loop over keys or values, behind its target. -/
theorem finishForEach (hp : Mirrors p p' k) {left left' : Tree .forTarget}
    (hh : head.Alike head') (hl : Alike left left') (ht : Alike t t') :
    Tracks [] (k + 1) .normal .normal t t' (Grammar.finishForEach p ctx head left)
      (Grammar.finishForEach p' ctx head' left') (AddsStmt (head.print ++ left.print)) := by
  unfold Grammar.finishForEach
  refine seesKeyword ht (ite rfl (fun hs => ?_) fun _ => ?_)
  · unfold Grammar.finishForIn
    refine guard (by simp) (by rw [hh.awaitLead]) fun hnone => ?_
    refine lead notTag ht (.keyword hs) fun u u' hu => bind (by omega) (hp.expression _ hu) ?_
    rintro e e' tr v v' ⟨he, -, -⟩ ha hv
    refine expect (by simp) hv fun _ w w' hw => bind (by omega) (hp.statement _ hw) ?_
    rintro body body' tr' x x' ⟨hbody, -⟩ hba hx
    refine finish (by decide) hx fun span span' => pure ⟨?_, ?_⟩ ?_
    · have hawait : head.awaitLead = none := by simpa using hnone
      simp [ForHead.print, hawait, printMark, Tree.print_eq, he.text_eq, hbody.text_eq,
        String.append_assoc]
    · simp [he.nest_eq, hbody.nest_eq]
    · exact .of_tree (by simp [hh.lead, hh.openLead, hl.tree, ha.tree, hba.tree])
  · unfold Grammar.finishForOf
    refine expectWord ht fun _ u u' hu => bind (by omega) (hp.assignment _ hu) ?_
    rintro e e' tr v v' ⟨he, -, -⟩ ha hv
    refine expect (by simp) hv fun _ w w' hw => bind (by omega) (hp.statement _ hw) ?_
    rintro body body' tr' x x' ⟨hbody, -⟩ hba hx
    refine finish (by decide) hx fun span span' => pure ⟨?_, ?_⟩ ?_
    · simp [ForHead.print, Tree.print_eq, he.text_eq, hbody.text_eq, String.append_assoc]
    · simp [he.nest_eq, hbody.nest_eq]
    · exact .of_tree
        (by simp [hh.lead, hh.awaitLead, hh.openLead, hl.tree, ha.tree, hba.tree])

/-! ## Loops with `for` -/

omit [Exchange] in
theorem checkLoopVariables_absent {kind : VariableKind} {x : Token} {target : Pattern}
    {span : Span} {rest : List (Tree .declarator)} :
    Grammar.checkLoopVariables kind x (.declarator target .absent span :: rest) =
      match missingValue? kind target with
      | some fault => do
        let _ : Unit ← Parse.reject fault x.site
        Grammar.checkLoopVariables kind x rest
      | none => Grammar.checkLoopVariables kind x rest := by
  rw [Grammar.checkLoopVariables]
  cases missingValue? kind target <;> rfl

/-- The variables of a loop with a start, a test and a step are checked. -/
theorem checkLoopVariables {kind : VariableKind} {x x' : Token} {ds ds' : List (Tree .declarator)}
    (h : Alike ds ds') :
    Tracks [] fuel m m t t' (Grammar.checkLoopVariables kind x ds)
      (Grammar.checkLoopVariables kind x' ds') (Still (fun _ => True) t) := by
  induction ds generalizing ds' with
  | nil =>
    cases ds' with
    | nil => exact pure ⟨trivial, rfl, rfl⟩ (.refl _ rfl)
    | cons => exact absurd h not_alike_nil_cons
  | cons d ds ih =>
    cases ds' with
    | nil => exact absurd h not_alike_cons_nil
    | cons d' ds' =>
      obtain ⟨hd, hds⟩ := alike_cons.1 h
      cases d with
      | declarator target value span =>
        obtain ⟨target', value', span', rfl, htarget, hvalue⟩ := hd.declarator
        have hsome := hvalue.hasPart
        cases value with
        | absent =>
          cases value' with
          | present => exact absurd hsome (by simp [Tree.toOption])
          | absent =>
            rw [checkLoopVariables_absent, checkLoopVariables_absent, htarget.missingValue]
            cases missingValue? kind target with
            | some fault => exact stuck (Parse.fails_bind (Parse.fails_reject _ _))
            | none => exact ih hds
        | present =>
          cases value' with
          | absent => exact absurd hsome (by simp [Tree.toOption])
          | present =>
            unfold Grammar.checkLoopVariables
            exact ih hds

/-- A loop whose first part is a declaration. -/
theorem forVariables (hp : Mirrors p p' k) (hh : head.Alike head') (ht : Alike t t')
    (hd : Declares t) :
    Tracks [] (k + 1) .normal .normal t t' (Grammar.forVariables p ctx head)
      (Grammar.forVariables p' ctx head') (AddsStmt head.print) := by
  unfold Grammar.forVariables
  refine here ht (bind (by omega) (variableList hp ht hd) ?_)
  rintro v v' tr u u' ⟨hv, -⟩ ha hu
  refine finish (by decide) hu fun span span' => look hu ?_
  obtain ⟨-, hkind, hitems, -⟩ := ha.declared
  have hdecl := ha.declare none span span'
  have hprint : (v.declare none span).print = v.print := by
    simp [Variables.print_declare, printTerminator]
  -- The declaration is the start of a loop with a test and a step.
  have hother : Tracks [] (k + 1 - tr.count) .normal .normal u u'
      (Grammar.checkLoopVariables v.kind u v.items >>= fun _ =>
        Grammar.finishFor p ctx head (.present (.forDeclaration (v.declare none span))))
      (Grammar.checkLoopVariables v'.kind u' v'.items >>= fun _ =>
        Grammar.finishFor p' ctx head' (.present (.forDeclaration (v'.declare none span'))))
      fun s tr' => AddsStmt head.print s (tr ++ tr') := by
    rw [hkind]
    refine check (checkLoopVariables hitems) fun _ _ w' _ _ hw => ?_
    have hinit : Alike (Tree.present (.forDeclaration (v.declare none span)))
        (Tree.present (.forDeclaration (v'.declare none span'))) :=
      .of_tree (by simp [hdecl.tree])
    refine weaken (finishFor hp hh hinit hw) (fun s tr' y hs => Adds.behind hv ?_) (by omega)
    rw [← hprint]
    simpa [AddsStmt, Tree.print_eq] using hs
  rw [hu.isKeyword, hu.isWord]
  split
  · rename_i b items target value dspan hb hvs
    rw [hvs] at hitems
    obtain ⟨d', hvs', hd'⟩ := hitems.singleton
    obtain ⟨target', value', dspan', rfl, htarget, hvalue⟩ := hd'.declarator
    rw [hvs', hb]
    refine guard (by simp) ?_ fun _ => ?_
    · rw [hvalue.hasPart, hkind, htarget.allowsLoopValue hu]
    have hleft : Alike (Tree.targetDeclaration (v.declare none span))
        (Tree.targetDeclaration (v'.declare none span')) := .of_tree (by simp [hdecl.tree])
    refine weaken (finishForEach hp hh hleft hu) (fun s tr' y hs => Adds.behind hv ?_) (by omega)
    rw [← hprint]
    simpa [AddsStmt, Tree.print_eq] using hs
  · rename_i hno
    split
    · rename_i target' value' dspan' hb hvs'
      rw [hvs'] at hitems
      obtain ⟨⟨target, value, dspan⟩, hvs⟩ := hitems.of_singleton
      exact absurd hvs (hno _ _ _ hb)
    · exact hother

/-- A loop whose first part is an expression or a pattern. -/
theorem forExpression (hp : Mirrors p p' k) (hh : head.Alike head') (ht : Alike t t') :
    Tracks [] k .normal .normal t t' (Grammar.forExpression p ctx head)
      (Grammar.forExpression p' ctx head') (AddsStmt head.print) := by
  unfold Grammar.forExpression
  refine look ht (pending ht fun o o' ho => setPending ht alike_none
    (bind (by omega) (hp.cover _ ht) ?_))
  rintro e e' tr u u' ⟨he, hc, hcv⟩ ha hu
  refine look hu ?_
  dsimp only
  rw [hu.isKeyword]
  refine ite (by rw [hu.isWord, ht.isWord]) (fun _ => ?_) fun _ => ?_
  · refine check (assignmentTarget hu ha hcv) fun q q' w' hq hqq hw => setPending hw ho ?_
    refine weaken (finishForEach hp hh (congrArg Tree.targetPattern hqq) hw)
      (fun s tr' y hs => ?_) (by omega)
    rw [← hq] at he
    exact Adds.behind he (by simpa [AddsStmt, Tree.print_eq] using hs)
  · refine check (rejectPending hu) fun _ _ w' _ _ hw => setPending hw ho ?_
    refine bind (by omega) (sequenceFrom hp ha hcv hw) ?_
    rintro v v' tr' x x' ⟨hv, -⟩ hvv hx
    have hinit : Alike (Tree.present (.forExpr v)) (Tree.present (.forExpr v')) :=
      .of_tree (by simp [hvv.tree])
    refine weaken (finishFor hp hh hinit hx) (fun s tr₁ y hs => ?_) (by omega)
    rw [← Trace.append_assoc]
    exact Adds.behind (hv.spells he) (by simpa [AddsStmt, Tree.print_eq] using hs)

/-- The word `await` behind `for`. -/
theorem forAwait (ht : Alike t t') :
    Tracks [] fuel .normal .normal t t' (Grammar.forAwait ctx) (Grammar.forAwait ctx)
      fun o tr _ => tr = .perhaps o "await" := by
  unfold Grammar.forAwait
  refine look ht (ite (by rw [ht.isWord]) (fun _ => pure rfl alike_none) fun hs => ?_)
  have hawait : t.isWord "await" = true := by simpa using hs
  refine guard (by simp) rfl fun _ => lead notTag ht (.word hawait) fun u u' hu => ?_
  exact pure (Trace.append_empty _) (.refl _ rfl)

/-- The three loops with `for`. -/
theorem forLoop (hp : Mirrors p p' k) (ht : Alike t t') (hs : t.isKeyword "for" = true) :
    Tracks [] (k + 1) .normal .normal t t' (Grammar.forLoop p ctx) (Grammar.forLoop p' ctx)
      Prints := by
  unfold Grammar.forLoop
  refine next notTag ht (.keyword hs) fun u u' hu => seq (forAwait hu) ?_
  rintro o o' tr v v' rfl ho hv
  obtain rfl := alike_option_string.1 ho
  refine expect (by simp) hv fun _ w w' hw => ?_
  extract_lets head rest head' rest'
  have hh : head.Alike head' := ⟨ht.lead, rfl, rfl⟩
  have hhead : Spells head.print
      (.word t.lead "for" ++ (.perhaps o "await" ++ .mark v.lead "(")) := by
    refine ⟨?_, ?_⟩
    · simp [head, ForHead.print, String.append_assoc]
    · simp
  have hloop : ∀ {s : Stmt} {tr : Trace} {x : Token}, Adds head.print s.print tr →
      Prints s (.word t.lead "for" ++ (.perhaps o "await" ++ (.mark v.lead "(" ++ tr))) x := by
    intro s tr x h
    rw [← Trace.append_assoc (.perhaps o "await"), ← Trace.append_assoc]
    exact ⟨h.spells hhead, Trace.append_pos (Trace.append_pos Nat.one_pos)⟩
  refine look hw (ite (hw.isPunctuator _) (fun _ => ?_) fun _ => ?_)
  · refine weaken (finishFor hp hh (.refl Tree.absent rfl) hw) (fun s tr x h => hloop ?_) (by omega)
    simpa [AddsStmt, Tree.print_eq] using h
  have hrest : ∀ b, (b = true → Declares w) →
      Tracks [] (k + 1 - 1 - (Trace.perhaps o "await").count - 1) .normal .normal w w' (rest b)
        (rest' b) fun s tr =>
          Prints s (.word t.lead "for" ++ (.perhaps o "await" ++ (.mark v.lead "(" ++ tr))) := by
    intro b hb
    refine ite rfl (fun h => ?_) fun _ => ?_
    · exact weaken (forVariables hp hh hw (hb h)) (fun s tr x h => hloop h) (by omega)
    · exact weaken (forExpression hp hh hw) (fun s tr x h => hloop h) (by omega)
  refine ite (by rw [hw.isKeyword, hw.isKeyword]) (fun hb => pureThen (hrest _ fun _ => ?_))
    fun _ => ite (hw.isWord _) (fun hb => ?_) fun _ => pureThen (hrest _ (by simp))
  · rcases Bool.or_eq_true_iff.1 hb with hb | hb
    · exact .keyword hb rfl
    · exact .keyword hb rfl
  · have hd := Declares.«let» hb
    exact isLexicalDeclaration hw hd.word fun b => hrest b fun _ => hd

/-! ## Loops with `while` -/

/-- A loop with the test in front. -/
theorem whileLoop (hp : Mirrors p p' k) (ht : Alike t t') (hs : t.isKeyword "while" = true) :
    Tracks [] (k + 1) .normal .normal t t' (Grammar.whileLoop p ctx) (Grammar.whileLoop p' ctx)
      Prints := by
  unfold Grammar.whileLoop
  refine next notTag ht (.keyword hs) fun u u' hu => bind (by omega) (inParentheses hp hu) ?_
  rintro ⟨openLead, test, closeLead⟩ _ tr v v' ⟨htr, -⟩ ha hv
  obtain ⟨test', rfl, hta⟩ := ha.parenthesized
  refine bind (by omega) (hp.statement _ hv) ?_
  rintro body body' tr' w w' ⟨hbody, -⟩ hba hw
  refine finish (by decide) hw fun span span' => pure ⟨⟨?_, ?_⟩, Trace.append_pos Nat.one_pos⟩ ?_
  · simp [Tree.print_eq, htr.text_eq, hbody.text_eq, String.append_assoc]
  · simp [htr.nest_eq, hbody.nest_eq]
  · exact .of_tree (by simp [ht.lead, hta.tree, hba.tree])

/-- A loop with the test behind. -/
theorem doWhileLoop (hp : Mirrors p p' k) (ht : Alike t t') (hs : t.isKeyword "do" = true) :
    Tracks [] (k + 1) .normal .normal t t' (Grammar.doWhileLoop p ctx) (Grammar.doWhileLoop p' ctx)
      Prints := by
  unfold Grammar.doWhileLoop
  refine next notTag ht (.keyword hs) fun u u' hu => bind (by omega) (hp.statement _ hu) ?_
  rintro body body' tr v v' ⟨hbody, -⟩ hba hv
  refine expectKeyword hv fun _ w w' hw => bind (by omega) (inParentheses hp hw) ?_
  rintro ⟨openLead, test, closeLead⟩ _ tr' x x' ⟨htr, -⟩ ha hx
  obtain ⟨test', rfl, hta⟩ := ha.parenthesized
  refine sees hx ?_
  extract_lets rest rest'
  have hrest : ∀ {ending : Terminator} {y y' : Token} {tr₁ : Trace} {fuel : Nat},
      Spells ending.print tr₁ → Alike y y' →
      Tracks [] fuel .normal .normal y y' (rest ending) (rest' ending) fun s tr₂ z =>
        Prints s
          (.word t.lead "do" ++ (tr ++ (.word v.lead "while" ++ (tr' ++ (tr₁ ++ tr₂))))) z := by
    intro ending y y' tr₁ fuel hend hy
    refine finish (by decide) hy fun span span' => pure ⟨⟨?_, ?_⟩, Trace.append_pos Nat.one_pos⟩ ?_
    · simp [Tree.print_eq, htr.text_eq, hbody.text_eq, hend.text_eq, String.append_assoc]
    · simp [htr.nest_eq, hbody.nest_eq, hend.nest_eq]
    · exact .of_tree (by simp [ht.lead, hta.tree, hba.tree])
  refine ite rfl (fun _ => ?_) fun _ => ?_
  · refine seq (terminator hx) ?_
    rintro e e' tr₁ y y' he hee hy
    obtain rfl := alike_terminator.1 hee
    exact hrest he hy
  · have hnone : Spells Terminator.inserted.print .empty := ⟨rfl, fun _ => rfl⟩
    refine pureThen (imp (hrest hnone hx) fun s tr₂ z h => ?_)
    rwa [Trace.empty_append] at h

end Tracks

end Verbatim
