import Verbatim.Proofs.Grammar.Loop

/-!
# Statements are tracked

## Main results

* `Verbatim.Tracks.statement`, `Verbatim.Tracks.item`.
-/

namespace Verbatim

open Verbatim.Grammar

variable [Exchange]

namespace Alike

/-- The label that alike expressions are. -/
theorem labelOf {first first' after after' : Token} {e e' : Expr} (hf : Alike first first')
    (ha : Alike after after') (he : Alike e e') :
    Alike (labelOf? first after e) (labelOf? first' after' e') := by
  cases hi : e.ident? with
  | some id =>
    obtain rfl := Tree.eq_identifier hi
    obtain ⟨id', rfl, hid⟩ := he.identifier
    unfold labelOf?
    dsimp only
    rw [hf.isName, ha.isPunctuator]
    split <;> simp [hid]
  | none =>
    have hother : ∀ {first after : Token} {e : Expr}, e.ident? = none →
        labelOf? first after e = none := by
      intro first after e h
      cases e <;> first | rfl | cases h
    rw [hother hi, hother (he.ident?_none hi)]
    exact alike_none

end Alike

namespace Tracks

variable {β : Type} [Placed β] {owed : List Nat} {fuel k : Nat} {m m' : Mode} {t t' : Token}
  {ctx : Context} {p p' : Productions}

/-! ## Blocks and branches -/

/-- Statements in braces. -/
theorem block (hp : Mirrors p p' k) :
    Follows (k + 1) (Grammar.block p ctx) (Grammar.block p' ctx) Prints := by
  intro t t' ht
  unfold Grammar.block
  refine here ht (expect (by simp) ht fun _ u u' hu => bind (by omega) (items hp hu) ?_)
  rintro vs vs' tr v v' hvs ha hv
  refine expect (by simp) hv fun _ w w' hw => finish (by decide) hw fun span span' =>
    pure ⟨⟨?_, ?_⟩, Trace.append_pos Nat.one_pos⟩ (.of_tree (by simp [ha.trees]))
  · simp [Tree.print_eq, hvs.text_eq, String.append_assoc]
  · simp [hvs.nest_eq]

/-- A lone semicolon. -/
theorem emptyStatement (ht : Alike t t') (hs : t.isPunctuator ";" = true) :
    Tracks [] fuel .normal .normal t t' Grammar.emptyStatement Grammar.emptyStatement Prints := by
  unfold Grammar.emptyStatement
  refine next notTag ht (.punctuator hs) fun u u' hu => finish (by decide) hu fun span span' =>
    pure ⟨⟨?_, ?_⟩, Nat.one_pos⟩ (.of_tree (by simp [ht.lead]))
  · simp [Tree.print_eq]
  · simp

/-- The alternative of a branch. -/
theorem elseClause (hp : Mirrors p p' k) :
    Follows k (Grammar.elseClause p ctx) (Grammar.elseClause p' ctx) fun v tr _ =>
      Spells v.print tr := by
  intro t t' ht
  unfold Grammar.elseClause
  refine seesKeyword ht (ite rfl (fun hs => ?_) fun _ => ?_)
  · refine lead notTag ht (.keyword hs) fun u u' hu => bind (by omega) (hp.statement _ hu) ?_
    rintro s s' tr v v' ⟨hs, -⟩ ha hv
    refine pure ⟨?_, ?_⟩ (.of_tree (by simp [ha.tree]))
    · simp [Tree.print_eq, hs.text_eq, String.append_assoc]
    · simp [hs.nest_eq]
  · exact pure ⟨by simp [Tree.print_eq], fun _ => rfl⟩ (.refl _ rfl)

/-- A branch. -/
theorem ifStatement (hp : Mirrors p p' k) (ht : Alike t t') (hs : t.isKeyword "if" = true) :
    Tracks [] (k + 1) .normal .normal t t' (Grammar.ifStatement p ctx)
      (Grammar.ifStatement p' ctx) Prints := by
  unfold Grammar.ifStatement
  refine next notTag ht (.keyword hs) fun u u' hu => bind (by omega) (inParentheses hp hu) ?_
  rintro ⟨openLead, test, closeLead⟩ _ tr v v' ⟨htr, -⟩ ha hv
  obtain ⟨test', rfl, hta⟩ := ha.parenthesized
  refine bind (by omega) (hp.statement _ hv) ?_
  rintro s s' tr₁ w w' ⟨hs, -⟩ hsa hw
  refine bind (by omega) (elseClause hp hw) ?_
  rintro e e' tr₂ x x' he hea hx
  refine finish (by decide) hx fun span span' => pure ⟨⟨?_, ?_⟩, Trace.append_pos Nat.one_pos⟩ ?_
  · simp [Tree.print_eq, htr.text_eq, hs.text_eq, he.text_eq, String.append_assoc]
  · simp [htr.nest_eq, hs.nest_eq, he.nest_eq]
  · exact .of_tree (by simp [ht.lead, hta.tree, hsa.tree, hea.tree])

/-- A statement that sees the properties of an object as variables. -/
theorem withStatement (hp : Mirrors p p' k) (ht : Alike t t') (hs : t.isKeyword "with" = true) :
    Tracks [] (k + 1) .normal .normal t t' (Grammar.withStatement p ctx)
      (Grammar.withStatement p' ctx) Prints := by
  unfold Grammar.withStatement
  refine next notTag ht (.keyword hs) fun u u' hu => checked hu rfl
    (bind (by omega) (inParentheses hp hu) ?_)
  rintro ⟨openLead, test, closeLead⟩ _ tr v v' ⟨htr, -⟩ ha hv
  obtain ⟨test', rfl, hta⟩ := ha.parenthesized
  refine bind (by omega) (hp.statement _ hv) ?_
  rintro s s' tr₁ w w' ⟨hs, -⟩ hsa hw
  refine finish (by decide) hw fun span span' => pure ⟨⟨?_, ?_⟩, Trace.append_pos Nat.one_pos⟩ ?_
  · simp [Tree.print_eq, htr.text_eq, hs.text_eq, String.append_assoc]
  · simp [htr.nest_eq, hs.nest_eq]
  · exact .of_tree (by simp [ht.lead, hta.tree, hsa.tree])

/-- A function declaration where a statement is expected. -/
theorem nestedFunction (hp : Mirrors p p' k) :
    Follows (k + 1) (Grammar.nestedFunction p ctx) (Grammar.nestedFunction p' ctx) Prints := by
  intro t t' ht
  unfold Grammar.nestedFunction
  exact ite rfl (fun _ => look ht (tolerate ht (functionDeclaration hp ht))) fun _ =>
    functionDeclaration hp ht

/-! ## Jumps -/

/-- The label of a jump. -/
theorem jumpLabel (ht : Alike t t') :
    Tracks [] fuel .normal .normal t t' (Grammar.jumpLabel ctx) (Grammar.jumpLabel ctx)
      fun v tr _ => Spells (printName v) tr := by
  unfold Grammar.jumpLabel
  refine look ht (ite (by rw [ht.isName, ht.newlineBefore]) (fun _ => ?_) fun hs => ?_)
  · exact pure ⟨by simp [printName], fun _ => rfl⟩ alike_none
  have hn : t.isAnyName = true := by simp_all [Token.isName, Token.isAnyName]
  refine seq (anyName ht hn) ?_
  rintro id id' tr u u' ⟨hid, -⟩ ha hu
  refine guard (by simp) (by rw [ha.name]) fun _ => pure ⟨?_, ?_⟩ (alike_some.2 ha)
  · simp [printName, hid.text_eq]
  · simp [hid.nest_eq]

/-- The end of a loop, switch or labelled statement. -/
theorem breakStatement (ht : Alike t t') (hs : t.isKeyword "break" = true) :
    Tracks [] fuel .normal .normal t t' (Grammar.breakStatement ctx) (Grammar.breakStatement ctx)
      Prints := by
  unfold Grammar.breakStatement
  refine next notTag ht (.keyword hs) fun u u' hu => seq (jumpLabel hu) ?_
  rintro o o' tr v v' ho ha hv
  have hnone : o'.isNone = o.isNone := by cases o <;> cases o' <;> simp_all
  refine guard (by simp) (by rw [hnone]) fun _ => seq (terminator hv) ?_
  rintro e e' tr' w w' he hee hw
  obtain rfl := alike_terminator.1 hee
  refine finish (by decide) hw fun span span' => pure ⟨⟨?_, ?_⟩, Trace.append_pos Nat.one_pos⟩ ?_
  · simp [Tree.print_eq, ho.text_eq, he.text_eq, String.append_assoc]
  · simp [ho.nest_eq, he.nest_eq]
  · exact .of_tree (by simp [ht.lead, ha.option_ident])

/-- The end of one round of a loop. -/
theorem continueStatement (ht : Alike t t') (hs : t.isKeyword "continue" = true) :
    Tracks [] fuel .normal .normal t t' (Grammar.continueStatement ctx)
      (Grammar.continueStatement ctx) Prints := by
  unfold Grammar.continueStatement
  refine next notTag ht (.keyword hs) fun u u' hu => guard (by simp) rfl fun _ =>
    seq (jumpLabel hu) ?_
  rintro o o' tr v v' ho ha hv
  refine seq (terminator hv) ?_
  rintro e e' tr' w w' he hee hw
  obtain rfl := alike_terminator.1 hee
  refine finish (by decide) hw fun span span' => pure ⟨⟨?_, ?_⟩, Trace.append_pos Nat.one_pos⟩ ?_
  · simp [Tree.print_eq, ho.text_eq, he.text_eq, String.append_assoc]
  · simp [ho.nest_eq, he.nest_eq]
  · exact .of_tree (by simp [ht.lead, ha.option_ident])

/-- The end of a function. -/
theorem returnStatement (hp : Mirrors p p' k) (ht : Alike t t')
    (hs : t.isKeyword "return" = true) :
    Tracks [] (k + 1) .normal .normal t t' (Grammar.returnStatement p ctx)
      (Grammar.returnStatement p' ctx) Prints := by
  unfold Grammar.returnStatement
  refine next notTag ht (.keyword hs) fun u u' hu => ?_
  extract_lets rest after rest' after'
  have hrest : ∀ {v v' : Tree (.maybe .expr)} {tr : Trace} {w w' : Token} {fuel : Nat},
      Spells v.print tr → Alike v v' → Alike w w' →
      Tracks [] fuel .normal .normal w w' (rest v) (rest' v') fun s tr' x =>
        Prints s (.word t.lead "return" ++ (tr ++ tr')) x := by
    intro v v' tr w w' fuel hv ha hw
    refine seq (terminator hw) ?_
    rintro e e' tr' x x' he hee hx
    obtain rfl := alike_terminator.1 hee
    refine finish (by decide) hx fun span span' => pure ⟨⟨?_, ?_⟩, Trace.append_pos Nat.one_pos⟩ ?_
    · simp [Tree.print_eq, hv.text_eq, he.text_eq, String.append_assoc]
    · simp [hv.nest_eq, he.nest_eq]
    · exact .of_tree (by simp [ht.lead, ha.tree])
  refine checked hu rfl (look hu (ite ?_ (fun _ => ?_) fun _ => ?_))
  · unfold Grammar.endsStatement
    rw [hu.newlineBefore, hu.isPunctuator, hu.isPunctuator, hu.isEof]
  · have habsent : Spells (Tree.absent : Tree (.maybe .expr)).print .empty :=
      ⟨by simp [Tree.print_eq], fun _ => rfl⟩
    refine pureThen (imp (hrest habsent (.refl _ rfl) hu) fun s tr x h => ?_)
    rwa [Trace.empty_append] at h
  · refine assoc (bind (by omega) (hp.expression _ hu) ?_)
    rintro e e' tr v v' ⟨he, -, -⟩ ha hv
    exact hrest he (congrArg Tree.present ha) hv

/-- The raising of an exception. -/
theorem throwStatement (hp : Mirrors p p' k) (ht : Alike t t') (hs : t.isKeyword "throw" = true) :
    Tracks [] (k + 1) .normal .normal t t' (Grammar.throwStatement p ctx)
      (Grammar.throwStatement p' ctx) Prints := by
  unfold Grammar.throwStatement
  refine next notTag ht (.keyword hs) fun u u' hu => look hu
    (guard (by simp) hu.newlineBefore fun _ => ?_)
  refine bind (by omega) (hp.expression _ hu) ?_
  rintro v v' tr w w' ⟨hv, -, -⟩ ha hw
  refine seq (terminator hw) ?_
  rintro e e' tr' x x' he hee hx
  obtain rfl := alike_terminator.1 hee
  refine finish (by decide) hx fun span span' => pure ⟨⟨?_, ?_⟩, Trace.append_pos Nat.one_pos⟩ ?_
  · simp [Tree.print_eq, hv.text_eq, he.text_eq, String.append_assoc]
  · simp [hv.nest_eq, he.nest_eq]
  · exact .of_tree (by simp [ht.lead, ha.tree])

/-- A stop for the debugger. -/
theorem debuggerStatement (ht : Alike t t') (hs : t.isKeyword "debugger" = true) :
    Tracks [] fuel .normal .normal t t' (Grammar.debuggerStatement ctx)
      (Grammar.debuggerStatement ctx) Prints := by
  unfold Grammar.debuggerStatement
  refine next notTag ht (.keyword hs) fun u u' hu => seq (terminator hu) ?_
  rintro e e' tr' x x' he hee hx
  obtain rfl := alike_terminator.1 hee
  refine finish (by decide) hx fun span span' => pure ⟨⟨?_, ?_⟩, Trace.append_pos Nat.one_pos⟩ ?_
  · simp [Tree.print_eq, he.text_eq, String.append_assoc]
  · simp [he.nest_eq]
  · exact .of_tree (by simp [ht.lead])

/-! ## Handlers -/

/-- The target of an exception. -/
theorem catchParameter (hp : Mirrors p p' k) :
    Follows (k + 1) (Grammar.catchParameter p ctx) (Grammar.catchParameter p' ctx) fun v tr _ =>
      Spells v.print tr := by
  intro t t' ht
  unfold Grammar.catchParameter
  refine accept (by simp) ht (fun _ u u' hu => ?_) fun _ =>
    pure ⟨by simp [Tree.print_eq], fun _ => rfl⟩ (.refl _ rfl)
  refine look hu (bind (by omega) (hp.binding _ _ hu) ?_)
  rintro q q' tr v v' ⟨hq, -⟩ ha hv
  have hnames : repeatsName q'.boundNames = repeatsName q.boundNames := by
    unfold repeatsName
    rw [ha.names]
  refine guard (by simp) hnames fun _ => expect (by simp) hv fun _ w w' hw => pure ⟨?_, ?_⟩ ?_
  · simp [Tree.print_eq, hq.text_eq, String.append_assoc]
  · simp [hq.nest_eq]
  · exact .of_tree (by simp [ha.tree])

/-- A handler. -/
theorem catchClause (hp : Mirrors p p' k) :
    Follows (k + 1) (Grammar.catchClause p ctx) (Grammar.catchClause p' ctx) fun v tr _ =>
      Spells v.print tr := by
  intro t t' ht
  unfold Grammar.catchClause
  refine look ht (ite (by rw [ht.isKeyword]) (fun _ => ?_) fun hs => ?_)
  · exact pure ⟨by simp [Tree.print_eq], fun _ => rfl⟩ (.refl _ rfl)
  have hcatch : t.isKeyword "catch" = true := by simpa using hs
  refine lead notTag ht (.keyword hcatch) fun u u' hu => bind (by omega) (catchParameter hp hu) ?_
  rintro q q' tr v v' hq ha hv
  refine bind (by omega) (block hp hv) ?_
  rintro b b' tr' w w' ⟨hb, -⟩ hba hw
  refine finish (by decide) hw fun span span' => pure ⟨?_, ?_⟩
    (.of_tree (by simp [ha.tree, hba.tree]))
  · simp [Tree.print_eq, hq.text_eq, hb.text_eq, String.append_assoc]
  · simp [hq.nest_eq, hb.nest_eq]

/-- A finalizer. -/
theorem finallyClause (hp : Mirrors p p' k) :
    Follows (k + 1) (Grammar.finallyClause p ctx) (Grammar.finallyClause p' ctx) fun v tr _ =>
      Spells v.print tr := by
  intro t t' ht
  unfold Grammar.finallyClause
  refine seesKeyword ht (ite rfl (fun hs => ?_) fun _ => ?_)
  · refine lead notTag ht (.keyword hs) fun u u' hu => bind (by omega) (block hp hu) ?_
    rintro b b' tr v v' ⟨hb, -⟩ ha hv
    refine pure ⟨?_, ?_⟩ (.of_tree (by simp [ha.tree]))
    · simp [Tree.print_eq, hb.text_eq, String.append_assoc]
    · simp [hb.nest_eq]
  · exact pure ⟨by simp [Tree.print_eq], fun _ => rfl⟩ (.refl _ rfl)

/-- A block with a handler, a finalizer or both. -/
theorem tryStatement (hp : Mirrors p p' k) (ht : Alike t t') (hs : t.isKeyword "try" = true) :
    Tracks [] (k + 1) .normal .normal t t' (Grammar.tryStatement p ctx)
      (Grammar.tryStatement p' ctx) Prints := by
  have hisNone : ∀ {c : Category} {v v' : Tree (.maybe c)}, Alike v v' →
      v'.toOption.isNone = v.toOption.isNone := by
    intro c v v' h
    rw [← Option.not_isSome, ← Option.not_isSome, h.hasPart]
  unfold Grammar.tryStatement
  refine next notTag ht (.keyword hs) fun u u' hu => bind (by omega) (block hp hu) ?_
  rintro b b' tr v v' ⟨hb, -⟩ hba hv
  refine bind (by omega) (catchClause hp hv) ?_
  rintro c c' tr₁ w w' hc hca hw
  refine bind (by omega) (finallyClause hp hw) ?_
  rintro f f' tr₂ x x' hf hfa hx
  refine guard (by simp) (by rw [hisNone hca, hisNone hfa]) fun _ =>
    finish (by decide) hx fun span span' =>
    pure ⟨⟨?_, ?_⟩, Trace.append_pos Nat.one_pos⟩ ?_
  · simp [Tree.print_eq, hb.text_eq, hc.text_eq, hf.text_eq, String.append_assoc]
  · simp [hb.nest_eq, hc.nest_eq, hf.nest_eq]
  · exact .of_tree (by simp [ht.lead, hba.tree, hca.tree, hfa.tree])

/-! ## Switches -/

/-- The text of the beginning of a clause. -/
def clauseText : String × Tree (.maybe .expr) → String
  | (clauseLead, .present test) => clauseLead ++ ("case" ++ test.print)
  | (clauseLead, .absent) => clauseLead ++ "default"

/-- The word that begins a clause. -/
theorem clauseHead (hp : Mirrors p p' k) {hasDefault : Bool} :
    Follows k (Grammar.clauseHead p ctx hasDefault) (Grammar.clauseHead p' ctx hasDefault)
      fun v tr _ => Spells (clauseText v) tr ∧ 0 < tr.count := by
  intro t t' ht
  unfold Grammar.clauseHead
  refine look ht (ite (ht.isKeyword _) (fun hs => ?_) fun _ => guard (by simp) rfl fun _ => ?_)
  · refine lead notTag ht (.keyword hs) fun u u' hu => bind (by omega) (hp.expression _ hu) ?_
    rintro e e' tr v v' ⟨he, -, -⟩ ha hv
    refine pure ⟨⟨?_, ?_⟩, Trace.append_pos Nat.one_pos⟩
      (alike_prod.2 ⟨rfl, congrArg Tree.present ha⟩)
    · simp [clauseText, he.text_eq, String.append_assoc]
    · simp [he.nest_eq]
  · refine expectKeyword ht fun _ u u' hu => pure ⟨⟨?_, fun _ => rfl⟩, Nat.one_pos⟩ (.refl _ rfl)
    simp [clauseText]

omit [Exchange] in
theorem print_switchCase (clauseLead : String) (test : Tree (.maybe .expr)) (colonLead : String)
    (body : List Stmt) (span : Span) :
    (Tree.switchCase clauseLead test colonLead (.ofList body) span).print =
      clauseText (clauseLead, test) ++ (colonLead ++ (":" ++ concat (body.map (·.print)))) := by
  cases test <;> simp [Tree.print_eq, clauseText, String.append_assoc]

/-- The clauses of a switch. -/
theorem switchCases (hp : Mirrors p p' k) {hasDefault : Bool} (n n' : Nat) (ht : Alike t t')
    (hfuel : fuel ≤ k) (hn : fuel ≤ n') :
    Tracks [] fuel .normal .normal t t' (Grammar.switchCases p ctx hasDefault n)
      (Grammar.switchCases p' ctx hasDefault n') fun vs tr _ =>
        Spells (concat (vs.map (·.print))) tr := by
  have hr := hp.rounds
  induction n generalizing n' fuel hasDefault t t' with
  | zero => exact stuck Parse.fails_stalled
  | succ n ih =>
    refine rounds (Grammar.switchCases p' ctx hasDefault) hn fun n' hn => ?_
    unfold Grammar.switchCases
    refine sees ht (ite rfl (fun _ => pure ⟨rfl, fun _ => rfl⟩ (.refl _ rfl)) fun _ => ?_)
    refine here ht (bind (by omega) (clauseHead hp ht) ?_)
    rintro ⟨clauseLead, test⟩ ⟨clauseLead', test'⟩ tr u u' ⟨htr, hc⟩ ha hu
    obtain ⟨hl, htest⟩ := alike_prod.1 ha
    obtain rfl := alike_string.1 hl
    refine expect (by simp) hu fun _ v v' hv => ?_
    refine seq (many (by omega) (by omega) (fun h => ?_) (hp.item _) _ hv) ?_
    · simp [endsClause, h.isPunctuator, h.isKeyword, h.isEof]
    rintro body body' tr₁ w w' ⟨hbody, -⟩ hba hw
    refine finish (by decide) hw fun span span' => ?_
    rw [← Option.not_isSome, ← Option.not_isSome, htest.hasPart]
    refine seq (ih n' hw (by omega) (by omega)) ?_
    rintro vs vs' tr₂ x x' hvs hva hx
    refine pure ⟨?_, ?_⟩ (alike_cons.2 ⟨.of_tree (by simp [htest.tree, hba.trees]), hva⟩)
    · simp [print_switchCase, htr.text_eq, hbody.text_eq, hvs.text_eq, String.append_assoc]
    · simp [htr.nest_eq, hbody.nest_eq, hvs.nest_eq]

/-- A choice between clauses. -/
theorem switchStatement (hp : Mirrors p p' k) (ht : Alike t t')
    (hs : t.isKeyword "switch" = true) :
    Tracks [] (k + 1) .normal .normal t t' (Grammar.switchStatement p ctx)
      (Grammar.switchStatement p' ctx) Prints := by
  have hr := hp.rounds
  unfold Grammar.switchStatement
  refine next notTag ht (.keyword hs) fun u u' hu => bind (by omega) (inParentheses hp hu) ?_
  rintro ⟨openLead, test, closeLead⟩ _ tr v v' ⟨htr, -⟩ ha hv
  obtain ⟨test', rfl, hta⟩ := ha.parenthesized
  refine expect (by simp) hv fun _ w w' hw => seq (switchCases hp _ _ hw (by omega) (by omega)) ?_
  rintro vs vs' tr' x x' hvs hva hx
  refine expect (by simp) hx fun _ y y' hy => finish (by decide) hy fun span span' =>
    pure ⟨⟨?_, ?_⟩, Trace.append_pos Nat.one_pos⟩ ?_
  · simp [Tree.print_eq, htr.text_eq, hvs.text_eq, String.append_assoc]
  · simp [htr.nest_eq, hvs.nest_eq]
  · exact .of_tree (by simp [ht.lead, hta.tree, hva.trees])

/-! ## Labels and expressions -/

/-- A statement behind its label. -/
theorem labelledStatement (hp : Mirrors p p' k) {start start' : Position} {label label' : Ident}
    (hl : Alike label label') (ht : Alike t t') (hs : t.isPunctuator ":" = true) :
    Tracks [] (k + 1) .normal .normal t t' (Grammar.labelledStatement p ctx start label)
      (Grammar.labelledStatement p' ctx start' label') (AddsStmt label.print) := by
  unfold Grammar.labelledStatement
  rw [hl.name]
  refine guard (by simp) rfl fun _ => lead notTag ht (.punctuator hs) fun u u' hu =>
    bind (by omega) (hp.statement _ hu) ?_
  rintro s s' tr v v' ⟨hs, -⟩ ha hv
  refine finish (by decide) hv fun span span' => pure ⟨?_, ?_⟩
    (.of_tree (by simp [hl.ident, ha.tree]))
  · simp [Tree.print_eq, hs.text_eq, String.append_assoc]
  · simp [hs.nest_eq]

omit [Exchange] in
/-- What a label is. -/
theorem of_labelOf {first after : Token} {e : Expr} {id : Ident}
    (h : labelOf? first after e = some id) :
    e = .identifier id ∧ after.isPunctuator ":" = true := by
  unfold labelOf? at h
  split at h
  · split at h <;> cases h
    simp_all
  · cases h

/-- An expression as a statement, or a statement with a label. -/
theorem expressionStatement (hp : Mirrors p p' k) :
    Follows (k + 1) (Grammar.expressionStatement p ctx) (Grammar.expressionStatement p' ctx)
      Prints := by
  intro t t' ht
  unfold Grammar.expressionStatement
  refine look ht (bind (by omega) (expression hp ht) ?_)
  rintro v v' tr u u' ⟨hv, hc, -⟩ ha hu
  refine look hu ?_
  have hlabel := Alike.labelOf ht hu ha
  cases hl : labelOf? t u v with
  | some label =>
    cases hl' : labelOf? t' u' v' with
    | none =>
      rw [hl, hl'] at hlabel
      exact absurd hlabel not_alike_some_none
    | some label' =>
      rw [hl, hl'] at hlabel
      obtain ⟨rfl, hcolon⟩ := of_labelOf hl
      refine weaken (labelledStatement hp (alike_some.1 hlabel) hu hcolon)
        (fun s tr' x hs => ?_) (by omega)
      have hprint : (Tree.identifier label).print = label.print := by simp [Tree.print_eq]
      rw [hprint] at hv
      exact ⟨hs.spells hv, Trace.append_pos hc⟩
  | none =>
    cases hl' : labelOf? t' u' v' with
    | some label' =>
      rw [hl, hl'] at hlabel
      exact absurd hlabel not_alike_none_some
    | none =>
      refine seq (terminator hu) ?_
      rintro e e' tr' w w' he hee hw
      obtain rfl := alike_terminator.1 hee
      refine finish (by decide) hw fun span span' => pure ⟨⟨?_, ?_⟩, Trace.append_pos hc⟩ ?_
      · simp [Tree.print_eq, hv.text_eq, he.text_eq]
      · simp [hv.nest_eq, he.nest_eq]
      · exact .of_tree (by simp [ha.tree])

/-! ## Statements and declarations -/

/-- A statement that may begin with a reserved word. -/
theorem keywordStatement (hp : Mirrors p p' k) (ht : Alike t t') (hk : t.kind = .keyword) :
    Tracks [] (k + 1) .normal .normal t t' (Grammar.keywordStatement p ctx t.raw)
      (Grammar.keywordStatement p' ctx t.raw) Prints := by
  have hword : ∀ {word : String}, t.raw = word → t.isKeyword word = true := by
    rintro word rfl
    simp [Token.isKeyword, hk]
  unfold Grammar.keywordStatement
  split
  · exact breakStatement ht (hword ‹_›)
  · exact continueStatement ht (hword ‹_›)
  · exact debuggerStatement ht (hword ‹_›)
  · exact doWhileLoop hp ht (hword ‹_›)
  · exact forLoop hp ht (hword ‹_›)
  · exact nestedFunction hp ht
  · exact ifStatement hp ht (hword ‹_›)
  · exact returnStatement hp ht (hword ‹_›)
  · exact switchStatement hp ht (hword ‹_›)
  · exact throwStatement hp ht (hword ‹_›)
  · exact tryStatement hp ht (hword ‹_›)
  · exact variableStatement hp ht (.keyword (hword ‹_›) rfl)
  · exact whileLoop hp ht (hword ‹_›)
  · exact withStatement hp ht (hword ‹_›)
  · exact expressionStatement hp ht

/-- A statement. -/
theorem statement (hp : Mirrors p p' k) :
    Follows (k + 1) (Grammar.statement p ctx) (Grammar.statement p' ctx) Prints := by
  intro t t' ht
  unfold Grammar.statement
  refine look ht (ite (ht.isPunctuator _) (fun _ => ?_) fun _ => ?_)
  · exact map (by omega) (block hp ht) (fun v tr u h => h) fun _ _ h => congrArg Tree.blockStmt h
  refine ite (ht.isPunctuator _) (fun hs => emptyStatement ht hs) fun _ => ?_
  refine iteProp (by rw [ht.kind]) (fun hk => ?_) fun _ => expressionStatement hp ht
  rw [ht.raw (by simp [hk])]
  exact keywordStatement hp ht hk

/-- Whether the word `import` begins an expression. -/
theorem isImportExpression {f f' : Bool → Parse β} {post : β → Trace → Token → Prop}
    (ht : Alike t t') (hw : t.kind = .identifier ∨ t.kind = .keyword)
    (h : ∀ b, Tracks owed fuel m m' t t' (f b) (f' b) post) :
    Tracks owed fuel m m' t t' (Grammar.isImportExpression >>= f)
      (Grammar.isImportExpression >>= f') post := by
  refine assoc (peek ht hw fun u u' hu => pureThen ?_)
  rw [hu.isPunctuator, hu.isPunctuator]
  exact h _

/-- A statement or declaration that begins with a reserved word. -/
theorem keywordItem (hp : Mirrors p p' k) (ht : Alike t t') (hk : t.kind = .keyword) :
    Tracks [] (k + 1) .normal .normal t t' (Grammar.keywordItem p ctx t)
      (Grammar.keywordItem p' ctx t') Prints := by
  unfold Grammar.keywordItem
  rw [ht.raw (by simp [hk])]
  split
  · exact functionDeclaration hp ht
  · exact map (by omega) (classDefinition hp ht) (fun v tr u h => h) fun _ _ h =>
      congrArg Tree.classStmt h
  · have hconst : t.isKeyword "const" = true := by simp [Token.isKeyword, *]
    exact variableStatement hp ht (.keyword hconst rfl)
  · exact isImportExpression ht (.inr hk) fun b => ite rfl (fun _ => statement hp ht) fun _ =>
      stuck (by simp)
  · exact stuck (Parse.fails_reject _ _)
  · exact statement hp ht

/-- A statement or declaration. -/
theorem item (hp : Mirrors p p' k) :
    Follows (k + 1) (Grammar.item p ctx) (Grammar.item p' ctx) Prints := by
  intro t t' ht
  unfold Grammar.item
  refine look ht (iteProp (by rw [ht.kind]) (fun hk => keywordItem hp ht hk) fun _ => ?_)
  refine ite (ht.isWord _) (fun hs => ?_) fun _ => ite (ht.isWord _) (fun hs => ?_) fun _ =>
    statement hp ht
  · have hd := Declares.«let» hs
    exact isLexicalDeclaration ht hd.word fun b =>
      ite rfl (fun _ => variableStatement hp ht hd) fun _ => statement hp ht
  · have hk : t.kind = .identifier := by simp_all [Token.isWord]
    exact isAsyncFunction ht (.inl hk) fun b =>
      ite rfl (fun _ => functionDeclaration hp ht) fun _ => statement hp ht

end Tracks

end Verbatim
