import Verbatim.Proofs.Grammar.Binding

/-!
# Functions are tracked

Directives, bodies and parameters, and the functions and methods that are made of them.

## Main results

* `Verbatim.Tracks.prologue`, `Verbatim.Tracks.functionBody`.
* `Verbatim.Tracks.function`, `Verbatim.Tracks.methodFunction`.
-/

namespace Verbatim

variable [Exchange]

namespace Alike

/-- Alike expressions are both the literal that a token spells, or none is. -/
theorem isLiteralOf {t t' : Token} {e e' : Expr} (ht : Alike t t') (h : Alike e e')
    (hs : t.isString = true) : Grammar.isLiteralOf t' e' = Grammar.isLiteralOf t e := by
  have hk : t.kind = .string := by simpa [Token.isString] using hs
  have hr : t'.raw = t.raw := ht.raw (by simp [hk])
  have he : Grammar.isLiteralOf t' e' = Grammar.isLiteralOf t' e :=
    h.congr _ fun ρ hρ e => by
      cases e <;> simp [Grammar.isLiteralOf, hρ.raw]
  rw [he]
  cases e <;> simp [Grammar.isLiteralOf, hr]

/-- Heads of functions with alike names. -/
theorem functionHead {name name' : Option Ident} (h : Alike name name') (isAsync asyncLead
    keywordLead isGenerator starLead) :
    FunctionHead.retouch Retouch.blank ⟨isAsync, asyncLead, keywordLead, isGenerator,
      starLead, name⟩ =
      FunctionHead.retouch Retouch.blank
        ⟨isAsync, asyncLead, keywordLead, isGenerator, starLead, name'⟩ := by
  have h : name.map (·.retouch Retouch.blank) = name'.map (·.retouch Retouch.blank) := h
  simp only [FunctionHead.retouch, h]

theorem hasUseStrict {b b' : Tree .body} (h : Alike b b') :
    Grammar.hasUseStrict b' = Grammar.hasUseStrict b := by
  refine h.congr _ fun ρ _ b => ?_
  cases b with
  | bodyBlock openLead stmts closeLead span =>
    have hstmt : ∀ s : Stmt, (s.retouch ρ).isUseStrict = s.isUseStrict :=
      fun s => by cases s <;> rfl
    simp [Grammar.hasUseStrict, Function.comp_def, hstmt]

end Alike

namespace Tracks

open Verbatim.Grammar

variable {β : Type} [Placed β] {fuel k : Nat} {m : Mode} {t t' : Token} {ctx : Context}
  {p p' : Productions}

/-! ## Directives -/

/-- Whether a directive with an octal escape came before is the same for the companion. -/
theorem prologueFrom (hp : Mirrors p p' k) {octal octal' : Option Token} (ho : Alike octal octal')
    (n n' : Nat) (ht : Alike t t') (hk : fuel ≤ k) (hn : fuel ≤ n') :
    Tracks [] fuel .normal .normal t t' (Grammar.prologueFrom p ctx octal n)
      (Grammar.prologueFrom p' ctx octal' n') fun v tr _ =>
        Spells (concat (v.1.map (·.print))) tr := by
  induction n generalizing n' fuel t t' ctx octal octal' with
  | zero => exact stuck Parse.fails_stalled
  | succ n ih =>
    refine rounds (fun n => Grammar.prologueFrom p' ctx octal' n) hn fun n' hn => ?_
    unfold Grammar.prologueFrom
    dsimp only
    refine look ht (ite (by rw [ht.isString]) (fun _ => ?_) fun hs => ?_)
    · exact pure ⟨rfl, fun _ => rfl⟩ (.refl _ rfl)
    have hs : t.isString = true := by simpa using hs
    have hkind : t.kind = .string := by simpa [Token.isString] using hs
    have htext : directiveText t' = directiveText t := by
      simp [directiveText, ht.raw (by simp [hkind])]
    refine bind (by omega) (hp.expression _ ht) ?_
    rintro e e' tr u u' ⟨he, hc, -⟩ ha hu
    refine seq (terminator hu) ?_
    rintro ending ending' tr' w w' hending hen hw
    obtain rfl := alike_terminator.1 hen
    have hstmt : ∀ directive span, Spells (Tree.exprStmt e directive ending span).print
        (tr ++ tr') := by
      refine fun directive span => ⟨?_, ?_⟩
      · simp [Tree.print_eq, he.text_eq, hending.text_eq]
      · simp [he.nest_eq, hending.nest_eq]
    refine ite (by rw [ht.isLiteralOf ha hs]) (fun _ => ?_) fun _ => ?_
    · refine finish (by decide) hw fun span span' => pure ⟨?_, ?_⟩ ?_
      · simpa using (hstmt none span).text_eq
      · simpa using (hstmt none span).nest_eq
      · exact alike_prod.2 ⟨alike_cons.2 ⟨.of_tree (by simp [ha.tree]), .refl _ rfl⟩, rfl⟩
    rw [htext]
    -- The rest of the prologue, whatever is known of directives with octal escapes.
    have hrest : ∀ {octal octal' : Option Token}, Alike octal octal' →
        Tracks [] (fuel - tr.count - tr'.count) .normal .normal w w'
          (do
            let span ← Parse.finish .directive t.start
            let r ← Grammar.prologueFrom p
              { ctx with strict := ctx.strict || directiveText t == "use strict" } octal n
            return (Tree.exprStmt e (some (directiveText t)) ending span :: r.1, r.2))
          (do
            let span ← Parse.finish .directive t'.start
            let r ← Grammar.prologueFrom p'
              { ctx with strict := ctx.strict || directiveText t == "use strict" } octal' n'
            return (Tree.exprStmt e' (some (directiveText t)) ending span :: r.1, r.2))
          fun v tr₁ _ => Spells (concat (v.1.map (·.print))) (tr ++ (tr' ++ tr₁)) := by
      intro octal octal' ho
      refine finish (by decide) hw fun span span' => seq (ih ho n' hw (by omega) (by omega)) ?_
      rintro ⟨stmts, strict⟩ ⟨stmts', strict'⟩ tr₁ x x' hstmts has hx
      obtain ⟨hst, rfl⟩ := alike_prod.1 has
      refine pure ⟨?_, ?_⟩ ?_
      · have h₀ := (hstmt (some (directiveText t)) span).text_eq
        simp only [Trace.text_append] at h₀
        simp [← h₀, hstmts.text_eq, String.append_assoc]
      · simp [he.nest_eq, hending.nest_eq, hstmts.nest_eq]
      · exact alike_prod.2 ⟨alike_cons.2 ⟨.of_tree (by simp [ha.tree]), hst⟩, rfl⟩
    have hoctal : Alike
        (if (directiveText t == "use strict") = true then none
          else if t.octal = true then octal.or (some t) else octal)
        (if (directiveText t == "use strict") = true then none
          else if t'.octal = true then octal'.or (some t') else octal') := by
      rw [ht.octal]
      split
      · exact alike_none
      · split
        · exact ho.or (alike_some.2 ht)
        · exact ho
    have hlast := hrest hoctal
    refine ite rfl (fun _ => ?_) fun _ => hlast
    cases octal with
    | none =>
      cases octal' with
      | none => exact hlast
      | some => exact absurd ho not_alike_none_some
    | some first =>
      cases octal' with
      | none => exact absurd ho not_alike_some_none
      | some first' => exact tolerate hw hlast

/-- The directives in front of a body or source. -/
theorem prologue (hp : Mirrors p p' k) (ht : Alike t t') :
    Tracks [] k .normal .normal t t' (Grammar.prologue p ctx) (Grammar.prologue p' ctx)
      fun v tr _ => Spells (concat (v.1.map (·.print))) tr :=
  prologueFrom hp alike_none _ _ ht (Nat.le_refl _) (Nat.le_of_eq (by rw [hp.rounds]))

/-! ## Bodies -/

theorem items (hp : Mirrors p p' k) (ht : Alike t t') :
    Tracks [] k .normal .normal t t' (Grammar.items p ctx) (Grammar.items p' ctx)
      fun vs tr _ => Spells (concat (vs.map (·.print))) tr := by
  have hr := hp.rounds
  refine imp (many (by omega) (by omega) (fun h => ?_) (hp.item _) _ ht) fun vs tr u h => h.1
  simp [endsBlock, h.isPunctuator, h.isEof]

/-- The body of a function. -/
theorem functionBody (hp : Mirrors p p' k) :
    Follows (k + 1) (Grammar.functionBody p ctx) (Grammar.functionBody p' ctx)
      fun v tr u => Prints v.1 tr u := by
  intro t t' ht
  unfold Grammar.functionBody
  refine here ht (expect (by simp) ht fun _ u u' hu => bind (by omega) (prologue hp hu) ?_)
  rintro ⟨ds, strict⟩ ⟨ds', strict'⟩ tr w w' hds ha hw
  obtain ⟨hd, hst⟩ := alike_prod.1 ha
  obtain rfl := alike_bool.1 hst
  refine bind (by omega) (items hp hw) ?_
  rintro vs vs' tr' x x' hvs hv hx
  refine expect (by simp) hx fun _ y y' hy => finish (by decide) hy fun span span' =>
    pure ⟨⟨?_, ?_⟩, Trace.append_pos Nat.one_pos⟩ ?_
  · simp [Tree.print_eq, hds.text_eq, hvs.text_eq, String.append_assoc]
  · simp [hds.nest_eq, hvs.nest_eq]
  · exact alike_prod.2 ⟨.of_tree (by simp [hd.trees, hv.trees]), rfl⟩

/-! ## Parameters -/

theorem parameterRound (hp : Mirrors p p' k) :
    Follows k (Grammar.parameterRound p ctx) (Grammar.parameterRound p' ctx)
      (Parse.Round.Spells (·.print) fun _ => True) := by
  intro t t' ht
  unfold Grammar.parameterRound
  refine sees ht (ite rfl (fun _ => ?_) fun _ => ?_)
  · refine wrap (by omega) (bindingRest hp ht) ?_ fun v v' h => congrArg Parse.Round.last h
    rintro v tr u ⟨hv, hc⟩
    exact ⟨hv, hc, trivial⟩
  · refine wrap (by omega) (bindingElement hp ht) ?_ fun v v' h => congrArg Parse.Round.item h
    rintro v tr u ⟨hv, hc⟩
    exact ⟨hv, hc, trivial⟩

/-- The parameters in parentheses. -/
theorem parameterList (hp : Mirrors p p' k) :
    Follows (k + 1) (Grammar.parameterList p ctx) (Grammar.parameterList p' ctx) Prints := by
  intro t t' ht
  have hr := hp.rounds
  unfold Grammar.parameterList
  refine expect (by simp) ht fun _ u u' hu =>
    seq (listed (by omega) (by omega) (parameterRound hp) _ hu) ?_
  rintro ⟨vs, seps⟩ ⟨vs', seps'⟩ tr w w' ⟨htr, -, -⟩ ha hw
  obtain ⟨hvs, hseps⟩ := alike_prod.1 ha
  obtain rfl := alike_list_string.1 hseps
  refine expect (by simp) hw fun _ x x' hx => pure ⟨⟨?_, ?_⟩, Trace.append_pos Nat.one_pos⟩ ?_
  · simp [Tree.print_eq, htr.text_eq, String.append_assoc]
  · simp [htr.nest_eq]
  · exact .of_tree (by simp [hvs.trees])

/-- The name of a function is checked by its text, whatever place the complaint names. -/
theorem checkFunctionName {site site' : Site} {name name' : Option Ident}
    (hname : Alike name name') (ht : Alike t t') :
    Tracks [] fuel m m t t' (Grammar.checkFunctionName site name)
      (Grammar.checkFunctionName site' name') (Still (fun _ => True) t) := by
  cases name with
  | none =>
    cases name' with
    | none => exact pure ⟨trivial, rfl, rfl⟩ (.refl _ rfl)
    | some => exact absurd hname not_alike_none_some
  | some id =>
    cases name' with
    | none => exact absurd hname not_alike_some_none
    | some id' =>
      have hid := (alike_some.1 hname).name
      unfold Grammar.checkFunctionName
      dsimp only
      rw [hid]
      refine ite rfl (fun _ => tolerateLast ht) fun _ => ?_
      exact ite rfl (fun _ => tolerateLast ht) fun _ => pure ⟨trivial, rfl, rfl⟩ (.refl _ rfl)

/-- What a parameter list and a body have taken. -/
structure PrintsBoth (v : Tree .params × Tree .body) (tr : Trace) (_ : Token) : Prop where
  /-- What has been taken spells both. -/
  spells : Spells (v.1.print ++ v.2.print) tr
  /-- Something has been taken. -/
  pos : 0 < tr.count

/-- The parameters and the body of a function. -/
theorem paramsAndBody (hp : Mirrors p p' k) {isAsync isGenerator unique : Bool}
    {name name' : Option Ident} {site site' : Site} (hname : Alike name name') (ht : Alike t t') :
    Tracks [] (k + 1) .normal .normal t t'
      (Grammar.paramsAndBody p ctx isAsync isGenerator name site unique)
      (Grammar.paramsAndBody p' ctx isAsync isGenerator name' site' unique) PrintsBoth := by
  unfold Grammar.paramsAndBody
  dsimp only
  refine pending ht fun o o' ho => setPending ht alike_none
    (bind (by omega) (parameterList hp ht) ?_)
  rintro params params' tr u u' ⟨hparams, hc⟩ hps hu
  refine bind (by omega) (functionBody hp hu) ?_
  rintro ⟨body, strict⟩ ⟨body', strict'⟩ tr' w w' ⟨hbody, -⟩ ha hw
  obtain ⟨hb, hst⟩ := alike_prod.1 ha
  obtain rfl := alike_bool.1 hst
  dsimp only
  refine guard (by simp) (by rw [hb.hasUseStrict, hps.isSimple]) fun _ => ?_
  have hlast : ∀ w', Alike w w' → Tracks [] (k + 1 - tr.count - tr'.count) .normal .normal w w'
      (do
        Grammar.checkParameters strict (unique || !params.isSimple) site params.parameters
        Parse.setPending o
        return (params, body))
      (do
        Grammar.checkParameters strict (unique || !params'.isSimple) site' params'.parameters
        Parse.setPending o'
        return (params', body')) fun v tr₁ u => PrintsBoth v (tr ++ (tr' ++ tr₁)) u := by
    intro w' hw
    rw [hps.isSimple]
    refine check (checkParameters hps.parameters hw) fun _ _ x' _ _ hx => ?_
    refine setPending hx ho (pure ⟨⟨?_, ?_⟩, Trace.append_pos hc⟩ (alike_prod.2 ⟨hps, hb⟩))
    · simp [hparams.text_eq, hbody.text_eq]
    · simp [hparams.nest_eq, hbody.nest_eq]
  refine ite rfl (fun _ => ?_) fun _ => hlast w' hw
  exact check (checkFunctionName hname hw) fun _ _ x' _ _ hx => hlast x' hx

/-! ## Functions -/

theorem functionName [m.Spaced] {isDeclaration nameOptional isAsync isGenerator : Bool}
    (ht : Alike t t') :
    Tracks [] fuel m m t t'
      (Grammar.functionName ctx isDeclaration nameOptional isAsync isGenerator)
      (Grammar.functionName ctx isDeclaration nameOptional isAsync isGenerator)
      fun v tr _ => Spells (printName v) tr := by
  unfold Grammar.functionName
  dsimp only
  refine look ht (ite ht.isName (fun _ => ?_) fun _ => ?_)
  · exact wrap (Nat.le_refl _) (bindingName ht) (fun id tr u h => h.1) fun _ _ h => alike_some.2 h
  · exact guard (by simp) rfl fun _ => pure ⟨rfl, fun _ => rfl⟩ (.refl _ rfl)

/-- A function declaration or expression. -/
theorem function (hp : Mirrors p p' k) {isDeclaration nameOptional : Bool} :
    Follows (k + 1) (Grammar.function p ctx isDeclaration nameOptional)
      (Grammar.function p' ctx isDeclaration nameOptional) Prints := by
  intro t t' ht
  unfold Grammar.function
  refine here ht (seesWord ht ?_)
  extract_lets rest rest'
  have hrest : ∀ {u u' : Token} (asyncLead : Option String), Alike u u' →
      Tracks [] (k + 1) .normal .normal u u' (rest asyncLead) (rest' asyncLead)
        fun v tr u => Prints v (.perhaps asyncLead "async" ++ tr) u := by
    intro u u' asyncLead hu
    refine expectKeyword hu fun _ w w' hw => acceptMark (by decide) (by decide) hw
      fun starLead x x' hx => ?_
    refine look hx (seq (functionName hx) ?_)
    rintro name name' tr y y' htr hn hy
    refine bind (by omega) (paramsAndBody hp hn hy) ?_
    rintro ⟨params, body⟩ ⟨params', body'⟩ tr' z z' ⟨hboth, -⟩ ha hz
    obtain ⟨hps, hb⟩ := alike_prod.1 ha
    refine finish (by cases isDeclaration <;> decide) hz fun span span' =>
      pure ⟨⟨?_, ?_⟩, ?_⟩ ?_
    · have hboth := hboth.text_eq
      cases asyncLead <;> cases starLead <;>
        simp_all [Tree.print_eq, FunctionHead.print, htr.text_eq, String.append_assoc]
    · simp [htr.nest_eq, hboth.nest_eq]
    · exact Trace.append_pos_right (Trace.append_pos Nat.one_pos)
    · exact .of_tree (by simp [hps.tree, hb.tree, Alike.functionHead hn])
  refine ite rfl (fun hs => ?_) fun _ => pureThen ?_
  · refine assoc (lead notTag ht (.word hs) fun u u' hu => pureThen ?_)
    exact (hrest (some t.lead) hu).weaken (fun v tr u h => h) (by omega)
  · exact (hrest none ht).imp fun v tr u h => by simpa using h

theorem functionDeclaration (hp : Mirrors p p' k) :
    Follows (k + 1) (Grammar.functionDeclaration p ctx) (Grammar.functionDeclaration p' ctx)
      Prints :=
  fun ht => map (by omega) (function hp ht) (fun _ _ _ h => h) fun _ _ h =>
    congrArg Tree.functionStmt h

theorem functionExpression (hp : Mirrors p p' k) :
    Follows (k + 1) (Grammar.functionExpression p ctx) (Grammar.functionExpression p' ctx)
      fun e tr u => Tells e tr u ∧ e.ident? = none :=
  fun ht => map (by omega) (function hp ht) (fun _ _ _ h => ⟨⟨h.1, h.2, rfl⟩, rfl⟩)
    fun _ _ h => congrArg Tree.functionExpr h

/-- Whether a list of parameters is one that takes all that remains. -/
def isRestOnly : List Pattern → Bool
  | [.restPattern ..] => true
  | _ => false

omit [Exchange] [Placed β] in
theorem checkAccessor_eq {kind : PropertyKind} {site : Site} {params : List Pattern} :
    Grammar.checkAccessor kind site params =
      match kind with
      | .plain => Pure.pure ()
      | .getter => if params.length = 0 then Pure.pure () else Parse.tolerate .getterParameters site
      | .setter =>
        if isRestOnly params = true then Parse.tolerate .setterRest site
        else if params.length = 1 then Pure.pure () else Parse.tolerate .setterParameters site := by
  rcases params with _ | ⟨q, _ | ⟨q', qs⟩⟩
  · cases kind <;> rfl
  · cases kind <;> first | rfl | cases q <;> rfl
  · cases kind <;> first | rfl | cases q <;> rfl

theorem isRestOnly_of_alike {params params' : List Pattern} (h : Alike params params') :
    isRestOnly params' = isRestOnly params := by
  rcases params with _ | ⟨q, rest⟩ <;> rcases params' with _ | ⟨q', rest'⟩
  · rfl
  · exact absurd h not_alike_nil_cons
  · exact absurd h not_alike_cons_nil
  · obtain ⟨hq, hrest⟩ := alike_cons.1 h
    rcases rest with _ | ⟨r, qs⟩ <;> rcases rest' with _ | ⟨r', qs'⟩
    · exact hq.congr (fun q => isRestOnly [q]) fun _ _ q => by cases q <;> rfl
    · exact absurd hrest not_alike_nil_cons
    · exact absurd hrest not_alike_cons_nil
    · cases q <;> cases q' <;> rfl

/-- Whether an accessor has the parameters that it must have is decided alike. -/
theorem checkAccessor {kind : PropertyKind} {site site' : Site} {params params' : List Pattern}
    (hparams : Alike params params') (ht : Alike t t') :
    Tracks [] fuel m m t t' (Grammar.checkAccessor kind site params)
      (Grammar.checkAccessor kind site' params') (Still (fun _ => True) t) := by
  rw [checkAccessor_eq, checkAccessor_eq, hparams.length, isRestOnly_of_alike hparams]
  have hdone : Tracks [] fuel m m t t' (Pure.pure ()) (Pure.pure ()) (Still (fun _ => True) t) :=
    pure ⟨trivial, rfl, rfl⟩ (.refl _ rfl)
  cases kind with
  | plain => exact hdone
  | getter => exact iteProp Iff.rfl (fun _ => hdone) fun _ => tolerateLast ht
  | setter =>
    refine ite rfl (fun _ => tolerateLast ht) fun _ => ?_
    exact iteProp Iff.rfl (fun _ => hdone) fun _ => tolerateLast ht

/-- The functions of methods and accessors. -/
theorem methodFunction (hp : Mirrors p p' k) {isAsync isGenerator : Bool} {kind : PropertyKind} :
    Follows (k + 1) (Grammar.methodFunction p ctx isAsync isGenerator kind)
      (Grammar.methodFunction p' ctx isAsync isGenerator kind) fun v tr _ =>
        Spells (v.printIn .method) tr ∧ 0 < tr.count := by
  intro t t' ht
  unfold Grammar.methodFunction
  refine here ht (bind (by omega) (paramsAndBody hp alike_none ht) ?_)
  rintro ⟨params, body⟩ ⟨params', body'⟩ tr u u' ⟨hboth, hc⟩ ha hu
  obtain ⟨hps, hb⟩ := alike_prod.1 ha
  refine check (checkAccessor hps.parameters hu) fun _ _ w' _ _ hw => ?_
  refine finish (by decide) hw fun span span' => pure ⟨⟨?_, ?_⟩, Trace.append_pos hc⟩ ?_
  · simp [Tree.printIn, hboth.text_eq, Tree.print_eq]
  · simp [hboth.nest_eq]
  · exact .of_tree (by simp [hps.tree, hb.tree])

end Tracks

end Verbatim
