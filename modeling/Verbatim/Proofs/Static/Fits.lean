import Verbatim.Proofs.Static.Rules

/-!
# Trees that obey the rules

How a tree that obeys the rules is put together from parts that do, and that conversion keeps it so.

Whether `in` is an operator cannot be told from the finished tree, and no rule depends on it; so the
surroundings are those in which it is one.

## Main definitions

* `Verbatim.Tree.Fits` — a tree in which every construct obeys the rules.

## Main results

* `Verbatim.Tree.Fits.function`, `Verbatim.Tree.Fits.arrow` — the name and the parameters of a
  function obey the rules of the code that its directives make strict.
* `Verbatim.Tree.Fits.of_asTarget` — what is converted to a target obeys the rules.
-/

namespace Verbatim

namespace Tree

open Grammar

/-- Every construct in the tree obeys the rules. -/
def Fits (clean : Bool) (ctx : Context) {c : Category} (t : Tree c) : Prop :=
  t.Everywhere (Allowed clean) ctx.inside

variable {clean : Bool} {ctx ctx₁ ctx₂ ctx₃ ctx₄ : Context} {c : Category} {t : Tree c}

namespace Fits

/-! ## From parts -/

section

variable {c₁ c₂ c₃ c₄ : Category} {t₁ : Tree c₁} {t₂ : Tree c₂} {t₃ : Tree c₃} {t₄ : Tree c₄}

theorem of_parts (rule : t.Allowed clean ctx.inside) (h : ∀ part ∈ t.innerParts ctx.inside,
    part.tree.Everywhere (Allowed clean) part.surroundings) : t.Fits clean ctx :=
  everywhere_iff.2 ⟨rule, h⟩

/-- A construct without parts. -/
theorem leaf (rule : t.Allowed clean ctx.inside) (hparts : t.innerParts ctx.inside = []) :
    t.Fits clean ctx :=
  of_parts rule (hparts ▸ List.forall_mem_nil _)

/-- A construct with one part. -/
theorem one (h₁ : t₁.Fits clean ctx₁) (rule : t.Allowed clean ctx.inside)
    (hparts : t.innerParts ctx.inside = [⟨ctx₁.inside, t₁⟩]) : t.Fits clean ctx := by
  refine of_parts rule ?_
  rw [hparts, List.forall_mem_singleton]
  exact h₁

/-- A construct with two parts. -/
theorem two (h₁ : t₁.Fits clean ctx₁) (h₂ : t₂.Fits clean ctx₂)
    (rule : t.Allowed clean ctx.inside)
    (hparts : t.innerParts ctx.inside = [⟨ctx₁.inside, t₁⟩, ⟨ctx₂.inside, t₂⟩]) :
    t.Fits clean ctx := by
  refine of_parts rule ?_
  rw [hparts, List.forall_mem_cons, List.forall_mem_singleton]
  exact ⟨h₁, h₂⟩

/-- A construct with three parts. -/
theorem three (h₁ : t₁.Fits clean ctx₁) (h₂ : t₂.Fits clean ctx₂) (h₃ : t₃.Fits clean ctx₃)
    (rule : t.Allowed clean ctx.inside)
    (hparts : t.innerParts ctx.inside =
      [⟨ctx₁.inside, t₁⟩, ⟨ctx₂.inside, t₂⟩, ⟨ctx₃.inside, t₃⟩]) : t.Fits clean ctx := by
  refine of_parts rule ?_
  rw [hparts, List.forall_mem_cons, List.forall_mem_cons, List.forall_mem_singleton]
  exact ⟨h₁, h₂, h₃⟩

/-- A construct with four parts. -/
theorem four (h₁ : t₁.Fits clean ctx₁) (h₂ : t₂.Fits clean ctx₂) (h₃ : t₃.Fits clean ctx₃)
    (h₄ : t₄.Fits clean ctx₄) (rule : t.Allowed clean ctx.inside)
    (hparts : t.innerParts ctx.inside = [⟨ctx₁.inside, t₁⟩, ⟨ctx₂.inside, t₂⟩, ⟨ctx₃.inside, t₃⟩,
      ⟨ctx₄.inside, t₄⟩]) : t.Fits clean ctx := by
  refine of_parts rule ?_
  rw [hparts, List.forall_mem_cons, List.forall_mem_cons, List.forall_mem_cons,
    List.forall_mem_singleton]
  exact ⟨h₁, h₂, h₃, h₄⟩

end

theorem nil : (nil : Tree (.many c)).Fits clean ctx := .leaf trivial rfl

theorem cons {head : Tree c} {tail : Tree (.many c)} (h : head.Fits clean ctx)
    (ht : tail.Fits clean ctx) : (cons head tail).Fits clean ctx := .two h ht trivial rfl

theorem absent : (absent : Tree (.maybe c)).Fits clean ctx := .leaf trivial rfl

theorem present (h : t.Fits clean ctx) : (present t).Fits clean ctx := .one h trivial rfl

/-- A list fits if its items do. -/
theorem ofList {items : List (Tree c)} (h : ∀ t ∈ items, t.Fits clean ctx) :
    (ofList items).Fits clean ctx := by
  induction items with
  | nil => exact .nil
  | cons head tail ih =>
    obtain ⟨hhead, htail⟩ := List.forall_mem_cons.1 h
    exact .cons hhead (ih htail)

theorem toList {items : Tree (.many c)} (h : items.Fits clean ctx) :
    ∀ t ∈ items.toList, t.Fits clean ctx := by
  generalize hitems : items.toList = l
  induction l generalizing items with
  | nil => exact List.forall_mem_nil _
  | cons head tail ih =>
    cases items with
    | nil => cases hitems
    | cons first rest =>
      obtain ⟨rfl, rfl⟩ := List.cons.inj hitems
      refine List.forall_mem_cons.2 ⟨?_, ih ?_ rfl⟩
      · exact h.part (List.mem_cons_self ..)
      · exact h.part (List.mem_cons_of_mem _ (List.mem_singleton_self _))

/-! ## Functions -/

/-- Plain names fit wherever they stand. -/
theorem ofNames {params : Tree .params} (h : params.parameters.all (·.isName) = true) :
    params.Fits clean ctx := by
  cases params with
  | paramList openLead items separators closeLead =>
    have hitems : ∀ p ∈ items.toList, p.Fits clean ctx := by
      intro p hp
      have hname := List.all_eq_true.1 h p hp
      cases p <;> first | exact .leaf trivial rfl | cases hname
    have hlist : items.Fits clean ctx := ofList_toList items ▸ .ofList hitems
    exact .one hlist trivial rfl

/-- What is read where the code may turn out to be strict fits if that makes no difference. -/
theorem ofDirective {t : Tree c} {directive : Bool} (h : t.Fits clean ctx)
    (hplain : directive = true → ∀ ctx : Context, t.Fits clean ctx) :
    t.Fits clean { ctx with strict := ctx.strict || directive } := by
  cases directive with
  | true => exact hplain rfl _
  | false =>
    rw [Bool.or_false]
    exact h

/-- A function fits if its parameters fit the code around it, and its body its own code. -/
theorem function {head : FunctionHead} {params : Tree .params} {body : Tree .body} {span : Span}
    (hparams : params.Fits clean
      { ctx.callable head.isAsync head.isGenerator with inParameters := true })
    (hbody : body.Fits clean { ctx.callable head.isAsync head.isGenerator with
      strict := ctx.strict || hasUseStrict body })
    (rule : ParametersAllowed clean (ctx.strict || hasUseStrict body) (hasUseStrict body)
      (!params.isSimple) params.parameters)
    (hname : clean = true → Context.MayBind { ctx with strict := ctx.strict || hasUseStrict body }
      (head.name.toList.map (·.name))) : (Tree.function head params body span).Fits clean ctx :=
  .two (ofDirective hparams fun hd _ => ofNames (rule.plain hd)) hbody ⟨rule, hname⟩ rfl

/-- The same for an arrow function. -/
theorem arrow {isAsync : Bool} {asyncLead : String} {params : Tree .arrowParams}
    {arrowLead : String} {body : Tree .arrowBody} {span : Span} (hparams : params.Fits clean ctx)
    (hbody : body.Fits clean { ctx.arrowBody isAsync with
      strict := ctx.strict || arrowHasUseStrict body })
    (rule : ParametersAllowed clean (ctx.strict || arrowHasUseStrict body) (arrowHasUseStrict body)
      true (arrowPatterns params)) :
    (Tree.arrow isAsync asyncLead params arrowLead body span).Fits clean ctx := by
  refine .two (ofDirective hparams fun hd ctx => ?_) hbody rule rfl
  cases params with
  | bareParam id => exact .leaf trivial rfl
  | listedParams params => exact .one (ofNames (rule.plain hd)) trivial rfl

end Fits

/-! ## Conversion -/

section

variable {use : TargetUse} {s s' : List Fault}

/-- Where no fault is noted, strict code may assign to the name. -/
theorem mayAssign_of_checkName {id : Ident} {v : Unit}
    (h : use.checkName ctx.strict id s = .ok v s') (hs : s' = []) :
    s = [] ∧ ctx.MayAssign [id.name] := by
  unfold TargetUse.checkName at h
  split at h
  · obtain rfl := Run.modify_eq_ok.1 h
    exact absurd hs (by simp)
  · rename_i hfree
    obtain ⟨-, rfl⟩ := Run.pure_eq_ok.1 h
    refine ⟨hs, fun hstrict => List.forall_mem_singleton.2 (Bool.eq_false_iff.2 fun hr => ?_)⟩
    exact hfree (by rw [hstrict, hr]; rfl)

/-- A check of a rest target notes nothing. -/
theorem same_of_checkRest {target : Pattern} {v : Unit} (h : checkRest target s = .ok v s') :
    s' = s := by
  cases target <;> first | exact (Run.pure_eq_ok.1 h).2.symm | exact absurd h Run.throw_ne_ok

theorem same_of_checkMemberRest {target : Pattern} {v : Unit}
    (h : checkMemberRest use target s = .ok v s') : s' = s := by
  cases target <;> first | exact (Run.pure_eq_ok.1 h).2.symm | exact absurd h Run.throw_ne_ok

/-- What is known of what a construct is converted to. -/
def Turned (clean : Bool) (ctx : Context) (s : List Fault) (p : Tree c) : Prop :=
  (clean = true → s = []) ∧ p.Fits clean ctx ∧ (clean = true → ctx.MayAssign p.names)

variable (clean ctx use) in
/-- Whatever a tree that obeys the rules is converted to obeys them. -/
def Turns (t : Tree c) : Prop :=
  ∀ trailing s s' p, t.asTarget use ctx.strict trailing s = .ok p s' →
    t.Fits clean ctx → (clean = true → s' = []) → Turned clean ctx s p

/-- A name with a default; a target that is none obeys the rules already. -/
theorem Turned.default {target : Pattern} {opLead : String} {value : Expr} {span : Span} {v : Unit}
    (h : checkDefault use ctx.strict target s = .ok v s') (hs : clean = true → s' = [])
    (ht : target.Fits clean ctx) (hv : value.Fits clean ctx)
    (hnames : clean = true → target.isName = false → ctx.MayAssign target.names) :
    Turned clean ctx s (.defaultPattern target opLead value span) := by
  unfold checkDefault at h
  split at h
  · obtain ⟨_, _, hthrow, -⟩ := Run.bind_eq_ok.1 h
    exact absurd hthrow Run.throw_ne_ok
  refine ⟨fun hc => ?_, .two ht hv trivial rfl, fun hc => ?_⟩
  · cases target
    case namePattern id => exact (mayAssign_of_checkName h (hs hc)).1
    all_goals
      obtain ⟨-, rfl⟩ := Run.pure_eq_ok.1 h
      exact hs hc
  · cases target
    case namePattern id => exact (mayAssign_of_checkName h (hs hc)).2
    all_goals exact hnames hc rfl

/-- The value of a shorthand property is its name, or its name with a default. -/
theorem Turned.value {isShorthand : Bool} {value : Expr} (hvalue : value.Turns clean ctx use)
    {p : Pattern} (h : value.asTarget use ctx.strict false s = .ok p s')
    (hparts : ∀ part ∈ valueParts ctx.inside isShorthand value,
      part.tree.Everywhere (Allowed clean) part.surroundings)
    (hs : clean = true → s' = []) : Turned clean ctx s p := by
  rcases valueParts_cases ctx.inside isShorthand value with
    hwhole | ⟨id, opLead, inner, span, rfl, htwo⟩
  · rw [hwhole] at hparts
    exact hvalue _ _ _ _ h (hparts _ (List.mem_singleton_self _)) hs
  · obtain ⟨_, _, hcheck, h⟩ := Run.bind_eq_ok.1 h
    obtain ⟨rfl, rfl⟩ := Run.pure_eq_ok.1 h
    rw [htwo] at hparts
    exact .default hcheck hs (hparts _ (List.mem_cons_self ..))
      (hparts _ (List.mem_cons_of_mem _ (List.mem_singleton_self _)))
      fun _ hno => by cases hno

/-- An expression that is like no pattern becomes one as a whole or not at all. -/
theorem Turns.of_other {e : Expr} (he : e.isPatternLike = false) : e.Turns clean ctx use := by
  intro trailing s s' p h hfits hs
  obtain rfl := eq_exprPattern he h
  rw [asTarget_other _ _ _ _ he] at h
  cases use with
  | binding => exact absurd h Run.throw_ne_ok
  | assignment =>
    dsimp only at h
    split at h
    · obtain ⟨_, _, hnote, h⟩ := Run.bind_eq_ok.1 h
      obtain rfl := Run.modify_eq_ok.1 hnote
      obtain ⟨-, rfl⟩ := Run.pure_eq_ok.1 h
      have hnever : clean = true → False := fun hc => absurd (hs hc) (by simp)
      exact ⟨fun hc => (hnever hc).elim, .one hfits (fun hc => (hnever hc).elim) rfl,
        fun hc => (hnever hc).elim⟩
    · rename_i hsimple
      obtain ⟨-, rfl⟩ := Run.pure_eq_ok.1 h
      have hsimple : e.isSimpleTarget = true := by simp_all
      exact ⟨hs, .one hfits (fun _ => hsimple) rfl, fun _ => .nil⟩

theorem Turns.of_unfit (hc : c.isFit = false) : t.Turns clean ctx use := by
  intro trailing s s' p h
  rw [asTarget_unfit _ _ _ _ hc] at h
  exact absurd h Run.throw_ne_ok

theorem Turns.of_none (h : t.operand? = none) (o : Expr) (ho : t.operand? = some o) :
    o.Turns clean ctx use :=
  absurd (h.symm.trans ho) (by simp)

/-- The items of a list are converted one by one. -/
theorem Turns.cons {head : Tree c} {tail : Tree (.many c)} (hh : head.Turns clean ctx use)
    (ho : ∀ o, head.operand? = some o → o.Turns clean ctx use) (ht : tail.Turns clean ctx use) :
    (cons head tail).Turns clean ctx use := by
  intro trailing s s' p h hfits hs
  have hhead : head.Fits clean ctx := hfits.part (List.mem_cons_self ..)
  have htail : tail.Fits clean ctx := hfits.part
    (List.mem_cons_of_mem _ (List.mem_singleton_self _))
  cases hr : head.isRest with
  | false =>
    rw [asTarget_cons _ _ _ _ _ hr] at h
    obtain ⟨p₁, s₁, h₁, h⟩ := Run.bind_eq_ok.1 h
    obtain ⟨p₂, s₂, h₂, h⟩ := Run.bind_eq_ok.1 h
    obtain ⟨rfl, rfl⟩ := Run.pure_eq_ok.1 h
    obtain ⟨hs₁, hp₂, hn₂⟩ := ht _ _ _ _ h₂ htail hs
    obtain ⟨hs₀, hp₁, hn₁⟩ := hh _ _ _ _ h₁ hhead hs₁
    refine ⟨hs₀, .cons hp₁ hp₂, fun hc => ?_⟩
    rw [names_cons]
    exact (hn₁ hc).append (hn₂ hc)
  | true =>
    cases head
    case present part =>
      cases part
      case spread lead operand span =>
        rw [asTarget_spread] at h
        split at h
        · exact absurd h Run.throw_ne_ok
        obtain ⟨p₁, s₁, h₁, h⟩ := Run.bind_eq_ok.1 h
        obtain ⟨_, s₂, hrest, h⟩ := Run.bind_eq_ok.1 h
        obtain ⟨rfl, rfl⟩ := Run.pure_eq_ok.1 h
        obtain rfl := same_of_checkRest hrest
        have hspread : (Tree.spread lead operand span).Fits clean ctx :=
          hhead.part (List.mem_singleton_self _)
        obtain ⟨hs₀, hp₁, hn₁⟩ :=
          ho operand rfl _ _ _ _ h₁ (hspread.part (List.mem_singleton_self _)) hs
        refine ⟨hs₀, .cons (.present (.one hp₁ trivial rfl)) .nil, fun hc => ?_⟩
        rw [names_cons]
        exact (hn₁ hc).append .nil
      all_goals cases hr
    case spreadMember lead operand span =>
      rw [asTarget_spreadMember] at h
      split at h
      · exact absurd h Run.throw_ne_ok
      obtain ⟨p₁, s₁, h₁, h⟩ := Run.bind_eq_ok.1 h
      obtain ⟨_, s₂, hrest, h⟩ := Run.bind_eq_ok.1 h
      obtain ⟨_, s₃, hplace, h⟩ := Run.bind_eq_ok.1 h
      obtain ⟨rfl, rfl⟩ := Run.pure_eq_ok.1 h
      obtain rfl := same_of_checkMemberRest hplace
      obtain rfl := same_of_checkRest hrest
      obtain ⟨hs₀, hp₁, hn₁⟩ :=
        ho operand rfl _ _ _ _ h₁ (hhead.part (List.mem_singleton_self _)) hs
      refine ⟨hs₀, .cons (.one hp₁ trivial rfl) .nil, fun hc => ?_⟩
      rw [names_cons]
      exact (hn₁ hc).append .nil
    all_goals cases hr

/-- Whatever a tree that obeys the rules or its operand is converted to obeys them. -/
theorem turns (t : Tree c) :
    t.Turns clean ctx use ∧ ∀ o, t.operand? = some o → o.Turns clean ctx use := by
  induction t
  case identifier id =>
    refine ⟨fun trailing s s' p h hfits hs => ?_, .of_none rfl⟩
    obtain ⟨_, s₁, hcheck, h⟩ := Run.bind_eq_ok.1 h
    obtain ⟨rfl, rfl⟩ := Run.pure_eq_ok.1 h
    exact ⟨fun hc => (mayAssign_of_checkName hcheck (hs hc)).1, .leaf trivial rfl,
      fun hc => (mayAssign_of_checkName hcheck (hs hc)).2⟩
  case array lead elements separators closeLead span ih =>
    refine ⟨fun trailing s s' p h hfits hs => ?_, .of_none rfl⟩
    obtain ⟨p', s₁, h', h⟩ := Run.bind_eq_ok.1 h
    obtain ⟨rfl, rfl⟩ := Run.pure_eq_ok.1 h
    obtain ⟨hs', hp', hn'⟩ := ih.1 _ _ _ _ h' (hfits.part (List.mem_singleton_self _)) hs
    exact ⟨hs', .one hp' trivial rfl, hn'⟩
  case object lead members separators closeLead span ih =>
    refine ⟨fun trailing s s' p h hfits hs => ?_, .of_none rfl⟩
    obtain ⟨p', s₁, h', h⟩ := Run.bind_eq_ok.1 h
    obtain ⟨rfl, rfl⟩ := Run.pure_eq_ok.1 h
    obtain ⟨hs', hp', hn'⟩ := ih.1 _ _ _ _ h' (hfits.part (List.mem_singleton_self _)) hs
    exact ⟨hs', .one hp' trivial rfl, hn'⟩
  case assignment target opLead op value span ihTarget ihValue =>
    refine ⟨?_, .of_none rfl⟩
    cases op
    case assign =>
      intro trailing s s' p h hfits hs
      obtain ⟨_, _, hcheck, h⟩ := Run.bind_eq_ok.1 h
      obtain ⟨rfl, rfl⟩ := Run.pure_eq_ok.1 h
      exact .default hcheck hs (hfits.part (List.mem_cons_self ..))
        (hfits.part (List.mem_cons_of_mem _ (List.mem_singleton_self _)))
        fun hc _ => hfits.here.2 hc
    all_goals exact .of_other rfl
  case property mods key value kind isMethod isShorthand colonLead span ihKey ih =>
    refine ⟨fun trailing s s' p h hfits hs => ?_, .of_none rfl⟩
    rw [asTarget_property] at h
    split at h
    · exact absurd h Run.throw_ne_ok
    obtain ⟨p', s₁, h', h⟩ := Run.bind_eq_ok.1 h
    obtain ⟨rfl, rfl⟩ := Run.pure_eq_ok.1 h
    obtain ⟨hfirst, hvalue⟩ := List.forall_mem_cons.1 (everywhere_iff.1 hfits).2
    have hkey : key.Fits clean ctx := hfirst
    obtain ⟨hs', hp', hn'⟩ := Turned.value ih.1 h' hvalue hs
    exact ⟨hs', .two hkey hp' trivial rfl, hn'⟩
  case nil =>
    refine ⟨fun trailing s s' p h hfits hs => ?_, .of_none rfl⟩
    obtain ⟨rfl, rfl⟩ := Run.pure_eq_ok.1 h
    exact ⟨hs, .nil, fun _ => .nil⟩
  case cons head tail ihHead ih => exact ⟨.cons ihHead.1 ihHead.2 ih.1, .of_none rfl⟩
  case absent =>
    refine ⟨fun trailing s s' p h hfits hs => ?_, .of_none rfl⟩
    obtain ⟨rfl, rfl⟩ := Run.pure_eq_ok.1 h
    exact ⟨hs, .absent, fun _ => .nil⟩
  case present part ih =>
    refine ⟨fun trailing s s' p h hfits hs => ?_, ih.2⟩
    obtain ⟨p', s₁, h', h⟩ := Run.bind_eq_ok.1 h
    obtain ⟨rfl, rfl⟩ := Run.pure_eq_ok.1 h
    obtain ⟨hs', hp', hn'⟩ := ih.1 _ _ _ _ h' (hfits.part (List.mem_singleton_self _)) hs
    exact ⟨hs', .present hp', hn'⟩
  case spread lead operand span ih =>
    refine ⟨.of_other rfl, fun o ho => ?_⟩
    cases ho
    exact ih.1
  case spreadMember lead operand span ih =>
    refine ⟨fun trailing s s' p h => absurd h Run.throw_ne_ok, fun o ho => ?_⟩
    cases ho
    exact ih.1
  all_goals
    refine ⟨?_, .of_none rfl⟩
    first
    | exact .of_unfit rfl
    | exact .of_other rfl

/-- What a tree that obeys the rules is converted to obeys them, and where no fault is noted, strict
code may assign to all its names. -/
theorem Fits.of_asTarget {trailing : Bool} {p : Tree c.target} (ht : t.Fits clean ctx)
    (h : t.asTarget use ctx.strict trailing [] = .ok p s') (hs : clean = true → s' = []) :
    p.Fits clean ctx ∧ (clean = true → ctx.MayAssign p.names) :=
  (t.turns.1 _ _ _ _ h ht hs).2

end

end Tree

end Verbatim
