import Verbatim.Proofs.Legality

/-!
# Parameters do not suspend

The parameters of functions and methods are computed when they are called, so nothing in them may
wait for a value or hand one out, other than the bodies of the functions in them. The parameters of
an arrow function are read before it is known to be one. They are looked at afterwards, but their
defaults are not.

## Main definitions

* `Verbatim.Tree.Reaches` — a construct that occurs in another one outside the bodies of functions.
* `Verbatim.Context.IsParameter` — surroundings in which nothing may suspend.

## Main results

* `Verbatim.parse_parameters_run` — the parameters of functions and methods do not suspend.
* `Verbatim.parse_arrow_suspends` — those of arrow functions may.
-/

namespace Verbatim

open Grammar

namespace Tree

/-- A construct occurs in another one, and not in the body of a function in it. -/
inductive Reaches : {c d : Category} → Context → Tree c → Context → Tree d → Prop where
  /-- A construct occurs in itself. -/
  | whole {c : Category} {ctx : Context} {t : Tree c} : Reaches ctx t ctx t
  /-- What occurs in a part occurs in the whole. -/
  | inPart {c d : Category} {ctx ctx' : Context} {t : Tree c} {x : Tree d} (part : Part)
    (mem : part ∈ t.innerParts ctx) (noBody : part.category ≠ .body)
    (noArrowBody : part.category ≠ .arrowBody)
    (inside : Reaches part.surroundings part.tree ctx' x) : Reaches ctx t ctx' x

theorem Reaches.contains {c d : Category} {ctx ctx' : Context} {t : Tree c} {x : Tree d}
    (h : Reaches ctx t ctx' x) : Contains ctx t ctx' x := by
  induction h with
  | whole => exact .whole
  | inPart part mem _ _ _ ih => exact .inPart part mem ih

/-- Whether an expression suspends the function that it is in. -/
def isSuspension : Expr → Bool
  | .yield .. | .await .. => true
  | _ => false

end Tree

namespace Context

/-- Nothing with these surroundings may suspend: they are a parameter list, or a place in one where
`yield` and `await` are no operators. -/
def IsParameter (ctx : Context) : Prop :=
  ctx.inParameters = true ∨ ctx.allowsYield = false ∧ ctx.allowsAwait = false

variable {ctx : Context}

namespace IsParameter

theorem loopBody (h : ctx.IsParameter) : ctx.loopBody.IsParameter := h

theorem switchBody (h : ctx.IsParameter) : ctx.switchBody.IsParameter := h

theorem classBody (h : ctx.IsParameter) : ctx.classBody.IsParameter := h

theorem fieldValue (ctx : Context) : ctx.fieldValue.IsParameter := .inr ⟨rfl, rfl⟩

theorem staticBlock (ctx : Context) : ctx.staticBlock.IsParameter := .inr ⟨rfl, rfl⟩

end IsParameter

end Context

namespace Tree

/-- Wherever nothing may suspend, nothing in the parts may, other than the body of a function. -/
theorem isParameter_of_mem_parts {c : Category} {ctx : Context} {t : Tree c}
    (h : ctx.IsParameter) : ∀ part ∈ t.innerParts ctx, part.category ≠ .body →
      part.category ≠ .arrowBody → part.surroundings.IsParameter := by
  cases t
  case function head params body span =>
    refine List.forall_mem_cons.2 ⟨fun _ _ => .inl rfl,
      List.forall_mem_singleton.2 fun hbody _ => ?_⟩
    exact absurd rfl hbody
  case arrow isAsync asyncLead params arrowLead body span =>
    refine List.forall_mem_cons.2 ⟨fun _ _ => h, List.forall_mem_singleton.2 fun _ hbody => ?_⟩
    exact absurd rfl hbody
  case property mods key value kind isMethod isShorthand colonLead span =>
    refine List.forall_mem_cons.2 ⟨fun _ _ => h, ?_⟩
    rcases valueParts_cases ctx isShorthand value with hone | ⟨_, _, _, _, -, htwo⟩
    · rw [hone]
      exact List.forall_mem_singleton.2 fun _ _ => h
    · rw [htwo]
      exact List.forall_mem_cons.2 ⟨fun _ _ => h, List.forall_mem_singleton.2 fun _ _ => h⟩
  all_goals first
    | exact List.forall_mem_nil _
    | exact List.forall_mem_singleton.2 fun _ _ => h
    | exact List.forall_mem_singleton.2 fun _ _ => h.labelled
    | simp [innerParts, h, h.loopBody, h.switchBody, h.classBody, Context.IsParameter.fieldValue,
        Context.IsParameter.staticBlock]

/-- Nothing that a parameter list reaches is in a place where it may suspend. -/
theorem Reaches.isParameter {c d : Category} {ctx ctx' : Context} {t : Tree c} {x : Tree d}
    (hx : Reaches ctx t ctx' x) (h : ctx.IsParameter) : ctx'.IsParameter := by
  induction hx with
  | whole => exact h
  | inPart part mem noBody noArrowBody _ ih =>
    exact ih (isParameter_of_mem_parts h part mem noBody noArrowBody)

/-- Where nothing may suspend, an expression that is allowed does not. -/
theorem Allowed.isSuspension_eq {clean : Bool} {ctx : Context} {e : Expr}
    (h : e.Allowed clean ctx) (hctx : ctx.IsParameter) : e.isSuspension = false := by
  cases e
  case yield lead starLead operand span =>
    obtain ⟨hyield, hno⟩ := h
    rcases hctx with hin | ⟨hnone, -⟩
    · exact absurd hin (by rw [hno]; decide)
    · exact absurd hyield (by rw [hnone]; decide)
  case await lead operand span =>
    obtain ⟨-, hawait, hno⟩ := h
    rcases hctx with hin | ⟨-, hnone⟩
    · exact absurd hin (by rw [hno]; decide)
    · exact absurd hawait (by rw [hnone]; decide)
  all_goals rfl

end Tree

/-- Nothing in the parameters of a function or method suspends, at any depth, other than in the
bodies of the functions there. -/
theorem parse_parameters_run {o : Options} {source : String} {out : Parsed}
    (h : parse o source = .ok out) {ctx ctx' : Context} {head : FunctionHead}
    {params : Tree .params}
    {body : Tree .body} {span : Span} {e : Expr}
    (hf : out.program.Contains o ctx (.function head params body span))
    (he : params.Reaches { Tree.inFunctionOf ctx head body with inParameters := true } ctx' e) :
    e.isSuspension = false := by
  have hparams := hf.part (List.mem_cons_self ..)
  exact (parse_allowed h (hparams.trans he.contains)).isSuspension_eq (he.isParameter (.inl rfl))

/-- The default of a parameter of an arrow function may suspend the function around it. -/
theorem parse_arrow_suspends :
    (parse {} "function*g()\x7b(a=yield)=>a\x7d").toOption.map
        (fun out => (out.program.body, out.errors)) =
      some ([.functionStmt (.function
        { isGenerator := true, name := some { name := "g", raw := "g" } } (.paramList "" .nil [] "")
        (.bodyBlock "" (.cons (.exprStmt (.arrow false "" (.listedParams (.paramList ""
          (.cons (.defaultPattern (.namePattern { name := "a", raw := "a" }) ""
            (.yield "" none .absent {}) {}) .nil) [] "")) ""
          (.exprBody (.identifier { name := "a", raw := "a" })) {}) none .inserted {}) .nil) ""
          {}) {})], []) := by
  decide +kernel

end Verbatim
