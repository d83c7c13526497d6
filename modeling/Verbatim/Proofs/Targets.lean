import Verbatim.Proofs.Legality

/-!
# Targets are references

Whatever a program without faults writes to is a name or a property: the operand of a step, the
target of an operator that assigns, and each leaf of the pattern in front of an equals sign or in
the head of a loop over values. A property in an optional chain may turn out to be none at all, so
it is no target, unless parentheses end the chain before it.

The declarations here do not mention the functions that decide it, which look for an optional link
along a chain and give up at the first parenthesis.

## Main definitions

* `Verbatim.Tree.InOptionalChain` — chains with an optional link.
* `Verbatim.Tree.IsReference` — names and properties outside such chains.
* `Verbatim.Tree.targets` — what a pattern assigns to.
* `Verbatim.Tree.WritesReferences` — constructs that write to references only.

## Main results

* `Verbatim.parse_targets` — programs without faults write to references only.
-/

namespace Verbatim

namespace Tree

/-! ## References -/

/-- An expression with an optional link, or a property access or call that hangs off one.
Parentheses end the chain. -/
inductive InOptionalChain : {c : Category} → Tree c → Prop where
  /-- The link of a property access is optional. -/
  | optionalAccess {base : Expr} {dotLead : String} {access : Tree .access} {span : Span} :
    InOptionalChain (.memberAccess base true dotLead access span)
  /-- The link of a call is optional. -/
  | optionalCall {callee : Expr} {optionalLead : String} {args : Tree .arguments} {span : Span} :
    InOptionalChain (.call callee true optionalLead args span)
  /-- A property access goes on with the chain of its object. -/
  | access {base : Expr} {isOptional : Bool} {dotLead : String} {access : Tree .access}
    {span : Span} (chain : InOptionalChain base) :
    InOptionalChain (.memberAccess base isOptional dotLead access span)
  /-- A call goes on with the chain of its callee. -/
  | call {callee : Expr} {isOptional : Bool} {optionalLead : String} {args : Tree .arguments}
    {span : Span} (chain : InOptionalChain callee) :
    InOptionalChain (.call callee isOptional optionalLead args span)

/-- A name, or a property access outside optional chains, in parentheses or not. -/
inductive IsReference : {c : Category} → Tree c → Prop where
  /-- A name. -/
  | name {id : Ident} : IsReference (.identifier id)
  /-- A property. -/
  | access {base : Expr} {isOptional : Bool} {dotLead : String} {access : Tree .access}
    {span : Span}
    (noChain : ¬ InOptionalChain (.memberAccess base isOptional dotLead access span)) :
    IsReference (.memberAccess base isOptional dotLead access span)
  /-- Either in parentheses. -/
  | parenthesized {lead : String} {inner : Expr} {closeLead : String} {span : Span}
    (inside : IsReference inner) : IsReference (.parenthesized lead inner closeLead span)

/-- The optional links of a chain are found. -/
theorem InOptionalChain.isOptionalChain {c : Category} {t : Tree c} (h : t.InOptionalChain) :
    t.isOptionalChain = true := by
  induction h with
  | optionalAccess | optionalCall => simp [Tree.isOptionalChain]
  | access _ ih | call _ ih => simp [Tree.isOptionalChain, ih]

/-- What passes for a simple target is a reference. -/
theorem IsReference.of_isSimpleTarget {c : Category} {t : Tree c} (h : t.isSimpleTarget = true) :
    t.IsReference := by
  induction t
  case identifier id => exact .name
  case memberAccess base isOptional dotLead access span _ _ =>
    refine .access fun hchain => ?_
    have hfound : (isOptional || base.isOptionalChain) = true := hchain.isOptionalChain
    simp_all [isSimpleTarget]
  case parenthesized lead inner closeLead span ih => exact .parenthesized (ih h)
  all_goals cases h

/-! ## Targets of patterns -/

/-- What a pattern assigns to, in order. -/
def targets : {c : Category} → Tree c → List Expr
  | _, .namePattern id => [.identifier id]
  | _, .exprPattern target => [target]
  | _, .arrayPattern _ elements _ _ _ => elements.targets
  | _, .objectPattern _ members _ _ _ => members.targets
  | _, .defaultPattern target _ _ _ => target.targets
  | _, .restPattern _ target _ => target.targets
  | _, .patternProperty _ value _ _ _ => value.targets
  | _, .restMember _ target _ => target.targets
  | _, .cons head tail => head.targets ++ tail.targets
  | _, .present part => part.targets
  | _, _ => []

/-- What a pattern assigns to is a name, or an expression that occurs in it as a target. -/
theorem mem_targets {c : Category} {t : Tree c} {e : Expr} (ctx : Context) (h : e ∈ t.targets) :
    (∃ id, e = .identifier id) ∨ Contains ctx t ctx (.exprPattern e) := by
  induction t
  case namePattern id => exact .inl ⟨id, List.mem_singleton.1 h⟩
  case exprPattern target _ =>
    obtain rfl := List.mem_singleton.1 h
    exact .inr .whole
  case cons head tail ihhead ihtail =>
    rcases List.mem_append.1 h with h | h
    · exact (ihhead h).imp_right (.inPart ⟨ctx, head⟩ (List.mem_cons_self ..))
    · exact (ihtail h).imp_right (.inPart ⟨ctx, tail⟩ (by simp [innerParts]))
  case present part ih => exact (ih h).imp_right (.inPart ⟨ctx, part⟩ (List.mem_cons_self ..))
  case arrayPattern elements _ _ _ ih =>
    exact (ih h).imp_right (.inPart ⟨ctx, elements⟩ (List.mem_cons_self ..))
  case objectPattern members _ _ _ ih =>
    exact (ih h).imp_right (.inPart ⟨ctx, members⟩ (List.mem_cons_self ..))
  case defaultPattern target _ _ _ ih _ =>
    exact (ih h).imp_right (.inPart ⟨ctx, target⟩ (List.mem_cons_self ..))
  case restPattern target _ ih =>
    exact (ih h).imp_right (.inPart ⟨ctx, target⟩ (List.mem_cons_self ..))
  case patternProperty value _ _ _ _ ih =>
    exact (ih h).imp_right (.inPart ⟨ctx, value⟩ (by simp [innerParts]))
  case restMember target _ ih =>
    exact (ih h).imp_right (.inPart ⟨ctx, target⟩ (List.mem_cons_self ..))
  all_goals cases h

/-! ## What is written to -/

/-- Whatever the construct writes to is a reference, so in particular no literal in parentheses, and
only an equals sign, a declaration and the head of a loop write to an array or object pattern. -/
def WritesReferences : {c : Category} → Tree c → Prop
  | _, .update _ _ _ operand _ => operand.IsReference
  | _, .assignment target _ op _ _ =>
    (∀ e ∈ target.targets, e.IsReference) ∧ (op ≠ .assign → target.isPlace = true)
  | _, .targetPattern p => ∀ e ∈ p.targets, e.IsReference
  | _, .declarator target _ _ => ∀ e ∈ target.targets, e.IsReference
  | _, _ => True

end Tree

/-- The leaves of a pattern are references where all rules are obeyed. -/
theorem Program.Contains.targets_isReference {o : Options} {source : String} {out : Parsed}
    {ctx : Context} {p : Pattern} (hp : out.program.Contains o ctx p)
    (h : parse o source = .ok out) (clean : out.errors = []) : ∀ e ∈ p.targets, e.IsReference := by
  intro e he
  rcases Tree.mem_targets ctx he with ⟨id, rfl⟩ | hin
  · exact .name
  · have hallowed := parse_allowed_of_clean h clean (hp.trans hin)
    exact .of_isSimpleTarget (hallowed rfl)

/-- **Targets are references.** In a program without faults, the operand of every step, the target
of every assignment and every leaf of a pattern that is assigned to is a name or a property outside
optional chains. -/
theorem parse_targets {o : Options} {source : String} {out : Parsed} (h : parse o source = .ok out)
    (clean : out.errors = []) {c : Category} {ctx : Context} {x : Tree c}
    (hx : out.program.Contains o ctx x) : x.WritesReferences := by
  have hallowed := parse_allowed_of_clean h clean hx
  cases x
  case update op isBefore opLead operand span => exact .of_isSimpleTarget (hallowed rfl).1
  case assignment target opLead op value span =>
    have htarget : out.program.Contains o ctx target := hx.part (List.mem_cons_self ..)
    exact ⟨htarget.targets_isReference h clean, hallowed.1⟩
  case targetPattern p =>
    have hp : out.program.Contains o ctx p := hx.part (List.mem_cons_self ..)
    exact hp.targets_isReference h clean
  case declarator target init span =>
    have htarget : out.program.Contains o ctx target := hx.part (List.mem_cons_self ..)
    exact htarget.targets_isReference h clean
  all_goals trivial

/-- A property of what stands in parentheses around an optional chain, as the target of an
element. -/
theorem parse_targets_array :
    ∃ out target opLead value span, parse {} "[(a?.b).c]=d" = .ok out ∧ out.errors = [] ∧
      out.program.Contains {} (.start .script true) (.assignment target opLead .assign value span) ∧
      target.targets.length = 1 ∧
      (Tree.assignment target opLead .assign value span).WritesReferences := by
  have hparse : (parse {} "[(a?.b).c]=d").toOption.map (fun out => (out.errors, out.program.body)) =
      some ([], [.exprStmt (.assignment (.arrayPattern "" (.cons (.present (.exprPattern
        (.memberAccess (.parenthesized "" (.memberAccess (.identifier { name := "a", raw := "a" })
          true "" (.nameAccess { name := "b", raw := "b" }) {}) "" {}) false ""
          (.nameAccess { name := "c", raw := "c" }) {}))) .nil) [] "" {}) "" .assign
        (.identifier { name := "d", raw := "d" }) {}) none .inserted {}]) := by decide +kernel
  obtain ⟨out, h, hout⟩ := Except.exists_ok_of_map hparse
  obtain ⟨hclean, hbody⟩ := Prod.mk.inj hout
  have he : out.program.Contains {} _ _ :=
    .of_body hbody (List.mem_singleton_self _) (.inPart _ (List.mem_singleton_self _) .whole)
  exact ⟨out, _, _, _, _, h, hclean, he, rfl, parse_targets h hclean he⟩

end Verbatim
