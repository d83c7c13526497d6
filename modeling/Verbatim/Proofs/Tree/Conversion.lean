import Verbatim.Proofs.Grammar.Target

/-!
# What conversion does to a tree

A literal is converted to a pattern part by part. The relation says what each part becomes, and what
is known of parts that are converted at all; what conversion preserves is one induction over it.

## Main definitions

* `Verbatim.Tree.Becomes` — a tree and the target that it is converted to.

## Main results

* `Verbatim.Tree.becomes_of_asTarget` — a conversion leads from a tree to what it becomes.
-/

namespace Verbatim

namespace Tree

/-- Whether a pattern is a target with a default. -/
def isDefault : Pattern → Bool
  | .defaultPattern .. => true
  | _ => false

/-- Whether a pattern is a name or an expression to assign to. -/
def isPlace : Pattern → Bool
  | .namePattern _ | .exprPattern _ => true
  | _ => false

/-- A tree and the target that it is converted to. `trailing` says of a list that a separator
follows its last item. -/
inductive Becomes (use : TargetUse) : {c d : Category} → (trailing : Bool) → Tree c → Tree d → Prop
  where
  /-- A name stays a name. -/
  | identifier {trailing : Bool} {id : Ident} :
    Becomes use trailing (.identifier id) (.namePattern id)
  /-- An array literal becomes an array pattern. -/
  | array {trailing : Bool} {lead : String} {elements : Tree (.many (.maybe .expr))}
    {elements' : Tree (.many (.maybe .pattern))} {separators : List String} {closeLead : String}
    {span : Span}
    (parts : Becomes use (separators.length ≥ elements.toList.length) elements elements') :
    Becomes use trailing (.array lead elements separators closeLead span)
      (.arrayPattern lead elements' separators closeLead span)
  /-- An object literal becomes an object pattern. -/
  | object {trailing : Bool} {lead : String} {members : Tree (.many .member)}
    {members' : Tree (.many .patternMember)} {separators : List String} {closeLead : String}
    {span : Span}
    (parts : Becomes use (separators.length ≥ members.toList.length) members members') :
    Becomes use trailing (.object lead members separators closeLead span)
      (.objectPattern lead members' separators closeLead span)
  /-- An assignment becomes a target with a default. -/
  | assignment {trailing : Bool} {target : Pattern} {opLead : String} {value : Expr} {span : Span}
    (binds : use = .binding → target.isBinding = true) :
    Becomes use trailing (.assignment target opLead .assign value span)
      (.defaultPattern target opLead value span)
  /-- Any other expression stays what it is, where that may be assigned to. -/
  | other {trailing : Bool} {e : Expr} (assigns : use = .assignment)
    (unlike : e.isPatternLike = false) : Becomes use trailing e (.exprPattern e)
  /-- A plain property becomes a target for one property. -/
  | property {trailing : Bool} {mods : Modifiers} {key : Tree .key} {value : Expr}
    {value' : Pattern} {isShorthand : Bool} {colonLead : String} {span : Span}
    (part : Becomes use false value value') :
    Becomes use trailing (.property mods key value .plain false isShorthand colonLead span)
      (.patternProperty key value' isShorthand colonLead span)
  /-- A list without items. -/
  | nil {trailing : Bool} {c d : Category} :
    Becomes use trailing (.nil : Tree (.many c)) (.nil : Tree (.many d))
  /-- A list item by item, unless it is spread. -/
  | cons {trailing : Bool} {c d : Category} {head : Tree c} {head' : Tree d}
    {tail : Tree (.many c)} {tail' : Tree (.many d)} (single : head.isRest = false)
    (first : Becomes use false head head') (rest : Becomes use trailing tail tail') :
    Becomes use trailing (.cons head tail) (.cons head' tail')
  /-- A spread element, which comes last, becomes a target for all that remains. -/
  | restElement {lead : String} {operand : Expr} {target : Pattern} {span : Span}
    (part : Becomes use false operand target) (plain : target.isDefault = false) :
    Becomes use false (.cons (.present (.spread lead operand span)) .nil)
      (.cons (.present (.restPattern lead target span)) .nil)
  /-- A spread member, which comes last, becomes a target for all remaining properties. -/
  | restMember {lead : String} {operand : Expr} {target : Pattern} {span : Span}
    (part : Becomes use false operand target) (plain : target.isDefault = false)
    (place : target.isPlace = true) :
    Becomes use false (.cons (.spreadMember lead operand span) .nil)
      (.cons (.restMember lead target span) .nil)
  /-- A part that is absent. -/
  | absent {trailing : Bool} {c d : Category} :
    Becomes use trailing (.absent : Tree (.maybe c)) (.absent : Tree (.maybe d))
  /-- A part that is present. -/
  | present {trailing : Bool} {c d : Category} {part : Tree c} {part' : Tree d}
    (inner : Becomes use false part part') :
    Becomes use trailing (.present part) (.present part')

section

variable {use : TargetUse} {strict : Bool} {s s' : List Fault}

theorem isDefault_of_checkRest {target : Pattern} {v : Unit}
    (h : checkRest target s = .ok v s') : target.isDefault = false := by
  cases target <;> first | rfl | exact absurd h Run.throw_ne_ok

theorem isPlace_of_checkMemberRest {target : Pattern} {v : Unit}
    (h : checkMemberRest use target s = .ok v s') : target.isPlace = true := by
  cases target <;> first | rfl | exact absurd h Run.throw_ne_ok

theorem isBinding_of_checkDefault {target : Pattern} {v : Unit}
    (h : checkDefault use strict target s = .ok v s') (hu : use = .binding) :
    target.isBinding = true := by
  unfold checkDefault at h
  cases hb : target.isBinding with
  | true => rfl
  | false =>
    rw [hb, hu] at h
    exact absurd (Run.bind_eq_ok.1 h) fun ⟨_, _, hthrow, _⟩ => Run.throw_ne_ok hthrow

variable (use strict) in
/-- Whatever a tree is converted to is what it becomes. -/
def Conforms {c : Category} (t : Tree c) : Prop :=
  ∀ trailing s s' p, t.asTarget use strict trailing s = .ok p s' → Becomes use trailing t p

theorem Conforms.of_other {e : Expr} (he : e.isPatternLike = false) : e.Conforms use strict := by
  intro trailing s s' p h
  have hp := eq_exprPattern he h
  rw [asTarget_other _ _ _ _ he] at h
  cases use with
  | binding => exact absurd h Run.throw_ne_ok
  | assignment => exact hp ▸ .other rfl he

theorem Conforms.of_unfit {c : Category} {t : Tree c} (hc : c.isFit = false) :
    t.Conforms use strict := by
  intro trailing s s' p h
  rw [asTarget_unfit _ _ _ _ hc] at h
  exact absurd h Run.throw_ne_ok

theorem Conforms.of_none {c : Category} {t : Tree c} (h : t.operand? = none) (o : Expr)
    (ho : t.operand? = some o) : o.Conforms use strict :=
  absurd (h.symm.trans ho) nofun

/-- The last item of a list is one that no separator and no item follows. -/
theorem eq_nil_of_last {c : Category} {trailing : Bool} {tail : Tree (.many c)}
    (h : ¬ (trailing || !tail.toList.isEmpty) = true) : trailing = false ∧ tail = nil := by
  cases tail <;> simp_all

/-- The items of a list become what they are converted to, one by one. -/
theorem Conforms.cons {c : Category} {head : Tree c} {tail : Tree (.many c)}
    (hh : head.Conforms use strict) (ho : ∀ o, head.operand? = some o → o.Conforms use strict)
    (ht : tail.Conforms use strict) : (cons head tail).Conforms use strict := by
  intro trailing s s' p h
  cases hr : head.isRest with
  | false =>
    rw [asTarget_cons _ _ _ _ _ hr] at h
    obtain ⟨p₁, s₁, h₁, h⟩ := Run.bind_eq_ok.1 h
    obtain ⟨p₂, s₂, h₂, h⟩ := Run.bind_eq_ok.1 h
    obtain ⟨rfl, -⟩ := Run.pure_eq_ok.1 h
    exact .cons hr (hh _ _ _ _ h₁) (ht _ _ _ _ h₂)
  | true =>
    cases head
    case present part =>
      cases part
      case spread lead operand span =>
        rw [asTarget_spread] at h
        split at h
        · exact absurd h Run.throw_ne_ok
        obtain ⟨rfl, rfl⟩ := eq_nil_of_last ‹_›
        obtain ⟨p₁, s₁, h₁, h⟩ := Run.bind_eq_ok.1 h
        obtain ⟨_, _, hrest, h⟩ := Run.bind_eq_ok.1 h
        obtain ⟨rfl, -⟩ := Run.pure_eq_ok.1 h
        exact .restElement (ho operand rfl _ _ _ _ h₁) (isDefault_of_checkRest hrest)
      all_goals cases hr
    case spreadMember lead operand span =>
      rw [asTarget_spreadMember] at h
      split at h
      · exact absurd h Run.throw_ne_ok
      obtain ⟨rfl, rfl⟩ := eq_nil_of_last ‹_›
      obtain ⟨p₁, s₁, h₁, h⟩ := Run.bind_eq_ok.1 h
      obtain ⟨_, _, hrest, h⟩ := Run.bind_eq_ok.1 h
      obtain ⟨_, _, hplace, h⟩ := Run.bind_eq_ok.1 h
      obtain ⟨rfl, -⟩ := Run.pure_eq_ok.1 h
      exact .restMember (ho operand rfl _ _ _ _ h₁) (isDefault_of_checkRest hrest)
        (isPlace_of_checkMemberRest hplace)
    all_goals cases hr

/-- Whatever a tree or its operand is converted to is what it becomes. -/
theorem conforms {c : Category} (t : Tree c) :
    t.Conforms use strict ∧ ∀ o, t.operand? = some o → o.Conforms use strict := by
  induction t
  case identifier id =>
    refine ⟨fun trailing s s' p h => ?_, nofun⟩
    obtain ⟨_, _, _, h⟩ := Run.bind_eq_ok.1 h
    obtain ⟨rfl, -⟩ := Run.pure_eq_ok.1 h
    exact .identifier
  case array lead elements separators closeLead span ih =>
    refine ⟨fun trailing s s' p h => ?_, nofun⟩
    obtain ⟨p', s₁, h', h⟩ := Run.bind_eq_ok.1 h
    obtain ⟨rfl, -⟩ := Run.pure_eq_ok.1 h
    exact .array (ih.1 _ _ _ _ h')
  case object lead members separators closeLead span ih =>
    refine ⟨fun trailing s s' p h => ?_, nofun⟩
    obtain ⟨p', s₁, h', h⟩ := Run.bind_eq_ok.1 h
    obtain ⟨rfl, -⟩ := Run.pure_eq_ok.1 h
    exact .object (ih.1 _ _ _ _ h')
  case assignment target opLead op value span ihTarget ihValue =>
    refine ⟨?_, nofun⟩
    cases op
    case assign =>
      intro trailing s s' p h
      obtain ⟨_, _, hcheck, h⟩ := Run.bind_eq_ok.1 h
      obtain ⟨rfl, -⟩ := Run.pure_eq_ok.1 h
      exact .assignment (isBinding_of_checkDefault hcheck)
    all_goals exact .of_other rfl
  case property mods key value kind isMethod isShorthand colonLead span ihKey ih =>
    refine ⟨fun trailing s s' p h => ?_, nofun⟩
    rw [asTarget_property] at h
    split at h
    · exact absurd h Run.throw_ne_ok
    obtain ⟨rfl, rfl⟩ : isMethod = false ∧ kind = .plain := by simp_all
    obtain ⟨p', s₁, h', h⟩ := Run.bind_eq_ok.1 h
    obtain ⟨rfl, -⟩ := Run.pure_eq_ok.1 h
    exact .property (ih.1 _ _ _ _ h')
  case nil =>
    refine ⟨fun trailing s s' p h => ?_, nofun⟩
    obtain ⟨rfl, -⟩ := Run.pure_eq_ok.1 h
    exact .nil
  case cons head tail ihHead ih => exact ⟨.cons ihHead.1 ihHead.2 ih.1, nofun⟩
  case absent =>
    refine ⟨fun trailing s s' p h => ?_, nofun⟩
    obtain ⟨rfl, -⟩ := Run.pure_eq_ok.1 h
    exact .absent
  case present part ih =>
    refine ⟨fun trailing s s' p h => ?_, ih.2⟩
    obtain ⟨p', s₁, h', h⟩ := Run.bind_eq_ok.1 h
    obtain ⟨rfl, -⟩ := Run.pure_eq_ok.1 h
    exact .present (ih.1 _ _ _ _ h')
  case spread lead operand span ih => exact ⟨.of_other rfl, fun o ho => by cases ho; exact ih.1⟩
  case spreadMember lead operand span ih =>
    refine ⟨fun trailing s s' p h => ?_, fun o ho => by cases ho; exact ih.1⟩
    exact absurd h Run.throw_ne_ok
  all_goals
    refine ⟨?_, .of_none rfl⟩
    first
    | exact .of_unfit rfl
    | exact .of_other rfl

end

/-- A conversion leads from a tree to what it becomes. -/
theorem becomes_of_asTarget {c : Category} {use : TargetUse} {strict trailing : Bool}
    {s s' : List Fault} {t : Tree c} {p : Tree c.target}
    (h : t.asTarget use strict trailing s = .ok p s') : Becomes use trailing t p :=
  t.conforms.1 _ _ _ _ h

end Tree

end Verbatim
