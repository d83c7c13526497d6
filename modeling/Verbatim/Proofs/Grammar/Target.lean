import Verbatim.Proofs.Grammar.Basic
import Verbatim.Proofs.Scan.Read

/-!
# Conversion keeps the text

An expression that turns out to be a target prints as it did before, and alike expressions are
converted to alike targets. The first holds because a property that is converted has neither
modifiers nor a function of its own, which is how object literals are read.

## Main definitions

* `Verbatim.Tree.isConvertible` — no property that may become part of a pattern has modifiers.

## Main results

* `Verbatim.Tree.print_asTarget` — a converted expression prints the same.
* `Verbatim.Tree.moves` — retouching has no influence on the conversion.
* `Verbatim.Tracks.convertAs`, `Verbatim.Tracks.assignmentTarget` — conversions as steps of a parse.
-/

namespace Verbatim

/-- Whether constructs of a kind may be converted. -/
def Category.isFit : Category → Bool
  | .expr | .member | .many _ | .maybe _ => true
  | _ => false

namespace Tree

/-! ## The equations of the conversion -/

/-- Whether an item is spread. -/
def isRest : {c : Category} → Tree c → Bool
  | _, .present (.spread ..) => true
  | _, .spreadMember .. => true
  | _, _ => false

/-- Whether an expression is one of the forms that become patterns of their own. -/
def isPatternLike : Expr → Bool
  | .identifier .. | .array .. | .object .. => true
  | .assignment _ _ op _ _ => op = .assign
  | _ => false

/-- Whether an expression is a property or an expression in parentheses. -/
def isAccess : Expr → Bool
  | .memberAccess .. | .parenthesized .. => true
  | _ => false

section

variable (use : TargetUse) (strict trailing : Bool)

theorem asTarget_identifier (id : Ident) :
    (identifier id).asTarget use strict trailing = (do
      use.checkName strict id
      return .namePattern id) := rfl

theorem asTarget_array (lead : String) (elements : Tree (.many (.maybe .expr)))
    (separators : List String) (closeLead : String) (span : Span) :
    (array lead elements separators closeLead span).asTarget use strict trailing = (do
      let elements ← elements.asTarget use strict (separators.length ≥ elements.toList.length)
      return .arrayPattern lead elements separators closeLead span) := rfl

theorem asTarget_object (lead : String) (members : Tree (.many .member))
    (separators : List String) (closeLead : String) (span : Span) :
    (object lead members separators closeLead span).asTarget use strict trailing = (do
      let members ← members.asTarget use strict (separators.length ≥ members.toList.length)
      return .objectPattern lead members separators closeLead span) := rfl

theorem asTarget_assign (target : Pattern) (opLead : String) (value : Expr) (span : Span) :
    (assignment target opLead .assign value span).asTarget use strict trailing = (do
      checkDefault use strict target
      return .defaultPattern target opLead value span) := rfl

theorem asTarget_present {c : Category} (part : Tree c) :
    (present part).asTarget use strict trailing = (do
      let part ← part.asTarget use strict false
      return .present part) := rfl

theorem asTarget_cons {c : Category} (head : Tree c) (tail : Tree (.many c))
    (h : head.isRest = false) :
    (cons head tail).asTarget use strict trailing = (do
      let head ← head.asTarget use strict false
      let tail ← tail.asTarget use strict trailing
      return .cons head tail) := by
  cases head <;> try rfl
  case absent d => cases d <;> rfl
  case present part => cases part <;> first | rfl | cases h
  case spreadMember => cases h

/-- Spread elements come last. -/
theorem asTarget_spread (lead : String) (operand : Expr) (span : Span)
    (tail : Tree (.many (.maybe .expr))) :
    (cons (present (.spread lead operand span)) tail).asTarget use strict trailing =
      if (trailing || !tail.toList.isEmpty) = true then throw .misplacedRest
      else do
        let target ← operand.asTarget use strict false
        checkRest target
        return .cons (.present (.restPattern lead target span)) .nil := by
  change (if (trailing || !tail.toList.isEmpty) = true then _ else _) = _
  cases trailing || !tail.toList.isEmpty <;> rfl

/-- Spread members come last. -/
theorem asTarget_spreadMember (lead : String) (operand : Expr) (span : Span)
    (tail : Tree (.many .member)) :
    (cons (.spreadMember lead operand span) tail).asTarget use strict trailing =
      if (trailing || !tail.toList.isEmpty) = true then throw .misplacedRest
      else do
        let target ← operand.asTarget use strict false
        checkRest target
        checkMemberRest use target
        return .cons (.restMember lead target span) .nil := by
  change (if (trailing || !tail.toList.isEmpty) = true then _ else _) = _
  cases trailing || !tail.toList.isEmpty <;> rfl

/-- Only plain properties are converted. -/
theorem asTarget_property (mods : Modifiers) (key : Tree .key) (value : Expr) (kind : PropertyKind)
    (isMethod isShorthand : Bool) (colonLead : String) (span : Span) :
    (property mods key value kind isMethod isShorthand colonLead span).asTarget use
    strict trailing =
      if (isMethod || kind != .plain) = true then throw use.invalid
      else do
        let value ← value.asTarget use strict false
        return .patternProperty key value isShorthand colonLead span := by
  change (if (isMethod || kind != .plain) = true then _ else _) = _
  cases isMethod || kind != .plain <;> rfl

/-- The expressions without a form of their own among the patterns. -/
theorem asTarget_other (e : Expr) (h : e.isPatternLike = false) :
    e.asTarget use strict trailing = match use with
      | .assignment => do
        if !(e.isAccess && e.isSimpleTarget) then Conversion.note .invalidAssignmentTarget
        return .exprPattern e
      | .binding => throw .invalidDestructuringTarget := by
  cases use <;> cases e <;> first | rfl | cases h | skip
  all_goals
    rename_i op _ _
    cases op <;> first | rfl | cases h

/-- The constructs that are never converted. -/
theorem asTarget_unfit {c : Category} (t : Tree c) (h : c.isFit = false) :
    t.asTarget use strict trailing = throw use.invalid := by
  cases t <;> first | rfl | cases h

end

/-! ## Texts -/

/-- No property that may become part of a pattern has modifiers. -/
def isConvertible : {c : Category} → Tree c → Bool
  | _, .array _ elements _ _ _ => elements.isConvertible
  | _, .object _ members _ _ _ => members.isConvertible
  | _, .property mods _ value kind isMethod _ _ _ =>
    (isMethod || kind != .plain || mods = {}) && value.isConvertible
  | _, .spread _ operand _ => operand.isConvertible
  | _, .spreadMember _ operand _ => operand.isConvertible
  | _, .cover _ _ items _ _ _ => items.isConvertible
  | _, .cons head tail => head.isConvertible && tail.isConvertible
  | _, .present part => part.isConvertible
  | _, _ => true

theorem isConvertible_property {mods : Modifiers} {key : Tree .key} {value : Expr}
    {kind : PropertyKind} {isMethod isShorthand : Bool} {colonLead : String} {span : Span} :
    (property mods key value kind isMethod isShorthand colonLead span).isConvertible =
      ((isMethod || kind != .plain || mods = {}) && value.isConvertible) := rfl

section

variable {use : TargetUse} {strict trailing : Bool} {s s' : List Fault}

/-- An expression without a form of its own among the patterns stays an expression. -/
theorem eq_exprPattern {e : Expr} {p : Pattern} (he : e.isPatternLike = false)
    (h : e.asTarget use strict trailing s = .ok p s') : p = .exprPattern e := by
  rw [asTarget_other _ _ _ _ he] at h
  cases use with
  | binding => exact absurd h Run.throw_ne_ok
  | assignment =>
    dsimp only at h
    split at h
    · obtain ⟨-, -, -, h⟩ := Run.bind_eq_ok.1 h
      exact (Run.pure_eq_ok.1 h).1.symm
    · exact (Run.pure_eq_ok.1 h).1.symm

/-- Two trees have the same text, and the same items if they are lists. -/
def SameTexts {c d : Category} (p : Tree d) (t : Tree c) : Prop :=
  p.print = t.print ∧ ∀ e, c = .many e → p.texts .standalone = t.texts .standalone

variable (use strict) in
/-- Whatever a tree is converted to has the same texts. -/
def KeepsTexts {c : Category} (t : Tree c) : Prop :=
  ∀ trailing s s' p, t.isConvertible = true → t.asTarget use strict trailing s = .ok p s' →
    p.SameTexts t

/-- The operand of a spread item. -/
def operand? : {c : Category} → Tree c → Option Expr
  | _, .present part => part.operand?
  | _, .spread _ operand _ | _, .spreadMember _ operand _ => some operand
  | _, _ => none

theorem KeepsTexts.of_other {e : Expr} (he : e.isPatternLike = false) :
    e.KeepsTexts use strict := by
  intro trailing s s' p _ h
  obtain rfl := eq_exprPattern he h
  exact ⟨rfl, by simp⟩

theorem KeepsTexts.of_unfit {c : Category} {t : Tree c} (hc : c.isFit = false) :
    t.KeepsTexts use strict := by
  intro trailing s s' p _ h
  rw [asTarget_unfit _ _ _ _ hc] at h
  exact absurd h Run.throw_ne_ok

/-- A spread item is the only one left. -/
theorem SameTexts.of_rest {c d : Category} {p : Tree d} {head : Tree c} {tail : Tree (.many c)}
    {trailing : Bool} (hlast : ¬ (trailing || !tail.toList.isEmpty) = true)
    (h : p.print = head.print) : (cons p nil).SameTexts (cons head tail) := by
  rw [print_eq, print_eq] at h
  have htail : tail = nil := by
    cases tail with
    | nil => rfl
    | cons head tail => simp at hlast
  have htexts : (Tree.cons p nil).texts .standalone = (Tree.cons head tail).texts .standalone := by
    rw [htail, texts_cons, texts_cons, h, texts_nil, texts_nil]
  exact ⟨congrArg concat htexts, fun _ _ => htexts⟩

/-- The conversion of a list keeps the texts of all items, rest elements included. -/
theorem KeepsTexts.cons {c : Category} {head : Tree c} {tail : Tree (.many c)}
    (hh : head.KeepsTexts use strict) (ho : ∀ o, head.operand? = some o → o.KeepsTexts use strict)
    (ht : tail.KeepsTexts use strict) : (cons head tail).KeepsTexts use strict := by
  intro trailing s s' p hc h
  obtain ⟨hhead, htail⟩ := Bool.and_eq_true_iff.1 hc
  cases hr : head.isRest with
  | false =>
    rw [asTarget_cons _ _ _ _ _ hr] at h
    obtain ⟨p₁, s₁, h₁, h⟩ := Run.bind_eq_ok.1 h
    obtain ⟨p₂, s₂, h₂, h⟩ := Run.bind_eq_ok.1 h
    obtain ⟨rfl, -⟩ := Run.pure_eq_ok.1 h
    have ih₁ := (hh _ _ _ p₁ hhead h₁).1
    have ih₂ := (ht _ _ _ p₂ htail h₂).2 _ rfl
    rw [print_eq, print_eq] at ih₁
    have htexts : (Tree.cons p₁ p₂).texts .standalone =
      (Tree.cons head tail).texts .standalone := by
      rw [texts_cons, texts_cons, ih₁, ih₂]
    exact ⟨congrArg concat htexts, fun _ _ => htexts⟩
  | true =>
    cases head
    case present part =>
      cases part
      case spread lead operand span =>
        rw [asTarget_spread] at h
        split at h
        · exact absurd h Run.throw_ne_ok
        rename_i hlast
        obtain ⟨p₁, s₁, h₁, h⟩ := Run.bind_eq_ok.1 h
        obtain ⟨_, _, _, h⟩ := Run.bind_eq_ok.1 h
        obtain ⟨rfl, -⟩ := Run.pure_eq_ok.1 h
        exact .of_rest hlast (by simpa [print_eq] using (ho operand rfl _ _ _ p₁ hhead h₁).1)
      all_goals cases hr
    case spreadMember lead operand span =>
      rw [asTarget_spreadMember] at h
      split at h
      · exact absurd h Run.throw_ne_ok
      rename_i hlast
      obtain ⟨p₁, s₁, h₁, h⟩ := Run.bind_eq_ok.1 h
      obtain ⟨_, _, _, h⟩ := Run.bind_eq_ok.1 h
      obtain ⟨_, _, _, h⟩ := Run.bind_eq_ok.1 h
      obtain ⟨rfl, -⟩ := Run.pure_eq_ok.1 h
      exact .of_rest hlast (by simpa [print_eq] using (ho operand rfl _ _ _ p₁ hhead h₁).1)
    all_goals cases hr

theorem KeepsTexts.of_none {c : Category} {t : Tree c} (h : t.operand? = none) (o : Expr)
    (ho : t.operand? = some o) : o.KeepsTexts use strict :=
  absurd (h.symm.trans ho) (by simp)

/-- Conversion keeps the texts. -/
theorem keepsTexts {c : Category} (t : Tree c) :
    t.KeepsTexts use strict ∧ ∀ o, t.operand? = some o → o.KeepsTexts use strict := by
  induction t
  case identifier id =>
    refine ⟨fun trailing s s' p _ h => ?_, .of_none rfl⟩
    obtain ⟨_, _, _, h⟩ := Run.bind_eq_ok.1 h
    obtain ⟨rfl, -⟩ := Run.pure_eq_ok.1 h
    exact ⟨by simp [print_eq], fun _ h => by cases h⟩
  case array lead elements separators closeLead span ih =>
    refine ⟨fun trailing s s' p hc h => ?_, .of_none rfl⟩
    obtain ⟨p', s₁, h', h⟩ := Run.bind_eq_ok.1 h
    obtain ⟨rfl, -⟩ := Run.pure_eq_ok.1 h
    exact ⟨by simp [print_eq, (ih.1 _ _ _ p' hc h').2 _ rfl], fun _ h => by cases h⟩
  case object lead members separators closeLead span ih =>
    refine ⟨fun trailing s s' p hc h => ?_, .of_none rfl⟩
    obtain ⟨p', s₁, h', h⟩ := Run.bind_eq_ok.1 h
    obtain ⟨rfl, -⟩ := Run.pure_eq_ok.1 h
    exact ⟨by simp [print_eq, (ih.1 _ _ _ p' hc h').2 _ rfl], fun _ h => by cases h⟩
  case assignment target opLead op value span ihTarget ihValue =>
    refine ⟨?_, .of_none rfl⟩
    cases op
    case assign =>
      intro trailing s s' p hc h
      obtain ⟨_, _, _, h⟩ := Run.bind_eq_ok.1 h
      obtain ⟨rfl, -⟩ := Run.pure_eq_ok.1 h
      exact ⟨by simp [print_eq, AssignOp.text], fun _ h => by cases h⟩
    all_goals exact .of_other rfl
  case property mods key value kind isMethod isShorthand colonLead span ihKey ih =>
    refine ⟨fun trailing s s' p hc h => ?_, .of_none rfl⟩
    rw [asTarget_property] at h
    split at h
    · exact absurd h Run.throw_ne_ok
    rename_i hplain
    obtain ⟨p', s₁, h', h⟩ := Run.bind_eq_ok.1 h
    obtain ⟨rfl, -⟩ := Run.pure_eq_ok.1 h
    obtain ⟨hmods, hvalue⟩ := Bool.and_eq_true_iff.1 hc
    obtain rfl : mods = {} := by simp_all
    have hprint := (ih.1 _ _ _ p' hvalue h').1
    rw [print_eq, print_eq] at hprint
    refine ⟨?_, fun _ h => by cases h⟩
    rw [print_eq, print_eq, texts_property, texts_patternProperty]
    cases isShorthand <;> simp_all [Modifiers.print, printMark]
  case nil =>
    refine ⟨fun trailing s s' p _ h => ?_, .of_none rfl⟩
    obtain ⟨rfl, -⟩ := Run.pure_eq_ok.1 h
    exact ⟨rfl, fun _ _ => rfl⟩
  case cons head tail ihHead ih => exact ⟨.cons ihHead.1 ihHead.2 ih.1, .of_none rfl⟩
  case absent =>
    refine ⟨fun trailing s s' p _ h => ?_, .of_none rfl⟩
    obtain ⟨rfl, -⟩ := Run.pure_eq_ok.1 h
    exact ⟨rfl, fun _ h => by cases h⟩
  case present part ih =>
    refine ⟨fun trailing s s' p hc h => ?_, ih.2⟩
    obtain ⟨p', s₁, h', h⟩ := Run.bind_eq_ok.1 h
    obtain ⟨rfl, -⟩ := Run.pure_eq_ok.1 h
    exact ⟨(ih.1 _ _ _ p' hc h').1, fun _ h => by cases h⟩
  case spread lead operand span ih => exact ⟨.of_other rfl, fun o ho => by cases ho; exact ih.1⟩
  case spreadMember lead operand span ih =>
    refine ⟨fun trailing s s' p _ h => ?_, fun o ho => by cases ho; exact ih.1⟩
    exact absurd h Run.throw_ne_ok
  all_goals
    refine ⟨?_, .of_none rfl⟩
    first
    | exact .of_unfit rfl
    | exact .of_other rfl

end

/-- A converted expression prints the same. -/
theorem print_asTarget {use : TargetUse} {strict : Bool} {s s' : List Fault} {e : Expr}
    {p : Pattern} (he : e.isConvertible = true)
    (h : e.asTarget use strict false s = .ok p s') : p.print = e.print :=
  (e.keepsTexts.1 _ _ _ p he h).1

/-! ## Retouching -/

section

variable (ρ : Retouch) (use : TargetUse) (strict : Bool)

theorem itemsOf_retouch {c d : Category} (t : Tree d) (h : d = .many c) :
    (t.retouch ρ).itemsOf h = (t.itemsOf h).map (·.retouch ρ) := by
  induction t
  case nil =>
    cases h
    rfl
  case cons head tail _ ih =>
    cases h
    exact congrArg (head.retouch ρ :: ·) (ih rfl)
  all_goals cases h

@[simp]
theorem toList_retouch {c : Category} (items : Tree (.many c)) :
    (items.retouch ρ).toList = items.toList.map (·.retouch ρ) :=
  itemsOf_retouch ρ items rfl

@[simp]
theorem toList_mapSpans (g : Span → Span) {c : Category} (items : Tree (.many c)) :
    (items.mapSpans g).toList = items.toList.map (·.mapSpans g) := by
  simp only [mapSpans_eq_retouch, toList_retouch]

theorem isRest_retouch {c : Category} (t : Tree c) : (t.retouch ρ).isRest = t.isRest := by
  cases t
  case present part => cases part <;> rfl
  all_goals rfl

theorem isOptionalChain_retouch {c : Category} (t : Tree c) :
    (t.retouch ρ).isOptionalChain = t.isOptionalChain := by
  induction t
  case memberAccess base isOptional _ _ _ ih _ => exact congrArg (isOptional || ·) ih
  case call callee isOptional _ _ _ ih _ => exact congrArg (isOptional || ·) ih
  all_goals rfl

theorem isSimpleTarget_retouch {c : Category} (t : Tree c) :
    (t.retouch ρ).isSimpleTarget = t.isSimpleTarget := by
  induction t
  case memberAccess base isOptional _ _ _ _ _ =>
    exact congrArg (!isOptional && !·) (isOptionalChain_retouch ρ base)
  case parenthesized ih => exact ih
  all_goals rfl

theorem isSimpleTarget_mapSpans (g : Span → Span) {c : Category} (t : Tree c) :
    (t.mapSpans g).isSimpleTarget = t.isSimpleTarget := by
  rw [mapSpans_eq_retouch, isSimpleTarget_retouch]

/-- Whether a pattern binds names only is no matter of its leaves. -/
theorem isBinding_retouch {c : Category} (t : Tree c) :
    (t.retouch ρ).isBinding = t.isBinding := by
  induction t
  case arrayPattern ih => exact ih
  case objectPattern ih => exact ih
  case defaultPattern ih _ => exact ih
  case restPattern ih => exact ih
  case patternProperty ih => exact ih
  case restMember ih => exact ih
  case cons head tail ih ih' =>
    change ((head.retouch ρ).isBinding && (tail.retouch ρ).isBinding) = _
    rw [ih, ih']
    rfl
  case present ih => exact ih
  all_goals rfl

theorem isBinding_mapSpans (g : Span → Span) {c : Category} (t : Tree c) :
    (t.mapSpans g).isBinding = t.isBinding := by
  rw [mapSpans_eq_retouch, isBinding_retouch]

theorem checkName_ident (id : Ident) :
    use.checkName strict (id.retouch ρ) = use.checkName strict id := rfl

@[simp]
theorem checkRest_retouch (p : Pattern) : checkRest (p.retouch ρ) = checkRest p := by
  cases p <;> rfl

@[simp]
theorem checkMemberRest_retouch (p : Pattern) :
    checkMemberRest use (p.retouch ρ) = checkMemberRest use p := by
  cases p <;> rfl

@[simp]
theorem checkDefault_retouch (p : Pattern) :
    checkDefault use strict (p.retouch ρ) = checkDefault use strict p := by
  unfold checkDefault
  rw [isBinding_retouch]
  cases p <;> rfl

/-- Retouching a tree has no influence on how it is converted. -/
def Moves {c : Category} (t : Tree c) : Prop :=
  ∀ trailing, (t.retouch ρ).asTarget use strict trailing =
    (·.retouch ρ) <$> t.asTarget use strict trailing

variable {ρ use strict}

theorem Moves.of_unfit {c : Category} {t : Tree c} (hc : c.isFit = false) :
    t.Moves ρ use strict := by
  intro trailing
  rw [asTarget_unfit _ _ _ _ hc, asTarget_unfit _ _ _ _ hc]
  rfl

theorem Moves.of_none {c : Category} {t : Tree c} (h : t.operand? = none) (o : Expr)
    (ho : t.operand? = some o) : o.Moves ρ use strict :=
  absurd (h.symm.trans ho) (by simp)

theorem Moves.of_other {e : Expr} (he : e.isPatternLike = false)
    (he' : (e.retouch ρ).isPatternLike = false) (ha : (e.retouch ρ).isAccess = e.isAccess) :
    e.Moves ρ use strict := by
  intro trailing
  rw [asTarget_other _ _ _ _ he, asTarget_other _ _ _ _ he', ha, isSimpleTarget_retouch]
  cases use with
  | binding => rfl
  | assignment =>
    dsimp only
    split <;> rfl

/-- Retouching a list has no influence on how its items are converted. -/
theorem Moves.cons {c : Category} {head : Tree c} {tail : Tree (.many c)}
    (hh : head.Moves ρ use strict) (ho : ∀ o, head.operand? = some o → o.Moves ρ use strict)
    (ht : tail.Moves ρ use strict) : (cons head tail).Moves ρ use strict := by
  intro trailing
  cases hr : head.isRest with
  | false =>
    have hr' : (head.retouch ρ).isRest = false := by rw [isRest_retouch, hr]
    rw [asTarget_cons _ _ _ _ _ hr, retouch_cons, asTarget_cons _ _ _ _ _ hr', hh, ht]
    simp
  | true =>
    cases head
    case present part =>
      cases part
      case spread lead operand span =>
        rw [retouch_cons, retouch_present, retouch_spread, asTarget_spread, asTarget_spread,
          toList_retouch, List.isEmpty_map, ho operand rfl]
        split
        · rfl
        · simp
      all_goals cases hr
    case spreadMember lead operand span =>
      rw [retouch_cons, retouch_spreadMember, asTarget_spreadMember, asTarget_spreadMember,
        toList_retouch, List.isEmpty_map, ho operand rfl]
      split
      · rfl
      · simp
    all_goals cases hr

/-- Retouching a tree has no influence on how it is converted. -/
theorem moves {c : Category} (t : Tree c) :
    t.Moves ρ use strict ∧ ∀ o, t.operand? = some o → o.Moves ρ use strict := by
  induction t
  case identifier id =>
    refine ⟨fun trailing => ?_, .of_none rfl⟩
    rw [retouch_identifier, asTarget_identifier, asTarget_identifier, checkName_ident]
    simp
  case array lead elements separators closeLead span ih =>
    refine ⟨fun trailing => ?_, .of_none rfl⟩
    rw [retouch_array, asTarget_array, asTarget_array, ih.1, toList_retouch, List.length_map]
    simp
  case object lead members separators closeLead span ih =>
    refine ⟨fun trailing => ?_, .of_none rfl⟩
    rw [retouch_object, asTarget_object, asTarget_object, ih.1, toList_retouch, List.length_map]
    simp
  case assignment target opLead op value span ihTarget ihValue =>
    refine ⟨?_, .of_none rfl⟩
    cases op
    case assign =>
      intro trailing
      rw [retouch_assignment, asTarget_assign, asTarget_assign, checkDefault_retouch]
      simp
    all_goals exact .of_other rfl rfl rfl
  case property mods key value kind isMethod isShorthand colonLead span ihKey ih =>
    refine ⟨fun trailing => ?_, .of_none rfl⟩
    rw [retouch_property, asTarget_property, asTarget_property, ih.1]
    split
    · rfl
    · simp
  case nil => exact ⟨fun trailing => rfl, .of_none rfl⟩
  case cons head tail ihHead ih => exact ⟨.cons ihHead.1 ihHead.2 ih.1, .of_none rfl⟩
  case absent => exact ⟨fun trailing => rfl, .of_none rfl⟩
  case present part ih =>
    refine ⟨fun trailing => ?_, ih.2⟩
    rw [retouch_present, asTarget_present, asTarget_present, ih.1]
    simp
  case spread lead operand span ih =>
    exact ⟨.of_other rfl rfl rfl, fun o ho => by cases ho; exact ih.1⟩
  case spreadMember lead operand span ih =>
    exact ⟨fun trailing => rfl, fun o ho => by cases ho; exact ih.1⟩
  all_goals
    refine ⟨?_, .of_none rfl⟩
    first
    | exact .of_unfit rfl
    | exact .of_other rfl rfl rfl

end

end Tree

section

variable [Exchange]

/-- Alike expressions are converted to alike targets, with the same faults. -/
theorem Alike.asTarget {use : TargetUse} {strict : Bool} {e e' : Expr} {p : Pattern}
    {s s' : List Fault} (h : Alike e e') (hp : e.asTarget use strict false s = .ok p s') :
    ∃ p', e'.asTarget use strict false s = .ok p' s' ∧ Alike p p' := by
  have hmap : ((·.retouch Retouch.blank) <$> e'.asTarget use strict false) s =
      .ok (p.retouch Exchange.there) s' := by
    rw [← e'.moves.1, ← h.tree, e.moves.1, map_eq_pure_bind]
    exact Run.bind_eq_ok.2 ⟨p, s', hp, rfl⟩
  rw [map_eq_pure_bind] at hmap
  obtain ⟨p', s₁, hp', h'⟩ := Run.bind_eq_ok.1 hmap
  obtain ⟨ha, rfl⟩ := Run.pure_eq_ok.1 h'
  exact ⟨p', hp', ha.symm⟩

end

/-! ## Names among expressions -/

/-- The name that an expression is. -/
def Tree.ident? : Expr → Option Ident
  | .identifier id => some id
  | _ => none

theorem Tree.eq_identifier {e : Expr} {id : Ident} (h : e.ident? = some id) :
    e = .identifier id := by
  cases e <;> cases h
  rfl

theorem Tree.ident?_retouch (ρ : Retouch) (e : Expr) :
    (e.retouch ρ).ident? = e.ident?.map (·.retouch ρ) := by
  cases e <;> rfl

variable [Exchange]

namespace Alike

variable {e e' : Expr}

theorem ident? (h : Alike e e') : Alike e.ident? e'.ident? := by
  change e.ident?.map _ = e'.ident?.map _
  have ht := congrArg Tree.ident? h.tree
  rwa [Tree.ident?_retouch, Tree.ident?_retouch] at ht

/-- What is alike to a name is a name. -/
theorem identifier {id : Ident} (h : Alike (.identifier id) e') :
    ∃ id', e' = .identifier id' ∧ Alike id id' := by
  have hi := h.ident?
  cases hi' : e'.ident? with
  | none => rw [hi'] at hi; exact absurd hi not_alike_some_none
  | some id' =>
    rw [hi'] at hi
    exact ⟨id', Tree.eq_identifier hi', alike_some.1 hi⟩

/-- What is alike to no name is none. -/
theorem ident?_none (h : Alike e e') (hi : e.ident? = none) : e'.ident? = none := by
  have ha := h.ident?
  rw [hi] at ha
  cases hi' : e'.ident? with
  | none => rfl
  | some id' => rw [hi'] at ha; exact absurd ha not_alike_none_some

theorem isSimpleTarget (h : Alike e e') : e'.isSimpleTarget = e.isSimpleTarget :=
  h.congr _ fun ρ _ => Tree.isSimpleTarget_retouch ρ

theorem isCover (h : Alike e e') : e'.isCover = e.isCover :=
  h.congr _ fun _ _ e => by cases e <;> rfl

theorem isLiteralPattern (h : Alike e e') :
    Grammar.isLiteralPattern e' = Grammar.isLiteralPattern e :=
  h.congr _ fun _ _ e => by cases e <;> rfl

end Alike

/-! ## Conversions as steps of a parse -/

namespace Tracks

variable {α : Type} [Placed α] {fuel : Nat} {m : Mode} {t t' : Token} {site site' : Site}
  {finder finder' : Finder}

theorem tolerateAll (faults : List Fault) (ht : Alike t t') :
    Tracks [] fuel m m t t' (Parse.tolerateAll finder site faults)
      (Parse.tolerateAll finder' site' faults) (Still (fun _ => True) t) := by
  induction faults with
  | nil => exact pure ⟨trivial, rfl, rfl⟩ (.refl _ rfl)
  | cons fault faults ih => exact tolerated ht ih

omit [Exchange] [Placed α] in
/-- A conversion that fails makes the parse fail. -/
theorem fails_convertAs {conversion : Conversion α} {fault : Fault} {faults : List Fault}
    (h : conversion.run [] = .error fault faults) :
    (Parse.convertAs finder site conversion).Fails := by
  unfold Parse.convertAs
  rw [h]
  intro q v r hrun
  rw [Parse.run_bind] at hrun
  split at hrun <;> cases hrun

/-- A conversion, whose companion has alike results. -/
theorem convertAs {conversion conversion' : Conversion α} {P : α → Prop} (ht : Alike t t')
    (h : ∀ v faults, conversion.run [] = .ok v faults → P v ∧
      ∃ v', conversion'.run [] = .ok v' faults ∧ Alike v v') :
    Tracks [] fuel m m t t' (Parse.convertAs finder site conversion)
      (Parse.convertAs finder' site' conversion') (Still P t) := by
  cases hrun : conversion.run [] with
  | error fault faults => exact stuck (fails_convertAs hrun)
  | ok v faults =>
    obtain ⟨hP, v', hrun', ha⟩ := h v faults hrun
    unfold Parse.convertAs
    rw [hrun, hrun']
    refine check (tolerateAll faults ht) fun _ _ u' _ _ hu => ?_
    exact pure ⟨hP, rfl, rfl⟩ ha

/-- An expression is converted to a target. -/
theorem convertTarget {use : TargetUse} {strict : Bool} {e e' : Expr} (ht : Alike t t')
    (he : Alike e e') (hc : e.isConvertible = true) :
    Tracks [] fuel m m t t' (Parse.convertAs finder site (e.asTarget use strict false))
      (Parse.convertAs finder' site' (e'.asTarget use strict false))
      (Still (fun p => p.print = e.print) t) := by
  refine convertAs ht fun p faults hp => ?_
  obtain ⟨p', hp', ha⟩ := he.asTarget hp
  exact ⟨Tree.print_asTarget hc hp, p', hp', ha⟩

section

variable {ctx : Context} {x x' : Token} {fault : Fault} {e e' : Expr}

omit [Exchange] [Placed α] in
theorem simpleTarget_other (h : e.ident? = none) :
    Parse.simpleTarget ctx e x fault =
      if (!e.isSimpleTarget) = true then do
        Parse.tolerate fault x.site
        return .exprPattern e
      else return .exprPattern e := by
  cases e <;> first | rfl | cases h

/-- A name or a property as target. -/
theorem simpleTarget (ht : Alike t t') (he : Alike e e') :
    Tracks [] fuel m m t t' (Parse.simpleTarget ctx e x fault) (Parse.simpleTarget ctx e' x' fault)
      (Still (fun p => p.print = e.print) t) := by
  cases hi : e.ident? with
  | some id =>
    obtain rfl := Tree.eq_identifier hi
    obtain ⟨id', rfl, hid⟩ := he.identifier
    refine checked ht (by rw [hid.name]) (pure ⟨rfl, rfl, rfl⟩ ?_)
    exact congrArg Tree.namePattern hid
  | none =>
    rw [simpleTarget_other hi, simpleTarget_other (he.ident?_none hi)]
    refine checked ht (by rw [he.isSimpleTarget]) (pure ⟨rfl, rfl, rfl⟩ ?_)
    exact congrArg Tree.exprPattern he

omit [Exchange] [Placed α] in
theorem assignmentTarget_eq :
    Parse.assignmentTarget ctx e x fault =
      if Grammar.isLiteralPattern e = true then
        Parse.convert x.site (e.asTarget .assignment ctx.strict false)
      else Parse.simpleTarget ctx e x fault := by
  cases e <;> rfl

/-- The left side of a plain assignment. -/
theorem assignmentTarget (ht : Alike t t') (he : Alike e e') (hc : e.isConvertible = true) :
    Tracks [] fuel m m t t' (Parse.assignmentTarget ctx e x fault)
      (Parse.assignmentTarget ctx e' x' fault) (Still (fun p => p.print = e.print) t) := by
  rw [assignmentTarget_eq, assignmentTarget_eq]
  exact ite he.isLiteralPattern (fun _ => convertTarget ht he hc) fun _ => simpleTarget ht he

end

end Tracks

end Verbatim
