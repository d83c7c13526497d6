import Verbatim.Proofs.Course.Chain
import Verbatim.Proofs.Layout.Conversion

/-!
# Operators, assignments and arrow functions

Operators are laid out behind and in front of their operands. Where a literal turns out to be a
pattern, or a group to be parameters, what was read is laid out anew over the same tokens.

## Main results

* `Verbatim.Parse.Proceeds.conditional` — expressions with operators.
* `Verbatim.Parse.Proceeds.groupArrow` — arrow functions behind a group.
* `Verbatim.Parse.Proceeds.cover`, `Verbatim.Parse.Proceeds.assignment`,
  `Verbatim.Parse.Proceeds.expression` — expressions.
-/

namespace Verbatim

open Verbatim.Grammar Verbatim.Course Verbatim.Layout

/-! ## Operators of tokens -/

theorem raw_of_unaryOp {t : Token} {op : UnaryOp} (h : unaryOp? t = some op) : t.raw = op.text := by
  unfold unaryOp? at h
  split at h
  · exact (UnaryOp.text_of_ofText? h).symm
  · exact (UnaryOp.text_of_ofText? h).symm
  · cases h

theorem raw_of_updateOp {t : Token} {op : UpdateOp} (h : updateOp? t = some op) :
    t.raw = op.text := Parse.Proceeds.raw_of_isPunctuator (isPunctuator_of_updateOp h)

/-- The token of a binary operator is spelled as it is. -/
theorem raw_of_binaryOp {ctx : Context} {t : Token} {op : BinaryOp}
    (h : binaryOp? ctx t = some op) : t.raw = op.text := by
  unfold binaryOp? at h
  split at h
  · exact (BinaryOp.text_of_ofText? (Option.filter_eq_some_iff.1 h).1).symm
  · split at h
    · cases h
      simp_all [BinaryOp.text]
    · split at h
      · cases h
        simp_all [BinaryOp.text]
      · cases h
  · cases h

theorem raw_of_assignOp {t : Token} {op : AssignOp} (h : assignOp? t = some op) :
    t.raw = op.text := by
  unfold assignOp? at h
  split at h
  · exact (AssignOp.text_of_ofText? h).symm
  · cases h

/-- What is read of a layout is read of any over the same tokens. -/
theorem Course.Passes.recast {source : String} {l l' : Layout} {c c' : Course source}
    (h : c.Passes l c') (hl : l.Recast l') : c.Passes l' c' := h.imp fun us => hl id us

namespace Parse.Proceeds

variable {source : String} {p : Productions} {ctx : Context} {c c₀ c₁ : Course source}

/-! ## Operators -/

@[simp]
theorem rejectCover {e : Expr} {post : Unit → Outlook source → Prop} (h : post () (.on c)) :
    (Grammar.rejectCover ctx e).Proceeds c post := by
  simp [Grammar.rejectCover, h]

@[simp]
theorem checkUpdateTarget {target : Expr} {t : Token} {fault : Fault}
    {post : Unit → Outlook source → Prop} (h : post () (.on c)) :
    (Grammar.checkUpdateTarget ctx target t fault).Proceeds c post := by
  unfold Grammar.checkUpdateTarget
  split <;> simp [h]

section

variable {post : Expr → Outlook source → Prop}

theorem unaryOperation (hp : p.Proceeds source) {op : UnaryOp} (ht : unaryOp? c.ahead = some op)
    (h : ∀ v c', c.Builds v c' → post v (.on c')) :
    (Grammar.unaryOperation p ctx op).Proceeds c post := by
  simp only [Grammar.unaryOperation, proceeds_bind, proceeds_next, meets_on]
  intro u hu
  have hop : c.Passes (.token (c.ahead.lead ++ op.text)) (c.take u hu) := .token (raw_of_unaryOp ht)
  refine hp.ofUnary fun operand c₁ h₁ => rejectCover ?_
  have hrest : (Parse.finish .unary c.ahead.start).Proceeds c₁ fun span o =>
      post (.unary c.ahead.lead op operand span) o :=
    finish (hop.seq h₁) rfl (by decide) fun span c' hr => h _ _ (.part hr rfl)
  simp only [meets_on]
  split <;> simp [hrest]

theorem awaitOperation (hp : p.Proceeds source) (ht : c.ahead.isWord "await" = true)
    (h : ∀ v c', c.Builds v c' → post v (.on c')) :
    (Grammar.awaitOperation p ctx).Proceeds c post := by
  simp only [Grammar.awaitOperation, proceeds_bind, proceeds_next, proceeds_look, meets_on,
    proceeds_ite, proceeds_reject, implies_true, true_and]
  intro _ u hu
  have hop : c.Passes (.token (c.ahead.lead ++ "await")) (c.take u hu) := .token (raw_of_isWord ht)
  refine hp.ofUnary fun operand c₁ h₁ => rejectCover ?_
  exact finish (hop.seq h₁) rfl (by decide) fun span c' hr => h _ _ (.part hr rfl)

theorem updateBefore (hp : p.Proceeds source) {op : UpdateOp} (ht : updateOp? c.ahead = some op)
    (h : ∀ v c', c.Builds v c' → post v (.on c')) :
    (Grammar.updateBefore p ctx op).Proceeds c post := by
  simp only [Grammar.updateBefore, proceeds_bind, proceeds_next, proceeds_look, meets_on]
  intro u hu
  have hop : c.Passes (.token (c.ahead.lead ++ op.text)) (c.take u hu) :=
    .token (raw_of_updateOp ht)
  refine hp.ofUnary fun operand c₁ h₁ => checkUpdateTarget ?_
  exact finish (hop.seq h₁) rfl (by decide) fun span c' hr => h _ _ (.part hr rfl)

theorem updateAfter (hp : p.Proceeds source) (h : ∀ v c', c.Builds v c' → post v (.on c')) :
    (Grammar.updateAfter p ctx).Proceeds c post := by
  refine chain hp fun value c₁ h₁ => ?_
  simp only [meets_on, proceeds_bind, proceeds_look]
  cases hop : updateOp? c₁.ahead with
  | none => exact h _ _ h₁
  | some op =>
    refine proceeds_ite.mpr ⟨fun _ => h _ _ h₁, fun _ => checkUpdateTarget ?_⟩
    refine lead (raw_of_updateOp hop) fun opLead c₂ h₂ => ?_
    exact finish (h₁.seq h₂) rfl (by decide) fun span c' hr => h _ _ (.part hr rfl)

theorem unary (hp : p.Proceeds source) (h : ∀ v c', c.Builds v c' → post v (.on c')) :
    (Grammar.unary p ctx).Proceeds c post := by
  simp only [Grammar.unary, proceeds_bind, proceeds_look, meets_on]
  cases hop : unaryOp? c.ahead with
  | some op => exact unaryOperation hp hop h
  | none =>
    refine proceeds_ite.mpr ⟨fun hawait => awaitOperation hp ?_ h, fun _ => ?_⟩
    · exact (Bool.and_eq_true_iff.1 hawait).2
    · cases hop : updateOp? c.ahead with
      | some op => exact updateBefore hp hop h
      | none => exact updateAfter hp h

theorem exponentiation (hp : p.Proceeds source) (h : ∀ v c', c.Builds v c' → post v (.on c')) :
    (Grammar.exponentiation p ctx).Proceeds c post := by
  refine unary hp fun base c₁ h₁ => ?_
  simp only [meets_on, proceeds_bind, proceeds_look, proceeds_ite, proceeds_reject, implies_true,
    true_and, Bool.not_eq_true', Bool.not_eq_false]
  refine ⟨fun _ => h _ _ h₁, fun ht _ => rejectCover (lead (raw_of_isPunctuator ht)
    fun opLead c₂ h₂ => hp.ofExponentiation fun power c₃ h₃ => rejectCover ?_)⟩
  exact finish (h₁.seq (h₂.seq h₃)) rfl (by decide) fun span c' hr => h _ _ (.part hr rfl)

/-- A binary expression is laid out as it was read. -/
theorem binaryStep (hp : p.Proceeds source) {least : Nat} {left : Expr} {c : Course source}
    (hleft : c₀.Builds left c) : (Grammar.binaryStep p ctx c₀.ahead.start least left).Yields c
      fun w c' => c₀.Builds (w.getD left) c' := by
  refine Yields.of_rule fun post h => ?_
  simp only [Grammar.binaryStep, proceeds_bind, proceeds_look, meets_on]
  cases hop : binaryOp? ctx c.ahead with
  | none => exact h none _ hleft
  | some op =>
    simp only [proceeds_ite, proceeds_bind, proceeds_pure]
    refine ⟨fun _ => h none _ hleft, fun _ => rejectCover (lead (raw_of_binaryOp hop)
      fun opLead c₁ h₁ => hp.ofBinary fun right c₂ h₂ => rejectCover ?_)⟩
    simp only [meets_on, proceeds_bind, proceeds_ite, proceeds_reject, implies_true, true_and]
    intro _
    refine finish (hleft.seq (h₁.seq h₂)) rfl ?_ fun span c' hr => h (some _) _ (.part hr rfl)
    cases op.isLogical <;> decide

theorem binary (hp : p.Proceeds source) {least : Nat}
    (h : ∀ v c', c.Builds v c' → post v (.on c')) : (Grammar.binary p least ctx).Proceeds c post :=
  exponentiation hp fun _ _ h₁ => iterate (F := fun v c' => c.Builds v c')
    (fun _ _ hleft => binaryStep hp hleft) h₁ h

theorem conditional (hp : p.Proceeds source) (h : ∀ v c', c.Builds v c' → post v (.on c')) :
    (Grammar.conditional p ctx).Proceeds c post := by
  refine binary hp fun test c₁ h₁ => ?_
  simp only [meets_on, proceeds_bind, proceeds_sees, proceeds_ite, proceeds_pure,
    Bool.not_eq_true', Bool.not_eq_false]
  refine ⟨fun _ => h _ _ h₁, fun ht => rejectCover (lead (raw_of_isPunctuator ht)
    fun questionLead c₂ h₂ => hp.ofAssignment fun consequent c₃ h₃ => expect fun colonLead c₄ h₄ =>
      hp.ofAssignment fun alternate c₅ h₅ => ?_)⟩
  exact finish (h₁.seq (h₂.seq (h₃.seq (h₄.seq h₅)))) rfl (by decide) fun span c' hr =>
    h _ _ (.part hr rfl)

end

/-! ## Targets -/

@[simp]
theorem tolerateAll {finder : Finder} {site : Site} {faults : List Fault}
    {post : Unit → Outlook source → Prop} (h : post () (.on c)) :
    (Parse.tolerateAll finder site faults).Proceeds c post := by
  induction faults with
  | nil => exact h
  | cons fault faults ih => exact ih

/-- A conversion, all faults of which are tolerated or end the parse. -/
theorem convertAs {α : Type} {finder : Finder} {site : Site} {conversion : Conversion α}
    {post : α → Outlook source → Prop}
    (h : ∀ v faults, conversion.run [] = .ok v faults → post v (.on c)) :
    (Parse.convertAs finder site conversion).Proceeds c post := by
  unfold Parse.convertAs
  split
  · exact tolerateAll (h _ _ ‹_›)
  · exact tolerateAll trivial

/-- An expression that is converted to a target. -/
theorem asTarget {use : TargetUse} {strict : Bool} {finder : Finder} {site : Site} {e : Expr}
    {post : Pattern → Outlook source → Prop}
    (h : ∀ v : Pattern, (Layout.part .standalone e).Recast (.part .standalone v) → post v (.on c)) :
    (Parse.convertAs finder site (e.asTarget use strict false)).Proceeds c post :=
  convertAs fun _ _ hv => h _ (Tree.becomes_of_asTarget hv).recast

theorem simpleTarget {e : Expr} {t : Token} {fault : Fault} {post : Pattern → Outlook source → Prop}
    (h : ∀ v : Pattern, (Layout.part .standalone e).Recast (.part .standalone v) → post v (.on c)) :
    (Parse.simpleTarget ctx e t fault).Proceeds c post := by
  unfold Parse.simpleTarget
  split
  · rename_i id
    have hname := h (.namePattern id) (.part fun _ _ hl => hl)
    simp [hname]
  · have hplace := h (.exprPattern e) fun _ _ hl => @Laid.part _ _ _ (.exprPattern e) _ hl rfl
    simp [hplace]

theorem assignmentTarget {e : Expr} {t : Token} {fault : Fault}
    {post : Pattern → Outlook source → Prop}
    (h : ∀ v : Pattern, (Layout.part .standalone e).Recast (.part .standalone v) → post v (.on c)) :
    (Parse.assignmentTarget ctx e t fault).Proceeds c post := by
  unfold Parse.assignmentTarget
  split
  · exact asTarget h
  · exact asTarget h
  · exact simpleTarget h

/-! ## Arrow functions -/

theorem arrowBody (hp : p.Proceeds source) {post : Tree .arrowBody × Bool → Outlook source → Prop}
    (h : ∀ r c', c.Builds r.1 c' → post r (.on c')) :
    (Grammar.arrowBody p ctx).Proceeds c post := by
  simp only [Grammar.arrowBody, proceeds_bind, proceeds_sees, meets_on, proceeds_ite]
  refine ⟨fun _ => functionBody hp fun r c' hr => h (_, _) _ (.part hr rfl), fun _ => ?_⟩
  exact hp.ofAssignment fun v c' hv => h (_, _) _ (.part hv rfl)

section

variable {post : Expr → Outlook source → Prop}

/-- An arrow function is laid out behind its parameters. -/
theorem arrow (hp : p.Proceeds source) {asyncLead : Option String} {params : Tree .arrowParams}
    {site : Site}
    (hparams : c₀.Passes (.seq (.mark asyncLead "async") (.part .standalone params)) c)
    (h : ∀ v c', c₀.Builds v c' → post v (.on c')) :
    (Grammar.arrow p ctx c₀.ahead.start asyncLead params site).Proceeds c post := by
  rw [mark_eq_onlyIf] at hparams
  refine expect fun arrowLead c₂ h₂ before => arrowBody hp fun r c₃ h₃ => ?_
  simp only [meets_on, proceeds_bind, proceeds_setPending, proceeds_ite, proceeds_reject,
    implies_true, true_and]
  refine fun _ => checkParameters ?_
  refine finish (hparams.seq (h₂.seq h₃)).assoc ?_ (by decide) fun span c' hr =>
    h _ _ (.part hr rfl)
  simp [isSolid, Category.isSolid]

theorem bareArrow (hp : p.Proceeds source) {asyncLead : Option String} {id : Ident} {t : Token}
    (hasync : c₀.Passes (.mark asyncLead "async") c₁) (hid : c₁.Passes (.ident id) c)
    (h : ∀ v c', c₀.Builds v c' → post v (.on c')) :
    (Grammar.bareArrow p ctx c₀.ahead.start asyncLead id t).Proceeds c post := by
  have hparam : c₁.Builds (.bareParam id) c := .part hid rfl
  have harrow : (Grammar.arrow p ctx c₀.ahead.start asyncLead (.bareParam id) t.site).Proceeds c
      post := arrow hp (hasync.seq hparam) h
  simp [Grammar.bareArrow, harrow]

/-- The items of a group become parameters. -/
theorem groupParameters {site : Site} {trailing : Bool} {items : List Expr}
    {post : List Pattern → Outlook source → Prop}
    (h : ∀ vs : List Pattern, RecastAll (items.map (.part .standalone))
      (vs.map (.part .standalone)) →
      post vs (.on c)) :
    (Grammar.groupParameters ctx site trailing items).Proceeds c post := by
  induction items generalizing post with
  | nil => exact h _ .nil
  | cons item rest ih =>
    have hother : (do
        let head ← Parse.convertAs .parameters site (item.asTarget .binding ctx.strict false)
        let tail ← Grammar.groupParameters ctx site trailing rest
        return head :: tail).Proceeds c post :=
      asTarget fun v hv => ih fun vs hvs => h _ (.cons hv hvs)
    cases item
    case spread dotsLead operand span =>
      simp only [Grammar.groupParameters, proceeds_bind, proceeds_ite, proceeds_reject,
        implies_true,
        true_and]
      intro hlast
      obtain rfl : rest = [] := by simp_all
      refine convertAs fun target _ htarget => h _ (.cons ?_ .nil)
      obtain ⟨v, _, hv, hcheck⟩ := Run.bind_eq_ok.1 htarget
      obtain ⟨_, _, _, hreturn⟩ := Run.bind_eq_ok.1 hcheck
      cases hreturn
      exact .part (.node (.seq .refl (Tree.becomes_of_asTarget hv).recast))
    case yield | await => trivial
    all_goals exact hother

/-- An arrow function behind a group is laid out as it was read. -/
theorem groupArrow (hp : p.Proceeds source) {asyncLead : Option String}
    {openLead closeLead : String} {items : List Expr} {separators : List String} {span : Span}
    (hcover : c₀.Builds (.cover asyncLead openLead (.ofList items) separators closeLead span) c)
    (h : ∀ v c', c₀.Builds v c' → post v (.on c')) :
    (Grammar.groupArrow p ctx c₀.ahead.start asyncLead openLead items separators
      closeLead).Proceeds c post := by
  simp only [Grammar.groupArrow, proceeds_bind]
  refine groupParameters fun vs hvs => ?_
  simp only [meets_on, proceeds_bind, proceeds_ite, proceeds_reject, implies_true, true_and]
  refine fun _ => arrow hp ?_ h
  -- The group is laid out anew, without the extent that it had.
  refine hcover.imp fun us hl => ?_
  cases hl with
  | part inner =>
    cases inner with
    | node inner =>
      have hlist : (Tree.listOf (.ofList items) separators).Recast
          (Tree.listOf (.ofList vs) separators) := by
        rw [Tree.listOf, Tree.listOf, Tree.toList_ofList, Tree.toList_ofList]
        exact .list hvs separators
      have hparams : Recast (.all [.token (openLead ++ "("), Tree.listOf (.ofList items) separators,
          .token (closeLead ++ ")")]) (.part .standalone (.listedParams
            (.paramList openLead (.ofList vs) separators closeLead))) :=
        fun g us hl => .part (.part (Recast.seq .refl (.seq hlist .refl) g us hl) rfl) rfl
      exact Recast.seq .refl hparams _ _ inner

theorem asyncBareArrow (hp : p.Proceeds source) (ht : c.ahead.isWord "async" = true)
    (h : ∀ v c', c.Builds v c' → post v (.on c')) :
    (Grammar.asyncBareArrow p ctx).Proceeds c post := by
  refine lead (raw_of_isWord ht) fun asyncLead c₁ h₁ u hu => finishName fun id c₂ h₂ => ?_
  simp only [meets_on, proceeds_bind, proceeds_look, proceeds_ite, proceeds_unexpected,
    implies_true, true_and]
  exact fun _ => bareArrow hp h₁ h₂ h

end

theorem seesAsyncBareArrow {post : Bool → Outlook source → Prop}
    (h : ∀ b, (b = true → c.ahead.isWord "async" = true) → post b (.on c)) :
    Grammar.seesAsyncBareArrow.Proceeds c post := by
  simp only [Grammar.seesAsyncBareArrow, proceeds_bind, proceeds_seesWord, meets_on, proceeds_ite,
    proceeds_peek, proceeds_pure]
  exact ⟨fun ht t => h _ fun _ => ht, fun _ => h _ (by simp)⟩

/-! ## Assignments -/

section

variable {post : Expr → Outlook source → Prop}

/-- A yield expression is laid out as it was read. -/
theorem yieldExpression (hp : p.Proceeds source) (ht : c.ahead.isWord "yield" = true)
    (h : ∀ v c', c.Builds v c' → post v (.on c')) :
    (Grammar.yieldExpression p ctx).Proceeds c post := by
  simp only [Grammar.yieldExpression, proceeds_bind, proceeds_next, proceeds_look, meets_on,
    proceeds_ite, proceeds_reject, proceeds_pure, implies_true, true_and]
  intro _ u hu
  have hword : c.Passes (.token (c.ahead.lead ++ "yield")) (c.take u hu) :=
    .token (raw_of_isWord ht)
  have hpresent : ∀ {starLead : Option String} {c₁ : Course source},
      (c.take u hu).Passes (.mark starLead "*") c₁ →
      (p.assignment ctx).Proceeds c₁ fun v o => (Parse.finish .yield c.ahead.start).Meets
        (courses source) o fun span o =>
        post (.yield c.ahead.lead starLead (.present v) span) o := by
    refine fun h₁ => hp.ofAssignment fun value c₂ h₂ => ?_
    have hvalue : Course.Builds _ (.present value) c₂ := .part h₂ rfl
    exact finish (hword.seq (h₁.seq hvalue)) rfl (by decide) fun span c' hr => h _ _ (.part hr rfl)
  have habsent : (Parse.finish .yield c.ahead.start).Proceeds (c.take u hu) fun span o =>
      post (.yield c.ahead.lead none .absent span) o := by
    have hmark : (c.take u hu).Passes (.mark none "*") (c.take u hu) := .blank
    have hvalue : (c.take u hu).Builds (.absent : Tree (.maybe .expr)) (c.take u hu) :=
      .part .blank rfl
    exact finish (hword.seq (hmark.seq hvalue)) rfl (by decide) fun span c' hr =>
      h _ _ (.part hr rfl)
  exact ⟨fun _ => habsent, fun _ => ⟨fun hstar => lead (raw_of_isPunctuator hstar)
    fun starLead c₁ h₁ => hpresent h₁, fun _ =>
      ⟨fun _ => hpresent .blank, fun _ => habsent⟩⟩⟩

/-- An assignment is laid out as it was read. -/
theorem assignTo (hp : p.Proceeds source) {left : Expr} {op : AssignOp} {before : Option Site}
    {first : Token} (hf : first.start = c₀.ahead.start) (hleft : c₀.Builds left c)
    (hop : assignOp? c.ahead = some op) (h : ∀ v c', c₀.Builds v c' → post v (.on c')) :
    (Grammar.assignTo p ctx first left op before).Proceeds c post := by
  have hrest : ∀ target : Pattern, (Layout.part .standalone left).Recast
    (.part .standalone target) →
      (setPending before).Proceeds c fun _ o => Parse.lead.Meets (courses source) o fun opLead o =>
        (p.assignment ctx).Meets (courses source) o fun value o =>
          (Parse.finish .assignment first.start).Meets (courses source) o fun span o =>
            post (.assignment target opLead op value span) o := by
    refine fun target htarget => lead (raw_of_assignOp hop) fun opLead c₁ h₁ => ?_
    refine hp.ofAssignment fun value c₂ h₂ => ?_
    rw [hf]
    exact finish ((hleft.recast htarget).seq (h₁.seq h₂)) rfl (by decide) fun span c' hr =>
      h _ _ (.part hr rfl)
  simp only [Grammar.assignTo, proceeds_bind, proceeds_ite]
  exact ⟨fun _ => assignmentTarget hrest, fun _ => simpleTarget hrest⟩

theorem settle {value : Expr} {before : Option Site} (h : post value (.on c)) :
    (Grammar.settle value before).Proceeds c post := by
  intro now
  cases now with
  | none => exact h
  | some site =>
    simp only [meets_on, proceeds_bind, proceeds_ite, proceeds_reject, implies_true, true_and]
    exact fun _ => h

/-- An arrow function is laid out as it was read. -/
theorem arrowAfter? (hp : p.Proceeds source) {value : Expr} {before : Option Site}
    {post : Option Expr → Outlook source → Prop} (hvalue : c₀.Builds value c)
    (hnone : post none (.on c)) (h : ∀ v c', c₀.Builds v c' → post (some v) (.on c')) :
    (Grammar.arrowAfter? p ctx c₀.ahead value before).Proceeds c post := by
  simp only [Grammar.arrowAfter?, proceeds_bind, proceeds_look, meets_on]
  refine proceeds_ite.mpr ⟨fun _ => hnone, fun _ => ?_⟩
  split
  · simp only [proceeds_ite, proceeds_bind, proceeds_unexpected, implies_true, true_and,
      proceeds_map, proceeds_setPending, meets_on]
    rename_i items _ _ _
    rw [← items.ofList_toList] at hvalue
    exact fun _ => groupArrow hp hvalue h
  · simp only [proceeds_ite, proceeds_bind, proceeds_unexpected, implies_true, true_and,
      proceeds_map, proceeds_setPending, meets_on]
    refine fun _ => bareArrow hp .blank (hvalue.imp fun us hl => ?_) h
    cases hl with
    | part inner => exact inner
  · exact hnone

theorem plainCover (hp : p.Proceeds source) (h : ∀ v c', c.Builds v c' → post v (.on c')) :
    (Grammar.plainCover p ctx).Proceeds c post := by
  refine fun before => conditional hp fun value c₁ h₁ => arrowAfter? hp h₁ ?_ h
  simp only [meets_on, proceeds_bind, proceeds_look]
  cases hop : Grammar.assignOp? c₁.ahead with
  | some op => exact assignTo hp rfl h₁ hop h
  | none => exact settle (h _ _ h₁)

theorem cover (hp : p.Proceeds source) (h : ∀ v c', c.Builds v c' → post v (.on c')) :
    (Grammar.cover p ctx).Proceeds c post := by
  simp only [Grammar.cover, proceeds_bind, proceeds_look, meets_on, proceeds_ite,
    Bool.and_eq_true]
  refine ⟨fun ht => yieldExpression hp ht.2 h, fun _ => seesAsyncBareArrow fun b hb => ?_⟩
  exact proceeds_ite.mpr ⟨fun hasync => asyncBareArrow hp (hb hasync) h, fun _ => plainCover hp h⟩

theorem assignment (hp : p.Proceeds source) (h : ∀ v c', c.Builds v c' → post v (.on c')) :
    (Grammar.assignment p ctx).Proceeds c post :=
  fun _ => cover hp fun v c' hv => rejectPending (h v c' hv)

theorem sequenceFrom (hp : p.Proceeds source) {first : Expr} (hfirst : c₀.Builds first c)
    (h : ∀ v c', c₀.Builds v c' → post v (.on c')) :
    (Grammar.sequenceFrom p ctx c₀.ahead.start first).Proceeds c post := by
  simp only [Grammar.sequenceFrom, proceeds_bind, proceeds_sees, meets_on, proceeds_ite,
    proceeds_pure]
  refine ⟨fun _ => h _ _ hfirst, fun _ => ?_⟩
  refine afterCommas (F := fun v c c' => c.Builds v c') hfirst (hp.assignment ctx)
    fun vs commas c₁ hvs => ?_
  exact finish hvs.builds rfl (by decide) fun span c' hr => h _ _ (.part hr rfl)

theorem expression (hp : p.Proceeds source) (h : ∀ v c', c.Builds v c' → post v (.on c')) :
    (Grammar.expression p ctx).Proceeds c post :=
  assignment hp fun _ _ hv => sequenceFrom hp hv h

end

end Parse.Proceeds

end Verbatim
