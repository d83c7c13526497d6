import Verbatim.Proofs.Consumed
import Verbatim.Proofs.Results
import Verbatim.Proofs.Static.Parts

/-!
# Resolving keeps the text

A group in parentheses is read before it is known what it is. Whatever it turns out to be, an
expression in parentheses or the parameters of an arrow function, it prints as the unresolved group
did, and so does every array or object literal that turns out to be a pattern.

This is a fact about the trees that a conversion is given, wherever they come from: all that counts
is that no property which becomes part of a pattern has modifiers, which a pattern has no place for.
In the groups that are read from a source this is always so.

## Main definitions

* `Verbatim.Tree.Unmodified` — no property has modifiers, methods and accessors apart.
* `Verbatim.Tree.IsArrowOf` — an arrow function whose parameters print as a group.

## Main results

* `Verbatim.resolve_print` — what was converted or resolved prints the same.
-/

namespace Verbatim

open Grammar

/-! ## Properties without modifiers -/

namespace Tree

/-- If a construct is a property, but no method and no accessor, it has no modifiers. -/
def HasNoModifiers : {c : Category} → Tree c → Prop
  | _, .property mods _ _ kind isMethod _ _ _ => isMethod = false → kind = .plain → mods = {}
  | _, _ => True

/-- No property in an expression has modifiers, methods and accessors apart. -/
def Unmodified (e : Expr) : Prop := ∀ ctx, e.Everywhere (fun _ {_} x => x.HasNoModifiers) ctx

/-- Where no property has modifiers, this holds of those that may become part of a pattern. -/
theorem isConvertible_of_everywhere {c : Category} {ctx : Context} {t : Tree c}
    (h : t.Everywhere (fun _ {_} x => x.HasNoModifiers) ctx) : t.isConvertible = true := by
  induction t
  case array ih => exact ih (h.part List.mem_cons_self)
  case object ih => exact ih (h.part List.mem_cons_self)
  case spread ih => exact ih (h.part List.mem_cons_self)
  case spreadMember ih => exact ih (h.part List.mem_cons_self)
  case cover ih => exact ih (h.part List.mem_cons_self)
  case present ih => exact ih (h.part List.mem_cons_self)
  case cons head tail ihHead ihTail =>
    have hhead := ihHead (h.part List.mem_cons_self)
    have htail := ihTail (h.part (List.mem_cons_of_mem _ List.mem_cons_self))
    exact Bool.and_eq_true_iff.2 ⟨hhead, htail⟩
  case property mods key value kind isMethod isShorthand colonLead span _ ih =>
    have hmods : (isMethod || kind != .plain || mods = {}) = true := by
      have hhere : isMethod = false → kind = .plain → mods = {} := h.here
      cases isMethod <;> cases kind <;> simp_all
    have hvalue : value.isConvertible = true := by
      rcases valueParts_cases ctx isShorthand value with hparts | ⟨id, opLead, inner, span, rfl, -⟩
      · have hmem : Part.mk ctx value ∈ (property mods key value kind isMethod isShorthand colonLead
            span).innerParts ctx := by
          change _ ∈ _ :: valueParts ctx isShorthand value
          simp [hparts]
        exact ih (h.part hmem)
      · rfl
    exact Bool.and_eq_true_iff.2 ⟨hmods, hvalue⟩
  all_goals rfl

theorem Unmodified.isConvertible {e : Expr} (h : e.Unmodified) : e.isConvertible = true :=
  isConvertible_of_everywhere (h {})

/-- An arrow function whose parameters, behind the word that makes it asynchronous, print as the
given expression. -/
def IsArrowOf (e group : Expr) (asyncLead : Option String) : Prop :=
  ∃ params arrowLead body span,
    e = .arrow asyncLead.isSome (asyncLead.getD "") (.listedParams params) arrowLead body span ∧
      printMark asyncLead "async" ++ params.print = group.print

end Tree

/-! ## Conversions -/

/-- A converted expression prints the same, whatever the target is for and whether faults were
tolerated or not. -/
theorem Parse.Returns.convertAs_print {finder : Finder} {site : Site} {use : TargetUse}
    {strict : Bool} {e : Expr} (he : e.isConvertible = true) :
    (Parse.convertAs finder site (e.asTarget use strict false)).Returns (·.print = e.print) :=
  convertAs fun _ _ h => Tree.print_asTarget he h

/-! ## Groups as expressions -/

namespace Parse.Returns

/-- The expression in a group with no comma behind its last item. -/
theorem groupValue_print {g : Group} (h : g.separators.length < g.values.length) :
    (groupValue g).Returns (·.print = joinList (g.values.map (·.print)) g.separators) := by
  unfold Grammar.groupValue
  split
  · rename_i _ value hvalues
    have hseparators : g.separators = [] := by
      rw [hvalues] at h
      exact List.eq_nil_of_length_eq_zero (by simpa using h)
    simp [hvalues, hseparators]
  · exact bind fun _ => by simp [Tree.print_eq]
  · exact stalled

/-- An expression in parentheses prints as the group did. -/
theorem parenthesized_print {ctx : Context} {start : Position} {g : Group} (span : Span) :
    (parenthesized ctx start g).Returns (·.print = (g.unresolved none span).print) := by
  unfold Grammar.parenthesized
  dsimp only
  refine ite (fun _ => of_fails (unexpectedHere _)) fun hshort => ?_
  have hlength : g.separators.length < g.values.length := by
    rw [Group.values, List.length_map]
    omega
  cases g.spreadSite? with
  | some site => exact of_fails (fail _ _ _)
  | none =>
    refine bind fun _ => returns_bind.2 ((groupValue_print hlength).imp fun inner hinner =>
      bind fun _ => ?_)
    rw [Tree.print_eq] at hinner
    simp [Tree.print_eq, Group.unresolved, printMark, hinner]

/-! ## Groups as parameters -/

/-- The parameters that the items of a group turn out to be print as the items did. -/
theorem groupParameters_print {ctx : Context} {site : Site} {trailing : Bool} {items : List Expr}
    (h : ∀ item ∈ items, item.isConvertible = true) :
    (groupParameters ctx site trailing items).Returns fun params =>
      params.map (·.print) = items.map (·.print) := by
  fun_induction Grammar.groupParameters ctx site trailing items with
  | case1 => rfl
  | case2 => exact of_fails (reject _ _)
  | case3 dotsLead operand span rest hlast =>
    -- The rest parameter is the last item.
    have hrest : rest = [] := by simp_all
    refine (convertAs (P := (·.print = operand.print)) fun target faults hrun => ?_).imp ?_
    · obtain ⟨target', s, htarget, hrun⟩ := Run.bind_eq_ok.1 hrun
      obtain ⟨_, _, _, hrun⟩ := Run.bind_eq_ok.1 hrun
      obtain ⟨rfl, -⟩ := Run.pure_eq_ok.1 hrun
      have hitem : (Tree.spread dotsLead operand span).isConvertible = true :=
        h _ List.mem_cons_self
      exact Tree.print_asTarget hitem htarget
    · intro target htarget
      rw [Tree.print_eq, Tree.print_eq] at htarget
      simp [hrest, Tree.print_eq, htarget]
  | case4 => exact reject _ _
  | case5 => exact reject _ _
  | case6 item rest _ _ _ ih =>
    obtain ⟨hitem, hrest⟩ := List.forall_mem_cons.1 h
    refine (convertAs_print hitem).imp fun param hparam => (ih hrest).imp fun params hparams => ?_
    simp [hparam, hparams]

/-- The parameters of an arrow function print as the group did. -/
theorem groupArrow_print {p : Productions} {ctx : Context} {start : Position}
    {asyncLead : Option String}
    {openLead closeLead : String} {items : List Expr} {separators : List String} (span : Span)
    (h : ∀ item ∈ items, item.isConvertible = true) :
    (groupArrow p ctx start asyncLead openLead items separators closeLead).Returns
      (·.IsArrowOf (.cover asyncLead openLead (.ofList items) separators closeLead span)
        asyncLead) := by
  unfold Grammar.groupArrow
  dsimp only
  refine returns_bind.2 ((groupParameters_print h).imp fun patterns hpatterns => ?_)
  refine ite (fun _ => of_fails (reject _ _)) fun _ => ?_
  refine arrow.imp fun e ⟨arrowLead, body, span, he⟩ => ⟨_, arrowLead, body, span, he, ?_⟩
  simp [Tree.print_eq] at hpatterns ⊢
  simp [hpatterns]

end Parse.Returns

/-! ## Groups that are read -/

/-- In an expression that is read from a source, no property that may become part of a pattern has
modifiers. -/
theorem isConvertible_of_conditional {depth : Nat} {ctx : Context} {s : Scanner} {q r : Parser}
    {e : Expr} (hs : Stands s q) (hm : s.mode = .normal) (hq : q.scanner.mode = .normal)
    (h : (conditional (.ofDepth depth) ctx).run q = .ok e r) : e.isConvertible = true := by
  let _ := Exchange.nothing
  obtain ⟨_, -, -, -, ⟨-, _, -, -, _, -, he⟩, -⟩ := Tracks.conditional
    (Productions.mirrors depth depth) (.self _) q s e r hs hm hq rfl h
  exact he

/-- Resolving keeps the text, in every context and whether faults are tolerated or not. If an
expression in which no property has modifiers, methods and accessors apart, is converted to a target
of a binding or of an assignment, it prints as before. So does a group that turns out to be an
expression in parentheses, and if it turns out to be the parameters of an arrow function, so do
these behind the `async` in front of them. Of the items of a group that is read from a source
nothing has to be known. -/
theorem resolve_print :
    (∀ (finder : Finder) (site : Site) (use : TargetUse) (strict : Bool) (e : Expr) (p : Pattern)
      (q r : Parser), e.Unmodified →
        (Parse.convertAs finder site (e.asTarget use strict false)).run q = .ok p r →
          p.print = e.print) ∧
    (∀ (ctx : Context) (start : Position) (g : Group) (span : Span) (e : Expr) (q r : Parser),
      (parenthesized ctx start g).run q = .ok e r → e.print = (g.unresolved none span).print) ∧
    (∀ (p : Productions) (ctx : Context) (start : Position) (asyncLead : Option String)
      (openLead closeLead : String) (items : List Expr) (separators : List String) (span : Span)
      (e : Expr) (q r : Parser), (∀ item ∈ items, item.Unmodified) →
        (groupArrow p ctx start asyncLead openLead items separators closeLead).run q = .ok e r →
          e.IsArrowOf (.cover asyncLead openLead (.ofList items) separators closeLead span)
            asyncLead) ∧
    ∀ (depth : Nat) (ctx : Context) (start : Position) (asyncLead : Option String)
      (openLead closeLead : String) (items : Tree (.many .expr)) (separators : List String)
      (span : Span) (e : Expr) (s : Scanner) (q r u : Parser), Stands s q → s.mode = .normal →
        q.scanner.mode = .normal →
        (conditional (.ofDepth depth) ctx).run q =
          .ok (.cover asyncLead openLead items separators closeLead span) r →
        (groupArrow (.ofDepth depth) ctx start asyncLead openLead items.toList separators
          closeLead).run r = .ok e u →
            e.IsArrowOf (.cover asyncLead openLead items separators closeLead span) asyncLead := by
  refine ⟨?_, ?_, ?_, ?_⟩
  · intro finder site use strict e p q r he hrun
    exact (Parse.Returns.convertAs_print he.isConvertible).of_run hrun
  · intro ctx start g span e q r hrun
    exact (Parse.Returns.parenthesized_print span).of_run hrun
  · intro p ctx start asyncLead openLead closeLead items separators span e q r hitems hrun
    exact (Parse.Returns.groupArrow_print span fun item hmem =>
      (hitems item hmem).isConvertible).of_run hrun
  · intro depth ctx start asyncLead openLead closeLead items separators span e s q r u
      hs hm hq hread
      hrun
    have hcover : items.isConvertible = true := isConvertible_of_conditional hs hm hq hread
    rw [← Tree.ofList_toList items] at hcover
    have harrow :=
      (Parse.Returns.groupArrow_print span ((Tree.isConvertible_ofList _).1 hcover)).of_run hrun
    rwa [Tree.ofList_toList] at harrow

/-- A run from the start of a source that ends with a value. -/
theorem exists_run_of_start {α : Type} {source : String} {action : Parse α} {v : α}
    (h : (Parser.start source false false).toOption.bind (EStateM.run' action.run) = some v) :
    ∃ q r, Parser.start source false false = .ok q ∧ action.run q = .ok v r := by
  obtain ⟨q, hstart, hrun⟩ := Option.bind_eq_some_iff.1 h
  refine ⟨q, ?_⟩
  cases hs : Parser.start source false false with
  | error e =>
    rw [hs] at hstart
    cases hstart
  | ok first =>
    rw [hs] at hstart
    obtain rfl := Option.some.inj hstart
    unfold EStateM.run' EStateM.run at hrun
    cases hend : action.run first with
    | error e r =>
      rw [hend] at hrun
      cases hrun
    | ok w r =>
      rw [hend] at hrun
      obtain rfl := Option.some.inj hrun
      exact ⟨r, rfl, rfl⟩

/-- An object literal that is converted to a pattern and that is resolved in parentheses to an
expression and to the parameters of an arrow function, and a name in parentheses that is read in
front of an arrow. -/
theorem resolve_print_object :
    ∃ e : Expr, e.Unmodified ∧ e.print = "\x7ba:b\x7d" ∧
      (∃ p q r, (Parse.convertAs .grammar {} (e.asTarget .assignment false false)).run q = .ok p r ∧
        p.print = e.print) ∧
      (∃ v q r, (parenthesized {} {} ⟨"", [⟨e, {}, {}⟩], [], " "⟩).run q = .ok v r ∧
        v.print = (Group.unresolved ⟨"", [⟨e, {}, {}⟩], [], " "⟩ none {}).print) ∧
      (∃ v q r, (∀ item ∈ [e], item.Unmodified) ∧
        (groupArrow (.ofDepth 9) {} {} none "" [e] [] "").run q = .ok v r ∧
          v.IsArrowOf (.cover none "" (.ofList [e]) [] "" {}) none) ∧
      ∃ items span v s q r u, Stands s q ∧ s.mode = .normal ∧ q.scanner.mode = .normal ∧
        (conditional (.ofDepth 9) {}).run q = .ok (.cover none "" items [] "" span) r ∧
        (groupArrow (.ofDepth 9) {} {} none "" items.toList [] "").run r = .ok v u ∧
          v.IsArrowOf (.cover none "" items [] "" span) none := by
  obtain ⟨convert, enclose, resolve, read⟩ := resolve_print
  have hleaf : ∀ {c : Category} {ctx : Context} {t : Tree c}, t.innerParts ctx = [] →
      t.HasNoModifiers → t.Everywhere (fun _ {_} x => x.HasNoModifiers) ctx :=
    fun hparts ht => Tree.everywhere_iff.2 ⟨ht, by rw [hparts]; exact List.forall_mem_nil _⟩
  have hunmodified : Tree.Unmodified (.object "" (.ofList [.property {}
      (.nameKey { name := "a", raw := "a" }) (.identifier { name := "b", raw := "b" }) .plain
      false false "" {}]) [] "" {}) := by
    intro ctx
    refine Tree.everywhere_iff.2 ⟨trivial, List.forall_mem_singleton.2 ?_⟩
    refine Tree.everywhere_iff.2 ⟨trivial, List.forall_mem_cons.2
      ⟨?_, List.forall_mem_singleton.2 (hleaf rfl trivial)⟩⟩
    exact Tree.everywhere_iff.2 ⟨fun _ _ => rfl, List.forall_mem_cons.2
      ⟨hleaf rfl trivial, List.forall_mem_singleton.2 (hleaf rfl trivial)⟩⟩
  refine ⟨_, hunmodified, by decide +kernel, ?_⟩
  generalize he : Tree.object .. = e at hunmodified
  have hends : ∀ {α : Type} (action : Parse α),
      ((Parser.start "=>c" false false).toOption.bind (EStateM.run' action.run)).isSome = true →
        ∃ v q r, action.run q = .ok v r := by
    intro α action h
    obtain ⟨v, hv⟩ := Option.isSome_iff_exists.1 h
    obtain ⟨q, r, -, hrun⟩ := exists_run_of_start hv
    exact ⟨v, q, r, hrun⟩
  refine ⟨?_, ?_, ?_, ?_⟩
  · obtain ⟨p, q, r, hrun⟩ := hends
      (Parse.convertAs .grammar {} (e.asTarget .assignment false false))
      (by subst he; decide +kernel)
    exact ⟨p, q, r, hrun, convert _ _ _ _ _ _ _ _ hunmodified hrun⟩
  · obtain ⟨v, q, r, hrun⟩ := hends (parenthesized {} {} ⟨"", [⟨e, {}, {}⟩], [], " "⟩)
      (by subst he; decide +kernel)
    exact ⟨v, q, r, hrun, enclose _ _ _ _ _ _ _ hrun⟩
  · obtain ⟨v, q, r, hrun⟩ := hends (groupArrow (.ofDepth 9) {} {} none "" [e] [] "")
      (by subst he; decide +kernel)
    have hitems : ∀ item ∈ [e], item.Unmodified := List.forall_mem_singleton.2 hunmodified
    exact ⟨v, q, r, hitems, hrun, resolve _ _ _ _ _ _ _ _ _ _ _ _ hitems hrun⟩
  · have hread : ∀ item : Expr,
        item = .identifier { name := "a", raw := "a", span := .between ⟨1, 1, 1⟩ ⟨1, 2, 2⟩ } →
        (Parser.start "(a)=>c" false false).toOption.bind (EStateM.run' (Parse.run
          (conditional (.ofDepth 9) {} >>= fun v =>
            groupArrow (.ofDepth 9) {} {} none "" [item] [] "" >>= fun _ => pure v))) =
          some (.cover none "" (.ofList [item]) [] "" (.between ⟨1, 0, 0⟩ ⟨1, 3, 3⟩)) := by
      rintro _ rfl
      decide +kernel
    obtain ⟨q, u, hstart, hrun⟩ := exists_run_of_start (hread _ rfl)
    rw [Parse.run_bind] at hrun
    split at hrun
    case h_2 => cases hrun
    rename_i c r hcover
    rw [Parse.run_bind] at hrun
    split at hrun
    case h_2 => cases hrun
    rename_i v u harrow
    obtain ⟨rfl, -⟩ := Run.pure_eq_ok.1 hrun
    obtain ⟨hstands, hmode, -⟩ := Stands.of_start (o := {}) hstart
    exact ⟨_, _, v, _, q, r, _, hstands, rfl, hmode, hcover, harrow,
      read _ _ _ _ _ _ _ _ _ _ _ _ _ _ hstands rfl hmode hcover harrow⟩

end Verbatim
