import Verbatim.Proofs.Course.Function

/-!
# Classes

Classes and their members are read as they are laid out. A semicolon between the members is kept
with its extent, and no node is reported of it.

## Main results

* `Verbatim.Parse.Proceeds.classDefinition` — classes.
* `Verbatim.Parse.Proceeds.modifiers` — the words in front of a key.
-/

namespace Verbatim

open Verbatim.Grammar Verbatim.Course

namespace Parse.Proceeds

variable {source : String} {p : Productions} {ctx : Context} {c c₀ c₁ : Course source}

/-! ## Modifiers -/

/-- The word `static` is none of the modifiers that are read, and only an accessor has a word of its
own. -/
theorem modifiers {post : Modifiers × PropertyKind → Outlook source → Prop}
    (h : ∀ r c', r.1.staticLead = none → (r.1.accessorLead = none → r.2 = .plain) →
      c.Passes (r.1.innerLayout r.2.accessor) c' → post r (.on c')) :
    Grammar.modifiers.Proceeds c post := by
  have hplain : (Parse.accept "*").Proceeds c fun starLead o => post ({ starLead }, .plain) o :=
    acceptMark fun starLead c' hr => h ({ starLead }, .plain) _ rfl (fun _ => rfl)
      (.seq .blank (.seq .blank hr))
  simp only [Grammar.modifiers, proceeds_bind, proceeds_look, meets_on, proceeds_ite,
    proceeds_pure, Bool.or_eq_true]
  refine ⟨fun ht => isModifier fun _ => ?_, fun _ => ⟨fun ht => isModifier fun _ => ?_,
    fun _ => hplain⟩⟩
  · simp only [meets_on, proceeds_ite, proceeds_bind, proceeds_pure]
    refine ⟨fun _ => lead (raw_of_isWord ht) fun asyncLead c₁ h₁ => ?_, fun _ => hplain⟩
    exact acceptMark fun starLead c' hr =>
      h ({ asyncLead := some asyncLead, starLead }, .plain) _ rfl
      (fun _ => rfl) (Passes.seq h₁ (.seq .blank hr))
  · simp only [meets_on, proceeds_ite, proceeds_bind, proceeds_pure]
    refine ⟨fun _ => ?_, fun _ => hplain⟩
    have hword : c.ahead.raw =
        (if c.ahead.raw == "get" then PropertyKind.getter else .setter).accessor := by
      rcases ht with ht | ht <;> rw [raw_of_isWord ht] <;> rfl
    refine lead hword fun accessorLead c₁ h₁ => ?_
    exact acceptMark fun starLead c' hr => h ({ accessorLead := some accessorLead, starLead }, _) _
      rfl (by simp) (.seq .blank (Passes.seq h₁ hr))

/-! ## Members -/

theorem staticBlock (hp : p.Proceeds source) {staticLead : String}
    {post : Tree .classMember → Outlook source → Prop}
    (hlead : c₀.Passes (.token (staticLead ++ "static")) c)
    (h : ∀ v c', c₀.Builds v c' → post v (.on c')) :
    (Grammar.staticBlock p ctx c₀.ahead.start staticLead).Proceeds c post := by
  refine expect fun openLead c₁ h₁ before => items hp fun stmts c₂ h₂ => ?_
  refine expect fun closeLead c₃ h₃ => ?_
  exact finish (hlead.seq (h₁.seq (h₂.seq h₃))) rfl (by decide) fun span c' hr =>
    h _ _ (.part hr rfl)

theorem fieldInitializer (hp : p.Proceeds source)
    {post : Tree (.maybe .initializer) → Outlook source → Prop}
    (h : ∀ v c', c.Builds v c' → post v (.on c')) :
    (Grammar.fieldInitializer p ctx).Proceeds c post := by
  refine accept (h _ _ (.part .blank rfl)) fun eqLead c₁ h₁ before => ?_
  refine hp.ofAssignment fun value c₂ h₂ => h _ _ (.part (.part (h₁.seq h₂) rfl) rfl)

theorem field (hp : p.Proceeds source) {mods : Modifiers} {name : Tree .key}
    {post : Tree .classMember → Outlook source → Prop}
    (hmods : c₀.Passes (mods.layout "") c₁) (hname : c₁.Builds name c)
    (h : ∀ v c', c₀.Builds v c' → post v (.on c')) :
    (Grammar.field p ctx c₀.ahead.start mods name).Proceeds c post := by
  refine fieldInitializer hp fun value c₂ h₂ => terminator fun ending c₃ h₃ => ?_
  refine finish (hmods.seq (hname.seq (h₂.seq h₃))) ?_ (by decide) fun span c' hr =>
    h _ _ (.part hr rfl)
  simp [Layout.isSolid, Category.isSolid]

/-- The word in front of a method is that in front of a property of its kind. -/
theorem methodKind {mods : Modifiers} {kind : PropertyKind} {name : Option String}
    {hasConstructor : Bool} {site : Site} {post : MethodKind → Outlook source → Prop}
    (h : ∀ methodKind, methodKind.accessor = kind.accessor → post methodKind (.on c)) :
    (Grammar.methodKind mods kind name hasConstructor site).Proceeds c post := by
  simp only [Grammar.methodKind, proceeds_ite, proceeds_bind, proceeds_reject, implies_true,
    true_and, proceeds_pure]
  refine ⟨fun _ hplain _ => h _ ?_, fun _ => h _ ?_⟩
  · cases kind <;> simp_all [MethodKind.accessor, PropertyKind.accessor]
  · cases kind <;> rfl

/-- A member behind its modifiers is laid out as it was read. -/
theorem keyedMember (hp : p.Proceeds source) {mods : Modifiers} {kind : PropertyKind}
    {hasConstructor : Bool} {post : Tree .classMember × Bool → Outlook source → Prop}
    (hmods : c₀.Passes (mods.layout kind.accessor) c)
    (h : ∀ r c', c₀.Builds r.1 c' → post r (.on c')) :
    (Grammar.keyedMember p ctx c₀.ahead.start mods kind hasConstructor).Proceeds c post := by
  refine key hp fun name c₁ h₁ => ?_
  simp only [meets_on, proceeds_bind, proceeds_ite, proceeds_reject, proceeds_sees, implies_true,
    true_and]
  refine fun _ => ⟨fun hfield _ => ?_, fun _ => methodKind fun methodKind hkind => ?_⟩
  · have hplain : kind = .plain := by simp_all
    subst hplain
    exact field hp hmods h₁ fun v c' hv => h (v, hasConstructor) _ hv
  · rw [← hkind] at hmods
    refine methodFunction hp fun value c₂ h₂ => ?_
    refine finish (hmods.seq (h₁.seq h₂)) ?_ (by decide) fun span c' hr => h (_, _) _ (.part hr rfl)
    simp [Layout.isSolid, Category.isSolid]

/-- A member of a class is laid out as it was read. -/
theorem classMember (hp : p.Proceeds source) {hasConstructor : Bool}
    {post : Tree .classMember × Bool → Outlook source → Prop}
    (h : ∀ r c', c.Builds r.1 c' → post r (.on c')) :
    (Grammar.classMember p ctx hasConstructor).Proceeds c post := by
  have hmods : ∀ {staticLead : Option String} {c₁ : Course source},
      c.Passes (.mark staticLead "static") c₁ → Grammar.modifiers.Proceeds c₁ fun r o =>
        (Grammar.keyedMember p ctx c.ahead.start { r.1 with staticLead } r.2
          hasConstructor).Meets (courses source) o post :=
    fun h₁ => modifiers fun r c₂ _ _ h₂ => keyedMember hp (h₁.seq h₂) h
  simp only [Grammar.classMember, proceeds_bind, proceeds_look, meets_on, proceeds_ite,
    proceeds_pure]
  refine ⟨fun ht => lead (raw_of_isPunctuator ht) fun lead c₁ h₁ => extent h₁ rfl fun span hr =>
    h (_, _) _ (.part hr rfl), fun _ => ⟨fun ht => isModifier fun isStatic => ?_, fun _ => ?_⟩⟩
  · simp only [meets_on, proceeds_ite, proceeds_map, proceeds_pure, proceeds_bind]
    refine ⟨fun _ => lead (raw_of_isWord ht) fun staticLead c₁ h₁ => ?_, fun _ => hmods .blank⟩
    simp only [meets_on, proceeds_ite, proceeds_bind, proceeds_sees]
    exact ⟨fun _ => staticBlock hp h₁ fun v c' hv => h (v, hasConstructor) _ hv, fun _ =>
      hmods h₁⟩
  · exact ⟨fun hf => absurd hf Bool.false_ne_true, fun _ => hmods .blank⟩

theorem classMembers (hp : p.Proceeds source) {hasConstructor : Bool} {rounds : Nat}
    {post : List (Tree .classMember) → Outlook source → Prop}
    (h : ∀ vs c', c.Builds (.ofList vs) c' → post vs (.on c')) :
    (Grammar.classMembers p ctx hasConstructor rounds).Proceeds c post := by
  induction rounds generalizing c hasConstructor post with
  | zero => trivial
  | succ rounds ih =>
    simp only [Grammar.classMembers, proceeds_bind, proceeds_look, meets_on, proceeds_ite,
      proceeds_unexpected, implies_true, true_and, proceeds_pure]
    refine ⟨fun _ => h _ _ (.part .blank rfl), fun _ _ => classMember hp fun r c₁ hr => ?_⟩
    exact ih fun vs c' hvs => h (r.1 :: vs) _ (.part (hr.seq hvs) rfl)

/-! ## Classes -/

theorem heritage (hp : p.Proceeds source) {post : Tree (.maybe .heritage) → Outlook source → Prop}
    (h : ∀ v c', c.Builds v c' → post v (.on c')) : (Grammar.heritage p ctx).Proceeds c post := by
  simp only [Grammar.heritage, proceeds_bind, proceeds_seesKeyword, meets_on, proceeds_ite,
    proceeds_pure, Bool.not_eq_true', Bool.not_eq_false]
  refine ⟨fun _ => h _ _ (.part .blank rfl),
    fun ht => lead (raw_of_isKeyword ht) fun lead c₁ h₁ => ?_⟩
  refine hp.ofChain fun base c₂ h₂ => ?_
  simp only [meets_on, proceeds_bind, proceeds_ite, proceeds_unexpectedHere, implies_true, true_and]
  exact fun _ => h _ _ (.part (.part (h₁.seq h₂) rfl) rfl)

/-- A class is laid out as it was read. -/
theorem classDefinition (hp : p.Proceeds source) {isDeclaration nameRequired : Bool}
    {post : Tree .classDef → Outlook source → Prop} (h : ∀ v c', c.Builds v c' → post v (.on c')) :
    (Grammar.classDefinition p ctx isDeclaration nameRequired).Proceeds c post := by
  refine expectKeyword fun classLead c₁ h₁ => ?_
  have hrest : ∀ {name : Option Ident} {c₂ : Course source}, c₁.Passes (nameLayout name) c₂ →
      (Grammar.heritage p ctx.classBody).Proceeds c₂ fun base o =>
        (Parse.expect ctx.classBody "\x7b").Meets (courses source) o fun openLead o =>
          (Grammar.classMembers p ctx.classBody false p.rounds).Meets (courses source) o
            fun members o => (Parse.expect ctx.classBody "\x7d").Meets (courses source) o
              fun closeLead o =>
                (Parse.finish (if isDeclaration = true then .classDecl else .classExpr)
                c.ahead.start).Meets (courses source) o fun span o => post
                  (.classDef classLead name base openLead (.ofList members) closeLead span) o := by
    intro name c₂ h₂
    refine heritage hp fun base c₃ h₃ => expect fun openLead c₄ h₄ => ?_
    refine classMembers hp fun members c₅ h₅ => expect fun closeLead c₆ h₆ => ?_
    refine finish (h₁.seq (h₂.seq (h₃.seq (h₄.seq (h₅.seq h₆))))) rfl ?_ fun span c' hr =>
      h _ _ (.part hr rfl)
    cases isDeclaration <;> decide
  simp only [meets_on, proceeds_bind, proceeds_look, proceeds_ite, proceeds_map, proceeds_pure,
    proceeds_unexpectedHere, implies_true, true_and]
  exact ⟨fun _ => bindingName fun id c₂ h₂ => hrest h₂, fun _ _ => hrest .blank⟩

end Parse.Proceeds

end Verbatim
