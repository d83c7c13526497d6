import Verbatim.Proofs.Course.Operand

/-!
# Chains of accesses and calls

Each link of a chain is laid out behind what was read so far, and its extent begins where the chain
does.

## Main results

* `Verbatim.Parse.Proceeds.chain`, `Verbatim.Parse.Proceeds.callee` — chains with and without calls.
-/

namespace Verbatim

open Verbatim.Grammar Verbatim.Course

/-- A name that stands for the lookahead is spelled as it is. -/
theorem Course.Passes.word_of_isWord {source : String} {c c' : Course source} {id : Ident}
    {word : String} (h : c.Builds (.identifier id) c') (hw : c.ahead.isWord word = true) :
    c.Passes (.token (id.lead ++ word)) c' := by
  obtain ⟨us, hmoves, hlaid⟩ := h
  cases hlaid with
  | part inner =>
    cases inner with
    | @ident _ t lead raw span =>
      have ht : t = c.ahead := (hmoves.head t rfl).same.resolve_right fun hk => by
        simp [Token.isWord, hk] at hw
      refine ⟨[t], hmoves, .token (by rw [lead]) ?_⟩
      exact Nat.le_of_eq (by rw [ht, Parse.Proceeds.raw_of_isWord hw])

namespace Parse.Proceeds

variable {source : String} {p : Productions} {ctx : Context} {c c₀ c₁ c₂ : Course source}

/-! ## Links -/

theorem accessName {post : Tree .access → Outlook source → Prop}
    (h : ∀ v c', c.Builds v c' → v.isComputed = false → post v (.on c')) :
    (Grammar.accessName ctx).Proceeds c post := by
  simp only [Grammar.accessName, proceeds_bind, proceeds_look, meets_on, proceeds_ite,
    proceeds_unexpected, implies_true, and_true]
  refine ⟨fun _ => anyName fun id c' hid => h _ _ (.part hid rfl) rfl, fun _ hkind u hu => ?_⟩
  exact finishPrivateName hkind fun name c' hname => h _ _ (.part hname rfl) rfl

theorem accessIndex (hp : p.Proceeds source) {post : Tree .access → Outlook source → Prop}
    (h : ∀ v c', c.Builds v c' → v.isComputed = true → post v (.on c')) :
    (Grammar.accessIndex p ctx).Proceeds c post := by
  refine expect fun openLead c₁ h₁ => hp.ofExpression fun inner c₂ h₂ => ?_
  exact expect fun closeLead c₃ h₃ => h _ _ (.part (h₁.seq (h₂.seq h₃)) rfl) rfl

section

variable {base : Expr} {post : Expr → Outlook source → Prop}

theorem finishAccess {isOptional : Bool} {dotLead : String} {prop : Tree .access}
    (hbase : c₀.Builds base c₁)
    (hdot : c₁.Passes (.onlyIf (isOptional || !prop.isComputed)
      (dotLead ++ if isOptional then "?." else ".")) c₂) (hprop : c₂.Builds prop c)
    (h : ∀ v c', c₀.Builds v c' → post v (.on c')) :
    (Grammar.finishAccess c₀.ahead.start base isOptional dotLead prop).Proceeds c post :=
  finish (hbase.seq (hdot.seq hprop)) rfl (by decide) fun _ _ hr => h _ _ (.part hr rfl)

theorem finishCall {isOptional : Bool} {optionalLead : String} {args : Tree .arguments}
    (hbase : c₀.Builds base c₁) (hmark : c₁.Passes (.onlyIf isOptional (optionalLead ++ "?.")) c₂)
    (hargs : c₂.Builds args c) (h : ∀ v c', c₀.Builds v c' → post v (.on c')) :
    (Grammar.finishCall c₀.ahead.start base isOptional optionalLead args).Proceeds c post :=
  finish (hbase.seq (hmark.seq hargs)) rfl (by decide) fun _ _ hr => h _ _ (.part hr rfl)

theorem taggedTemplate (hp : p.Proceeds source) (hbase : c₀.Builds base c)
    (h : ∀ v c', c₀.Builds v c' → post v (.on c')) :
    (Grammar.taggedTemplate p ctx c₀.ahead.start base).Proceeds c post :=
  template hp fun _ _ hquasi => finish (hbase.seq hquasi) rfl (by decide) fun _ _ hr =>
    h _ _ (.part hr rfl)

theorem optionalLink (hp : p.Proceeds source) (hbase : c₀.Builds base c)
    (ht : c.ahead.isPunctuator "?." = true) (h : ∀ v c', c₀.Builds v c' → post v (.on c')) :
    (Grammar.optionalLink p ctx c₀.ahead.start base).Proceeds c post := by
  refine lead (raw_of_isPunctuator ht) fun optionalLead c₁ h₁ => ?_
  simp only [meets_on, proceeds_bind, proceeds_look, proceeds_ite, proceeds_reject, implies_true,
    true_and]
  refine ⟨fun _ => ?_, fun _ => ⟨fun _ => ?_, fun _ _ => ?_⟩⟩
  · exact argumentList hp fun args c₂ h₂ => finishCall hbase h₁ h₂ h
  · exact accessIndex hp fun prop c₂ h₂ _ => finishAccess hbase h₁ h₂ h
  · exact accessName fun prop c₂ h₂ _ => finishAccess hbase h₁ h₂ h

end

/-- A link of a chain is laid out behind what it extends. -/
theorem plainLink (hp : p.Proceeds source) {base : Expr}
    {post : Option Expr → Outlook source → Prop}
    (hbase : c₀.Builds base c) (hnone : post none (.on c))
    (hsome : ∀ v c', c₀.Builds v c' → post (some v) (.on c')) :
    (Grammar.plainLink p ctx c₀.ahead.start base).Proceeds c post := by
  simp only [Grammar.plainLink, proceeds_bind, proceeds_look, meets_on, proceeds_ite,
    proceeds_pure]
  refine ⟨fun ht => ?_, fun _ => ⟨fun _ => ?_, fun _ => ⟨fun _ => ?_, fun _ => hnone⟩⟩⟩
  · refine lead (raw_of_isPunctuator ht) fun dotLead c₁ h₁ => accessName fun prop c₂ h₂ hprop => ?_
    exact finishAccess hbase (by rw [hprop]; exact h₁) h₂ hsome
  · refine accessIndex hp fun prop c₂ h₂ hprop => ?_
    exact finishAccess hbase (by rw [hprop]; exact .blank) h₂ hsome
  · exact argumentList hp fun args c₂ h₂ => finishCall hbase (by exact .blank) h₂ hsome

/-- A further link is read behind a chain, if there is one. -/
theorem chainLink (hp : p.Proceeds source) {v : Chain} {c : Course source}
    (hv : c₀.Builds v.value c) : (Grammar.chainLink p ctx c₀.ahead.start v).Yields c fun w c' =>
      c₀.Builds (w.getD v).value c' := by
  refine Yields.of_rule fun post h => ?_
  simp only [Grammar.chainLink, proceeds_bind, proceeds_look, meets_on, proceeds_ite,
    proceeds_reject, implies_true, true_and]
  refine ⟨fun ht => optionalLink hp hv ht fun w c' hw => h (some _) _ hw, fun _ =>
    ⟨fun _ _ => taggedTemplate hp hv fun w c' hw => h (some _) _ hw, fun _ => ?_⟩⟩
  exact plainLink hp hv (h none _ hv) fun w c' hw => h (some _) _ hw

/-! ## Beginnings -/

theorem superclass {post : Expr → Outlook source → Prop} (ht : c.ahead.isKeyword "super" = true)
    (h : ∀ v c', c.Builds v c' → post v (.on c')) : (Grammar.superclass ctx).Proceeds c post := by
  simp only [Grammar.superclass, proceeds_bind, proceeds_next, meets_on, proceeds_look,
    proceeds_ite,
    proceeds_unexpected, implies_true, true_and]
  intro u hu _
  have hword : c.Passes (.token (c.ahead.lead ++ "super")) (c.take u hu) :=
    .token (raw_of_isKeyword ht)
  exact finish hword rfl (by decide) fun span c' hr => h _ _ (.part hr rfl)

/-- The first word was taken, and the dot comes next. -/
theorem metaProperty {word : String} {check : Parse Unit} {u : Token} {hu : c.MayFollow u}
    {post : Expr → Outlook source → Prop} (hdot : u.isPunctuator "." = true)
    (hcheck : ∀ {c : Course source} {post : Unit → Outlook source → Prop}, post () (.on c) →
      check.Proceeds c post) (h : ∀ v c', c.Builds v c' → post v (.on c')) :
    (Grammar.metaProperty ctx c.ahead word check).Proceeds (c.take u hu) post := by
  simp only [Grammar.metaProperty, proceeds_bind]
  refine finishLeaf (by decide) fun span c₁ hspan hahead hmoves => ?_
  have hsubject : c.Passes (.ident ⟨c.ahead.lead, c.ahead.raw, c.ahead.raw, span⟩) c₁ :=
    ⟨_, hmoves, .ident rfl rfl hspan⟩
  refine lead (by rw [hahead, raw_of_isPunctuator hdot]) fun dotLead c₂ h₂ => ?_
  simp only [meets_on, proceeds_bind, proceeds_seesWord, proceeds_ite, proceeds_unexpectedHere,
    implies_true, true_and]
  refine fun _ => anyName fun prop c₃ h₃ => hcheck ?_
  exact finish (hsubject.seq (h₂.seq h₃)) rfl (by decide) fun span c' hr => h _ _ (.part hr rfl)

/-- A construction is laid out as it was read. -/
theorem construct (hp : p.Proceeds source) {post : Expr → Outlook source → Prop}
    (ht : c.ahead.isKeyword "new" = true) (h : ∀ v c', c.Builds v c' → post v (.on c')) :
    (Grammar.construct p ctx).Proceeds c post := by
  simp only [Grammar.construct, proceeds_bind, proceeds_next, meets_on, proceeds_sees,
    proceeds_seesKeyword, proceeds_ite, proceeds_unexpectedHere, implies_true, true_and]
  refine fun u hu => ⟨fun hdot => metaProperty hdot (fun hpost => by simp [hpost]) h, fun _ _ => ?_⟩
  have hword : c.Passes (.token (c.ahead.lead ++ "new")) (c.take u hu) :=
    .token (raw_of_isKeyword ht)
  refine hp.ofCallee fun base c₁ h₁ => ?_
  simp only [meets_on, proceeds_bind, proceeds_sees, proceeds_ite, proceeds_unexpectedHere,
    implies_true, true_and, proceeds_map, proceeds_pure]
  refine fun _ => ⟨fun _ => argumentList hp fun args c₂ h₂ => ?_, fun _ => ?_⟩
  · have hargs : c₁.Builds (.present args) c₂ := .part h₂ rfl
    exact finish (hword.seq (h₁.seq hargs)) rfl (by decide) fun span c' hr => h _ _ (.part hr rfl)
  · have hargs : c₁.Builds (.absent : Tree (.maybe .arguments)) c₁ := .part .blank rfl
    exact finish (hword.seq (h₁.seq hargs)) rfl (by decide) fun span c' hr => h _ _ (.part hr rfl)

theorem importExpression (hp : p.Proceeds source) {post : Expr → Outlook source → Prop}
    (ht : c.ahead.isKeyword "import" = true) (h : ∀ v c', c.Builds v c' → post v (.on c')) :
    (Grammar.importExpression p ctx).Proceeds c post := by
  simp only [Grammar.importExpression, proceeds_bind, proceeds_next, meets_on, proceeds_sees,
    proceeds_ite]
  refine fun u hu => ⟨fun hdot => metaProperty hdot (fun hpost => by simp [hpost]) h, fun _ => ?_⟩
  have hword : c.Passes (.token (c.ahead.lead ++ "import")) (c.take u hu) :=
    .token (raw_of_isKeyword ht)
  refine expect fun openLead c₁ h₁ => hp.ofAssignment fun value c₂ h₂ => ?_
  refine expect fun closeLead c₃ h₃ => ?_
  exact finish (hword.seq (h₁.seq (h₂.seq h₃))) rfl (by decide) fun span c' hr =>
    h _ _ (.part hr rfl)

/-! ## Chains -/

/-- The name was read, and the group behind it is either what an arrow function takes or the
arguments of a call. -/
theorem asyncCall (hp : p.Proceeds source) {name : Ident} {post : Expr → Outlook source → Prop}
    (hname : c₀.Builds (.identifier name) c) (hw : c₀.ahead.isWord "async" = true)
    (h : ∀ v c', c₀.Builds v c' → post v (.on c')) :
    (Grammar.asyncCall p ctx c₀.ahead.start name).Proceeds c post := by
  simp only [Grammar.asyncCall, proceeds_bind, proceeds_pending, meets_on, proceeds_setPending]
  refine fun before => readGroup hp fun g c₁ c₂ c₃ hg => ?_
  simp only [meets_on, proceeds_bind, proceeds_look, proceeds_ite, proceeds_setPending]
  refine ⟨fun _ => ?_, fun _ => rejectPending ?_⟩
  · have hmark : c₀.Passes (.mark (some name.lead) "async") c := hname.word_of_isWord hw
    refine extent (hmark.seq (hg.opening.seq (hg.values.seq hg.closing))) rfl fun span hr => ?_
    exact h _ _ (.part hr rfl)
  · have hargs : c.Builds
      (.argumentList g.openLead (.ofList g.values) g.separators g.closeLead) c₃ :=
      .part (hg.opening.seq (hg.values.seq hg.closing)) rfl
    refine finishCall hname (by exact .blank) hargs fun v c₄ hv => ?_
    refine iterate (F := fun v c' => c₀.Builds v c') (fun w c' hw => ?_) hv h
    exact Yields.of_rule fun post h => plainLink hp hw (h none _ hw) fun v c' hv => h (some v) _ hv

theorem chainHead (hp : p.Proceeds source) {post : Expr → Outlook source → Prop}
    (h : ∀ v c', c.Builds v c' → post v (.on c')) : (Grammar.chainHead p ctx).Proceeds c post := by
  simp only [Grammar.chainHead, proceeds_bind, proceeds_look, meets_on, proceeds_ite]
  exact ⟨fun ht => superclass ht h, fun _ => ⟨fun ht => construct hp ht h, fun _ =>
    ⟨fun ht => importExpression hp ht h, fun _ => operand hp h⟩⟩⟩

/-- A name that begins a call of its own is the word `async`. -/
theorem asyncCallee {first : Token} {value : Expr} {post : Option Ident → Outlook source → Prop}
    (hnone : post none (.on c)) (hsome : ∀ id, value = .identifier id →
      first.isWord "async" = true → post (some id) (.on c)) :
    (Grammar.asyncCallee first value).Proceeds c post := by
  simp only [Grammar.asyncCallee, proceeds_bind, proceeds_look, meets_on]
  split
  · refine proceeds_ite.mpr ⟨fun hc => hsome _ rfl ?_, fun _ => hnone⟩
    simp only [Bool.and_eq_true] at hc
    exact hc.1.1
  · exact hnone

theorem chain (hp : p.Proceeds source) {post : Expr → Outlook source → Prop}
    (h : ∀ v c', c.Builds v c' → post v (.on c')) : (Grammar.chain p ctx).Proceeds c post := by
  refine chainHead hp fun value c₁ h₁ => asyncCallee ?_ fun name hvalue hw => ?_
  · refine iterate (F := fun (v : Chain) c' => c.Builds v.value c') (fun v c' hv => chainLink hp hv)
      (v := { value }) h₁ fun v c' hv => h _ _ hv
  · subst hvalue
    exact asyncCall hp h₁ hw h

theorem calleeLink (hp : p.Proceeds source) {base : Expr} {c : Course source}
    (hbase : c₀.Builds base c) : (Grammar.calleeLink p ctx c₀.ahead.start base).Yields c
      fun w c' => c₀.Builds (w.getD base) c' := by
  refine Yields.of_rule fun post h => ?_
  simp only [Grammar.calleeLink, proceeds_bind, proceeds_look, meets_on, proceeds_ite,
    proceeds_map, proceeds_pure, proceeds_unexpected, implies_true, true_and]
  refine fun _ => ⟨fun _ => taggedTemplate hp hbase fun v c' hv => h (some v) _ hv, fun _ =>
    ⟨fun _ => h none _ hbase, fun _ => ?_⟩⟩
  exact plainLink hp hbase (h none _ hbase) fun v c' hv => h (some v) _ hv

theorem callee (hp : p.Proceeds source) {post : Expr → Outlook source → Prop}
    (h : ∀ v c', c.Builds v c' → post v (.on c')) : (Grammar.callee p ctx).Proceeds c post := by
  have hlinks : ∀ {value : Expr} {c₁ : Course source}, c.Builds value c₁ →
      (Parse.iterate (Grammar.calleeLink p ctx c.ahead.start) p.rounds value).Proceeds c₁ post :=
    fun hv => iterate (F := fun v c' => c.Builds v c') (fun v c' hv => calleeLink hp hv) hv h
  simp only [Grammar.callee, proceeds_bind, proceeds_look, meets_on, proceeds_ite]
  exact ⟨fun ht => construct hp ht fun v c' hv => hlinks hv, fun _ =>
    ⟨fun ht => superclass ht fun v c' hv => hlinks hv, fun _ =>
      operand hp fun v c' hv => hlinks hv⟩⟩

end Parse.Proceeds

end Verbatim
