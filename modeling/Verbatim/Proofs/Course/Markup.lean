import Verbatim.Proofs.Course.Function

/-!
# Markup

Elements and fragments are read as they are laid out. The mode changes on the way, which makes no
difference to what was taken. Where the braces of a container are empty, the node between them
reaches to the start of the closing brace, and it is finished before that brace is taken.

## Main results

* `Verbatim.Parse.Proceeds.markup` — markup behind its first angle bracket.
* `Verbatim.Parse.Proceeds.markupRoot` — markup as an operand.
-/

namespace Verbatim

open Verbatim.Grammar Verbatim.Course

namespace Course

variable {source : String} {c₀ c : Course source} {us : List Token}

/-- The extent between what was taken and the lookahead may be that of a node. -/
theorem Moves.mayFinish_gap (h : c₀.Moves us c) (hu : us ≠ []) :
    c.MayFinish (.between c.lastEnd c.ahead.start) := by
  have hend := h.lastEnd_isOf hu
  refine ⟨⟨_, _, rfl, hend, c.ahead_lies.start, Nat.zero_le _, c.lastEnd_le, Nat.le_refl _⟩,
    fun node hn => ?_⟩
  obtain ⟨ms, hms, hin⟩ := h.nodes
  rw [hms] at hn
  rcases List.mem_append.1 hn with hn | hn
  · exact (c₀.bounded node hn).precedes (h.start_le hu)
  · exact (hin node hn).2.precedes (Nat.le_refl _)

/-- A node between what was taken and the lookahead is finished, and the lookahead is taken. -/
theorem Moves.gap {kind : NodeKind} {mode : Mode} {u : Token}
    {hf : c.MayFinish (.between c.lastEnd c.ahead.start)}
    {hu : ((c.finish kind _ hf).inMode mode).MayFollow u} (h : c₀.Moves us c) (hne : us ≠ [])
    (hk : kind ≠ .program) :
    c₀.Moves (us ++ [c.ahead]) (((c.finish kind _ hf).inMode mode).take u hu) := by
  have hlast : (((c.finish kind _ hf).inMode mode).take u hu).lastEnd = c.ahead.stop :=
    lastEnd_take
  have hforward := c.ahead_lies.forward
  have hle := c.lastEnd_le
  obtain ⟨ms, hms, hin⟩ := h.nodes
  refine ⟨?_, ⟨ms ++ [{ kind, span := .between c.lastEnd c.ahead.start }], ?_, fun node hn => ?_⟩,
    fun t ht => ?_, fun hnil => ?_⟩
  · change c.taken ++ [c.ahead] = _
    rw [h.taken, List.append_assoc]
  · change c.nodes ++ [_] = _
    rw [hms, List.append_assoc]
  · rw [hlast]
    rcases List.mem_append.1 hn with hn | hn
    · exact ⟨(hin node hn).1, (hin node hn).2.mono (Nat.le_refl _) (Nat.le_trans hle hforward)⟩
    · obtain rfl := List.mem_singleton.1 hn
      exact ⟨hk, _, _, rfl, h.lastEnd_isOf hne, c.ahead_lies.start, h.start_le hne, hle, hforward⟩
  · refine h.head t ?_
    cases us with
    | nil => exact absurd rfl hne
    | cons first us => exact ht
  · exact absurd hnil (by simp)

end Course

namespace Parse.Proceeds

variable {source : String} {p : Productions} {ctx : Context} {c c₀ : Course source}

theorem leadThen {spelling : String} {after : Mode} {post : String → Outlook source → Prop}
    (hs : c.ahead.raw = spelling)
    (h : ∀ lead c', c.Passes (.token (lead ++ spelling)) c' → post lead (.on c')) :
    (Grammar.leadThen after).Proceeds c post :=
  lead (c := c.inMode after) hs fun _ _ hr => h _ _ hr.of_inMode

theorem expectThen {spelling : String} {after : Mode} {post : String → Outlook source → Prop}
    (h : ∀ lead c', c.Passes (.token (lead ++ spelling)) c' → post lead (.on c')) :
    (Grammar.expectThen ctx spelling after).Proceeds c post :=
  expect (c := c.inMode after) fun _ _ hr => h _ _ hr.of_inMode

/-! ## Names -/

theorem tagIdent {post : TagIdent → Outlook source → Prop}
    (h : ∀ id c', c.Passes id.layout c' → post id (.on c')) :
    (Grammar.tagIdent ctx).Proceeds c post := by
  simp only [Grammar.tagIdent, proceeds_bind, proceeds_look, meets_on, proceeds_ite,
    proceeds_unexpectedHere, proceeds_next, implies_true, true_and]
  refine fun _ u hu => finishLeaf (by decide) fun span c' hspan _ hmoves => h _ c' ⟨_, hmoves, ?_⟩
  exact .node (.token rfl (Nat.le_refl _)) (Span.covers_singleton.2 hspan)

theorem namespacedName {space : TagIdent} {post : NamespacedName → Outlook source → Prop}
    (hspace : c₀.Passes space.layout c)
    (h : ∀ name c', c₀.Passes name.layout c' → post name (.on c')) :
    (Grammar.namespacedName ctx c₀.ahead.start space).Proceeds c post := by
  refine expect fun colonLead c₁ h₁ => tagIdent fun name c₂ h₂ => ?_
  exact finish (hspace.seq (h₁.seq h₂)) rfl (by decide) fun span c' hr => h _ _ hr

theorem tagMember {name : TagName} {c : Course source} (hname : c₀.Passes name.layout c) :
    (Grammar.tagMember ctx c₀.ahead.start name).Yields c fun w c' =>
      c₀.Passes (w.getD name).layout c' := by
  refine Yields.of_rule fun post h => accept (h none _ hname) fun dotLead c₁ h₁ => ?_
  refine tagIdent fun property c₂ h₂ => finish (hname.seq (h₁.seq h₂)) ?_ (by decide) ?_
  · simp [Layout.isSolid]
  · exact fun span c' hr => h (some _) _ hr

theorem tagName {rounds : Nat} {post : TagName → Outlook source → Prop}
    (h : ∀ name c', c.Passes name.layout c' → post name (.on c')) :
    (Grammar.tagName ctx rounds).Proceeds c post := by
  refine tagIdent fun first c₁ h₁ => ?_
  simp only [meets_on, proceeds_bind, proceeds_sees, proceeds_ite]
  refine ⟨fun _ => namespacedName h₁ fun name c' hr => h (.namespaced name) _ hr, fun _ => ?_⟩
  exact iterate (F := fun (name : TagName) c' => c.Passes name.layout c')
    (fun _ _ hname => tagMember hname) (v := .plain first) h₁ h

/-! ## Code in braces -/

/-- A container is laid out as it was read. -/
theorem container (hp : p.Proceeds source) {openLead : String} {after : Mode} {allowsEmpty : Bool}
    {post : Tree .container → Outlook source → Prop}
    (hlead : c₀.Passes (.token (openLead ++ "\x7b")) c)
    (h : ∀ v c', c₀.Builds v c' → post v (.on c')) :
    (Grammar.container p ctx c₀.ahead.start openLead after allowsEmpty).Proceeds c post := by
  simp only [Grammar.container, proceeds_bind, proceeds_look, meets_on, proceeds_ite,
    proceeds_unexpected, implies_true, true_and, proceeds_lastEnd]
  refine ⟨fun ht _ => ?_, fun _ => hp.ofAssignment fun value c₁ h₁ => expectThen
    fun closeLead c₂ h₂ => finish (hlead.seq (h₁.seq h₂)) rfl (by decide) fun span c' hr =>
      h _ _ (.part hr rfl)⟩
  obtain ⟨us, hne, hmoves, hlaid⟩ := hlead.exists_solid rfl
  have hf := hmoves.mayFinish_gap hne
  refine ⟨by simp,
    fun _ =>
      ⟨hf, show (Grammar.expectThen ctx "\x7d" after).Proceeds (c.finish .emptyExpr _ hf) fun _ o =>
    (Parse.finish .container c₀.ahead.start).Meets (courses source) o fun span o =>
      post (.emptyContainer openLead c.ahead.lead (.between c.lastEnd c.ahead.start) ""
        span) o from ?_⟩⟩
  refine expectTaken (c := (c.finish .emptyExpr _ hf).inMode after) fun u hu hraw => ?_
  obtain ⟨last, hlast⟩ : ∃ last, us.getLast? = some last := by
    cases hl : us.getLast? with
    | none => exact absurd (List.getLast?_eq_none_iff.1 hl) hne
    | some last => exact ⟨last, rfl⟩
  have hclose : Layout.Laid id (.token (c.ahead.lead ++ "" ++ "\x7d")) [c.ahead] :=
    @Layout.Laid.token _ "\x7d" _ _ (by rw [String.append_empty])
      (Nat.le_of_eq (by rw [raw_of_isPunctuator ht]))
  have hstart : c.lastEnd = last.stop := by
    rw [Course.lastEnd, hmoves.getLast? hne, hlast]
    rfl
  have hgap : Layout.Laid id (.gap (.between c.lastEnd c.ahead.start)
      (.token (openLead ++ "\x7b")) (.token (c.ahead.lead ++ "" ++ "\x7d"))) (us ++ [c.ahead]) :=
    .gap hlaid hclose hlast rfl (by rw [hstart]; rfl)
  exact finish ⟨_, hmoves.gap hne (by decide), hgap⟩ rfl (by decide) fun span c' hr =>
    h _ _ (.part hr rfl)

/-! ## Attributes -/

theorem attributeValue (hp : p.Proceeds source)
    {post : Tree .attributeValue → Outlook source → Prop}
    (h : ∀ v c', c.Builds v c' → post v (.on c')) :
    (Grammar.attributeValue p ctx).Proceeds c post := by
  simp only [Grammar.attributeValue, proceeds_bind, proceeds_look, meets_on, proceeds_ite,
    proceeds_unexpected, implies_true, and_true]
  refine ⟨fun _ => literal fun lit c' hlit => h _ _ (.part hlit rfl), fun _ => ⟨fun ht => ?_,
    fun _ ht => ?_⟩⟩
  · refine leadThen (raw_of_isPunctuator ht) fun openLead c₁ h₁ => ?_
    exact container hp h₁ fun v c' hv => h _ _ (.part hv rfl)
  · refine lead (raw_of_isPunctuator ht) fun openLead c₁ h₁ => ?_
    exact hp.ofMarkup h₁ (fun e c' he => h _ _ (.part he rfl)) fun f c' hf => h _ _ (.part hf rfl)

theorem spreadAttribute (hp : p.Proceeds source) {post : Tree .attribute → Outlook source → Prop}
    (ht : c.ahead.isPunctuator "\x7b" = true) (h : ∀ v c', c.Builds v c' → post v (.on c')) :
    (Grammar.spreadAttribute p ctx).Proceeds c post := by
  refine leadThen (raw_of_isPunctuator ht) fun openLead c₁ h₁ => expect fun dotsLead c₂ h₂ => ?_
  refine hp.ofAssignment fun operand c₃ h₃ => expectThen fun closeLead c₄ h₄ => ?_
  exact finish (h₁.seq (h₂.seq (h₃.seq h₄))) rfl (by decide) fun span c' hr => h _ _ (.part hr rfl)

/-- An attribute is laid out as it was read. -/
theorem tagAttribute (hp : p.Proceeds source) {post : Tree .attribute → Outlook source → Prop}
    (h : ∀ v c', c.Builds v c' → post v (.on c')) :
    (Grammar.tagAttribute p ctx).Proceeds c post := by
  -- What follows the name does not depend on whether the name has a namespace.
  have hnone : ∀ {name : AttributeName} {c₁ : Course source}, c.Passes name.layout c₁ →
      (Parse.finish .attribute c.ahead.start).Proceeds c₁ fun span o =>
        post (.attribute name "" .absent span) o := by
    intro name c₁ h₁
    have habsent : c₁.Builds (.absent : Tree (.maybe .attributeValue)) c₁ := .part .blank rfl
    refine finish (h₁.seq (Passes.blank.seq habsent)) ?_ (by decide) fun span c' hr =>
      h _ _ (.part hr rfl)
    simp [Layout.isSolid]
  have hsome : ∀ {name : AttributeName} {c₁ : Course source}, c.Passes name.layout c₁ →
      ∀ eqLead c₂, c₁.Passes (.token (eqLead ++ "=")) c₂ →
      (Grammar.attributeValue p ctx).Proceeds c₂ fun value o =>
        (Parse.finish .attribute c.ahead.start).Meets (courses source) o fun span o =>
          post (.attribute name eqLead (.present value) span) o := by
    intro name c₁ h₁ eqLead c₂ h₂
    refine attributeValue hp fun value c₃ h₃ => ?_
    have hvalue : c₂.Builds (.present value) c₃ := .part h₃ rfl
    refine finish (h₁.seq (h₂.seq hvalue)) ?_ (by decide) fun span c' hr => h _ _ (.part hr rfl)
    simp [Layout.isSolid]
  simp only [Grammar.tagAttribute, proceeds_bind, proceeds_sees, proceeds_here, meets_on,
    proceeds_ite]
  refine ⟨fun ht => spreadAttribute hp ht h, fun _ => tagIdent fun first c₁ h₁ => ?_⟩
  simp only [meets_on, proceeds_bind, proceeds_sees, proceeds_ite, proceeds_map, proceeds_pure]
  refine ⟨fun _ => namespacedName h₁ fun name c₂ h₂ => ?_, fun _ => ?_⟩
  · exact accept (hnone h₂) (hsome h₂)
  · exact accept (hnone h₁) (hsome h₁)

/-! ## Children -/

theorem childContainer (hp : p.Proceeds source) {post : Tree .child → Outlook source → Prop}
    (ht : c.ahead.isPunctuator "\x7b" = true) (h : ∀ v c', c.Builds v c' → post v (.on c')) :
    (Grammar.childContainer p ctx).Proceeds c post := by
  refine leadThen (raw_of_isPunctuator ht) fun openLead c₁ h₁ => ?_
  simp only [meets_on, proceeds_bind, proceeds_sees, proceeds_ite]
  refine ⟨fun ht => lead (raw_of_isPunctuator ht) fun dotsLead c₂ h₂ => ?_, fun _ => ?_⟩
  · refine hp.ofAssignment fun operand c₃ h₃ => expectThen fun closeLead c₄ h₄ => ?_
    exact finish (h₁.seq (h₂.seq (h₃.seq h₄))) rfl (by decide) fun span c' hr =>
      h _ _ (.part hr rfl)
  · exact container hp h₁ fun v c' hv => h _ _ (.part hv rfl)

/-- The children are read, and behind them the angle bracket of the closing tag. -/
theorem children (hp : p.Proceeds source) {name : String} {rounds : Nat}
    {post : List (Tree .child) × Position × String → Outlook source → Prop}
    (h : ∀ vs lead c₁ c', c.Builds (.ofList vs) c₁ → c₁.Passes (.token (lead ++ "<")) c' →
      post (vs, c₁.ahead.start, lead) (.on c')) :
    (Grammar.children p ctx name rounds).Proceeds c post := by
  induction rounds generalizing c post with
  | zero => trivial
  | succ rounds ih =>
    -- A child in front of the others.
    have hcons : ∀ {v : Tree .child} {c₁ : Course source}, c.Builds v c₁ →
        (Grammar.children p ctx name rounds).Proceeds c₁ fun r o => post (v :: r.1, r.2) o :=
      fun hv => ih fun vs lead c₂ c' hvs hlead => h _ _ _ _ (.part (hv.seq hvs) rfl) hlead
    simp only [Grammar.children, proceeds_bind, proceeds_look, meets_on]
    split
    · trivial
    · rename_i hkind
      refine fun u hu => finishLeaf (by decide) fun span c₁ hspan _ hmoves => hcons ⟨_, hmoves, ?_⟩
      exact .part (.markup hkind (c.formed.markupText hkind) rfl hspan) rfl
    · simp only [proceeds_ite, proceeds_bind, proceeds_unexpected, implies_true, and_true]
      refine ⟨fun ht => childContainer hp ht fun v c₁ hv => hcons hv, fun _ ht =>
        leadThen (raw_of_isPunctuator ht) fun openLead c₁ h₁ => ?_⟩
      simp only [meets_on, proceeds_bind, proceeds_sees, proceeds_ite, proceeds_pure]
      refine ⟨fun _ => h [] _ _ _ (.part .blank rfl) h₁, fun _ => ?_⟩
      exact hp.ofMarkup h₁ (fun e c₂ he => hcons (.part he rfl)) fun f c₂ hf => hcons (.part hf rfl)

/-! ## Elements and fragments -/

theorem fragment (hp : p.Proceeds source) {openLead : String} {after : Mode}
    {post : Tree .fragment → Outlook source → Prop}
    (hlead : c₀.Passes (.token (openLead ++ "<")) c)
    (h : ∀ v c', c₀.Builds v c' → post v (.on c')) :
    (Grammar.fragment p ctx c₀.ahead.start openLead after).Proceeds c post := by
  refine expectThen fun openingLead c₁ h₁ => children hp fun inner closingLead c₂ c₃ h₂ h₃ => ?_
  refine expect fun slashLead c₄ h₄ => ?_
  simp only [meets_on, proceeds_bind, proceeds_look, proceeds_ite, proceeds_fail, implies_true,
    true_and]
  refine fun _ => expectThen fun closeLead c₅ h₅ => ?_
  exact finish (hlead.seq (h₁.seq (h₂.seq (h₃.seq (h₄.seq h₅))))) rfl (by decide) fun span c' hr =>
    h _ _ (.part hr rfl)

theorem closingTag {openLead opened : String} {after : Mode}
    {post : ClosingTag → Outlook source → Prop} (hlead : c₀.Passes (.token (openLead ++ "<")) c)
    (h : ∀ v c', c₀.Passes v.layout c' → post v (.on c')) :
    (Grammar.closingTag p ctx c₀.ahead.start openLead opened after).Proceeds c post := by
  refine expect fun slashLead c₁ h₁ => tagName fun name c₂ h₂ => ?_
  simp only [meets_on, proceeds_bind, proceeds_ite, proceeds_fail, implies_true, true_and]
  refine fun _ => expectThen fun closeLead c₃ h₃ => ?_
  exact finish (hlead.seq (h₁.seq (h₂.seq h₃))) rfl (by decide) fun span c' hr => h _ _ hr

/-- An element is laid out as it was read. -/
theorem element (hp : p.Proceeds source) {openLead : String} {after : Mode}
    {post : Tree .element → Outlook source → Prop}
    (hlead : c₀.Passes (.token (openLead ++ "<")) c)
    (h : ∀ v c', c₀.Builds v c' → post v (.on c')) :
    (Grammar.element p ctx c₀.ahead.start openLead after).Proceeds c post := by
  refine tagName fun name c₁ h₁ => many (fun c => Yields.of_rule fun _ h => tagAttribute hp h)
    fun attributes c₂ h₂ => ?_
  simp only [meets_on, proceeds_bind, proceeds_sees, proceeds_ite]
  refine ⟨fun ht => lead (raw_of_isPunctuator ht) fun selfClosing c₃ h₃ => ?_, fun _ => ?_⟩
  · simp only [meets_on, proceeds_bind, proceeds_sees, proceeds_ite, proceeds_unexpectedHere,
      implies_true, true_and]
    refine fun _ => expectThen fun closeLead c₄ h₄ => ?_
    have hmark : c₂.Passes (.mark (some selfClosing) "/") c₃ := h₃
    refine finish (hlead.seq (h₁.seq (h₂.seq (hmark.seq h₄)))) rfl (by decide)
      fun openingSpan c₅ h₅ => ?_
    refine finish (h₅.seq (Passes.seq (Passes.part (s := .standalone)
      (t := (Tree.nil : Tree (.many .child))) .blank rfl) .blank)) rfl (by decide)
        fun span c' hr => ?_
    exact h _ _ (.part hr rfl)
  · refine expectThen fun closeLead c₃ h₃ => ?_
    have hmark : c₂.Passes (.mark none "/") c₂ := .blank
    refine finish (hlead.seq (h₁.seq (h₂.seq (hmark.seq h₃)))) rfl (by decide)
      fun openingSpan c₄ h₄ => ?_
    refine children hp fun inner closingLead c₅ c₆ h₅ h₆ => closingTag h₆ fun closing c₇ h₇ => ?_
    exact finish (h₄.seq (h₅.seq h₇)) rfl (by decide) fun span c' hr => h _ _ (.part hr rfl)

theorem markup (hp : p.Proceeds source) {openLead : String} {after : Mode}
    (hlead : c₀.Passes (.token (openLead ++ "<")) c) :
    (Grammar.markup p c₀.ahead.start openLead after ctx).Yields c fun v c' =>
      c₀.Passes v.layout c' := by
  refine Yields.of_rule fun post h => ?_
  simp only [Grammar.markup, proceeds_bind, proceeds_sees, meets_on, proceeds_ite, proceeds_map]
  refine ⟨fun _ => fragment hp hlead fun v c' hv => h (.fragment v) _ hv, fun _ => ?_⟩
  exact element hp hlead fun v c' hv => h (.element v) _ hv

/-- The angle bracket is scanned again. Where it is found elsewhere, nothing can be scanned behind
it, and so it is never taken. -/
theorem markupRoot (hp : p.Proceeds source) {post : Expr → Outlook source → Prop}
    (ht : c.ahead.isPunctuator "<" = true) (h : ∀ v c', c.Builds v c' → post v (.on c')) :
    (Grammar.markupRoot p ctx).Proceeds c post := by
  simp only [Grammar.markupRoot, proceeds_bind, proceeds_setMode, meets_on, proceeds_rescan]
  refine ⟨rfl, ht, fun u hu hangle => ?_, fun u => trivial⟩
  refine lead (raw_of_isPunctuator hangle) fun openLead c₁ h₁ => ?_
  have hkind := kind_of_isPunctuator ht
  exact hp.ofMarkup h₁ (fun e c' he => h _ _ (.part (he.of_replace hkind).of_inMode rfl))
    fun f c' hf => h _ _ (.part (hf.of_replace hkind).of_inMode rfl)

end Parse.Proceeds

end Verbatim
