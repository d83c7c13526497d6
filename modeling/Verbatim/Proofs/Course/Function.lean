import Verbatim.Grammar.Language
import Verbatim.Proofs.Course.Rules
import Verbatim.Proofs.Grammar.Literal

/-!
# Literals, keys, bindings and functions

What these productions read is laid out as the tree that they make of it.

## Main definitions

* `Verbatim.Productions.Proceeds` — what is known of the productions that others call.
* `Verbatim.Layout.Opens` — layouts that begin with a name.

## Main results

* `Verbatim.Parse.Proceeds.binding`, `Verbatim.Parse.Proceeds.function`, … — one lemma for each
  production.
-/

namespace Verbatim

open Verbatim.Grammar Verbatim.Course

/-- The layout of an element or a fragment. -/
def Markup.layout : Markup → Layout
  | .element e => .part .standalone e
  | .fragment f => .part .standalone f

/-- What is known of the productions that others call, in a source. -/
structure Productions.Proceeds (source : String) (p : Productions) : Prop where
  expression : ∀ ctx (c : Course source), (p.expression ctx).Yields c fun v c' => c.Builds v c'
  assignment : ∀ ctx (c : Course source), (p.assignment ctx).Yields c fun v c' => c.Builds v c'
  cover : ∀ ctx (c : Course source), (p.cover ctx).Yields c fun v c' => c.Builds v c'
  binary : ∀ least ctx (c : Course source),
    (p.binary least ctx).Yields c fun v c' => c.Builds v c'
  exponentiation : ∀ ctx (c : Course source),
    (p.exponentiation ctx).Yields c fun v c' => c.Builds v c'
  unary : ∀ ctx (c : Course source), (p.unary ctx).Yields c fun v c' => c.Builds v c'
  chain : ∀ ctx (c : Course source), (p.chain ctx).Yields c fun v c' => c.Builds v c'
  callee : ∀ ctx (c : Course source), (p.callee ctx).Yields c fun v c' => c.Builds v c'
  binding : ∀ fault ctx (c : Course source),
    (p.binding fault ctx).Yields c fun v c' => c.Builds v c'
  statement : ∀ ctx (c : Course source), (p.statement ctx).Yields c fun v c' => c.Builds v c'
  item : ∀ ctx (c : Course source), (p.item ctx).Yields c fun v c' => c.Builds v c'
  markup : ∀ lead after ctx (c₀ c : Course source), c₀.Passes (.token (lead ++ "<")) c →
    (p.markup c₀.ahead.start lead after ctx).Yields c fun v c' => c₀.Passes v.layout c'

namespace Parse.Yields

variable {source : String} {α β : Type} {action : Parse α} {c : Course source}
  {F : α → Course source → Prop} {post : α → Outlook source → Prop}

/-- What a production yields is used by what follows it. -/
theorem use (h : action.Yields c F) (hp : ∀ v c', F v c' → post v (.on c')) :
    action.Proceeds c post := by
  refine Proceeds.imp h ?_
  rintro v _ ⟨c', rfl, hv⟩
  exact hp v c' hv

/-- What a rule says for every postcondition is what a production yields. -/
theorem of_rule (h : ∀ post : α → Outlook source → Prop, (∀ v c', F v c' → post v (.on c')) →
    action.Proceeds c post) : action.Yields c F := h _ fun _ c' hv => ⟨c', rfl, hv⟩

end Parse.Yields

namespace Productions.Proceeds

variable {source : String} {p : Productions} {ctx : Context} {c : Course source}

section

variable {post : Expr → Outlook source → Prop}

theorem ofExpression (hp : p.Proceeds source) (h : ∀ v c', c.Builds v c' → post v (.on c')) :
    (p.expression ctx).Proceeds c post := (hp.expression ctx c).use h

theorem ofAssignment (hp : p.Proceeds source) (h : ∀ v c', c.Builds v c' → post v (.on c')) :
    (p.assignment ctx).Proceeds c post := (hp.assignment ctx c).use h

theorem ofCover (hp : p.Proceeds source) (h : ∀ v c', c.Builds v c' → post v (.on c')) :
    (p.cover ctx).Proceeds c post := (hp.cover ctx c).use h

theorem ofBinary (hp : p.Proceeds source) {least : Nat}
    (h : ∀ v c', c.Builds v c' → post v (.on c')) :
    (p.binary least ctx).Proceeds c post := (hp.binary least ctx c).use h

theorem ofExponentiation (hp : p.Proceeds source) (h : ∀ v c', c.Builds v c' → post v (.on c')) :
    (p.exponentiation ctx).Proceeds c post := (hp.exponentiation ctx c).use h

theorem ofUnary (hp : p.Proceeds source) (h : ∀ v c', c.Builds v c' → post v (.on c')) :
    (p.unary ctx).Proceeds c post := (hp.unary ctx c).use h

theorem ofChain (hp : p.Proceeds source) (h : ∀ v c', c.Builds v c' → post v (.on c')) :
    (p.chain ctx).Proceeds c post := (hp.chain ctx c).use h

theorem ofCallee (hp : p.Proceeds source) (h : ∀ v c', c.Builds v c' → post v (.on c')) :
    (p.callee ctx).Proceeds c post := (hp.callee ctx c).use h

end

theorem ofBinding {fault : Fault} {post : Pattern → Outlook source → Prop}
    (hp : p.Proceeds source) (h : ∀ v c', c.Builds v c' → post v (.on c')) :
    (p.binding fault ctx).Proceeds c post := (hp.binding fault ctx c).use h

theorem ofStatement {post : Stmt → Outlook source → Prop} (hp : p.Proceeds source)
    (h : ∀ v c', c.Builds v c' → post v (.on c')) : (p.statement ctx).Proceeds c post :=
  (hp.statement ctx c).use h

theorem ofMarkup {c₀ : Course source} {lead : String} {after : Mode}
    {post : Markup → Outlook source → Prop} (hp : p.Proceeds source)
    (hlead : c₀.Passes (.token (lead ++ "<")) c)
    (hElement : ∀ e c', c₀.Builds e c' → post (.element e) (.on c'))
    (hFragment : ∀ f c', c₀.Builds f c' → post (.fragment f) (.on c')) :
    (p.markup c₀.ahead.start lead after ctx).Proceeds c post := by
  refine (hp.markup lead after ctx c₀ c hlead).use fun v c' hv => ?_
  cases v with
  | element e => exact hElement e c' hv
  | fragment f => exact hFragment f c' hv

end Productions.Proceeds

/-! ## Shorthand properties -/

namespace Layout

/-- Layouts that begin with a name. -/
inductive Opens (id : Ident) : Layout → Prop where
  /-- The name itself. -/
  | ident : Opens id (.ident id)
  /-- A part that begins with the name. -/
  | part {k : Category} {s : Setting} {t : Tree k} (inner : Opens id (t.shape s)) :
    Opens id (.part s t)
  /-- What begins with the name, with something behind it. -/
  | seq {l l' : Layout} (first : Opens id l) : Opens id (.seq l l')
  /-- The extent of what begins with the name. -/
  | node {span : Span} {l : Layout} (inner : Opens id l) : Opens id (.node span l)

/-- A layout that begins with a name is laid out over tokens that begin with that of the name. -/
theorem Laid.head_of_opens {g : Span → Span} {id : Ident} {l : Layout} {tokens : List Token}
    (h : l.Laid g tokens) (ho : Opens id l) :
    ∃ t, tokens.head? = some t ∧ id.span = g (.between t.start t.stop) := by
  induction ho generalizing tokens with
  | ident =>
    cases h with
    | ident lead raw span => exact ⟨_, rfl, span⟩
  | part _ ih =>
    cases h with
    | part inner => exact ih inner
  | seq _ ih =>
    cases h with
    | seq first rest =>
      obtain ⟨t, ht, hspan⟩ := ih first
      exact ⟨t, by simp [ht], hspan⟩
  | node _ ih =>
    cases h with
    | node inner => exact ih inner

end Layout

namespace Course.Passes

variable {source : String} {c c' : Course source} {id : Ident} {l : Layout}

/-- A property whose key is the name that its value begins with. -/
theorem shorthand (h : c.Passes l c') (ho : l.Opens id) :
    c.Passes (.shorthand (.nameKey id) l) c' := by
  refine h.imp fun us hl => ?_
  obtain ⟨t, ht, hspan⟩ := hl.head_of_opens ho
  exact .shorthand hl ht (.inl hspan)

/-- A property whose key is kept without its extent. -/
theorem shorthandBare (h : c.Passes l c') (hl : l.isSolid = true) :
    c.Passes (.shorthand (.nameKey id.bare) l) c' := by
  refine h.imp fun us hlaid => ?_
  cases us with
  | nil => exact absurd rfl (hlaid.ne_nil hl)
  | cons t us => exact .shorthand hlaid rfl (.inr rfl)

end Course.Passes

namespace Layout

/-- A word or mark that may be missing is there if its trivia are. -/
theorem mark_eq_onlyIf (lead : Option String) (spelling : String) :
    mark lead spelling = onlyIf lead.isSome (lead.getD "" ++ spelling) := by
  cases lead <;> rfl

/-- One list behind another. -/
theorem Laid.append_ofList {g : Span → Span} {k : Category} {vs ws : List (Tree k)}
    {ts us : List Token} (h : Laid g (.part .standalone (Tree.ofList vs)) ts)
    (h' : Laid g (.part .standalone (Tree.ofList ws)) us) :
    Laid g (.part .standalone (Tree.ofList (vs ++ ws))) (ts ++ us) := by
  induction vs generalizing ts with
  | nil =>
    cases h with
    | part inner =>
      cases inner
      exact h'
  | cons v vs ih =>
    cases h with
    | part inner =>
      cases inner with
      | seq first rest =>
        rw [List.append_assoc]
        exact .part (.seq first (ih rest)) rfl

end Layout

/-- One list is read behind another. -/
theorem Course.Passes.append_ofList {source : String} {k : Category} {vs ws : List (Tree k)}
    {c c₁ c' : Course source} (h : c.Builds (.ofList vs) c₁) (h' : c₁.Builds (.ofList ws) c') :
    c.Builds (.ofList (vs ++ ws)) c' := by
  obtain ⟨us, hmoves, hlaid⟩ := h
  obtain ⟨ws, hmoves', hlaid'⟩ := h'
  exact ⟨us ++ ws, hmoves.trans hmoves', hlaid.append_ofList hlaid'⟩

/-- The words in front of a key, apart from `static`. -/
def Modifiers.innerLayout (mods : Modifiers) (accessor : String) : Layout :=
  .all [.mark mods.asyncLead "async", .mark mods.accessorLead accessor, .mark mods.starLead "*"]

namespace Parse.Proceeds

variable {source : String} {p : Productions} {ctx : Context} {t : Token} {c c₀ : Course source}

/-! ## Literals, names and keys -/

@[simp]
theorem literalValue {post : Value → Outlook source → Prop} (h : ∀ v, post v (.on c)) :
    (Grammar.literalValue ctx t).Proceeds c post := by
  unfold Grammar.literalValue
  split
  case h_2 => split <;> simp [h]
  all_goals simp [h]

theorem literal {post : Literal → Outlook source → Prop}
    (h : ∀ lit c', c.Passes (.literal lit) c' → post lit (.on c')) :
    (Grammar.literal ctx).Proceeds c post := by
  have hrest : ∀ {u : Token} {hu : c.MayFollow u}, (Grammar.literalValue ctx c.ahead).Proceeds
      (c.take u hu) fun value o => (Parse.finish .literal c.ahead.start).Meets (courses source) o
        fun span o => post { lead := c.ahead.lead, value, raw := c.ahead.raw, span } o :=
    literalValue fun value => finishLeaf (by decide) fun span c' hspan _ hmoves =>
      h _ c' ⟨_, hmoves, .literal rfl rfl hspan⟩
  simp only [Grammar.literal, proceeds_bind, proceeds_next, meets_on, proceeds_ite,
    proceeds_tolerate]
  exact fun u hu => ⟨fun _ => hrest, fun _ => hrest⟩

@[simp]
theorem checkOperatorWord {post : Unit → Outlook source → Prop} (h : post () (.on c)) :
    (Grammar.checkOperatorWord ctx t).Proceeds c post := by
  simp [Grammar.checkOperatorWord, h]

@[simp]
theorem checkReference {post : Unit → Outlook source → Prop} (h : post () (.on c)) :
    (Grammar.checkReference ctx t).Proceeds c post := by
  simp only [Grammar.checkReference, proceeds_bind]
  exact checkOperatorWord (by simp [h])

theorem bindingName {fault : Fault} {post : Ident → Outlook source → Prop}
    (h : ∀ id c', c.Passes (.ident id) c' → post id (.on c')) :
    (Grammar.bindingName fault ctx).Proceeds c post := by
  have hrest : ∀ {u : Token} {hu : c.MayFollow u},
      (Parse.finishName c.ahead).Proceeds (c.take u hu) post := finishName h
  simp only [Grammar.bindingName, proceeds_bind, proceeds_look, meets_on, proceeds_ite,
    proceeds_unexpectedHere, proceeds_next, implies_true, true_and]
  refine fun _ u hu => checkOperatorWord ?_
  simp [hrest]

/-- A piece of a template, behind whichever delimiter it is laid out. -/
theorem templatePiece {tagged : Bool} {post : Quasi → Outlook source → Prop}
    (h : ∀ piece c', (∀ delimiter : String, delimiter.length = 1 →
      c.Passes (piece.layout delimiter) c') → post piece (.on c')) :
    (Grammar.templatePiece ctx tagged).Proceeds c post := by
  simp only [Grammar.templatePiece, proceeds_bind, proceeds_look, meets_on, proceeds_ite,
    proceeds_unexpectedHere, proceeds_next, implies_true, true_and]
  intro hkind u hu
  obtain ⟨cooked, isHead, isTail, inner, hvalue, hraw⟩ :=
    c.formed.template (Decidable.not_not.1 hkind)
  rw [hvalue]
  simp only [proceeds_ite, proceeds_bind, proceeds_fail, implies_true, true_and]
  refine fun _ => finishLeaf (by decide) fun span c' hspan _ hmoves => h _ c' fun delimiter hd =>
    ⟨_, hmoves, .node (@Layout.Laid.token _ (delimiter ++ inner ++ if isTail then "\x60" else
      "$\x7b") _ _ ?_ ?_) (Span.covers_singleton.2 hspan)⟩
  · simp only [(Tracks.pieceText_of_raw hraw).2, String.append_assoc]
  · rw [hraw]
    simp only [String.length_append, hd]
    cases isHead <;> exact Nat.le_refl _

/-- A template, piece by piece, is laid out as it was read. -/
theorem templateParts (hp : p.Proceeds source) {tagged : Bool} {rounds : Nat}
    {post : List Quasi × List Expr → Outlook source → Prop}
    (h : ∀ r c', r.1 ≠ [] → (∀ delimiter : String, delimiter.length = 1 →
      c.Passes (.pieces delimiter r.1 (r.2.map (.part .standalone))) c') → post r (.on c')) :
    (Grammar.templateParts p ctx tagged rounds).Proceeds c post := by
  induction rounds generalizing c post with
  | zero => trivial
  | succ rounds ih =>
    simp only [Grammar.templateParts, proceeds_bind]
    refine templatePiece fun piece c₁ hpiece => ?_
    simp only [meets_on, proceeds_ite, proceeds_pure, proceeds_bind]
    refine ⟨fun _ => h _ _ (List.cons_ne_nil _ _) fun delimiter hd =>
      (hpiece delimiter hd).seq (.hidden .blank), fun htail =>
      hp.ofExpression fun value c₂ hvalue =>
      ih fun r c' _ hr => h _ _ (List.cons_ne_nil _ _) fun delimiter hd => ?_⟩
    have hrest := (hpiece delimiter hd).seq (hvalue.seq (hr "\x7d" rfl))
    simpa only [Layout.pieces, List.map_cons, if_neg htail] using hrest

theorem template (hp : p.Proceeds source) {tagged : Bool}
    {post : Tree .template → Outlook source → Prop}
    (h : ∀ v c', c.Builds v c' → post v (.on c')) :
    (Grammar.template p ctx tagged).Proceeds c post := by
  refine templateParts hp fun r c₁ hne hr => ?_
  have hparts := hr "\x60" rfl
  rw [← Tree.toList_ofList r.2] at hparts
  refine finish hparts ?_ (by decide) fun span c' hspan => h _ _ (.part hspan rfl)
  cases hq : r.1 with
  | nil => exact absurd hq hne
  | cons piece pieces => cases (Tree.ofList r.2).toList.map (Layout.part .standalone) <;> rfl

/-- A key is laid out as it was read. -/
theorem key (hp : p.Proceeds source) {allowsPrivate : Bool}
    {post : Tree .key → Outlook source → Prop} (h : ∀ v c', c.Builds v c' → post v (.on c')) :
    (Grammar.key p ctx allowsPrivate).Proceeds c post := by
  simp only [Grammar.key, proceeds_bind, proceeds_look, meets_on, proceeds_ite]
  refine ⟨fun _ => anyName fun id c' hid => h _ _ (.part hid rfl), fun _ => ?_⟩
  split
  case h_4 hkind =>
    simp only [proceeds_ite, proceeds_unexpected, implies_true, and_true]
    exact fun _ u hu => finishPrivateName hkind fun name c' hname => h _ _ (.part hname rfl)
  case h_5 =>
    simp only [proceeds_ite, proceeds_bind, proceeds_unexpected, implies_true, and_true]
    refine fun ht => lead (raw_of_isPunctuator ht) fun openLead c₁ h₁ => ?_
    refine hp.ofAssignment fun inner c₂ h₂ => expect fun closeLead c₃ h₃ => ?_
    exact h _ _ (.part (h₁.seq (h₂.seq h₃)) rfl)
  all_goals exact literal fun lit c' hlit => h _ _ (.part hlit rfl)

@[simp]
theorem isModifier {forbidsNewline : Bool} {post : Bool → Outlook source → Prop}
    (h : ∀ b, post b (.on c)) : (Grammar.isModifier forbidsNewline).Proceeds c post :=
  fun _ => h _

/-! ## Bindings -/

section

variable {fault : Fault} {post : Pattern → Outlook source → Prop}

theorem withDefault (hp : p.Proceeds source) {target : Pattern} (ht : c₀.Builds target c)
    (h : ∀ v c', c₀.Builds v c' → post v (.on c')) :
    (Grammar.withDefault p ctx c₀.ahead.start target).Proceeds c post := by
  refine accept (h _ _ ht) fun eqLead c₁ h₁ => ?_
  refine hp.ofAssignment fun value c₂ h₂ => finish (ht.seq (h₁.seq h₂)) rfl (by decide)
    fun span c' hr => ?_
  exact h _ _ (.part hr rfl)

theorem bindingElement (hp : p.Proceeds source) (h : ∀ v c', c.Builds v c' → post v (.on c')) :
    (Grammar.bindingElement p fault ctx).Proceeds c post :=
  hp.ofBinding fun _ _ htarget => withDefault hp htarget h

theorem bindingRest (hp : p.Proceeds source) {close : String} {misplaced : Fault}
    (h : ∀ v c', c.Builds v c' → post v (.on c')) :
    (Grammar.bindingRest p fault ctx close misplaced).Proceeds c post := by
  simp only [Grammar.bindingRest, proceeds_bind, proceeds_here, meets_on]
  refine expect fun dotsLead c₁ h₁ => hp.ofBinding fun target c₂ h₂ => ?_
  simp only [meets_on, proceeds_bind, proceeds_look, proceeds_ite, proceeds_reject, implies_true,
    true_and]
  exact fun _ _ => finish (h₁.seq h₂) rfl (by decide) fun span c' hr => h _ _ (.part hr rfl)

theorem arrayBindingRound (hp : p.Proceeds source) (c : Course source) :
    (Grammar.arrayBindingRound p fault ctx).Yields c
      (RoundPasses (fun v c c' => c.Builds v c') c) := by
  refine Yields.of_rule fun post h => ?_
  simp only [Grammar.arrayBindingRound, proceeds_bind, proceeds_sees, meets_on, proceeds_ite]
  refine ⟨fun _ => separator fun comma c' hcomma => h (.hole .absent comma) _
    ⟨c, .part .blank rfl, hcomma⟩, fun _ => ⟨fun _ => ?_, fun _ => ?_⟩⟩
  · exact bindingRest hp fun v c' hv => h (.last (.present v)) _ (.part hv rfl)
  · exact bindingElement hp fun v c' hv => h (.item (.present v)) _ (.part hv rfl)

theorem arrayBinding (hp : p.Proceeds source) (h : ∀ v c', c.Builds v c' → post v (.on c')) :
    (Grammar.arrayBinding p fault ctx).Proceeds c post := by
  refine expect fun openLead c₁ h₁ => listed (arrayBindingRound hp) fun vs commas c₂ h₂ => ?_
  refine expect fun closeLead c₃ h₃ => finish (h₁.seq (h₂.builds.seq h₃)) rfl (by decide) ?_
  exact fun span c' hr => h _ _ (.part hr rfl)

/-- A property of an object pattern is laid out as it was read. -/
theorem bindingProperty (hp : p.Proceeds source)
    {post : Tree .patternMember → Outlook source → Prop}
    (h : ∀ v c', c.Builds v c' → post v (.on c')) :
    (Grammar.bindingProperty p fault ctx).Proceeds c post := by
  have hlong : (Grammar.key p ctx false).Proceeds c fun name o =>
      (Parse.expect ctx ":").Meets (courses source) o fun colonLead o =>
        (Grammar.bindingElement p fault ctx).Meets (courses source) o fun value o =>
          (Parse.finish .property c.ahead.start).Meets (courses source) o fun span o =>
            post (.patternProperty name value false colonLead span) o :=
    key hp fun name c₁ h₁ => expect fun colonLead c₂ h₂ => bindingElement hp fun value c₃ h₃ =>
      finish (h₁.seq (h₂.seq h₃)) rfl (by decide) fun span c' hr => h _ _ (.part hr rfl)
  simp only [Grammar.bindingProperty, proceeds_bind, proceeds_here, proceeds_look, meets_on,
    proceeds_ite, proceeds_peek, proceeds_pure]
  refine ⟨fun _ _ => ⟨fun _ => ?_, fun _ => hlong⟩, fun _ =>
    ⟨fun h => absurd h Bool.false_ne_true, fun _ => hlong⟩⟩
  refine bindingName fun id c₁ h₁ => withDefault hp (.part h₁ rfl) fun value c₂ h₂ => ?_
  exact finish (h₂.shorthandBare rfl) rfl (by decide) fun span c' hr => h _ _ (.part hr rfl)

theorem bindingMemberRest {post : Tree .patternMember → Outlook source → Prop}
    (h : ∀ v c', c.Builds v c' → post v (.on c')) :
    (Grammar.bindingMemberRest fault ctx).Proceeds c post := by
  simp only [Grammar.bindingMemberRest, proceeds_bind, proceeds_here, meets_on]
  refine expect fun dotsLead c₁ h₁ => bindingName fun id c₂ h₂ => ?_
  simp only [meets_on, proceeds_bind, proceeds_look, proceeds_ite, proceeds_reject, implies_true,
    true_and]
  have hname : c₁.Builds (.namePattern id) c₂ := .part h₂ rfl
  exact fun _ => finish (h₁.seq hname) rfl (by decide) fun span c' hr => h _ _ (.part hr rfl)

theorem objectBindingRound (hp : p.Proceeds source) (c : Course source) :
    (Grammar.objectBindingRound p fault ctx).Yields c
      (RoundPasses (fun v c c' => c.Builds v c') c) := by
  refine Yields.of_rule fun post h => ?_
  simp only [Grammar.objectBindingRound, proceeds_bind, proceeds_sees, meets_on, proceeds_ite]
  refine ⟨fun _ => bindingMemberRest fun v c' hv => h (.last v) _ hv, fun _ => ?_⟩
  exact bindingProperty hp fun v c' hv => h (.item v) _ hv

theorem objectBinding (hp : p.Proceeds source) (h : ∀ v c', c.Builds v c' → post v (.on c')) :
    (Grammar.objectBinding p fault ctx).Proceeds c post := by
  refine expect fun openLead c₁ h₁ => listed (objectBindingRound hp) fun vs commas c₂ h₂ => ?_
  refine expect fun closeLead c₃ h₃ => finish (h₁.seq (h₂.builds.seq h₃)) rfl (by decide) ?_
  exact fun span c' hr => h _ _ (.part hr rfl)

theorem binding (hp : p.Proceeds source) (h : ∀ v c', c.Builds v c' → post v (.on c')) :
    (Grammar.binding p fault ctx).Proceeds c post := by
  simp only [Grammar.binding, proceeds_bind, proceeds_sees, meets_on, proceeds_ite]
  refine ⟨fun _ => arrayBinding hp h, fun _ => ⟨fun _ => objectBinding hp h, fun _ => ?_⟩⟩
  exact bindingName fun id c' hid => h _ _ (.part hid rfl)

end

/-! ## Functions -/

@[simp]
theorem checkParameters {strict unique : Bool} {site : Site} {params : List Pattern}
    {post : Unit → Outlook source → Prop} (h : post () (.on c)) :
    (Grammar.checkParameters strict unique site params).Proceeds c post := by
  unfold Grammar.checkParameters
  generalize [] = seen
  induction params.flatMap (·.boundNames) generalizing seen with
  | nil => exact h
  | cons id ids ih => simp [Grammar.checkParameterNames, ih]

/-- Each directive is laid out as it was read. -/
theorem prologueFrom (hp : p.Proceeds source) {octal : Option Token} {rounds : Nat}
    {post : List Stmt × Bool → Outlook source → Prop}
    (h : ∀ r c', c.Builds (.ofList r.1) c' → post r (.on c')) :
    (Grammar.prologueFrom p ctx octal rounds).Proceeds c post := by
  induction rounds generalizing c ctx octal post with
  | zero => trivial
  | succ rounds ih =>
    simp only [Grammar.prologueFrom, proceeds_bind, proceeds_look, meets_on, proceeds_ite,
      proceeds_pure]
    refine ⟨fun _ => h _ _ (.part .blank rfl), fun _ => hp.ofExpression fun value c₁ h₁ =>
      terminator fun ending c₂ h₂ => ?_⟩
    simp only [meets_on, proceeds_ite, proceeds_bind]
    refine ⟨fun _ => finish (h₁.seq h₂) rfl (by decide) fun span c₃ h₃ => ?_, fun _ => ?_⟩
    · have hstmt : c.Builds (.exprStmt value none ending span) c₃ := .part h₃ rfl
      exact h _ _ (.part (hstmt.seq (.part .blank rfl)) rfl)
    · -- A directive is kept in front of what follows, whatever was found to be octal.
      have hrest : ∀ {ctx octal}, (Parse.finish .directive c.ahead.start).Proceeds c₂ fun span o =>
          (Grammar.prologueFrom p ctx octal rounds).Meets (courses source) o fun r o =>
            post (.exprStmt value (some (Grammar.directiveText c.ahead)) ending span :: r.1,
              r.2) o := by
        refine finish (h₁.seq h₂) rfl (by decide) fun span c₃ h₃ => ih fun r c' hr => h _ _ ?_
        have hstmt : c.Builds
          (.exprStmt value (some (Grammar.directiveText c.ahead)) ending span) c₃ :=
          .part h₃ rfl
        exact .part (hstmt.seq hr) rfl
      refine ⟨fun _ => ?_, fun _ => hrest⟩
      cases octal with
      | none => exact hrest
      | some first => exact hrest

theorem items (hp : p.Proceeds source) {post : List Stmt → Outlook source → Prop}
    (h : ∀ vs c', c.Builds (.ofList vs) c' → post vs (.on c')) :
    (Grammar.items p ctx).Proceeds c post := many (hp.item ctx) h

theorem functionBody (hp : p.Proceeds source) {post : Tree .body × Bool → Outlook source → Prop}
    (h : ∀ r c', c.Builds r.1 c' → post r (.on c')) :
    (Grammar.functionBody p ctx).Proceeds c post := by
  refine expect fun openLead c₁ h₁ => prologueFrom hp fun first c₂ h₂ =>
    items hp fun rest c₃ h₃ => ?_
  refine expect fun closeLead c₄ h₄ => ?_
  refine finish (h₁.seq ((h₂.append_ofList h₃).seq h₄)) rfl (by decide) fun span c' hr =>
    h _ _ (.part hr rfl)

/-! ### Parameters -/

theorem parameterRound (hp : p.Proceeds source) (c : Course source) :
    (Grammar.parameterRound p ctx).Yields c (RoundPasses (fun v c c' => c.Builds v c') c) := by
  refine Yields.of_rule fun post h => ?_
  simp only [Grammar.parameterRound, proceeds_bind, proceeds_sees, meets_on, proceeds_ite]
  refine ⟨fun _ => bindingRest hp fun v c' hv => h (.last v) _ hv, fun _ => ?_⟩
  exact bindingElement hp fun v c' hv => h (.item v) _ hv

theorem parameterList (hp : p.Proceeds source) {post : Tree .params → Outlook source → Prop}
    (h : ∀ v c', c.Builds v c' → post v (.on c')) :
    (Grammar.parameterList p ctx).Proceeds c post := by
  refine expect fun openLead c₁ h₁ => listed (parameterRound hp) fun vs commas c₂ h₂ => ?_
  exact expect fun closeLead c₃ h₃ => h _ _ (.part (h₁.seq (h₂.builds.seq h₃)) rfl)

@[simp]
theorem checkFunctionName {site : Site} {name : Option Ident} {post : Unit → Outlook source → Prop}
    (h : post () (.on c)) : (Grammar.checkFunctionName site name).Proceeds c post := by
  cases name <;> simp [Grammar.checkFunctionName, h]

/-- Parameters and body are laid out as they were read. -/
theorem paramsAndBody (hp : p.Proceeds source) {isAsync isGenerator unique : Bool}
    {name : Option Ident} {site : Site} {post : Tree .params × Tree .body → Outlook source → Prop}
    (h : ∀ r c', c.Passes (.seq (.part .standalone r.1) (.part .standalone r.2)) c' →
      post r (.on c')) :
    (Grammar.paramsAndBody p ctx isAsync isGenerator name site unique).Proceeds c post := by
  simp only [Grammar.paramsAndBody, proceeds_bind, proceeds_pending, meets_on, proceeds_setPending]
  refine fun before => parameterList hp fun params c₁ h₁ => functionBody hp fun r c₂ h₂ => ?_
  have hrest : ∀ {strict unique : Bool},
      (Grammar.checkParameters strict unique site params.parameters).Proceeds c₂ fun _ o =>
        (setPending before).Meets (courses source) o fun _ o => post (params, r.1) o :=
    checkParameters (h _ _ (h₁.seq h₂))
  simp only [meets_on, proceeds_bind, proceeds_ite, proceeds_reject, implies_true, true_and]
  exact fun _ => ⟨fun _ => checkFunctionName hrest, fun _ => hrest⟩

/-! ### Functions -/

theorem functionName {isDeclaration nameOptional isAsync isGenerator : Bool}
    {post : Option Ident → Outlook source → Prop}
    (h : ∀ name c', c.Passes (nameLayout name) c' → post name (.on c')) :
    (Grammar.functionName ctx isDeclaration nameOptional isAsync isGenerator).Proceeds c post := by
  simp only [Grammar.functionName, proceeds_bind, proceeds_look, meets_on, proceeds_ite,
    proceeds_unexpectedHere, implies_true, proceeds_pure, true_and]
  exact ⟨fun _ => bindingName fun id c' hid => h (some id) _ hid, fun _ _ => h none _ .blank⟩

/-- A function is laid out as it was read. -/
theorem function (hp : p.Proceeds source) {isDeclaration nameOptional : Bool}
    {post : Tree .function → Outlook source → Prop} (h : ∀ v c', c.Builds v c' → post v (.on c')) :
    (Grammar.function p ctx isDeclaration nameOptional).Proceeds c post := by
  have hrest : ∀ {asyncLead : Option String} {c₁ : Course source},
      c.Passes (.onlyIf asyncLead.isSome (asyncLead.getD "" ++ "async")) c₁ →
      (Parse.expectKeyword ctx "function").Proceeds c₁ fun keywordLead o =>
        (Parse.accept "*").Meets (courses source) o fun starLead o =>
          look.Meets (courses source) o fun t o =>
            (Grammar.functionName ctx isDeclaration nameOptional asyncLead.isSome
              starLead.isSome).Meets (courses source) o fun name o =>
              (Grammar.paramsAndBody p ctx asyncLead.isSome starLead.isSome name t.site
                false).Meets (courses source) o fun r o =>
                (Parse.finish (if isDeclaration then .functionDecl else .functionExpr)
                  c.ahead.start).Meets (courses source) o fun span o => post (.function
                    { isAsync := asyncLead.isSome, asyncLead := asyncLead.getD "", keywordLead
                      isGenerator := starLead.isSome, starLead := starLead.getD "", name }
                    r.1 r.2 span) o := by
    intro asyncLead c₁ h₁
    refine expectKeyword fun keywordLead c₂ h₂ => acceptMark fun starLead c₃ h₃ => ?_
    rw [Layout.mark_eq_onlyIf] at h₃
    refine functionName fun name c₄ h₄ => paramsAndBody hp fun r c₅ h₅ => ?_
    have hhead := h₁.seq (h₂.seq (h₃.seq h₄))
    refine finish (hhead.seq h₅) ?_ ?_ fun span c' hr => h _ _ (.part hr rfl)
    · simp [Layout.isSolid]
    · cases isDeclaration <;> decide
  simp only [Grammar.function, proceeds_bind, proceeds_here, proceeds_seesWord, meets_on,
    proceeds_ite, proceeds_map, proceeds_pure]
  refine ⟨fun ht => lead (raw_of_isWord ht) fun asyncLead c₁ h₁ => ?_, fun _ => ?_⟩
  · exact hrest h₁
  · exact hrest .blank

theorem functionDeclaration (hp : p.Proceeds source) {post : Stmt → Outlook source → Prop}
    (h : ∀ v c', c.Builds v c' → post v (.on c')) :
    (Grammar.functionDeclaration p ctx).Proceeds c post :=
  function hp fun _ _ hf => h _ _ (.part hf rfl)

theorem functionExpression (hp : p.Proceeds source) {post : Expr → Outlook source → Prop}
    (h : ∀ v c', c.Builds v c' → post v (.on c')) :
    (Grammar.functionExpression p ctx).Proceeds c post :=
  function hp fun _ _ hf => h _ _ (.part hf rfl)

@[simp]
theorem checkAccessor {kind : PropertyKind} {site : Site} {params : List Pattern}
    {post : Unit → Outlook source → Prop} (h : post () (.on c)) :
    (Grammar.checkAccessor kind site params).Proceeds c post := by
  unfold Grammar.checkAccessor
  split <;> simp [h]

theorem methodFunction (hp : p.Proceeds source) {isAsync isGenerator : Bool} {kind : PropertyKind}
    {post : Tree .function → Outlook source → Prop}
    (h : ∀ v c', c.Passes (.part .method v) c' → post v (.on c')) :
    (Grammar.methodFunction p ctx isAsync isGenerator kind).Proceeds c post := by
  refine paramsAndBody hp fun r c₁ h₁ => checkAccessor ?_
  have hhead : c.Passes (.hidden (nameLayout none)) c := .hidden .blank
  exact finish (hhead.seq h₁) rfl (by decide) fun span c' hr => h _ _ (.part hr rfl)

end Parse.Proceeds

end Verbatim
