import Verbatim.Proofs.Static.Basic

/-!
# Literals, bindings, functions, classes and markup

What these productions read obeys the rules. A function is read before it is known whether a
directive makes its code strict; its name and its parameters are checked once more behind it, and so
are the literals in front of the directive.

## Main definitions

* `Verbatim.Productions.Reads` — what is known of the productions that others call.
* `Verbatim.Tree.Bound` — patterns whose names the code may bind.
-/

namespace Verbatim

open Verbatim.Grammar

/-! ## The productions that others call -/

/-- A pattern that obeys the rules, and whose names the code may bind. -/
structure Tree.Bound (clean : Bool) (ctx : Context) {c : Category} (p : Tree c) : Prop where
  /-- The pattern obeys the rules. -/
  fits : p.Fits clean ctx
  /-- The code may bind its names. -/
  mayBind : clean = true → ctx.MayBind p.names

namespace Tree.Bound

variable {clean : Bool} {ctx : Context} {c : Category}

theorem namePattern {id : Ident} (h : clean = true → ctx.MayBind [id.name]) :
    (Tree.namePattern id).Bound clean ctx := ⟨.leaf trivial rfl, h⟩

theorem absent : (Tree.absent : Tree (.maybe c)).Bound clean ctx := ⟨.absent, fun _ => .nil⟩

theorem present {p : Tree c} (h : p.Bound clean ctx) : (Tree.present p).Bound clean ctx :=
  ⟨.present h.fits, h.mayBind⟩

/-- Patterns in a list. -/
theorem ofList {items : List (Tree c)} (h : ∀ p ∈ items, p.Bound clean ctx) :
    (Tree.ofList items).Bound clean ctx := by
  induction items with
  | nil => exact ⟨.nil, fun _ => .nil⟩
  | cons head tail ih =>
    obtain ⟨hhead, htail⟩ := List.forall_mem_cons.1 h
    refine ⟨.cons hhead.fits (ih htail).fits, fun hc => ?_⟩
    have hnames : (Tree.ofList (head :: tail)).names = head.names ++ (Tree.ofList tail).names :=
      List.map_append
    rw [hnames]
    exact (hhead.mayBind hc).append ((ih htail).mayBind hc)

end Tree.Bound

/-- Whether an operation with one operand begins at a token: an operator, or the word that waits for
a value. -/
def Context.startsPrefix (ctx : Context) (t : Token) : Bool :=
  (unaryOp? t).isSome || isAwait ctx t

/-- No operator at a token binds at least as tightly as the given precedence. -/
def Context.StopsAt (ctx : Context) (least : Nat) (t : Token) : Prop :=
  ∀ op ∈ binaryOp? ctx t, op.precedence < least

/-- An operand that obeys the rules and has no operator of its own outside parentheses. -/
structure Tree.Whole (clean : Bool) (ctx : Context) (e : Expr) : Prop where
  /-- The operand obeys the rules. -/
  fits : e.Fits clean ctx
  /-- It binds more tightly than any operator. -/
  binds : 14 ≤ e.tightness

/-- A statement that obeys the rules and does not make code strict. -/
structure Tree.Stands (clean : Bool) (ctx : Context) (stmt : Stmt) : Prop where
  /-- The statement obeys the rules. -/
  fits : stmt.Fits clean ctx
  /-- It is not the directive that makes code strict. -/
  plain : stmt.isUseStrict = false

/-- What is known of markup. -/
def Markup.Fits (clean : Bool) (ctx : Context) : Markup → Prop
  | .element e => Tree.Fits clean ctx e
  | .fragment f => Tree.Fits clean ctx f

/-- What is known of the productions that others call. -/
structure Productions.Reads (clean : Bool) (p : Productions) : Prop where
  expression : ∀ ctx t, (p.expression ctx).Reads clean (.code t) (InCode (Tree.Fits clean ctx))
  assignment : ∀ ctx t, (p.assignment ctx).Reads clean (.code t) (InCode (Tree.Fits clean ctx))
  cover : ∀ ctx t, (p.cover ctx).Reads clean (.code t) (InCode (Tree.Fits clean ctx))
  /-- An operand binds at least as tightly as is asked for, and no such operator follows it. -/
  binary : ∀ least ctx t, least ≤ 12 → (p.binary least ctx).Reads clean (.code t) fun v s =>
    InCode (fun v => v.Fits clean ctx ∧ least ≤ v.tightness ∧ 1 ≤ v.tightness) v s ∧
      ctx.StopsAt least s.token
  exponentiation : ∀ ctx t, (p.exponentiation ctx).Reads clean (.code t)
    (InCode fun v => v.Fits clean ctx ∧ 12 ≤ v.tightness)
  /-- Only behind an operator is there an operation. -/
  unary : ∀ ctx t, (p.unary ctx).Reads clean (.code t) (InCode fun v =>
    v.Fits clean ctx ∧ 13 ≤ v.tightness ∧ (v.tightness = 13 → ctx.startsPrefix t.token = true))
  chain : ∀ ctx t, (p.chain ctx).Reads clean (.code t) (InCode (Tree.Whole clean ctx))
  callee : ∀ ctx t, (p.callee ctx).Reads clean (.code t) (InCode (Tree.Whole clean ctx))
  binding : ∀ fault ctx t, (p.binding fault ctx).Reads clean (.code t)
    (InCode (Tree.Bound clean ctx))
  /-- Directives stand in front of all other statements. -/
  statement : ∀ ctx t, (p.statement ctx).Reads clean (.code t) (InCode (Tree.Stands clean ctx))
  item : ∀ ctx t, (p.item ctx).Reads clean (.code t) (InCode (Tree.Stands clean ctx))
  markup : ∀ start lead after ctx t, (p.markup start lead after ctx).Reads clean (.markup t .tag)
    fun v s => v.Fits clean ctx ∧ after.Ends s

namespace Productions.Reads

variable {p : Productions} {clean : Bool} {ctx : Context} {t : CodeToken}

section

variable {post : Expr → Ahead → Prop}

theorem ofExpression (hp : p.Reads clean) (h : ∀ v u, v.Fits clean ctx → post v (.code u)) :
    (p.expression ctx).Reads clean (.code t) post := (hp.expression ctx t).into h

theorem ofAssignment (hp : p.Reads clean) (h : ∀ v u, v.Fits clean ctx → post v (.code u)) :
    (p.assignment ctx).Reads clean (.code t) post := (hp.assignment ctx t).into h

theorem ofCover (hp : p.Reads clean) (h : ∀ v u, v.Fits clean ctx → post v (.code u)) :
    (p.cover ctx).Reads clean (.code t) post := (hp.cover ctx t).into h

theorem ofChain (hp : p.Reads clean) (h : ∀ v u, v.Fits clean ctx → post v (.code u)) :
    (p.chain ctx).Reads clean (.code t) post :=
  (hp.chain ctx t).into fun v u hv => h v u hv.fits

end

theorem ofBinding {fault : Fault} {post : Pattern → Ahead → Prop} (hp : p.Reads clean)
    (h : ∀ v u, v.Bound clean ctx → post v (.code u)) :
    (p.binding fault ctx).Reads clean (.code t) post := (hp.binding fault ctx t).into h

section

variable {post : Stmt → Ahead → Prop}

theorem ofStatement (hp : p.Reads clean) (h : ∀ v u, v.Fits clean ctx → post v (.code u)) :
    (p.statement ctx).Reads clean (.code t) post :=
  (hp.statement ctx t).into fun v u hv => h v u hv.fits

theorem ofItem (hp : p.Reads clean) (h : ∀ v u, v.Stands clean ctx → post v (.code u)) :
    (p.item ctx).Reads clean (.code t) post := (hp.item ctx t).into h

end

theorem ofMarkup {start : Position} {lead : String} {after : Mode} {t : Token}
    {post : Markup → Ahead → Prop} (hp : p.Reads clean)
    (hElement : ∀ e, Tree.Fits clean ctx e → after.Scans (post (.element e)))
    (hFragment : ∀ f, Tree.Fits clean ctx f → after.Scans (post (.fragment f))) :
    (p.markup start lead after ctx).Reads clean (.markup t .tag) post := by
  refine (hp.markup start lead after ctx t).imp fun v s hv => ?_
  cases v with
  | element e => exact Mode.scans_iff.1 (hElement e hv.1) s hv.2
  | fragment f => exact Mode.scans_iff.1 (hFragment f hv.1) s hv.2

end Productions.Reads

namespace Parse.Reads

variable {p : Productions} {clean : Bool} {ctx : Context} {s : Ahead} {t : CodeToken}

/-! ## Literals, names and keys -/

/-- What a token without the mark means has no octal spelling. -/
theorem literalValue {post : Value → Ahead → Prop}
    (h : ∀ v, (t.token.octal = false → ∀ lit : Literal, lit.value = v → lit.raw = t.token.raw →
      lit.isLegacyOctal = false) → post v s) :
    (Grammar.literalValue ctx t.token).Reads clean s post := by
  unfold Grammar.literalValue
  split
  case h_1 hkind _ =>
    refine h _ fun ho lit hv hraw => ?_
    simpa only [Literal.isLegacyOctal, hv, hraw] using t.plain.number (.inl hkind) ho
  case h_2 hkind _ =>
    split
    · refine h _ fun ho lit hv hraw => ?_
      simpa only [Literal.isLegacyOctal, hv, hraw] using t.plain.number (.inr hkind) ho
    · trivial
  case h_3 hkind =>
    refine h _ fun ho lit hv hraw => ?_
    simpa only [Literal.isLegacyOctal, hv, hraw] using t.plain.string hkind ho
  case h_7 => trivial
  all_goals exact h _ fun _ lit hv _ => by simp only [Literal.isLegacyOctal, hv]

theorem literal {post : Literal → Ahead → Prop}
    (h : ∀ lit u, (clean = true → ctx.MaySpell [lit]) → post lit (.code u)) :
    (Grammar.literal ctx).Reads clean (.code t) post := by
  refine fun u => ite_tolerate fun hoctal => literalValue fun v hv => finish fun span => h _ u ?_
  refine fun hc hs => List.forall_mem_singleton.2 (hv ?_ _ rfl rfl)
  exact Bool.eq_false_iff.2 fun ho => hoctal hc (Bool.and_eq_true_iff.2 ⟨ho, hs⟩)

/-- Literals in tags have no escapes. -/
theorem tagLiteral {u : Token} {mode : Mode} {post : Literal → Ahead → Prop}
    (h : ∀ lit, mode.Scans (post lit)) :
    (Grammar.literal ctx).Reads clean (.markup u mode) post := by
  have hvalue : ∀ {s : Ahead} {post : Value → Ahead → Prop}, (∀ v, post v s) →
      (Grammar.literalValue ctx u).Reads clean s post := by
    intro s post h
    unfold Grammar.literalValue
    split
    case h_2 => split <;> simp [h]
    all_goals simp [h]
  refine Mode.scans_iff.2 fun s hs => ite_tolerate fun _ => hvalue fun _ => finish fun _ => ?_
  exact Mode.scans_iff.1 (h _) s hs

theorem checkOperatorWord {u : Token} {post : Unit → Ahead → Prop} (h : post () s) :
    (Grammar.checkOperatorWord ctx u).Reads clean s post := by
  simp [Grammar.checkOperatorWord, h]

theorem checkReference {u : Token} {post : Unit → Ahead → Prop} (h : post () s) :
    (Grammar.checkReference ctx u).Reads clean s post := by
  exact checkOperatorWord (reads_ite.mpr ⟨fun _ _ => h, fun _ => h⟩)

/-- Strict code may bind a name that is read. -/
theorem bindingName {fault : Fault} {post : Ident → Ahead → Prop}
    (h : ∀ id u, (clean = true → ctx.MayBind [id.name]) → post id (.code u)) :
    (Grammar.bindingName fault ctx).Reads clean (.code t) post := by
  have hname : ∀ u, (clean = true → ctx.MayBind [t.token.text]) →
      (Parse.finishName t.token).Reads clean (.code u) post :=
    fun u hname => finishName fun id hid => h id u (hid ▸ hname)
  simp only [Grammar.bindingName, reads_bind, reads_look, reads_ite,
    reads_unexpectedHere, reads_next,
    reads_tolerate, implies_true, true_and]
  refine fun _ u => checkOperatorWord ⟨fun _ => ⟨fun _ hc => hname u (unclean hc), fun hreserved =>
    ⟨fun _ hc => hname u (unclean hc), fun hrestricted => hname u fun _ _ => ?_⟩⟩,
      fun hsloppy => ?_⟩
  · exact List.forall_mem_singleton.2
      ⟨Bool.eq_false_iff.2 hrestricted, Bool.eq_false_iff.2 hreserved⟩
  · exact hname u fun _ hs => absurd hs hsloppy

theorem templatePiece {tagged : Bool} {post : Quasi → Ahead → Prop}
    (h : ∀ v u, post v (.code u)) : (Grammar.templatePiece ctx tagged).Reads clean
    (.code t) post := by
  simp only [Grammar.templatePiece, reads_bind, reads_look, reads_ite,
    reads_unexpectedHere, reads_next,
    implies_true, true_and]
  intro _ u
  split <;> simp [h]

theorem templateParts (hp : p.Reads clean) {tagged : Bool} {rounds : Nat}
    {post : List Quasi × List Expr → Ahead → Prop}
    (h : ∀ r u, (∀ v ∈ r.2, v.Fits clean ctx) → post r (.code u)) :
    (Grammar.templateParts p ctx tagged rounds).Reads clean (.code t) post := by
  induction rounds generalizing t post with
  | zero => trivial
  | succ rounds ih =>
    simp only [Grammar.templateParts, reads_bind, reads_ite, reads_pure]
    refine templatePiece fun piece u => ⟨fun _ => h _ u (List.forall_mem_nil _), fun _ => ?_⟩
    refine hp.ofExpression fun value u hvalue => ih fun r u hr => h _ u ?_
    exact List.forall_mem_cons.2 ⟨hvalue, hr⟩

theorem template (hp : p.Reads clean) {tagged : Bool} {post : Tree .template → Ahead → Prop}
    (h : ∀ v u, v.Fits clean ctx → post v (.code u)) :
    (Grammar.template p ctx tagged).Reads clean (.code t) post :=
  templateParts hp fun _ u hr => finish fun _ => h _ u (.one (.ofList hr) trivial rfl)

/-- A key obeys the rules. -/
theorem key (hp : p.Reads clean) {allowsPrivate : Bool} {post : Tree .key → Ahead → Prop}
    (h : ∀ v u, v.Fits clean ctx → post v (.code u)) :
    (Grammar.key p ctx allowsPrivate).Reads clean (.code t) post := by
  have hliteral : (Grammar.literal ctx).Reads clean (.code t) fun lit s =>
    post (.literalKey lit) s :=
    literal fun lit u hlit => h _ u (.leaf hlit rfl)
  simp only [Grammar.key, reads_bind, reads_look, reads_ite, reads_pure, Ahead.token_code]
  refine ⟨fun _ => anyName fun _ u => h _ u (.leaf trivial rfl), fun _ => ?_⟩
  split
  case h_4 =>
    refine reads_ite.mpr ⟨fun _ u => finishPrivateName fun _ => h _ u (.leaf trivial rfl),
      fun _ => trivial⟩
  case h_5 =>
    refine reads_ite.mpr ⟨fun _ u => ?_, fun _ => trivial⟩
    exact hp.ofAssignment fun inner _ hinner => expect fun _ u => h _ u (.one hinner trivial rfl)
  all_goals exact hliteral

theorem isModifier {forbidsNewline : Bool} {post : Bool → Ahead → Prop} (h : ∀ b, post b s) :
    (Grammar.isModifier forbidsNewline).Reads clean s post := by
  simp [Grammar.isModifier, h]

/-! ## Bindings -/

section

variable {fault : Fault} {post : Pattern → Ahead → Prop}

theorem withDefault (hp : p.Reads clean) {start : Position} {target : Pattern}
    (ht : target.Bound clean ctx) (h : ∀ v u, v.Bound clean ctx → post v (.code u)) :
    (Grammar.withDefault p ctx start target).Reads clean (.code t) post := by
  refine accept fun eqLead u => ?_
  cases eqLead with
  | none => exact h _ u ht
  | some eqLead =>
    exact hp.ofAssignment fun value u hvalue => finish fun _ =>
      h _ u ⟨.two ht.fits hvalue trivial rfl, ht.mayBind⟩

theorem bindingElement (hp : p.Reads clean) (h : ∀ v u, v.Bound clean ctx → post v (.code u)) :
    (Grammar.bindingElement p fault ctx).Reads clean (.code t) post :=
  hp.ofBinding fun _ _ htarget => withDefault hp htarget h

theorem bindingRest (hp : p.Reads clean) {close : String} {misplaced : Fault}
    (h : ∀ v u, v.Bound clean ctx → post v (.code u)) :
    (Grammar.bindingRest p fault ctx close misplaced).Reads clean (.code t) post := by
  refine expect fun _ _ => hp.ofBinding fun target u htarget => ite_reject fun _ => ?_
  exact ite_reject fun _ => finish fun _ => h _ u ⟨.one htarget.fits trivial rfl, htarget.mayBind⟩

theorem arrayBindingRound (hp : p.Reads clean) :
    (Grammar.arrayBindingRound p fault ctx).Reads clean (.code t)
      (InCode (·.All (Tree.Bound clean ctx))) := by
  simp only [Grammar.arrayBindingRound, reads_bind, reads_sees, reads_ite, reads_pure]
  refine ⟨fun _ => separator fun _ u => .intro .absent, fun _ => ⟨fun _ => ?_, fun _ => ?_⟩⟩
  · exact bindingRest hp fun _ u hv => .intro hv.present
  · exact bindingElement hp fun _ u hv => .intro hv.present

theorem arrayBinding (hp : p.Reads clean) (h : ∀ v u, v.Bound clean ctx → post v (.code u)) :
    (Grammar.arrayBinding p fault ctx).Reads clean (.code t) post := by
  refine expect fun _ _ => listed (fun _ => arrayBindingRound hp) fun r _ hr => expect fun _ u =>
    finish fun _ => h _ u ?_
  exact ⟨.one (Tree.Bound.ofList hr).fits trivial rfl, (Tree.Bound.ofList hr).mayBind⟩

/-- A property of an object pattern binds names that may be bound there. -/
theorem bindingProperty (hp : p.Reads clean) {post : Tree .patternMember → Ahead → Prop}
    (h : ∀ v u, v.Bound clean ctx → post v (.code u)) :
    (Grammar.bindingProperty p fault ctx).Reads clean (.code t) post := by
  have hshort : ∀ start : Position, (Grammar.bindingName fault ctx).Reads clean (.code t)
      fun id s => (Grammar.withDefault p ctx start (.namePattern id)).Reads clean s fun value s =>
        (Parse.finish .property start).Reads clean s fun span s =>
          post (.patternProperty (.nameKey id.bare) value true "" span) s :=
    fun _ => bindingName fun id _ hid => withDefault hp (.namePattern hid) fun _ u hv =>
      have hkey : (Tree.nameKey id.bare).Fits clean ctx := .leaf trivial rfl
      finish fun _ => h _ u ⟨.two hkey hv.fits trivial rfl, hv.mayBind⟩
  have hlong : ∀ start : Position, (Grammar.key p ctx false).Reads clean (.code t) fun name s =>
      (Parse.expect ctx ":").Reads clean s fun colonLead s =>
        (Grammar.bindingElement p fault ctx).Reads clean s fun value s =>
          (Parse.finish .property start).Reads clean s fun span s =>
            post (.patternProperty name value false colonLead span) s :=
    fun _ => key hp fun _ _ hk => expect fun _ _ => bindingElement hp fun _ u hv =>
      finish fun _ => h _ u ⟨.two hk hv.fits trivial rfl, hv.mayBind⟩
  simp only [Grammar.bindingProperty, reads_bind, reads_here, reads_look, reads_ite, reads_peek,
    reads_pure]
  exact ⟨fun _ _ => ⟨fun _ => hshort _, fun _ => hlong _⟩,
    fun _ => ⟨fun _ => hshort _, fun _ => hlong _⟩⟩

theorem bindingMemberRest {post : Tree .patternMember → Ahead → Prop}
    (h : ∀ v u, v.Bound clean ctx → post v (.code u)) :
    (Grammar.bindingMemberRest fault ctx).Reads clean (.code t) post := by
  refine expect fun _ _ => bindingName fun id u hid => ite_reject fun _ => finish fun _ => ?_
  exact h _ u ⟨.one (.leaf trivial rfl : (Tree.namePattern id).Fits clean ctx) trivial rfl, hid⟩

theorem objectBindingRound (hp : p.Reads clean) :
    (Grammar.objectBindingRound p fault ctx).Reads clean (.code t)
      (InCode (·.All (Tree.Bound clean ctx))) := by
  simp only [Grammar.objectBindingRound, reads_bind, reads_sees, reads_ite, reads_pure]
  refine ⟨fun _ => bindingMemberRest fun _ _ hv => .intro hv, fun _ => ?_⟩
  exact bindingProperty hp fun _ _ hv => .intro hv

theorem objectBinding (hp : p.Reads clean) (h : ∀ v u, v.Bound clean ctx → post v (.code u)) :
    (Grammar.objectBinding p fault ctx).Reads clean (.code t) post := by
  refine expect fun _ _ => listed (fun _ => objectBindingRound hp) fun r _ hr => expect fun _ u =>
    finish fun _ => h _ u ?_
  exact ⟨.one (Tree.Bound.ofList hr).fits trivial rfl, (Tree.Bound.ofList hr).mayBind⟩

theorem binding (hp : p.Reads clean) (h : ∀ v u, v.Bound clean ctx → post v (.code u)) :
    (Grammar.binding p fault ctx).Reads clean (.code t) post := by
  simp only [Grammar.binding, reads_bind, reads_sees, reads_ite]
  exact ⟨fun _ => arrayBinding hp h, fun _ => ⟨fun _ => objectBinding hp h, fun _ =>
    bindingName fun _ u hid => h _ u (.namePattern hid)⟩⟩

end

/-! ## The names of parameters -/

section

variable {strict unique : Bool} {site : Site} {post : Unit → Ahead → Prop}

/-- Behind the check of names in a clean parse, strict code may bind each, and none is repeated. -/
theorem checkParameterNames {seen : List String} {ids : List Ident}
    (h : (clean = true → strict = true → ∀ id ∈ ids, IsStrictName id.name) →
      (clean = true → (strict || unique) = true →
        (ids.map (·.name)).Nodup ∧ ∀ id ∈ ids, id.name ∉ seen) → post () s) :
    (Grammar.checkParameterNames strict unique site seen ids).Reads clean s post := by
  induction ids generalizing seen with
  | nil =>
    exact h (fun _ _ => List.forall_mem_nil _) fun _ _ => ⟨List.nodup_nil, List.forall_mem_nil _⟩
  | cons id ids ih =>
    have hrest : (clean = true → (strict || unique) = true → id.name ∉ seen) →
        (clean = true → strict = true → IsStrictName id.name) →
        (Grammar.checkParameterNames strict unique site (id.name :: seen) ids).Reads clean
        s post := by
      refine fun hseen hname => ih fun hnames hdistinct => h (fun hc hs => ?_) fun hc hu => ?_
      · exact List.forall_mem_cons.2 ⟨hname hc hs, hnames hc hs⟩
      · obtain ⟨hnodup, hfresh⟩ := hdistinct hc hu
        refine ⟨List.nodup_cons.2 ⟨fun hmem => ?_, hnodup⟩, List.forall_mem_cons.2
          ⟨hseen hc hu, fun other hother hmem => ?_⟩⟩
        · obtain ⟨other, hother, heq⟩ := List.mem_map.1 hmem
          exact hfresh other hother (heq ▸ List.mem_cons_self)
        · exact hfresh other hother (List.mem_cons_of_mem _ hmem)
    refine ite_tolerate fun hrestricted => ite_tolerate fun hreserved => ?_
    have hname : clean = true → strict = true → IsStrictName id.name := by
      refine fun hc hs => ⟨Bool.eq_false_iff.2 fun hr => ?_, Bool.eq_false_iff.2 fun hr => ?_⟩
      · exact hrestricted hc (Bool.and_eq_true_iff.2 ⟨hs, hr⟩)
      · exact hreserved hc (Bool.and_eq_true_iff.2 ⟨hs, hr⟩)
    simp only [reads_ite, reads_bind, reads_tolerate]
    refine ⟨fun _ => ⟨fun _ hc => ?_, fun hsloppy => ⟨fun _ hc => ?_, fun hplain => ?_⟩⟩,
      fun hnew => ?_⟩
    · exact hrest (unclean hc) hname
    · exact hrest (unclean hc) hname
    · refine hrest (fun _ hu => ?_) hname
      rcases Bool.or_eq_true_iff.1 hu with hs | hu
      · exact absurd hs hsloppy
      · exact absurd hu hplain
    · exact hrest (fun _ _ hmem => hnew (List.contains_iff_mem.2 hmem)) hname

/-- Behind the check of parameters they obey the rules. -/
theorem checkParameters {hasDirective : Bool} {params : List Pattern}
    (hplain : hasDirective = true → params.all (·.isName) = true)
    (h : Tree.ParametersAllowed clean strict hasDirective unique params → post () s) :
    (Grammar.checkParameters strict unique site params).Reads clean s post := by
  have hall : Tree.parameterNames params = (params.flatMap (·.boundNames)).map (·.name) :=
    List.map_flatMap.symm
  refine checkParameterNames fun hnames hdistinct => h ⟨hplain, fun hc hs => ?_, fun hc hu => ?_⟩
  · rw [hall]
    exact List.forall_mem_map.2 (hnames hc hs)
  · rw [hall]
    exact (hdistinct hc hu).1

end

end Parse.Reads

/-! ## Directives -/

/-- What is known of the statements in front of a body and whether the code behind them is strict.
`octal` says whether a directive before them has an octal spelling. -/
structure Prologue (clean : Bool) (ctx : Context) (octal : Bool) (r : List Stmt × Bool) : Prop where
  /-- The code is strict if it was so before, or by one of the directives. -/
  strict : r.2 = (ctx.strict || r.1.any (·.isUseStrict))
  /-- Strict code has strict directives, too. -/
  fits : ∀ stmt ∈ r.1, stmt.Fits clean { ctx with strict := r.2 }
  /-- No octal spelling stands in front of the directive that makes code strict. -/
  octal : clean = true → octal = true → r.1.any (·.isUseStrict) = false

/-- A string without an escape of a digit has no octal spelling. -/
theorem CodeToken.isLegacyOctal_eq_false {t : CodeToken} {lit : Literal}
    (hstring : t.token.kind = .string) (hraw : lit.raw = t.token.raw)
    (h : Text.hasDigitEscape t.token.raw.toList = false) : lit.isLegacyOctal = false := by
  obtain ⟨q, inner, hq, hquoted⟩ := t.plain.quoted hstring
  have hzero : Text.hasNeedlessZero t.token.raw.toList = false := by
    rw [hquoted]
    unfold Text.hasNeedlessZero
    split
    · rename_i heq
      obtain ⟨rfl, -⟩ := List.cons.inj heq
      rw [Bool.and_eq_false_iff]
      refine .inl (decide_eq_false ?_)
      rintro rfl
      exact absurd hq (by decide)
    · rfl
  unfold Literal.isLegacyOctal
  rw [hraw]
  split <;> first | exact hzero | exact h | rfl

/-- The directive that makes code strict has no escape. -/
theorem CodeToken.hasDigitEscape_eq_false {t : CodeToken} (hstring : t.token.kind = .string)
    (h : directiveText t.token = "use strict") :
    Text.hasDigitEscape t.token.raw.toList = false := by
  obtain ⟨q, inner, hq, hquoted⟩ := t.plain.quoted hstring
  have hinner : inner = "use strict".toList := by
    rw [← h]
    simp [directiveText, hquoted]
  rw [hquoted, hinner]
  rcases Bool.or_eq_true_iff.1 hq with hq | hq
  · rw [eq_of_beq hq]
    decide
  · rw [eq_of_beq hq]
    decide

/-- A directive obeys the rules of the code that it stands in front of. -/
theorem CodeToken.directive_fits {clean strict : Bool} {ctx : Context} {t : CodeToken}
    {value : Expr}
    {text : String} {ending : Terminator} {span : Span} (hstring : t.token.kind = .string)
    (hliteral : isLiteralOf t.token value = true) (hvalue : value.Fits clean ctx)
    (h : clean = true → strict = true → ctx.strict = false →
      Text.hasDigitEscape t.token.raw.toList = false) :
    (Tree.exprStmt value (some text) ending span).Fits clean { ctx with strict } := by
  cases value
  case literal lit =>
    have hrule : (Tree.literal lit).Fits clean { ctx with strict } := by
      refine .leaf (fun hc hs => ?_) rfl
      cases hbefore : ctx.strict with
      | true => exact hvalue.here hc hbefore
      | false =>
        refine List.forall_mem_singleton.2 ?_
        exact t.isLegacyOctal_eq_false hstring (eq_of_beq hliteral) (h hc hs hbefore)
    exact .one hrule trivial rfl
  all_goals cases hliteral

/-- Directives with the statements behind them. -/
theorem Prologue.body {clean octal : Bool} {ctx : Context} {r : List Stmt × Bool} {rest : List Stmt}
    (h : Prologue clean ctx octal r)
    (hrest : ∀ stmt ∈ rest, stmt.Stands clean { ctx with strict := r.2 }) :
    r.2 = (ctx.strict || (r.1 ++ rest).any (·.isUseStrict)) ∧ ∀ stmt ∈ r.1 ++ rest, stmt.Fits clean
      { ctx with strict := ctx.strict || (r.1 ++ rest).any (·.isUseStrict) } := by
  have hnone : rest.any (·.isUseStrict) = false :=
    List.any_eq_false.2 fun stmt hmem => Bool.eq_false_iff.1 (hrest stmt hmem).plain
  have hstrict : r.2 = (ctx.strict || (r.1 ++ rest).any (·.isUseStrict)) := by
    rw [List.any_append, hnone, Bool.or_false]
    exact h.strict
  refine ⟨hstrict, ?_⟩
  rw [← hstrict]
  exact List.forall_mem_append.2 ⟨h.fits, fun stmt hmem => (hrest stmt hmem).fits⟩

/-- One more directive in front of others. -/
theorem Prologue.cons {clean : Bool} {ctx : Context} {t : CodeToken} {value : Expr}
    {ending : Terminator} {span : Span} {octal : Option Token} {r : List Stmt × Bool}
    (h : Prologue clean { ctx with strict := ctx.strict || directiveText t.token == "use strict" }
      (if (directiveText t.token == "use strict") = true then none
        else if t.token.octal = true then octal.or (some t.token) else octal).isSome r)
    (hstring : t.token.kind = .string) (hliteral : isLiteralOf t.token value = true)
    (hvalue : value.Fits clean ctx) (hoctal : clean = true → octal.isSome = true →
      (directiveText t.token == "use strict") = false) :
    Prologue clean ctx octal.isSome
      (.exprStmt value (some (directiveText t.token)) ending span :: r.1, r.2) := by
  refine ⟨?_, List.forall_mem_cons.2 ⟨?_, h.fits⟩, fun hc ho => ?_⟩
  · rw [h.strict, List.any_cons, Bool.or_assoc]
    rfl
  · refine t.directive_fits hstring hliteral hvalue fun hc hs hbefore => ?_
    cases htext : directiveText t.token == "use strict" with
    | true => exact t.hasDigitEscape_eq_false hstring (eq_of_beq htext)
    | false =>
      refine t.plain.string hstring (Bool.eq_false_iff.2 fun ho => ?_)
      have hnone := h.octal hc (by cases octal <;> simp [htext, ho])
      rw [h.strict, hbefore, htext, hnone] at hs
      cases hs
  · generalize directiveText t.token = text at h hoctal ⊢
    have hnone := h.octal hc (by cases octal <;> simp_all)
    rw [List.any_cons, hnone, Bool.or_false]
    exact hoctal hc ho

namespace Parse.Reads

variable {p : Productions} {clean : Bool} {ctx : Context} {s : Ahead} {t : CodeToken}

/-! ## Functions -/

/-- Directives are read as strictly as those in front of them demand. -/
theorem prologueFrom (hp : p.Reads clean) {octal : Option Token} {rounds : Nat}
    {post : List Stmt × Bool → Ahead → Prop}
    (h : ∀ r u, Prologue clean ctx octal.isSome r → post r (.code u)) :
    (Grammar.prologueFrom p ctx octal rounds).Reads clean (.code t) post := by
  induction rounds generalizing ctx octal t post with
  | zero => trivial
  | succ rounds ih =>
    simp only [Grammar.prologueFrom, reads_bind, reads_look, reads_ite, reads_pure,
      Ahead.token_code]
    refine ⟨fun _ => h _ t ⟨(Bool.or_false _).symm, List.forall_mem_nil _, fun _ _ => rfl⟩,
      fun hstring => hp.ofExpression fun value _ hvalue => terminator fun ending u =>
        ⟨fun _ => finish fun span => h _ u ?_, fun hliteral => ?_⟩⟩
    · refine ⟨(Bool.or_false _).symm, List.forall_mem_singleton.2 ?_, fun _ _ => rfl⟩
      exact .one hvalue trivial rfl
    · have hkind : t.token.kind = .string := by simpa [Token.isString] using hstring
      have hliteral : isLiteralOf t.token value = true := by simpa using hliteral
      have hrest : ∀ {u span}, (clean = true → octal.isSome = true →
            (directiveText t.token == "use strict") = false) →
          (Grammar.prologueFrom p
            { ctx with strict := ctx.strict || directiveText t.token == "use strict" }
            (if (directiveText t.token == "use strict") = true then none
              else if t.token.octal = true then octal.or (some t.token) else octal) rounds).Reads
            clean (.code u) fun r s =>
              post (.exprStmt value (some (directiveText t.token)) ending span :: r.1, r.2) s :=
        fun hoctal => ih fun r u hr => h _ u (hr.cons hkind hliteral hvalue hoctal)
      cases octal with
      | none =>
        exact ⟨fun _ => finish fun _ => hrest (fun _ hf => by cases hf),
          fun _ => finish fun _ => hrest (fun _ hf => by cases hf)⟩
      | some first =>
        refine ⟨fun _ hc => finish fun _ => hrest (unclean hc), fun hsloppy => finish fun _ => ?_⟩
        exact hrest fun _ _ => Bool.eq_false_iff.2 hsloppy

theorem items (hp : p.Reads clean) {post : List Stmt → Ahead → Prop}
    (h : ∀ vs u, (∀ v ∈ vs, v.Stands clean ctx) → post vs (.code u)) :
    (Grammar.items p ctx).Reads clean (.code t) post := many (hp.item ctx) h

/-- The body of a function obeys the rules of the code that its directives make strict. -/
theorem functionBody (hp : p.Reads clean) {post : Tree .body × Bool → Ahead → Prop}
    (h : ∀ r u, r.2 = (ctx.strict || hasUseStrict r.1) →
      r.1.Fits clean { ctx with strict := ctx.strict || hasUseStrict r.1 } → post r (.code u)) :
    (Grammar.functionBody p ctx).Reads clean (.code t) post := by
  refine expect fun openLead _ => prologueFrom hp fun r _ hr => items hp fun rest _ hrest =>
    expect fun closeLead u => finish fun span => ?_
  obtain ⟨hstrict, hfits⟩ := hr.body hrest
  have hall : hasUseStrict (.bodyBlock openLead (.ofList (r.1 ++ rest)) closeLead span) =
      (r.1 ++ rest).any (·.isUseStrict) := congrArg (List.any · _) (Tree.toList_ofList _)
  refine h _ u (hall ▸ hstrict) (.one (.ofList ?_) trivial rfl)
  rw [hall]
  exact hfits

theorem parameterRound (hp : p.Reads clean) :
    (Grammar.parameterRound p ctx).Reads clean (.code t)
    (InCode (·.All (Tree.Fits clean ctx))) := by
  simp only [Grammar.parameterRound, reads_bind, reads_sees, reads_ite, reads_pure]
  exact ⟨fun _ => bindingRest hp fun _ _ hv => .intro hv.fits,
    fun _ => bindingElement hp fun _ _ hv => .intro hv.fits⟩

theorem parameterList (hp : p.Reads clean) {post : Tree .params → Ahead → Prop}
    (h : ∀ v u, v.Fits clean ctx → post v (.code u)) :
    (Grammar.parameterList p ctx).Reads clean (.code t) post :=
  expect fun _ _ => listed (fun _ => parameterRound hp) fun _ _ hr => expect fun _ u =>
    h _ u (.one (.ofList hr) trivial rfl)

/-- Behind the check of a name in a clean parse, strict code may bind it. -/
theorem checkFunctionName {site : Site} {name : Option Ident} {post : Unit → Ahead → Prop}
    (h : (clean = true → ∀ id ∈ name, IsStrictName id.name) → post () s) :
    (Grammar.checkFunctionName site name).Reads clean s post := by
  cases name with
  | none => exact h fun _ _ hid => by cases hid
  | some id =>
    simp only [Grammar.checkFunctionName, reads_ite, reads_tolerate, reads_pure]
    refine ⟨fun _ hc => h (unclean hc), fun hrestricted => ⟨fun _ hc => h (unclean hc),
      fun hreserved => h fun _ => ?_⟩⟩
    intro _ hid
    cases hid
    exact ⟨Bool.eq_false_iff.2 hrestricted, Bool.eq_false_iff.2 hreserved⟩

/-- The parameters and the name that stand in front of a body obey the rules of its code. -/
theorem paramsAndBody (hp : p.Reads clean) {isAsync isGenerator unique : Bool} {name : Option Ident}
    {site : Site} {post : Tree .params × Tree .body → Ahead → Prop}
    (h : ∀ r u, r.1.Fits clean { ctx.callable isAsync isGenerator with inParameters := true } →
      r.2.Fits clean
        { ctx.callable isAsync isGenerator with strict := ctx.strict || hasUseStrict r.2 } →
      Tree.ParametersAllowed clean (ctx.strict || hasUseStrict r.2) (hasUseStrict r.2)
        (unique || !r.1.isSimple) r.1.parameters →
      (clean = true → ctx.strict = false → hasUseStrict r.2 = true →
        ∀ id ∈ name, IsStrictName id.name) → post r (.code u)) :
    (Grammar.paramsAndBody p ctx isAsync isGenerator name site unique).Reads clean
    (.code t) post := by
  intro before
  refine parameterList hp fun params _ hparams => functionBody hp fun r u hstrict hbody => ?_
  obtain ⟨body, strict⟩ := r
  obtain rfl : strict = (ctx.strict || hasUseStrict body) := hstrict
  refine ite_reject fun hplain => ?_
  have hplain : hasUseStrict body = true → params.parameters.all (·.isName) = true := by
    intro hdirective
    simpa [hdirective, Tree.isSimple] using hplain
  have hrest : (clean = true → ctx.strict = false → hasUseStrict body = true →
        ∀ id ∈ name, IsStrictName id.name) →
      (Grammar.checkParameters (ctx.strict || hasUseStrict body) (unique || !params.isSimple) site
        params.parameters).Reads clean (.code u) fun _ s => post (params, body) s :=
    fun hname => checkParameters hplain fun hall => h (params, body) u hparams hbody hall hname
  refine reads_ite.mpr ⟨fun _ => checkFunctionName fun hname => ?_, fun hsame => ?_⟩
  · exact hrest fun hc _ _ => hname hc
  · refine hrest fun _ hsloppy hdirective => absurd ?_ hsame
    show (_ && !ctx.strict) = true
    rw [hsloppy, hdirective]
    rfl

/-- Strict code may bind the name of a function. -/
theorem functionName {isDeclaration nameOptional isAsync isGenerator : Bool}
    {post : Option Ident → Ahead → Prop}
    (h : ∀ name u, (clean = true → ctx.MayBind (name.toList.map (·.name))) → post name (.code u)) :
    (Grammar.functionName ctx isDeclaration nameOptional isAsync isGenerator).Reads clean (.code t)
      post := by
  simp only [Grammar.functionName, reads_bind, reads_look, reads_ite, reads_unexpectedHere,
    implies_true, true_and, reads_pure]
  refine ⟨fun _ => bindingName fun id u hid => h (some id) u fun hc hs => hid hc ?_,
    fun _ _ => h none t fun _ => .nil⟩
  change (if _ then _ else _ : Context).strict = true
  split <;> exact hs

/-- A function obeys the rules of its own context. -/
theorem function (hp : p.Reads clean) {isDeclaration nameOptional : Bool}
    {post : Tree .function → Ahead → Prop} (h : ∀ v u, v.Fits clean ctx → post v (.code u)) :
    (Grammar.function p ctx isDeclaration nameOptional).Reads clean (.code t) post := by
  have hrest : ∀ {t : CodeToken} {start : Position} {asyncLead : Option String},
      (Parse.expectKeyword ctx "function").Reads clean (.code t) fun keywordLead s =>
        (Parse.accept "*").Reads clean s fun starLead s =>
          (Grammar.functionName ctx isDeclaration nameOptional asyncLead.isSome
            starLead.isSome).Reads clean s fun name s' =>
              (Grammar.paramsAndBody p ctx asyncLead.isSome starLead.isSome name s.token.site
                false).Reads clean s' fun r s =>
                  (Parse.finish (if isDeclaration = true then .functionDecl else .functionExpr)
                    start).Reads clean s fun span s =>
                      post (.function
                        { isAsync := asyncLead.isSome, asyncLead := asyncLead.getD "", keywordLead
                          isGenerator := starLead.isSome, starLead := starLead.getD "", name }
                        r.1 r.2 span) s := by
    intro t start asyncLead
    refine expectKeyword fun _ _ => accept fun starLead _ => functionName fun name _ hname =>
      paramsAndBody hp fun r u hparams hbody hrule hretro => finish fun _ => h _ u ?_
    refine .function hparams hbody (by simpa using hrule) fun hc hs => ?_
    cases hbefore : ctx.strict with
    | true => exact hname hc hbefore
    | false =>
      have hdirective : hasUseStrict r.2 = true := by simpa [hbefore] using hs
      cases name with
      | none => exact List.forall_mem_nil _
      | some id => exact List.forall_mem_singleton.2 (hretro hc hbefore hdirective id rfl)
  simp only [Grammar.function, reads_bind, reads_here, reads_seesWord, reads_ite, reads_map,
    reads_pure, reads_look]
  exact ⟨fun _ _ => hrest, fun _ => hrest⟩

theorem functionDeclaration (hp : p.Reads clean) {post : Stmt → Ahead → Prop}
    (h : ∀ v u, v.Stands clean ctx → post v (.code u)) :
    (Grammar.functionDeclaration p ctx).Reads clean (.code t) post :=
  function hp fun _ u hv => h _ u ⟨.one hv trivial rfl, rfl⟩

theorem functionExpression (hp : p.Reads clean) {post : Expr → Ahead → Prop}
    (h : ∀ v u, v.Whole clean ctx → post v (.code u)) :
    (Grammar.functionExpression p ctx).Reads clean (.code t) post :=
  function hp fun _ u hv => h _ u ⟨.one hv trivial rfl, Nat.le_refl _⟩

theorem checkAccessor {kind : PropertyKind} {site : Site} {params : List Pattern}
    {post : Unit → Ahead → Prop} (h : post () s) :
    (Grammar.checkAccessor kind site params).Reads clean s post := by
  unfold Grammar.checkAccessor
  split <;> simp [h]

/-- The function of a method has parameters with distinct names. -/
theorem methodFunction (hp : p.Reads clean) {isAsync isGenerator : Bool} {kind : PropertyKind}
    {post : Tree .function → Ahead → Prop}
    (h : ∀ v u, v.Fits clean ctx →
      (clean = true → (Tree.parameterNames v.functionParameters).Nodup) → post v (.code u)) :
    (Grammar.methodFunction p ctx isAsync isGenerator kind).Reads clean (.code t) post := by
  refine paramsAndBody hp fun r _ hparams hbody hrule _ => checkAccessor (finish fun _ => ?_)
  refine h _ _ (.function hparams hbody ⟨hrule.plain, hrule.strictNames, fun hc _ => ?_⟩
    fun _ => .nil) fun hc => ?_
  · exact hrule.distinct hc (Bool.or_true _)
  · exact hrule.distinct hc (Bool.or_true _)

/-! ## Classes -/

/-- What is marked as no accessor is none. -/
theorem modifiers {post : Modifiers × PropertyKind → Ahead → Prop}
    (h : ∀ r u, (r.1.accessorLead = none → r.2 = .plain) → post r (.code u)) :
    Grammar.modifiers.Reads clean (.code t) post := by
  simp only [Grammar.modifiers, reads_bind, reads_look, reads_ite, reads_pure]
  refine ⟨fun _ => isModifier fun _ => ⟨fun _ _ => ?_, fun _ => ?_⟩,
    fun _ => ⟨fun _ => isModifier fun _ => ⟨fun _ _ => ?_, fun _ => ?_⟩, fun _ => ?_⟩⟩
  case refine_3 => exact accept fun _ _ => h _ _ fun hnone => by cases hnone
  all_goals exact accept fun _ _ => h _ _ fun _ => rfl

theorem staticBlock (hp : p.Reads clean) {start : Position} {staticLead : String}
    {post : Tree .classMember → Ahead → Prop} (h : ∀ v u, v.Fits clean ctx → post v (.code u)) :
    (Grammar.staticBlock p ctx start staticLead).Reads clean (.code t) post :=
  expect fun _ _ _ => items hp fun _ _ hstmts => expect fun _ u => finish fun _ =>
    h _ u (.one (.ofList fun stmt hmem => (hstmts stmt hmem).fits) trivial rfl)

theorem fieldInitializer (hp : p.Reads clean) {post : Tree (.maybe .initializer) → Ahead → Prop}
    (h : ∀ v u, v.Fits clean ctx.fieldValue → post v (.code u)) :
    (Grammar.fieldInitializer p ctx).Reads clean (.code t) post := by
  refine accept fun eqLead u => ?_
  cases eqLead with
  | none => exact h _ u .absent
  | some eqLead =>
    exact fun _ => hp.ofAssignment fun _ u hv => h _ u (.present (.one hv trivial rfl))

theorem field (hp : p.Reads clean) {start : Position} {mods : Modifiers} {name : Tree .key}
    {post : Tree .classMember → Ahead → Prop} (hname : name.Fits clean ctx)
    (h : ∀ v u, v.Fits clean ctx → post v (.code u)) :
    (Grammar.field p ctx start mods name).Reads clean (.code t) post :=
  fieldInitializer hp fun _ _ hv => terminator fun _ u => finish fun _ =>
    h _ u (.two hname hv trivial rfl)

theorem methodKind {mods : Modifiers} {kind : PropertyKind} {name : Option String}
    {hasConstructor : Bool} {site : Site} {post : MethodKind → Ahead → Prop} (h : ∀ v, post v s) :
    (Grammar.methodKind mods kind name hasConstructor site).Reads clean s post := by
  simp [Grammar.methodKind, h]

theorem keyedMember (hp : p.Reads clean) {start : Position} {mods : Modifiers}
    {kind : PropertyKind} {hasConstructor : Bool} {post : Tree .classMember × Bool → Ahead → Prop}
    (h : ∀ r u, r.1.Fits clean ctx → post r (.code u)) :
    (Grammar.keyedMember p ctx start mods kind hasConstructor).Reads clean (.code t) post := by
  simp only [Grammar.keyedMember, reads_bind, reads_look, reads_ite, reads_reject, reads_sees,
    implies_true, true_and]
  refine key hp fun name u hname _ => ⟨fun _ _ => ?_, fun _ => ?_⟩
  · exact field hp hname fun v u hv => h (v, hasConstructor) u hv
  · exact methodKind fun _ => methodFunction hp fun _ u hv hdistinct => finish fun _ =>
      h _ u (.two hname hv hdistinct rfl)

/-- A member of a class obeys the rules. -/
theorem classMember (hp : p.Reads clean) {hasConstructor : Bool}
    {post : Tree .classMember × Bool → Ahead → Prop}
    (h : ∀ r u, r.1.Fits clean ctx → post r (.code u)) :
    (Grammar.classMember p ctx hasConstructor).Reads clean (.code t) post := by
  have hkeyed : ∀ {t start} {staticLead : Option String},
      Grammar.modifiers.Reads clean (.code t) fun r s =>
        (Grammar.keyedMember p ctx start { r.1 with staticLead } r.2 hasConstructor).Reads clean s
          post := modifiers fun _ _ _ => keyedMember hp h
  have hstatic : ∀ {t start staticLead},
      (Grammar.staticBlock p ctx start staticLead).Reads clean (.code t) fun v s' =>
        post (v, hasConstructor) s' := staticBlock hp fun v u hv => h (v, hasConstructor) u hv
  simp only [Grammar.classMember, reads_bind, reads_look, reads_ite, reads_lead,
    reads_pure, reads_map,
    reads_sees]
  refine ⟨fun _ u => extent fun _ => h _ u (.leaf trivial rfl),
    fun _ => ⟨fun _ => isModifier fun _ => ?_, fun _ =>
    ⟨fun hf => absurd hf Bool.false_ne_true, fun _ => hkeyed⟩⟩⟩
  exact ⟨fun _ u => ⟨fun _ => hstatic, fun _ => hkeyed⟩, fun _ => hkeyed⟩

/-- The members of a class obey the rules. -/
theorem classMembers (hp : p.Reads clean) {hasConstructor : Bool} {rounds : Nat}
    {post : List (Tree .classMember) → Ahead → Prop}
    (h : ∀ vs u, (∀ v ∈ vs, v.Fits clean ctx) → post vs (.code u)) :
    (Grammar.classMembers p ctx hasConstructor rounds).Reads clean (.code t) post := by
  induction rounds generalizing hasConstructor t post with
  | zero => trivial
  | succ rounds ih =>
    simp only [Grammar.classMembers, reads_bind, reads_look, reads_ite,
      reads_unexpected, reads_pure,
      implies_true, true_and]
    refine ⟨fun _ => h _ t (List.forall_mem_nil _), fun _ _ => classMember hp fun r _ hr =>
      ih fun vs u hvs => ?_⟩
    exact h _ u (List.forall_mem_cons.2 ⟨hr, hvs⟩)

theorem heritage (hp : p.Reads clean) {post : Tree (.maybe .heritage) → Ahead → Prop}
    (h : ∀ v u, v.Fits clean ctx → post v (.code u)) :
    (Grammar.heritage p ctx).Reads clean (.code t) post := by
  simp only [Grammar.heritage, reads_bind, reads_seesKeyword, reads_ite, reads_lead,
    reads_unexpectedHere, reads_pure, implies_true, true_and]
  refine ⟨fun _ => h _ t .absent, fun _ _ => hp.ofChain fun base u hbase _ => ?_⟩
  exact h _ u (.present (.one hbase trivial rfl))

/-- A class obeys the rules, which are those of strict code. -/
theorem classDefinition (hp : p.Reads clean) {isDeclaration nameRequired : Bool}
    {post : Tree .classDef → Ahead → Prop} (h : ∀ v u, v.Fits clean ctx → post v (.code u)) :
    (Grammar.classDefinition p ctx isDeclaration nameRequired).Reads clean (.code t) post := by
  have hrest : ∀ {t classLead start} {name : Option Ident},
      (clean = true → ctx.classBody.MayBind (name.toList.map (·.name))) →
      (Grammar.heritage p ctx.classBody).Reads clean (.code t) fun base s =>
        (Parse.expect ctx.classBody "\x7b").Reads clean s fun openLead s =>
          (Grammar.classMembers p ctx.classBody false p.rounds).Reads clean s fun members s =>
            (Parse.expect ctx.classBody "\x7d").Reads clean s fun closeLead s =>
              (Parse.finish (if isDeclaration = true then .classDecl else .classExpr) start).Reads
                clean s fun span s => post
                  (.classDef classLead name base openLead (.ofList members) closeLead span) s :=
    fun hname => heritage hp fun _ _ hbase => expect fun _ _ => classMembers hp fun _ _ hmembers =>
      expect fun _ u => finish fun _ => h _ u (.two hbase (.ofList hmembers) hname rfl)
  simp only [Grammar.classDefinition, reads_bind, reads_look, reads_ite, reads_pure, reads_map,
    reads_unexpectedHere, implies_true, true_and]
  refine expectKeyword fun _ _ => ⟨fun _ => bindingName fun id _ hid => ?_, fun _ _ => ?_⟩
  · exact hrest hid
  · exact hrest fun _ => .nil

/-! ## Markup -/

section

variable {mode after : Mode} {u : Token}

theorem expectThen {spelling : String} {post : String → Ahead → Prop}
    (h : ∀ v, after.Scans (post v)) : (Grammar.expectThen ctx spelling after).Reads clean s post :=
  expectIn h

theorem leadThen {post : String → Ahead → Prop} (h : ∀ v, after.Scans (post v)) :
    (Grammar.leadThen after).Reads clean s post := leadIn h

theorem tagIdent {post : TagIdent → Ahead → Prop} (h : ∀ v, mode.Scans (post v)) :
    (Grammar.tagIdent ctx).Reads clean (.markup u mode) post := by
  simp only [Grammar.tagIdent, reads_bind, reads_look, reads_ite, reads_unexpectedHere,
    implies_true, true_and]
  exact fun _ => Mode.scans_iff.2 fun s hs => finish fun _ => Mode.scans_iff.1 (h _) s hs

end

section

variable {u : Token}

theorem namespacedName {start : Position} {space : TagIdent} {post : NamespacedName → Ahead → Prop}
    (h : ∀ v u, post v (.markup u .tag)) :
    (Grammar.namespacedName ctx start space).Reads clean (.markup u .tag) post :=
  expectIn fun _ _ => tagIdent fun _ u => finish fun _ => h _ u

/-- The name of a tag leaves markup ahead. -/
theorem tagName {rounds : Nat} {post : TagName → Ahead → Prop}
    (h : ∀ v u, post v (.markup u .tag)) :
    (Grammar.tagName ctx rounds).Reads clean (.markup u .tag) post := by
  have hmember : ∀ (start : Position) (name : TagName) (s : Ahead), Mode.tag.Ends s →
      (Grammar.tagMember ctx start name).Reads clean s fun w s =>
        w.elim (Mode.tag.Ends s) fun _ => Mode.tag.Ends s := by
    rintro start name _ ⟨u, rfl⟩
    simp only [Grammar.tagMember, Parse.accept, reads_bind, reads_sees, reads_ite, reads_pure]
    refine ⟨fun _ => leadIn fun _ _ => tagIdent fun _ u => finish fun _ => ⟨u, rfl⟩,
      fun _ => ⟨u, rfl⟩⟩
  simp only [Grammar.tagName, reads_bind, reads_sees, reads_ite]
  refine tagIdent fun first u => ⟨fun _ => namespacedName fun _ _ => h _ _, fun _ => ?_⟩
  refine iterate (R := fun _ s => Mode.tag.Ends s) (S := fun _ s => Mode.tag.Ends s)
    (hmember _) ⟨u, rfl⟩ ?_
  rintro v _ ⟨u, rfl⟩
  exact h v u

/-- A container obeys the rules, and leaves ahead what its place asks for. -/
theorem container (hp : p.Reads clean) {start : Position} {openLead : String} {after : Mode}
    {allowsEmpty : Bool} {post : Tree .container → Ahead → Prop}
    (h : ∀ v, v.Fits clean ctx → after.Scans (post v)) :
    (Grammar.container p ctx start openLead after allowsEmpty).Reads clean (.code t) post := by
  simp only [Grammar.container, reads_bind, reads_look, reads_ite, reads_unexpected, reads_lastEnd,
    implies_true, true_and]
  refine ⟨fun _ _ _ => finishAt fun _ => expectThen fun _ => ?_,
    fun _ => hp.ofAssignment fun _ _ hv =>
    expectThen fun _ => ?_⟩
  · refine Mode.scans_iff.2 fun s hs => finish fun _ => Mode.scans_iff.1 (h _ ?_) s hs
    exact .leaf trivial rfl
  · refine Mode.scans_iff.2 fun s hs => finish fun _ => Mode.scans_iff.1 (h _ ?_) s hs
    exact .one hv trivial rfl

theorem attributeValue (hp : p.Reads clean) {post : Tree .attributeValue → Ahead → Prop}
    (h : ∀ v u, v.Fits clean ctx → post v (.markup u .tag)) :
    (Grammar.attributeValue p ctx).Reads clean (.markup u .tag) post := by
  simp only [Grammar.attributeValue, reads_bind, reads_look, reads_ite, reads_unexpected,
    implies_true, and_true]
  refine ⟨fun _ => tagLiteral fun _ u => h _ u (.leaf trivial rfl),
    fun _ => ⟨fun _ => ?_, fun _ _ => ?_⟩⟩
  · exact leadThen fun _ _ => container hp fun _ hv u => h _ u (.one hv trivial rfl)
  · exact leadIn fun _ _ => hp.ofMarkup (fun _ he u => h _ u (.one he trivial rfl)) fun _ hf u =>
      h _ u (.one hf trivial rfl)

theorem spreadAttribute (hp : p.Reads clean) {post : Tree .attribute → Ahead → Prop}
    (h : ∀ v u, v.Fits clean ctx → post v (.markup u .tag)) :
    (Grammar.spreadAttribute p ctx).Reads clean (.markup u .tag) post :=
  leadThen fun _ _ => expect fun _ _ => hp.ofAssignment fun _ _ hv => expectThen fun _ u =>
    finish fun _ => h _ u (.one hv trivial rfl)

/-- An attribute obeys the rules, and leaves markup ahead. -/
theorem tagAttribute (hp : p.Reads clean) {post : Tree .attribute → Ahead → Prop}
    (h : ∀ v u, v.Fits clean ctx → post v (.markup u .tag)) :
    (Grammar.tagAttribute p ctx).Reads clean (.markup u .tag) post := by
  simp only [Grammar.tagAttribute, Parse.accept, reads_bind, reads_sees, reads_ite,
    reads_pure, reads_map]
  refine ⟨fun _ => spreadAttribute hp h, fun _ => tagIdent fun _ _ => ⟨fun _ =>
    namespacedName fun _ _ => ?_, fun _ => ?_⟩⟩
  -- What follows the name is read in the same way.
  all_goals
    refine ⟨fun _ => leadIn fun _ _ => attributeValue hp fun _ u hv => finish fun _ => ?_,
      fun _ => finish fun _ => ?_⟩
    · exact h _ u (.one (.present hv) trivial rfl)
    · exact h _ _
        (.one (.absent : (Tree.absent : Tree (.maybe .attributeValue)).Fits clean ctx) trivial rfl)

theorem childContainer (hp : p.Reads clean) {post : Tree .child → Ahead → Prop}
    (h : ∀ v u, v.Fits clean ctx → post v (.markup u .text)) :
    (Grammar.childContainer p ctx).Reads clean (.markup u .text) post := by
  simp only [Grammar.childContainer, reads_bind, reads_ite, reads_sees]
  refine leadThen fun _ _ => ⟨fun _ _ => hp.ofAssignment fun _ _ hv => expectThen fun _ u => ?_,
    fun _ => ?_⟩
  · exact finish fun _ => h _ u (.one hv trivial rfl)
  · exact container hp fun _ hv u => h _ u (.one hv trivial rfl)

/-- The children of an element obey the rules, and leave the closing tag ahead. -/
theorem children (hp : p.Reads clean) {name : String} {rounds : Nat}
    {post : List (Tree .child) × Position × String → Ahead → Prop}
    (h : ∀ r u, (∀ v ∈ r.1, v.Fits clean ctx) → post r (.markup u .tag)) :
    (Grammar.children p ctx name rounds).Reads clean (.markup u .text) post := by
  induction rounds generalizing u post with
  | zero => trivial
  | succ rounds ih =>
    -- A child in front of the others.
    have hcons : ∀ {v : Tree .child} {u : Token}, v.Fits clean ctx →
        (Grammar.children p ctx name rounds).Reads clean (.markup u .text) fun r s =>
          post (v :: r.1, r.2) s :=
      fun hv => ih fun r u hr => h _ u (List.forall_mem_cons.2 ⟨hv, hr⟩)
    simp only [Grammar.children, reads_bind, reads_look]
    split
    · trivial
    · exact fun _ => finish fun _ => hcons (.leaf trivial rfl)
    · simp only [reads_ite, reads_bind, reads_pure, reads_sees, reads_unexpected, implies_true,
        and_true]
      refine ⟨fun _ => childContainer hp fun _ _ hv => hcons hv, fun _ _ => leadThen fun _ u => ?_⟩
      refine ⟨fun _ => h _ u (List.forall_mem_nil _), fun _ => ?_⟩
      exact hp.ofMarkup (fun _ he u => hcons (.one he trivial rfl)) fun _ hf u =>
        hcons (.one hf trivial rfl)

theorem fragment (hp : p.Reads clean) {start : Position} {openLead : String} {after : Mode}
    {post : Tree .fragment → Ahead → Prop} (h : ∀ v, v.Fits clean ctx → after.Scans (post v)) :
    (Grammar.fragment p ctx start openLead after).Reads clean (.markup u .tag) post := by
  simp only [Grammar.fragment, reads_bind, reads_look, reads_ite, reads_fail, implies_true,
    true_and]
  refine expectThen fun _ _ => children hp fun _ _ hr => expectIn fun _ _ _ =>
    expectThen fun _ => ?_
  refine Mode.scans_iff.2 fun s hs => finish fun _ => Mode.scans_iff.1 (h _ ?_) s hs
  exact .one (.ofList hr) trivial rfl

theorem closingTag {start : Position} {openLead opened : String} {after : Mode}
    {post : ClosingTag → Ahead → Prop} (h : ∀ v, after.Scans (post v)) :
    (Grammar.closingTag p ctx start openLead opened after).Reads clean (.markup u .tag) post := by
  simp only [Grammar.closingTag, reads_bind, reads_look, reads_ite, reads_fail, implies_true,
    true_and]
  refine expectIn fun _ _ => tagName fun _ _ _ => expectThen fun _ => ?_
  exact Mode.scans_iff.2 fun s hs => finish fun _ => Mode.scans_iff.1 (h _) s hs

/-- An element obeys the rules, and leaves ahead what its place asks for. -/
theorem element (hp : p.Reads clean) {start : Position} {openLead : String} {after : Mode}
    {post : Tree .element → Ahead → Prop} (h : ∀ v, v.Fits clean ctx → after.Scans (post v)) :
    (Grammar.element p ctx start openLead after).Reads clean (.markup u .tag) post := by
  have hattribute : ∀ s, Mode.tag.Ends s → (Grammar.tagAttribute p ctx).Reads clean s fun v s =>
      v.Fits clean ctx ∧ Mode.tag.Ends s := by
    rintro _ ⟨u, rfl⟩
    exact tagAttribute hp fun _ u hv => ⟨hv, u, rfl⟩
  simp only [Grammar.element, reads_bind, reads_sees, reads_ite, reads_unexpectedHere, implies_true,
    true_and]
  refine tagName fun name u => manyIn (show Mode.tag.Ends _ from ⟨u, rfl⟩) hattribute ?_
  rintro attributes _ hattributes ⟨u, rfl⟩
  refine ⟨fun _ => leadIn fun _ _ _ => expectThen fun _ => ?_, fun _ => expectThen fun _ _ => ?_⟩
  · refine Mode.scans_iff.2 fun s hs => finish fun _ => finish fun _ => ?_
    have hnone : (Tree.nil : Tree (.many .child)).Fits clean ctx := .nil
    refine Mode.scans_iff.1 (h _ ?_) s hs
    exact .two (.ofList hattributes) hnone trivial rfl
  · refine finish fun _ => children hp fun _ _ hr => closingTag fun _ => ?_
    refine Mode.scans_iff.2 fun s hs => finish fun _ => Mode.scans_iff.1 (h _ ?_) s hs
    exact .two (.ofList hattributes) (.ofList hr) trivial rfl

theorem markup (hp : p.Reads clean) {start : Position} {openLead : String} {after : Mode} :
    (Grammar.markup p start openLead after ctx).Reads clean (.markup u .tag) fun v s =>
      v.Fits clean ctx ∧ after.Ends s := by
  simp only [Grammar.markup, reads_bind, reads_sees, reads_ite, reads_map]
  exact ⟨fun _ => fragment hp fun _ hv => Mode.scans_iff.2 fun _ hs => ⟨hv, hs⟩,
    fun _ => element hp fun _ hv => Mode.scans_iff.2 fun _ hs => ⟨hv, hs⟩⟩

theorem markupRoot (hp : p.Reads clean) {post : Expr → Ahead → Prop}
    (h : ∀ v u, v.Whole clean ctx → post v (.code u)) :
    (Grammar.markupRoot p ctx).Reads clean (.code t) post := by
  simp only [Grammar.markupRoot, reads_bind, reads_setMode, reads_rescan, reads_here]
  refine fun u => @leadIn _ (.markup u .tag) _ fun _ _ =>
    hp.ofMarkup (fun e he => ?_) fun f hf => ?_
  · exact fun u => h (.elementExpr e) u ⟨.one he trivial rfl, Nat.le_refl _⟩
  · exact fun u => h (.fragmentExpr f) u ⟨.one hf trivial rfl, Nat.le_refl _⟩

end

end Parse.Reads

end Verbatim
