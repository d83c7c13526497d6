import Verbatim.Proofs.Grammar.Operand

/-!
# Chains of accesses and calls are tracked

A link adds its text to that of the chain in front of it. Whether a template is a link is decided by
its first delimiter, which the companion sees as well.

## Main results

* `Verbatim.Tracks.plainLink`, `Verbatim.Tracks.chainLink`, `Verbatim.Tracks.calleeLink` — links.
* `Verbatim.Tracks.chain`, `Verbatim.Tracks.callee` — chains.
-/

namespace Verbatim

namespace Tree

/-- Whether an access is by an expression in brackets. -/
def isIndex : Tree .access → Bool
  | .computedAccess .. => true
  | _ => false

theorem print_access_name {prop : Tree .access} (h : prop.isIndex = false) (base : Expr)
    (isOptional : Bool) (dotLead : String) (span : Span) :
    (memberAccess base isOptional dotLead prop span).print =
      base.print ++ (dotLead ++ ((if isOptional then "?." else ".") ++ prop.print)) := by
  cases prop with
  | nameAccess | privateAccess => simp [print_eq]
  | computedAccess => cases h

theorem print_access_index {prop : Tree .access} (h : prop.isIndex = true) (base : Expr)
    (isOptional : Bool) (dotLead : String) (span : Span) :
    (memberAccess base isOptional dotLead prop span).print =
      base.print ++ ((if isOptional then dotLead ++ "?." else "") ++ prop.print) := by
  cases prop with
  | nameAccess | privateAccess => cases h
  | computedAccess => simp [print_eq]

end Tree

variable [Exchange]

namespace Alike

theorem chainValue {c c' : Grammar.Chain} (h : Alike c c') : Alike c.value c'.value :=
  congrArg Grammar.Chain.value h.eq

theorem chainOptional {c c' : Grammar.Chain} (h : Alike c c') :
    c'.isOptional = c.isOptional := by
  change (unplace c').isOptional = (expected c).isOptional
  rw [h.eq]

theorem chain {v v' : Expr} (h : Alike v v') (isOptional : Bool) :
    Alike ({ value := v, isOptional } : Grammar.Chain) { value := v', isOptional } :=
  congrArg (Grammar.Chain.mk · isOptional) h

end Alike

namespace Tracks

open Verbatim.Grammar

variable {fuel k : Nat} {t t' : Token} {ctx : Context} {p p' : Productions}
  {start start' : Position} {base base' : Expr}

/-! ## Links -/

/-- What a link has taken behind the given expression. -/
def Links (base v : Expr) (tr : Trace) (_ : Token) : Prop :=
  Adds base.print v.print tr ∧ 0 < tr.count ∧ v.isConvertible = true

/-- What a link has taken, if there is one. -/
def LinksOption (base : Expr) (w : Option Expr) (tr : Trace) (u : Token) : Prop :=
  (∀ x ∈ w, Links base x tr u) ∧ (w = none → tr = .empty)

/-- The name behind a dot is read alike. -/
theorem accessName :
    Follows fuel (Grammar.accessName ctx) (Grammar.accessName ctx) fun v tr u =>
      Prints v tr u ∧ v.isIndex = false := by
  intro t t' ht
  unfold Grammar.accessName
  refine look ht (ite ht.isAnyName (fun hn => ?_) fun _ => ?_)
  · refine wrap (Nat.le_refl _) (anyName ht hn) ?_ fun _ _ h => congrArg Tree.nameAccess h
    rintro id tr u ⟨hid, hc, -⟩
    exact ⟨⟨by simpa [Tree.print_eq] using hid, by omega⟩, rfl⟩
  · refine iteProp (by rw [ht.kind]) (fun hk => ?_) fun _ => stuck (by simp)
    refine regroup (wrap (Nat.le_refl _) (privateName ht hk) ?_ fun _ _ h =>
      congrArg Tree.privateAccess h)
    rintro name tr u ⟨hname, hc⟩
    exact ⟨⟨by simpa [Tree.print_eq] using hname, by omega⟩, rfl⟩

theorem accessIndex (hp : Mirrors p p' k) :
    Follows (k + 1) (Grammar.accessIndex p ctx) (Grammar.accessIndex p' ctx) fun v tr u =>
      Prints v tr u ∧ v.isIndex = true := by
  intro t t' ht
  unfold Grammar.accessIndex
  refine expect (by simp) ht fun _ u u' hu => bind (by omega) (hp.expression _ hu) ?_
  rintro e e' tr w w' ⟨he, -, -⟩ ha hw
  refine expect (by simp) hw fun _ x x' hx =>
    pure ⟨⟨⟨?_, ?_⟩, Trace.append_pos Nat.one_pos⟩, rfl⟩ ?_
  · simp [Tree.print_eq, he.text_eq, String.append_assoc]
  · simp [he.nest_eq]
  · exact .of_tree (by simp [ha.tree])

/-- A property access is closed. -/
theorem finishAccess {isOptional : Bool} {dotLead : String} {prop prop' : Tree .access}
    (hb : Alike base base') (hprop : Alike prop prop') (ht : Alike t t') :
    Tracks [] fuel .normal .normal t t' (Grammar.finishAccess start base isOptional dotLead prop)
      (Grammar.finishAccess start' base' isOptional dotLead prop')
      (Still (fun e => ∃ span, e = .memberAccess base isOptional dotLead prop span) t) := by
  unfold Grammar.finishAccess
  refine finish (by decide) ht fun span span' => pure ⟨⟨span, rfl⟩, rfl, rfl⟩ ?_
  exact .of_tree (by simp [hb.tree, hprop.tree])

/-- A call is closed. -/
theorem finishCall {isOptional : Bool} {optionalLead : String} {args args' : Tree .arguments}
    (hb : Alike base base') (hargs : Alike args args') (ht : Alike t t') :
    Tracks [] fuel .normal .normal t t'
      (Grammar.finishCall start base isOptional optionalLead args)
      (Grammar.finishCall start' base' isOptional optionalLead args')
      (Still (fun e => ∃ span, e = .call base isOptional optionalLead args span) t) := by
  unfold Grammar.finishCall
  refine finish (by decide) ht fun span span' => pure ⟨⟨span, rfl⟩, rfl, rfl⟩ ?_
  exact .of_tree (by simp [hb.tree, hargs.tree])

/-- A template behind the function that interprets it. -/
theorem taggedTemplate (hp : Mirrors p p' k) (hb : Alike base base') (ht : Alike t t')
    (hh : t.isTemplateHead = true) :
    Tracks [] (k + 1) .normal .normal t t' (Grammar.taggedTemplate p ctx start base)
      (Grammar.taggedTemplate p' ctx start' base') (Links base) := by
  unfold Grammar.taggedTemplate
  refine bind (by omega) (template hp ht hh (Nat.le_refl _)) ?_
  rintro v v' tr u u' ⟨hv, hc⟩ ha hu
  refine finish (by decide) hu fun span span' => pure ⟨⟨?_, ?_⟩, Trace.append_pos hc, rfl⟩ ?_
  · simp [Tree.print_eq, hv.text_eq]
  · simp [hv.nest_eq]
  · exact .of_tree (by simp [hb.tree, ha.tree])

/-- What follows the mark of an optional link. -/
theorem optionalLink (hp : Mirrors p p' k) (hb : Alike base base') (ht : Alike t t')
    (hs : t.isPunctuator "?." = true) :
    Tracks [] (k + 1) .normal .normal t t' (Grammar.optionalLink p ctx start base)
      (Grammar.optionalLink p' ctx start' base') (Links base) := by
  unfold Grammar.optionalLink
  refine lead notTag ht (.punctuator hs) fun u u' hu => look hu ?_
  refine ite (hu.isPunctuator _) (fun _ => ?_) fun _ => ite (hu.isPunctuator _) (fun _ => ?_)
    fun _ => iteProp (by rw [hu.kind]) (fun _ => stuck (by simp)) fun _ => ?_
  · refine bind (by omega) (argumentList hp hu) ?_
    rintro v v' tr w w' ⟨hv, -⟩ ha hw
    refine imp (finishCall hb ha hw) ?_
    rintro e tr' x ⟨⟨span, rfl⟩, rfl, rfl⟩
    refine ⟨⟨?_, ?_⟩, Trace.append_pos Nat.one_pos, rfl⟩
    · simp [Tree.print_eq, hv.text_eq, String.append_assoc]
    · simp [hv.nest_eq]
  · refine bind (by omega) (accessIndex hp hu) ?_
    rintro v v' tr w w' ⟨⟨hv, -⟩, hi⟩ ha hw
    refine imp (finishAccess hb ha hw) ?_
    rintro e tr' x ⟨⟨span, rfl⟩, rfl, rfl⟩
    refine ⟨⟨?_, ?_⟩, Trace.append_pos Nat.one_pos, rfl⟩
    · simp [Tree.print_access_index hi, hv.text_eq, String.append_assoc]
    · simp [hv.nest_eq]
  · refine seq (accessName hu) ?_
    rintro v v' tr w w' ⟨⟨hv, -⟩, hi⟩ ha hw
    refine imp (finishAccess hb ha hw) ?_
    rintro e tr' x ⟨⟨span, rfl⟩, rfl, rfl⟩
    refine ⟨⟨?_, ?_⟩, Trace.append_pos Nat.one_pos, rfl⟩
    · simp [Tree.print_access_name hi, hv.text_eq, String.append_assoc]
    · simp [hv.nest_eq]

/-- A link by a dot, a bracket or an argument list. -/
theorem plainLink (hp : Mirrors p p' k) (hb : Alike base base') (ht : Alike t t') :
    Tracks [] (k + 1) .normal .normal t t' (Grammar.plainLink p ctx start base)
      (Grammar.plainLink p' ctx start' base') (LinksOption base) := by
  have hsome : ∀ {x : Expr} {tr : Trace} {u : Token}, Links base x tr u →
      LinksOption base (some x) tr u := by
    intro x tr u h
    exact ⟨fun y hy => by cases hy; exact h, by simp⟩
  unfold Grammar.plainLink
  refine look ht ?_
  refine ite (ht.isPunctuator _) (fun hs => ?_) fun _ => ite (ht.isPunctuator _) (fun _ => ?_)
    fun _ => ite (ht.isPunctuator _) (fun _ => ?_) fun _ => pure ⟨by simp, fun _ => rfl⟩ alike_none
  · refine lead notTag ht (.punctuator hs) fun u u' hu => seq (accessName hu) ?_
    rintro v v' tr w w' ⟨⟨hv, -⟩, hi⟩ ha hw
    refine map (Nat.le_refl _) (finishAccess hb ha hw) ?_ fun _ _ h => alike_some.2 h
    rintro e tr' x ⟨⟨span, rfl⟩, rfl, rfl⟩
    refine hsome ⟨⟨?_, ?_⟩, Trace.append_pos Nat.one_pos, rfl⟩
    · simp [Tree.print_access_name hi, hv.text_eq, String.append_assoc]
    · simp [hv.nest_eq]
  · refine bind (by omega) (accessIndex hp ht) ?_
    rintro v v' tr w w' ⟨⟨hv, hc⟩, hi⟩ ha hw
    refine map (Nat.le_refl _) (finishAccess hb ha hw) ?_ fun _ _ h => alike_some.2 h
    rintro e tr' x ⟨⟨span, rfl⟩, rfl, rfl⟩
    refine hsome ⟨⟨?_, ?_⟩, Trace.append_pos hc, rfl⟩
    · simp [Tree.print_access_index hi, hv.text_eq]
    · simp [hv.nest_eq]
  · refine bind (by omega) (argumentList hp ht) ?_
    rintro v v' tr w w' ⟨hv, hc⟩ ha hw
    refine map (Nat.le_refl _) (finishCall hb ha hw) ?_ fun _ _ h => alike_some.2 h
    rintro e tr' x ⟨⟨span, rfl⟩, rfl, rfl⟩
    refine hsome ⟨⟨?_, ?_⟩, Trace.append_pos hc, rfl⟩
    · simp [Tree.print_eq, hv.text_eq]
    · simp [hv.nest_eq]

/-- One further link of a chain. -/
theorem chainLink (hp : Mirrors p p' k) {c c' : Chain} (hc : Alike c c') (ht : Alike t t') :
    Tracks [] (k + 1) .normal .normal t t' (Grammar.chainLink p ctx start c)
      (Grammar.chainLink p' ctx start' c') fun w tr u =>
        (∀ x ∈ w, Links c.value x.value tr u) ∧ (w = none → tr = .empty) := by
  unfold Grammar.chainLink
  dsimp only
  rw [hc.chainOptional]
  refine look ht (ite (ht.isPunctuator _) (fun hs => ?_) fun _ => ?_)
  · refine wrap (by omega) (optionalLink hp hc.chainValue ht hs) ?_ fun _ _ h =>
      alike_some.2 (h.chain _)
    rintro e tr u he
    exact ⟨fun x hx => by cases hx; exact he, by simp⟩
  -- A template that is a link is read to its end.
  have htakes : ∀ (w : Option Chain) (tr : Trace) (u : Token),
      (∃ x, w = some x ∧ Links c.value x.value tr u) → (0 < tr.count ∧ tr.nest [] ≠ none) ∧
        (∀ x ∈ w, Links c.value x.value tr u) ∧ (w = none → tr = .empty) := by
    rintro w tr u ⟨x, rfl, hx⟩
    exact ⟨⟨hx.2.1, by simp [hx.1.nest_eq]⟩, fun y hy => by cases hy; exact hx, by simp⟩
  refine iteHead id (fun hh => guard (by simp) rfl fun _ => ?_) htakes fun hh => ⟨hh, ?_⟩
  · refine wrap (by omega) (taggedTemplate hp hc.chainValue ht hh)
      (fun e tr u he => ⟨_, rfl, he⟩) ?_
    exact fun _ _ h => alike_some.2 (h.chain _)
  · refine wrap (by omega) (plainLink hp hc.chainValue ht) ?_ ?_
    · rintro w tr u ⟨hw, hn⟩
      exact ⟨by simpa [Links] using hw, by simpa using hn⟩
    · intro w w' h
      cases w <;> cases w' <;> simp_all [Alike.chain]

/-! ## Beginnings -/

/-- The superclass as callee or object. -/
theorem superclass (ht : Alike t t') (hs : t.isKeyword "super" = true) :
    Tracks [] fuel .normal .normal t t' (Grammar.superclass ctx) (Grammar.superclass ctx)
      fun e tr u => Tells e tr u ∧ e.ident? = none := by
  unfold Grammar.superclass
  refine next notTag ht (.keyword hs) fun u u' hu => look hu ?_
  refine guard (by simp) (by rw [hu.isOneOf]) fun _ => finish (by decide) hu fun span span' => ?_
  refine pure ⟨⟨⟨?_, ?_⟩, Nat.one_pos, rfl⟩, rfl⟩ (.of_tree (by simp [ht.lead]))
  · simp [Tree.print_eq]
  · simp

/-- A pair of words, the first of which was taken. -/
theorem metaProperty {first first' : Token} {word : String} {check check' : Parse Unit}
    (hf : Alike first first') (hk : first.kind = .keyword) (ht : Alike t t')
    (hdot : t.isPunctuator "." = true)
    (hcheck : ∀ {fuel : Nat} {u u' : Token}, Alike u u' →
      Tracks [] fuel .normal .normal u u' check check' (Still (fun _ => True) u)) :
    Tracks [] fuel .normal .normal t t' (Grammar.metaProperty ctx first word check)
      (Grammar.metaProperty ctx first' word check') fun e tr _ =>
        Adds (first.lead ++ first.raw) e.print tr ∧ e.isConvertible = true ∧ e.ident? = none := by
  unfold Grammar.metaProperty
  refine finish (by decide) ht fun span span' => lead notTag ht (.punctuator hdot) fun u u' hu => ?_
  refine seesWord hu (guard (by simp) rfl fun hw => ?_)
  have hn : u.isAnyName = true := by simp_all [Token.isWord, Token.isAnyName]
  refine seq (anyName hu hn) ?_
  rintro id id' tr v v' ⟨hid, -, -⟩ ha hv
  refine Tracks.check (hcheck hv) fun _ _ w' _ _ hw => finish (by decide) hw fun span span' => ?_
  refine pure ⟨⟨?_, ?_⟩, rfl, rfl⟩ (.of_tree ?_)
  · simp [Tree.print_eq, Ident.print, hid.text_eq, String.append_assoc]
  · simp [hid.nest_eq]
  · rw [hf.lead, hf.raw (by simp [hk])]
    simp only [Tree.retouch_metaProperty, Ident.retouch_there, ha.ident]
    rfl

omit [Exchange] in
/-- A word that a pair of words begins with, and the pair. -/
theorem metaProperty_tells {first : Token} {word : String} {e : Expr} {tr : Trace} {u : Token}
    (hr : first.raw = word)
    (h : Adds (first.lead ++ first.raw) e.print tr ∧ e.isConvertible = true ∧ e.ident? = none) :
    Tells e (.word first.lead word ++ tr) u ∧ e.ident? = none := by
  obtain ⟨he, hcv, hid⟩ := h
  rw [hr] at he
  exact ⟨⟨he.spells ⟨by simp, fun _ => rfl⟩, Trace.append_pos Nat.one_pos, hcv⟩, hid⟩

/-- The creation of an object, or the target of a constructor. -/
theorem construct (hp : Mirrors p p' k) (ht : Alike t t') (hs : t.isKeyword "new" = true) :
    Tracks [] (k + 1) .normal .normal t t' (Grammar.construct p ctx) (Grammar.construct p' ctx)
      fun e tr u => Tells e tr u ∧ e.ident? = none := by
  have hk : t.kind = .keyword ∧ t.raw = "new" := by simpa [Token.isKeyword] using hs
  unfold Grammar.construct
  refine next notTag ht (.keyword hs) fun u u' hu => sees hu (ite rfl (fun hdot => ?_) fun _ => ?_)
  · refine imp (metaProperty ht hk.1 hu hdot fun hv => ?_) fun e tr v h => metaProperty_tells hk.2 h
    exact ite rfl (fun _ => tolerateLast hv) fun _ => pure ⟨trivial, rfl, rfl⟩ (.refl _ rfl)
  refine seesKeyword hu (guard (by simp) rfl fun _ => bind (by omega) (hp.callee _ hu) ?_)
  rintro base base' tr v v' ⟨hb, hc, -⟩ ha hv
  refine guard (by simp) ha.isCover fun _ => sees hv ?_
  extract_lets rest rest'
  have hrest : ∀ {args args' : Tree (.maybe .arguments)} {fuel : Nat} {w w' : Token} {tr' : Trace},
      Spells args.print tr' → Alike args args' → Alike w w' →
      Tracks [] fuel .normal .normal w w' (rest args) (rest' args') fun e tr₁ u =>
        Tells e (.word t.lead "new" ++ (tr ++ (tr' ++ tr₁))) u ∧ e.ident? = none := by
    intro args args' fuel w w' tr' hargs haa hw
    refine finish (by decide) hw fun span span' => pure
      ⟨⟨⟨?_, ?_⟩, Trace.append_pos Nat.one_pos, rfl⟩, rfl⟩ ?_
    · simp [Tree.print_eq, hb.text_eq, hargs.text_eq, String.append_assoc]
    · simp [hb.nest_eq, hargs.nest_eq]
    · exact .of_tree (by simp [ht.lead, ha.tree, haa.tree])
  refine ite rfl (fun _ => ?_) fun _ => ?_
  · refine assoc (bind (by omega) (argumentList hp hv) ?_)
    rintro args args' tr' w w' ⟨hargs, -⟩ haa hw
    exact hrest hargs (congrArg Tree.present haa) hw
  · have habsent : Spells (Tree.absent : Tree (.maybe .arguments)).print .empty :=
      ⟨by simp [Tree.print_eq], fun _ => rfl⟩
    refine pureThen (imp (hrest habsent (.refl _ rfl) hv) fun e tr' w h => ?_)
    rwa [Trace.empty_append] at h

/-- An import by a call, or the record of the module. -/
theorem importExpression (hp : Mirrors p p' k) (ht : Alike t t')
    (hs : t.isKeyword "import" = true) :
    Tracks [] (k + 1) .normal .normal t t' (Grammar.importExpression p ctx)
      (Grammar.importExpression p' ctx) fun e tr u => Tells e tr u ∧ e.ident? = none := by
  have hk : t.kind = .keyword ∧ t.raw = "import" := by simpa [Token.isKeyword] using hs
  unfold Grammar.importExpression
  refine next notTag ht (.keyword hs) fun u u' hu => sees hu (ite rfl (fun hdot => ?_) fun _ => ?_)
  · refine imp (metaProperty ht hk.1 hu hdot fun hv => ?_) fun e tr v h => metaProperty_tells hk.2 h
    exact ite rfl (fun _ => stuck (by simp)) fun _ => pure ⟨trivial, rfl, rfl⟩ (.refl _ rfl)
  refine expect (by simp) hu fun _ v v' hv => bind (by omega) (hp.assignment _ hv) ?_
  rintro e e' tr w w' ⟨he, -, -⟩ ha hw
  refine expect (by simp) hw fun _ x x' hx => finish (by decide) hx fun span span' => ?_
  refine pure ⟨⟨⟨?_, ?_⟩, Trace.append_pos Nat.one_pos, rfl⟩, rfl⟩ ?_
  · simp [Tree.print_eq, he.text_eq, String.append_assoc]
  · simp [he.nest_eq]
  · exact .of_tree (by simp [ht.lead, ha.tree])

/-! ## Chains -/

/-- The beginning of a chain. -/
theorem chainHead (hp : Mirrors p p' k) (ht : Alike t t') :
    Tracks [] (k + 1) .normal .normal t t' (Grammar.chainHead p ctx) (Grammar.chainHead p' ctx)
      (TellsFrom t) := by
  unfold Grammar.chainHead
  refine look ht (ite (ht.isKeyword _) (fun hs => ?_) fun _ => ?_)
  · exact imp (superclass ht hs) fun e tr u h => .of_none h
  refine ite (ht.isKeyword _) (fun hs => ?_) fun _ => ?_
  · exact imp (construct hp ht hs) fun e tr u h => .of_none h
  refine ite (ht.isKeyword _) (fun hs => ?_) fun _ => operand hp ht
  exact imp (importExpression hp ht hs) fun e tr u h => .of_none h

/-- Behind the name `async`, the parameters of an arrow function or a call. -/
theorem asyncCall (hp : Mirrors p p' k) {name name' : Ident} (hn : Alike name name')
    (hname : name.raw = "async") (ht : Alike t t') :
    Tracks [] (k + 1) .normal .normal t t' (Grammar.asyncCall p ctx start name)
      (Grammar.asyncCall p' ctx start' name') fun e tr _ =>
        Adds name.print e.print tr ∧ e.isConvertible = true := by
  have hr := hp.rounds
  have hlead : name'.lead = name.lead := by
    change (unplace name').lead = (expected name).lead
    rw [hn.eq]
  unfold Grammar.asyncCall
  refine pending ht fun o o' ho => setPending ht alike_none (bind (by omega) (readGroup hp ht) ?_)
  rintro g g' tr u u' ⟨hg, hc, hcv⟩ ha hu
  obtain ⟨hopen, hitems, hseps, hclose⟩ := group_fields ha
  have hvs := (group_values hitems).trees
  refine look hu (ite (by rw [hu.isPunctuator, hu.newlineBefore]) (fun _ => ?_) fun _ => ?_)
  · refine setPending hu ho (extent hu fun span span' => pure ⟨⟨?_, ?_⟩, ?_⟩ (.of_tree ?_))
    · simp [Group.unresolved, Tree.print_eq, hg.text_eq, groupText, printMark, Ident.print, hname,
        String.append_assoc]
    · simp [hg.nest_eq]
    · exact (Tree.isConvertible_ofList _).2 hcv
    · simp [Group.unresolved, hopen, hseps, hclose, hvs, hlead]
  refine check (rejectPending hu) fun _ _ w' _ _ hw => setPending hw ho ?_
  rw [hopen, hseps, hclose]
  refine check (finishCall (congrArg Tree.identifier hn) (.of_tree (by simp [hvs])) hw) ?_
  rintro e e' x' ⟨span, rfl⟩ he hx
  refine imp (iterate (by omega) (by omega) (P := (·.isConvertible = true))
    (fun _ h₁ h₂ => plainLink hp h₁ h₂) _ rfl he
    hx) ?_
  rintro v tr' y ⟨hv, hcv⟩
  refine ⟨⟨?_, ?_⟩, hcv⟩
  · rw [hv.text_eq]
    simp [Tree.print_eq, hg.text_eq, groupText, String.append_assoc]
  · simp [hg.nest_eq, hv.nest_eq]

omit [Exchange] in
theorem asyncCallee_other {first : Token} {value : Expr} (h : value.ident? = none) :
    Grammar.asyncCallee first value = Parse.look >>= fun _ => Pure.pure none := by
  unfold Grammar.asyncCallee
  cases value <;> first | rfl | cases h

/-- The name `async`, if it is what a chain begins with. -/
theorem asyncCallee {first first' : Token} {value value' : Expr} (hf : Alike first first')
    (hv : Alike value value') (ht : Alike t t') :
    Tracks [] fuel .normal .normal t t' (Grammar.asyncCallee first value)
      (Grammar.asyncCallee first' value')
      (Still (fun o => ∀ id ∈ o, value = .identifier id ∧ first.isWord "async" = true) t) := by
  cases hi : value.ident? with
  | some id =>
    obtain rfl := Tree.eq_identifier hi
    obtain ⟨id', rfl, hid⟩ := hv.identifier
    unfold Grammar.asyncCallee
    refine look ht (ite ?_ (fun hb => ?_) fun _ => pure ⟨by simp, rfl, rfl⟩ alike_none)
    · rw [hf.isWord, ht.isPunctuator, ht.newlineBefore]
    · simp only [Bool.and_eq_true] at hb
      refine pure ⟨?_, rfl, rfl⟩ (alike_some.2 hid)
      intro x hx
      cases hx
      exact ⟨rfl, hb.1.1⟩
  | none =>
    rw [asyncCallee_other hi, asyncCallee_other (hv.ident?_none hi)]
    exact look ht (pure ⟨by simp, rfl, rfl⟩ alike_none)

/-- An operand with accesses and calls. -/
theorem chain (hp : Mirrors p p' k) :
    Follows (k + 1) (Grammar.chain p ctx) (Grammar.chain p' ctx) Tells := by
  intro t t' ht
  have hr := hp.rounds
  unfold Grammar.chain
  refine look ht (bind (by omega) (chainHead hp ht) ?_)
  rintro v v' tr u u' ⟨⟨hv, hc, hcv⟩, hid⟩ ha hu
  refine check (asyncCallee ht ha hu) fun o o' w' ho hoo hw => ?_
  cases o with
  | some name =>
    cases o' with
    | none => exact absurd hoo not_alike_some_none
    | some name' =>
      obtain ⟨rfl, hfirst⟩ := ho name rfl
      have hname : name.raw = "async" := by
        rw [hid name rfl]
        simp_all [Token.isWord]
      refine weaken (asyncCall hp (alike_some.1 hoo) hname hw) ?_ (by omega)
      rintro e tr' x ⟨he, hecv⟩
      have hprint : (Tree.identifier name).print = name.print := by simp [Tree.print_eq]
      rw [hprint] at hv
      exact ⟨he.spells hv, Trace.append_pos hc, hecv⟩
  | none =>
    cases o' with
    | some name' => exact absurd hoo not_alike_none_some
    | none =>
      refine seq (iterate (by omega) (by omega) (P := (·.value.isConvertible = true))
        (fun _ h₁ h₂ => chainLink hp h₁ h₂) _ hcv (ha.chain _) hw) ?_
      rintro c c' tr' x x' ⟨hadds, hccv⟩ hcc hx
      refine pure ?_ hcc.chainValue
      rw [Trace.append_empty]
      exact ⟨hadds.spells hv, Trace.append_pos hc, hccv⟩

/-- One further access of a callee. -/
theorem calleeLink (hp : Mirrors p p' k) (hb : Alike base base') (ht : Alike t t') :
    Tracks [] (k + 1) .normal .normal t t' (Grammar.calleeLink p ctx start base)
      (Grammar.calleeLink p' ctx start' base') (LinksOption base) := by
  unfold Grammar.calleeLink
  refine look ht (guard (by simp) (ht.isPunctuator _) fun _ => ?_)
  have htakes : ∀ (w : Option Expr) (tr : Trace) (u : Token),
      (∃ x, w = some x ∧ Links base x tr u) → (0 < tr.count ∧ tr.nest [] ≠ none) ∧
        LinksOption base w tr u := by
    rintro w tr u ⟨x, rfl, hx⟩
    exact ⟨⟨hx.2.1, by simp [hx.1.nest_eq]⟩, fun y hy => by cases hy; exact hx, by simp⟩
  refine iteHead id (fun hh => ?_) htakes fun hh => ⟨hh, ?_⟩
  · exact map (by omega) (taggedTemplate hp hb ht hh) (fun e tr u he => ⟨_, rfl, he⟩)
      fun _ _ h => alike_some.2 h
  · exact ite (ht.isPunctuator _) (fun _ => pure ⟨by simp, fun _ => rfl⟩ alike_none) fun _ =>
      plainLink hp hb ht

/-- An operand with accesses only. -/
theorem callee (hp : Mirrors p p' k) :
    Follows (k + 1) (Grammar.callee p ctx) (Grammar.callee p' ctx) Tells := by
  intro t t' ht
  have hr := hp.rounds
  unfold Grammar.callee
  refine look ht ?_
  extract_lets rest rest'
  have hrest : ∀ {v v' : Expr} {tr : Trace} {u u' : Token}, Tells v tr u → Alike v v' →
      Alike u u' → Tracks [] (k + 1 - tr.count) .normal .normal u u' (rest v) (rest' v')
        fun e tr' w =>
        Tells e (tr ++ tr') w := by
    rintro v v' tr u u' ⟨hv, hc, hcv⟩ ha hu
    refine imp (iterate (by omega) (by omega) (P := (·.isConvertible = true))
      (fun _ h₁ h₂ => calleeLink hp h₁ h₂) _ hcv
      ha hu) ?_
    rintro e tr' w ⟨hadds, hecv⟩
    exact ⟨hadds.spells hv, Trace.append_pos hc, hecv⟩
  refine ite (ht.isKeyword _) (fun hs => ?_) fun _ => ite (ht.isKeyword _)
    (fun hs => ?_) fun _ => ?_
  · exact bind (by omega) (construct hp ht hs) fun v v' tr u u' h ha hu => hrest h.1 ha hu
  · exact seq (superclass ht hs) fun v v' tr u u' h ha hu => hrest h.1 ha hu
  · exact bind (by omega) (operand hp ht) fun v v' tr u u' h ha hu => hrest h.1 ha hu

end Tracks

end Verbatim
