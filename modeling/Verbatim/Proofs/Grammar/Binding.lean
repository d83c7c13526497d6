import Verbatim.Proofs.Grammar.Literal

/-!
# Bindings are tracked

Names and patterns in declarations and parameter lists, and the checks of parameter names.

## Main results

* `Verbatim.Tracks.binding`, `Verbatim.Tracks.bindingElement`, `Verbatim.Tracks.bindingRest`.
* `Verbatim.Tracks.checkParameters`.
-/

namespace Verbatim

/-! ## The names of alike patterns -/

namespace Tree

variable (ρ : Retouch)

/-- The names that a pattern binds stay as they are. -/
theorem names_retouch {c : Category} (t : Tree c) :
    (t.retouch ρ).boundNames.map (·.name) = t.boundNames.map (·.name) := by
  induction t
  case arrayPattern ih => exact ih
  case objectPattern ih => exact ih
  case defaultPattern ih _ => exact ih
  case restPattern ih => exact ih
  case patternProperty ih => exact ih
  case restMember ih => exact ih
  case cons head tail ih ih' =>
    change ((head.retouch ρ).boundNames ++ (tail.retouch ρ).boundNames).map _ =
      (head.boundNames ++ tail.boundNames).map _
    rw [List.map_append, List.map_append, ih, ih']
  case present ih => exact ih
  all_goals rfl

theorem isName_retouch (p : Pattern) : (p.retouch ρ).isName = p.isName := by
  cases p <;> rfl

theorem parameters_retouch (params : Tree .params) :
    (params.retouch ρ).parameters = params.parameters.map (·.retouch ρ) := by
  cases params
  exact toList_retouch ρ _

theorem names_mapSpans (g : Span → Span) {c : Category} (t : Tree c) :
    (t.mapSpans g).boundNames.map (·.name) = t.boundNames.map (·.name) := by
  rw [mapSpans_eq_retouch, names_retouch]

theorem isName_mapSpans (g : Span → Span) (p : Pattern) : (p.mapSpans g).isName = p.isName := by
  rw [mapSpans_eq_retouch, isName_retouch]

theorem parameters_mapSpans (g : Span → Span) (params : Tree .params) :
    (params.mapSpans g).parameters = params.parameters.map (·.mapSpans g) := by
  simp only [mapSpans_eq_retouch, parameters_retouch]

end Tree

variable [Exchange]

namespace Alike

/-- Alike patterns bind the same names. -/
theorem names {p p' : Pattern} (h : Alike p p') :
    p'.boundNames.map (·.name) = p.boundNames.map (·.name) :=
  h.congr (fun p => p.boundNames.map (·.name)) fun ρ _ => Tree.names_retouch ρ

/-- Alike patterns bind the same names. -/
theorem allNames {ps ps' : List Pattern} (h : Alike ps ps') :
    (ps'.flatMap (·.boundNames)).map (·.name) = (ps.flatMap (·.boundNames)).map (·.name) := by
  induction ps generalizing ps' with
  | nil =>
    cases ps' with
    | nil => rfl
    | cons => exact absurd h not_alike_nil_cons
  | cons q ps ih =>
    cases ps' with
    | nil => exact absurd h not_alike_cons_nil
    | cons q' ps' =>
      obtain ⟨hq, hps⟩ := alike_cons.1 h
      rw [List.flatMap_cons, List.flatMap_cons, List.map_append, List.map_append, hq.names, ih hps]

theorem isNamePattern {p p' : Pattern} (h : Alike p p') : p'.isName = p.isName :=
  h.congr _ fun ρ _ => Tree.isName_retouch ρ

theorem parameters {params params' : Tree .params} (h : Alike params params') :
    Alike params.parameters params'.parameters := by
  change List.map _ _ = List.map _ _
  have he := congrArg Tree.parameters h.tree
  rwa [Tree.parameters_retouch, Tree.parameters_retouch] at he

/-- Alike lists of patterns consist of names only, or none does. -/
theorem allAreNames {ps ps' : List Pattern} (h : Alike ps ps') :
    ps'.all (·.isName) = ps.all (·.isName) := by
  have he := congrArg (List.all · (·.isName)) h.trees
  simpa [List.all_map, Function.comp_def, Tree.isName_retouch] using he.symm

theorem isSimple {params params' : Tree .params} (h : Alike params params') :
    params'.isSimple = params.isSimple :=
  h.parameters.allAreNames

end Alike

namespace Tracks

open Verbatim.Grammar

variable {β : Type} [Placed β] {fuel k : Nat} {m : Mode} {t t' : Token} {ctx : Context}
  {p p' : Productions} {restricted : Fault}

/-! ## Parts of patterns -/

/-- A default behind a target. -/
theorem withDefault (hp : Mirrors p p' k) {start start' : Position} {target target' : Pattern}
    (htarget : Alike target target') (ht : Alike t t') :
    Tracks [] k .normal .normal t t' (Grammar.withDefault p ctx start target)
      (Grammar.withDefault p' ctx start' target') fun v tr _ =>
        Adds target.print v.print tr := by
  unfold Grammar.withDefault
  refine accept (by simp) ht (fun _ u u' hu => ?_) fun _ => pure (.refl _) htarget
  refine bind (by omega) (hp.assignment _ hu) ?_
  rintro e e' tr w w' ⟨he, -, -⟩ ha hw
  refine finish (by decide) hw fun span span' => pure ⟨?_, ?_⟩
    (.of_tree (by simp [htarget.tree, ha.tree]))
  · simp [Tree.print_eq, he.text_eq, String.append_assoc]
  · simp [he.nest_eq]

theorem bindingElement (hp : Mirrors p p' k) :
    Follows k (Grammar.bindingElement p restricted ctx) (Grammar.bindingElement p' restricted ctx)
      Prints := by
  intro t t' ht
  unfold Grammar.bindingElement
  refine here ht (bind (by omega) (hp.binding _ _ ht) ?_)
  rintro target target' tr u u' ⟨htr, hc⟩ ha hu
  refine (withDefault hp ha hu).weaken ?_ (by omega)
  intro v tr' _ h
  exact ⟨h.spells htr, Trace.append_pos hc⟩

/-- A target for all that remains. -/
theorem bindingRest (hp : Mirrors p p' k) {close : String} {misplaced : Fault} :
    Follows (k + 1) (Grammar.bindingRest p restricted ctx close misplaced)
      (Grammar.bindingRest p' restricted ctx close misplaced) Prints := by
  intro t t' ht
  unfold Grammar.bindingRest
  dsimp only
  refine here ht (expect (by simp) ht fun _ u u' hu => bind (by omega) (hp.binding _ _ hu) ?_)
  rintro target target' tr w w' ⟨htr, -⟩ ha hw
  refine look hw (guard (by simp) (hw.isPunctuator _) fun _ => ?_)
  refine guard (by simp) (by rw [hw.isPunctuator]) fun _ => ?_
  refine finish (by decide) hw fun span span' => pure ⟨⟨?_, ?_⟩, Trace.append_pos Nat.one_pos⟩ ?_
  · simp [Tree.print_eq, htr.text_eq, String.append_assoc]
  · simp [htr.nest_eq]
  · exact .of_tree (by simp [ha.tree])

/-! ## Patterns -/

/-- A round of an array pattern reads a hole, an element or the rest element. -/
theorem arrayBindingRound (hp : Mirrors p p' k) :
    Follows k (Grammar.arrayBindingRound p restricted ctx)
      (Grammar.arrayBindingRound p' restricted ctx)
      (Parse.Round.Spells (·.print) fun _ => True) := by
  intro t t' ht
  unfold Grammar.arrayBindingRound
  refine sees ht (ite rfl (fun _ => ?_) fun _ => ?_)
  · refine separator ht fun u u' hu => pure ⟨⟨?_, ?_⟩, Trace.append_pos Nat.one_pos, trivial⟩
      (.refl _ rfl)
    · simp [Tree.print_eq]
    · simp
  refine sees ht (ite rfl (fun _ => ?_) fun _ => ?_)
  · refine wrap (by omega) (bindingRest hp ht) ?_ fun v v' h => ?_
    · rintro v tr u ⟨hv, hc⟩
      exact ⟨hv, hc, trivial⟩
    · exact congrArg (fun x => Parse.Round.last (Tree.present x)) h
  · refine wrap (by omega) (bindingElement hp ht) ?_ fun v v' h => ?_
    · rintro v tr u ⟨hv, hc⟩
      exact ⟨hv, hc, trivial⟩
    · exact congrArg (fun x => Parse.Round.item (Tree.present x)) h

/-- An array pattern. -/
theorem arrayBinding (hp : Mirrors p p' k) :
    Follows (k + 1) (Grammar.arrayBinding p restricted ctx) (Grammar.arrayBinding p' restricted ctx)
      Prints := by
  intro t t' ht
  have hr := hp.rounds
  unfold Grammar.arrayBinding
  refine here ht (expect (by simp) ht fun _ u u' hu => ?_)
  refine seq (listed (by omega) (by omega) (arrayBindingRound hp) _ hu) ?_
  rintro ⟨vs, seps⟩ ⟨vs', seps'⟩ tr w w' ⟨htr, -, -⟩ ha hw
  obtain ⟨hvs, hseps⟩ := alike_prod.1 ha
  obtain rfl := alike_list_string.1 hseps
  refine expect (by simp) hw fun _ x x' hx => finish (by decide) hx fun span span' =>
    pure ⟨⟨?_, ?_⟩, Trace.append_pos Nat.one_pos⟩ ?_
  · simp [Tree.print_eq, htr.text_eq, String.append_assoc]
  · simp [htr.nest_eq]
  · exact .of_tree (by simp [hvs.trees])

/-- One property of an object pattern. -/
theorem bindingProperty (hp : Mirrors p p' k) :
    Follows k (Grammar.bindingProperty p restricted ctx)
      (Grammar.bindingProperty p' restricted ctx) Prints := by
  intro t t' ht
  unfold Grammar.bindingProperty
  dsimp only
  -- A name in front of a colon is a key, and any other name both key and target.
  have hlong : Tracks [] k .normal .normal t t'
      (do
        let name ← Grammar.key p ctx false
        let colonLead ← Parse.expect ctx ":"
        let value ← Grammar.bindingElement p restricted ctx
        let span ← Parse.finish .property t.start
        return Tree.patternProperty name value false colonLead span)
      (do
        let name ← Grammar.key p' ctx false
        let colonLead ← Parse.expect ctx ":"
        let value ← Grammar.bindingElement p' restricted ctx
        let span ← Parse.finish .property t'.start
        return Tree.patternProperty name value false colonLead span) Prints := by
    refine bind (by omega) (key hp ht) ?_
    rintro name name' tr u u' ⟨hname, hc⟩ hn hu
    refine expect (by simp) hu fun _ w w' hw => bind (by omega) (bindingElement hp hw) ?_
    rintro v v' tr' x x' ⟨hv, -⟩ ha hx
    refine finish (by decide) hx fun span span' => pure ⟨⟨?_, ?_⟩, Trace.append_pos hc⟩ ?_
    · simp [Tree.print_eq, hname.text_eq, hv.text_eq, String.append_assoc]
    · simp [hname.nest_eq, hv.nest_eq]
    · exact .of_tree (by simp [hn.tree, ha.tree])
  have hshort : Tracks [] k .normal .normal t t'
      (do
        let id ← Grammar.bindingName restricted ctx
        let value ← Grammar.withDefault p ctx t.start (.namePattern id)
        let span ← Parse.finish .property t.start
        return Tree.patternProperty (.nameKey id.bare) value true "" span)
      (do
        let id ← Grammar.bindingName restricted ctx
        let value ← Grammar.withDefault p' ctx t'.start (.namePattern id)
        let span ← Parse.finish .property t'.start
        return Tree.patternProperty (.nameKey id.bare) value true "" span) Prints := by
    refine seq (bindingName ht) ?_
    rintro id id' tr u u' ⟨hid, hc⟩ hn hu
    refine bind (by omega) (withDefault hp (congrArg Tree.namePattern hn) hu) ?_
    rintro v v' tr' x x' hv ha hx
    refine finish (by decide) hx fun span span' => pure ⟨⟨?_, ?_⟩, Trace.append_pos (by omega)⟩ ?_
    · have htext := hv.text_eq
      simp [Tree.print_eq] at htext
      simp [Tree.print_eq, hid.text_eq, htext]
    · simp [hid.nest_eq, hv.nest_eq]
    · exact .of_tree (by simp [hn.bare.ident, ha.tree])
  refine here ht (look ht (ite ht.isName (fun hn => ?_) fun _ => ?_))
  · refine (peek ht (.inl (by simpa [Token.isName] using hn)) fun u u' hu => pureThen ?_)
    exact ite (by rw [hu.isPunctuator]) (fun _ => hshort) fun _ => hlong
  · exact pureThen hlong

/-- A target for all remaining properties. -/
theorem bindingMemberRest :
    Follows fuel (Grammar.bindingMemberRest restricted ctx)
      (Grammar.bindingMemberRest restricted ctx) Prints := by
  intro t t' ht
  unfold Grammar.bindingMemberRest
  dsimp only
  refine here ht (expect (by simp) ht fun _ u u' hu => seq (bindingName hu) ?_)
  rintro id id' tr w w' ⟨hid, -⟩ ha hw
  refine look hw (guard (by simp) (by rw [hw.isPunctuator]) fun _ => ?_)
  refine finish (by decide) hw fun span span' => pure ⟨⟨?_, ?_⟩, Trace.append_pos Nat.one_pos⟩ ?_
  · simp [Tree.print_eq, hid.text_eq, String.append_assoc]
  · simp [hid.nest_eq]
  · exact .of_tree (by simp [ha.ident])

/-- A round of an object pattern reads a property or the rest element. -/
theorem objectBindingRound (hp : Mirrors p p' k) :
    Follows k (Grammar.objectBindingRound p restricted ctx)
      (Grammar.objectBindingRound p' restricted ctx)
      (Parse.Round.Spells (·.print) fun _ => True) := by
  intro t t' ht
  unfold Grammar.objectBindingRound
  refine sees ht (ite rfl (fun _ => ?_) fun _ => ?_)
  · refine wrap (Nat.le_refl _) (bindingMemberRest ht) ?_ fun v v' h => congrArg Parse.Round.last h
    rintro v tr u ⟨hv, hc⟩
    exact ⟨hv, hc, trivial⟩
  · refine wrap (by omega) (bindingProperty hp ht) ?_ fun v v' h => congrArg Parse.Round.item h
    rintro v tr u ⟨hv, hc⟩
    exact ⟨hv, hc, trivial⟩

/-- An object pattern. -/
theorem objectBinding (hp : Mirrors p p' k) :
    Follows (k + 1) (Grammar.objectBinding p restricted ctx)
      (Grammar.objectBinding p' restricted ctx) Prints := by
  intro t t' ht
  have hr := hp.rounds
  unfold Grammar.objectBinding
  refine here ht (expect (by simp) ht fun _ u u' hu => ?_)
  refine seq (listed (by omega) (by omega) (objectBindingRound hp) _ hu) ?_
  rintro ⟨vs, seps⟩ ⟨vs', seps'⟩ tr w w' ⟨htr, -, -⟩ ha hw
  obtain ⟨hvs, hseps⟩ := alike_prod.1 ha
  obtain rfl := alike_list_string.1 hseps
  refine expect (by simp) hw fun _ x x' hx => finish (by decide) hx fun span span' =>
    pure ⟨⟨?_, ?_⟩, Trace.append_pos Nat.one_pos⟩ ?_
  · simp [Tree.print_eq, htr.text_eq, String.append_assoc]
  · simp [htr.nest_eq]
  · exact .of_tree (by simp [hvs.trees])

/-- Names and patterns. -/
theorem binding (hp : Mirrors p p' k) :
    Follows (k + 1) (Grammar.binding p restricted ctx) (Grammar.binding p' restricted ctx)
      Prints := by
  intro t t' ht
  unfold Grammar.binding
  refine sees ht (ite rfl (fun _ => arrayBinding hp ht) fun _ => ?_)
  refine sees ht (ite rfl (fun _ => objectBinding hp ht) fun _ => ?_)
  refine wrap (Nat.le_refl _) (bindingName ht) ?_ fun _ _ h => congrArg Tree.namePattern h
  rintro id tr u ⟨hid, hc⟩
  exact ⟨by simpa [Tree.print_eq] using hid, by omega⟩

/-! ## Parameter names -/

/-- The names of parameters are checked alike, whatever place the complaints name. -/
theorem checkParameterNames {strict unique : Bool} {site site' : Site} (seen : List String)
    (ids ids' : List Ident) (hids : ids'.map (·.name) = ids.map (·.name)) (ht : Alike t t') :
    Tracks [] fuel m m t t' (Grammar.checkParameterNames strict unique site seen ids)
      (Grammar.checkParameterNames strict unique site' seen ids') (Still (fun _ => True) t) := by
  induction ids generalizing ids' seen with
  | nil =>
    obtain rfl : ids' = [] := List.map_eq_nil_iff.1 hids
    exact pure ⟨trivial, rfl, rfl⟩ (.refl _ rfl)
  | cons id ids ih =>
    cases ids' with
    | nil => simp at hids
    | cons id' ids' =>
      obtain ⟨hname, hrest⟩ : id'.name = id.name ∧ ids'.map (·.name) = ids.map (·.name) :=
        List.cons.inj hids
      unfold Grammar.checkParameterNames
      dsimp only
      rw [hname]
      have hlast := ih (id.name :: seen) ids' hrest
      refine checked ht rfl (checked ht rfl (ite rfl (fun _ => ?_) fun _ => hlast))
      exact ite rfl (fun _ => tolerate ht hlast) fun _ =>
        ite rfl (fun _ => tolerate ht hlast) fun _ => hlast

/-- The names of parameters are checked. -/
theorem checkParameters {strict unique : Bool} {site site' : Site} {params params' : List Pattern}
    (hparams : Alike params params') (ht : Alike t t') :
    Tracks [] fuel m m t t' (Grammar.checkParameters strict unique site params)
      (Grammar.checkParameters strict unique site' params') (Still (fun _ => True) t) :=
  checkParameterNames _ _ _ hparams.allNames ht

end Tracks

end Verbatim
