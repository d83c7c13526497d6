import Verbatim.Proofs.Grammar.Class
import Verbatim.Proofs.Grammar.Markup

/-!
# Operands are tracked

Array and object literals, arguments, groups in parentheses, and the other operands. Of each it is
also tracked that it may be converted to a pattern, and that an operand which is a name is spelled
as the token that it begins with.

## Main results

* `Verbatim.Tracks.arrayLiteral`, `Verbatim.Tracks.objectLiteral`, `Verbatim.Tracks.argumentList`.
* `Verbatim.Tracks.readGroup`, `Verbatim.Tracks.parenthesized` — groups.
* `Verbatim.Tracks.operand`.
-/

namespace Verbatim

/-- A list may be converted if its items may. -/
theorem Tree.isConvertible_ofList {c : Category} (items : List (Tree c)) :
    (Tree.ofList items).isConvertible = true ↔ ∀ x ∈ items, x.isConvertible = true := by
  induction items with
  | nil => exact iff_of_true rfl (List.forall_mem_nil _)
  | cons head tail ih =>
    change (head.isConvertible && (ofList tail).isConvertible) = true ↔ _
    rw [Bool.and_eq_true, ih, List.forall_mem_cons]

variable [Exchange]

/-- What is alike to a name as key is such a key. -/
theorem Alike.nameKey {id : Ident} {name' : Tree .key} (h : Alike (.nameKey id) name') :
    ∃ id', name' = .nameKey id' ∧ Alike id id' := by
  cases name' with
  | nameKey id' => exact ⟨id', rfl, Tree.nameKey.inj h⟩
  | literalKey | privateKey | computedKey => cases h

namespace Tracks

open Verbatim.Grammar

variable {fuel k : Nat} {m : Mode} {t t' : Token} {ctx : Context} {p p' : Productions}
  {start start' : Position}

/-! ## Spread -/

/-- An item of a list, or all values of an item. -/
theorem spreadOr {value value' : Parse Expr} (h : Follows k value value' Tells) :
    Follows k (Grammar.spreadOr value) (Grammar.spreadOr value') Tells := by
  intro t t' ht
  unfold Grammar.spreadOr
  refine look ht (ite (ht.isPunctuator _) (fun hs => ?_) fun _ => h ht)
  refine lead notTag ht (.punctuator hs) fun u u' hu => bind (by omega) (h hu) ?_
  rintro e e' tr w w' ⟨he, -, hcv⟩ ha hw
  refine finish (by decide) hw fun span span' =>
    pure ⟨⟨?_, ?_⟩, Trace.append_pos Nat.one_pos, hcv⟩ ?_
  · simp [Tree.print_eq, he.text_eq, String.append_assoc]
  · simp [he.nest_eq]
  · exact .of_tree (by simp [ha.tree])

/-! ## Arrays -/

theorem arrayRound (hp : Mirrors p p' k) :
    Follows k (Grammar.arrayRound p ctx) (Grammar.arrayRound p' ctx)
      (Parse.Round.Spells (·.print) (·.isConvertible = true)) := by
  intro t t' ht
  unfold Grammar.arrayRound
  refine sees ht (ite rfl (fun _ => ?_) fun _ => ?_)
  · refine separator ht fun u u' hu => pure ⟨⟨?_, ?_⟩, Nat.one_pos, rfl⟩ (.refl _ rfl)
    · simp [Tree.print_eq]
    · simp
  · refine wrap (by omega) (spreadOr (hp.cover _) ht) (fun v tr u h => h) fun v v' h => ?_
    exact congrArg (fun x => Parse.Round.item (Tree.present x)) h

/-- An array literal. -/
theorem arrayLiteral (hp : Mirrors p p' k) :
    Follows (k + 1) (Grammar.arrayLiteral p ctx) (Grammar.arrayLiteral p' ctx)
      fun e tr u => Tells e tr u ∧ e.ident? = none := by
  intro t t' ht
  have hr := hp.rounds
  unfold Grammar.arrayLiteral
  refine here ht (expect (by simp) ht fun _ u u' hu => seq
    (listed (by omega) (by omega) (arrayRound hp) _ hu) ?_)
  rintro ⟨vs, seps⟩ ⟨vs', seps'⟩ tr w w' ⟨htr, -, hcv⟩ ha hw
  obtain ⟨hvs, hseps⟩ := alike_prod.1 ha
  obtain rfl := alike_list_string.1 hseps
  refine expect (by simp) hw fun _ x x' hx => finish (by decide) hx fun span span' =>
    pure ⟨⟨⟨?_, ?_⟩, Trace.append_pos Nat.one_pos, (Tree.isConvertible_ofList vs).2 hcv⟩, rfl⟩ ?_
  · simp [Tree.print_eq, htr.text_eq, String.append_assoc]
  · simp [htr.nest_eq]
  · exact .of_tree (by simp [hvs.trees])

/-! ## Objects -/

theorem markPending {site site' : Site} (ht : Alike t t') :
    Tracks [] fuel m m t t' (Grammar.markPending site) (Grammar.markPending site')
      (Still (fun _ => True) t) := by
  unfold Grammar.markPending
  refine pending ht fun o o' ho => congr .bindPure .bindPure (setPending ht (ho.or ?_) ?_)
  · exact alike_some.2 rfl
  · exact pure ⟨trivial, rfl, rfl⟩ (.refl _ rfl)

/-- The value of a shorthand property, behind its name. -/
theorem shorthandValue (hp : Mirrors p p' k) {id id' : Ident} (hid : Alike id id')
    (ht : Alike t t') :
    Tracks [] (k + 1) .normal .normal t t' (Grammar.shorthandValue p ctx start id)
      (Grammar.shorthandValue p' ctx start' id') fun v tr _ =>
        Adds id.print v.print tr ∧ v.isConvertible = true := by
  unfold Grammar.shorthandValue
  refine look ht (ite (ht.isPunctuator _) (fun hs => ?_) fun _ => ?_)
  · refine lead notTag ht (.punctuator hs) fun u u' hu =>
      check (markPending hu) fun _ _ w' _ _ hw => ?_
    refine bind (by omega) (hp.assignment _ hw) ?_
    rintro e e' tr x x' ⟨he, -, -⟩ ha hx
    refine finish (by decide) hx fun span span' => pure ⟨⟨?_, ?_⟩, rfl⟩ ?_
    · simp [Tree.print_eq, he.text_eq, AssignOp.text, String.append_assoc]
    · simp [he.nest_eq]
    · exact .of_tree (by simp [hid.ident, ha.tree])
  · exact pure ⟨⟨by simp [Tree.print_eq], fun _ => rfl⟩, rfl⟩ (congrArg Tree.identifier hid)

/-- The name of a shorthand property is its key. -/
theorem shorthandName {first first' : Token} {name name' : Tree .key}
    (hfirst : Alike first first') (hname : Alike name name') :
    Tracks [] fuel m m t t' (Grammar.shorthandName ctx first name)
      (Grammar.shorthandName ctx first' name')
      (Still (fun id => name = .nameKey id ∧ first.isName = true) t) := by
  unfold Grammar.shorthandName
  cases name with
  | nameKey id =>
    obtain ⟨id', rfl, hid⟩ := hname.nameKey
    exact ite hfirst.isName (fun hn => pure ⟨⟨rfl, hn⟩, rfl, rfl⟩ hid) fun _ => stuck (by simp)
  | literalKey | privateKey | computedKey => exact stuck (Parse.fails_unexpectedHere _)

/-- What a member of an object literal has taken. -/
structure TellsMember (v : Tree .member) (tr : Trace) (_ : Token) : Prop where
  /-- What has been taken spells the member. -/
  spells : Spells v.print tr
  /-- Something has been taken. -/
  pos : 0 < tr.count
  /-- The member may become part of a pattern. -/
  convertible : v.isConvertible = true

omit [Exchange] in
/-- Modifiers of which none is there. -/
theorem no_modifiers {mods : Modifiers} {kind : PropertyKind} {tr : Trace} {u : Token}
    (h : PrintsModifiers (mods, kind) tr u)
    (hno : (mods.asyncLead.isSome || mods.accessorLead.isSome || mods.starLead.isSome) = false) :
    mods = {} ∧ kind = .plain ∧ tr.text = "" := by
  obtain ⟨hmods, hstatic, hkind⟩ := h
  obtain ⟨staticLead, asyncLead, accessorLead, starLead⟩ := mods
  have hnone : asyncLead = none ∧ accessorLead = none ∧ starLead = none := by
    cases asyncLead <;> cases accessorLead <;> cases starLead <;> simp_all
  obtain ⟨rfl, rfl, rfl⟩ := hnone
  obtain rfl : staticLead = none := hstatic
  obtain rfl : kind = .plain := hkind.1 rfl
  exact ⟨rfl, rfl, hmods.text_eq⟩

/-- A property, method or accessor of an object literal. -/
theorem property (hp : Mirrors p p' k) :
    Follows (k + 1) (Grammar.property p ctx) (Grammar.property p' ctx) TellsMember := by
  intro t t' ht
  unfold Grammar.property
  refine here ht (seq (modifiers ht) ?_)
  rintro ⟨mods, kind⟩ ⟨mods', kind'⟩ tr u u' hmods ha hu
  obtain ⟨ham, hak⟩ := alike_prod.1 ha
  obtain rfl := alike_modifiers.1 ham
  obtain rfl := alike_propertyKind.1 hak
  have hmodsText := hmods.1.text_eq
  have hmodsNest := hmods.1.nest_eq
  refine look hu (bind (by omega) (key hp hu) ?_)
  rintro name name' tr' w w' ⟨hname, hc⟩ hn hw
  have hpos : ∀ tr₁ : Trace, 0 < (tr ++ (tr' ++ tr₁)).count :=
    fun tr₁ => Trace.append_pos_right (Trace.append_pos hc)
  dsimp only
  refine look hw (ite (by rw [hw.isPunctuator]) (fun hmethod => ?_) fun hplain => ?_)
  · refine bind (by omega) (methodFunction hp hw) ?_
    rintro v v' tr₁ x x' ⟨hv, -⟩ ha hx
    refine finish (by decide) hx fun span span' => pure ⟨⟨?_, ?_⟩, hpos _, ?_⟩ ?_
    · have hv := hv.text_eq
      cases kind <;>
        simp_all [Tree.print_eq, Tree.printIn, hname.text_eq]
    · simp [hmodsNest, hname.nest_eq, hv.nest_eq]
    · cases kind <;> rfl
    · exact .of_tree (by simp [hn.tree, ha.tree])
  have hno : (mods.asyncLead.isSome || mods.accessorLead.isSome || mods.starLead.isSome) = false :=
    (Bool.or_eq_false_iff.1 hplain).1
  obtain ⟨rfl, rfl, htext⟩ := no_modifiers hmods hno
  refine ite (hw.isPunctuator _) (fun hs => ?_) fun _ => ?_
  · refine lead notTag hw (.punctuator hs) fun x x' hx => bind (by omega) (hp.cover _ hx) ?_
    rintro e e' tr₁ y y' ⟨he, -, hcv⟩ ha hy
    refine finish (by decide) hy fun span span' => pure ⟨⟨?_, ?_⟩, hpos _, ?_⟩ ?_
    · simp [Tree.print_eq, htext, hname.text_eq, he.text_eq, Modifiers.print, printMark,
        String.append_assoc]
    · simp [hmodsNest, hname.nest_eq, he.nest_eq]
    · simp [Tree.isConvertible_property, hcv]
    · exact .of_tree (by simp [hn.tree, ha.tree])
  · refine check (shorthandName hu hn) fun id id' w' hid ha hw => ?_
    obtain ⟨rfl, hfirst⟩ := hid
    have hkind : u.kind = .identifier := by simpa [Token.isName] using hfirst
    refine check (checkReference hu (by simp [hkind])) fun _ _ w' _ _ hw => ?_
    refine bind (by omega) (shorthandValue hp ha hw) ?_
    rintro v v' tr₁ x x' ⟨hv, hcv⟩ hvv hx
    refine finish (by decide) hx fun span span' => pure ⟨⟨?_, ?_⟩, hpos _, ?_⟩ ?_
    · have hv := hv.text_eq
      have hname := hname.text_eq
      simp_all [Tree.print_eq]
    · simp [hmodsNest, hname.nest_eq, hv.nest_eq]
    · simp [Tree.isConvertible_property, hcv]
    · obtain ⟨id₁, rfl, hid⟩ := hn.nameKey
      exact .of_tree (by simp [hid.ident, hvv.tree])

theorem objectMember (hp : Mirrors p p' k) :
    Follows (k + 1) (Grammar.objectMember p ctx) (Grammar.objectMember p' ctx) TellsMember := by
  intro t t' ht
  unfold Grammar.objectMember
  refine look ht (ite (ht.isPunctuator _) (fun hs => ?_) fun _ => property hp ht)
  refine lead notTag ht (.punctuator hs) fun u u' hu => bind (by omega) (hp.cover _ hu) ?_
  rintro e e' tr w w' ⟨he, -, hcv⟩ ha hw
  refine finish (by decide) hw fun span span' =>
    pure ⟨⟨?_, ?_⟩, Trace.append_pos Nat.one_pos, hcv⟩ ?_
  · simp [Tree.print_eq, he.text_eq, String.append_assoc]
  · simp [he.nest_eq]
  · exact .of_tree (by simp [ha.tree])

/-- An object literal. -/
theorem objectLiteral (hp : Mirrors p p' k) :
    Follows (k + 1) (Grammar.objectLiteral p ctx) (Grammar.objectLiteral p' ctx)
      fun e tr u => Tells e tr u ∧ e.ident? = none := by
  intro t t' ht
  have hr := hp.rounds
  have hround : Follows k (Parse.Round.item <$> Grammar.objectMember p ctx.inside)
      (Parse.Round.item <$> Grammar.objectMember p' ctx.inside)
      (Parse.Round.Spells (·.print) (·.isConvertible = true)) :=
    fun ht => map (by omega) (objectMember hp ht) (fun v tr u h => ⟨h.spells, h.pos, h.convertible⟩)
      fun _ _ h => congrArg Parse.Round.item h
  unfold Grammar.objectLiteral
  refine here ht (expect (by simp) ht fun _ u u' hu => seq
    (listed (by omega) (by omega) hround _ hu) ?_)
  rintro ⟨vs, seps⟩ ⟨vs', seps'⟩ tr w w' ⟨htr, -, hcv⟩ ha hw
  obtain ⟨hvs, hseps⟩ := alike_prod.1 ha
  obtain rfl := alike_list_string.1 hseps
  refine expect (by simp) hw fun _ x x' hx => finish (by decide) hx fun span span' =>
    pure ⟨⟨⟨?_, ?_⟩, Trace.append_pos Nat.one_pos, (Tree.isConvertible_ofList vs).2 hcv⟩, rfl⟩ ?_
  · simp [Tree.print_eq, htr.text_eq, String.append_assoc]
  · simp [htr.nest_eq]
  · exact .of_tree (by simp [hvs.trees])

/-! ## Arguments -/

/-- Arguments in parentheses. -/
theorem argumentList (hp : Mirrors p p' k) :
    Follows (k + 1) (Grammar.argumentList p ctx) (Grammar.argumentList p' ctx) Prints := by
  intro t t' ht
  have hr := hp.rounds
  have hround : Follows k (Parse.Round.item <$> Grammar.spreadOr (p.assignment ctx.inside))
      (Parse.Round.item <$> Grammar.spreadOr (p'.assignment ctx.inside))
      (Parse.Round.Spells (·.print) fun _ => True) :=
    fun ht => map (by omega) (spreadOr (hp.assignment _) ht) (fun v tr u h => ⟨h.1, h.2.1, trivial⟩)
      fun _ _ h => congrArg Parse.Round.item h
  unfold Grammar.argumentList
  refine expect (by simp) ht fun _ u u' hu => seq (listed (by omega) (by omega) hround _ hu) ?_
  rintro ⟨vs, seps⟩ ⟨vs', seps'⟩ tr w w' ⟨htr, -, -⟩ ha hw
  obtain ⟨hvs, hseps⟩ := alike_prod.1 ha
  obtain rfl := alike_list_string.1 hseps
  refine expect (by simp) hw fun _ x x' hx => pure ⟨⟨?_, ?_⟩, Trace.append_pos Nat.one_pos⟩ ?_
  · simp [Tree.print_eq, htr.text_eq, String.append_assoc]
  · simp [htr.nest_eq]
  · exact .of_tree (by simp [hvs.trees])

/-! ## Groups -/

/-- An item of a group is read alike, before it is known what it is. -/
theorem groupItem (hp : Mirrors p p' k) :
    Follows k (Grammar.groupItem p ctx) (Grammar.groupItem p' ctx) fun v tr u =>
      Tells v.value tr u := by
  intro t t' ht
  unfold Grammar.groupItem
  refine here ht (bind (by omega) (spreadOr (hp.cover _) ht) ?_)
  rintro e e' tr u u' he ha hu
  refine lastEnd hu fun stop stop' => pure ?_ ?_
  · rw [Trace.append_empty]
    exact he
  · change GroupItem.mk (expected e) {} {} = _
    rw [ha.eq]
    rfl

/-- The text of a group. -/
def groupText (g : Group) : String :=
  g.openLead ++ ("(" ++ (joinList (g.values.map (·.print)) g.separators ++ (g.closeLead ++ ")")))

/-- What reading a group has taken. -/
structure TellsGroup (g : Group) (tr : Trace) (_ : Token) : Prop where
  /-- What has been taken spells the group. -/
  spells : Spells (groupText g) tr
  /-- Something has been taken. -/
  pos : 0 < tr.count
  /-- The items may become patterns. -/
  convertible : ∀ e ∈ g.values, e.isConvertible = true

/-- The items of a group are read alike, before it is known what they are. -/
theorem readGroup (hp : Mirrors p p' k) :
    Follows (k + 1) (Grammar.readGroup p ctx) (Grammar.readGroup p' ctx) TellsGroup := by
  intro t t' ht
  have hr := hp.rounds
  have hround : Follows k (Parse.Round.item <$> Grammar.groupItem p ctx.inside)
      (Parse.Round.item <$> Grammar.groupItem p' ctx.inside)
      (Parse.Round.Spells (·.value.print) (·.value.isConvertible = true)) :=
    fun ht => map (by omega) (groupItem hp ht) (fun v tr u h => h) fun _ _ h =>
      congrArg Parse.Round.item h
  unfold Grammar.readGroup
  refine expect (by simp) ht fun _ u u' hu => seq (listed (by omega) (by omega) hround _ hu) ?_
  rintro ⟨vs, seps⟩ ⟨vs', seps'⟩ tr w w' ⟨htr, -, hcv⟩ ha hw
  obtain ⟨hvs, hseps⟩ := alike_prod.1 ha
  obtain rfl := alike_list_string.1 hseps
  refine expect (by simp) hw fun _ x x' hx => pure ⟨⟨?_, ?_⟩, Trace.append_pos Nat.one_pos, ?_⟩ ?_
  · simp [groupText, Group.values, htr.text_eq, Function.comp_def, String.append_assoc]
  · simp [htr.nest_eq]
  · simpa [Group.values] using hcv
  · change Grammar.Group.mk _ (expected vs) _ _ = _
    rw [hvs.eq]
    rfl

section

variable {g g' : Group}

theorem group_fields (h : Alike g g') :
    g'.openLead = g.openLead ∧ Alike g.items g'.items ∧ g'.separators = g.separators ∧
      g'.closeLead = g.closeLead := by
  obtain ⟨openLead, items, separators, closeLead⟩ := g
  obtain ⟨openLead', items', separators', closeLead'⟩ := g'
  obtain ⟨rfl, hitems, rfl, rfl⟩ := Group.mk.inj h
  exact ⟨rfl, hitems, rfl, rfl⟩

theorem group_values (h : Alike g.items g'.items) : Alike g.values g'.values :=
  h.map fun a a' ha => by
    change (expected a).value = (unplace a').value
    rw [ha.eq]

/-- Alike groups have a spread item or have none. -/
theorem spreadSite_isSome (h : Alike g.items g'.items) :
    g'.spreadSite?.isSome = g.spreadSite?.isSome := by
  have hspread : ∀ e : Expr, ∀ ρ : Retouch, ∀ start stop,
      (GroupItem.mk (e.retouch ρ) start stop).isSpread = (GroupItem.mk e start stop).isSpread := by
    intro e
    cases e <;> intros <;> rfl
  have hany : ∀ (items : List GroupItem) (f : GroupItem → GroupItem),
      (∀ i, (f i).isSpread = i.isSpread) →
        ((items.map f).find? (·.isSpread)).isSome = (items.find? (·.isSpread)).isSome := by
    intro items f hf
    rw [List.find?_map, Option.isSome_map]
    simp only [Function.comp_def, hf]
  have he : g.items.map expected = g'.items.map unplace := h
  rw [Group.spreadSite?, Group.spreadSite?, Option.isSome_map, Option.isSome_map,
    ← hany _ unplace fun i => hspread i.value _ _ _, ← he,
      hany _ expected fun i => hspread i.value _ _ _]

theorem bounds_of_alike (h : Alike g.items g'.items) : Alike g.bounds? g'.bounds? := by
  have hhead : Alike g.items.head? g'.items.head? := by
    change g.items.head?.map expected = g'.items.head?.map unplace
    have he : g.items.map expected = g'.items.map unplace := h
    rw [← List.head?_map, he, List.head?_map]
  have hlast : Alike g.items.getLast? g'.items.getLast? := by
    change g.items.getLast?.map expected = g'.items.getLast?.map unplace
    have he : g.items.map expected = g'.items.map unplace := h
    rw [← List.getLast?_map, he, List.getLast?_map]
  unfold Group.bounds?
  cases h₁ : g.items.head? <;> cases h₂ : g.items.getLast? <;> cases h₁' : g'.items.head? <;>
    cases h₂' : g'.items.getLast? <;> simp_all

end

theorem rejectPending (ht : Alike t t') :
    Tracks [] fuel m m t t' Grammar.rejectPending Grammar.rejectPending
      (Still (fun _ => True) t) := by
  unfold Grammar.rejectPending
  refine pending ht fun o o' ho => ?_
  cases o with
  | none =>
    cases o' with
    | none => exact pure ⟨trivial, rfl, rfl⟩ (.refl _ rfl)
    | some => exact absurd ho not_alike_none_some
  | some site => exact stuck (Parse.fails_reject _ _)

/-- The expression that stands in a group with no comma behind its last item. -/
theorem groupValue {g g' : Group} (h : Alike g.items g'.items)
    (hseps : g'.separators = g.separators) (hshort : g.separators.length < g.items.length)
    (ht : Alike t t') :
    Tracks [] fuel m m t t' (Grammar.groupValue g) (Grammar.groupValue g')
      (Still (fun e => e.print = joinList (g.values.map (·.print)) g.separators) t) := by
  have hv := group_values h
  have hb := bounds_of_alike h
  have hlen : g.items.length = g.values.length := by simp [Group.values]
  unfold Grammar.groupValue
  rcases hvs : g.values with _ | ⟨e, _ | ⟨e₂, es⟩⟩
  · simp [hlen, hvs] at hshort
  · rw [hvs] at hv
    rcases hvs' : g'.values with _ | ⟨e', _ | ⟨e₂', es'⟩⟩
    · rw [hvs'] at hv; exact absurd hv not_alike_cons_nil
    · rw [hvs'] at hv
      have hnil : g.separators = [] := by
        rw [hlen, hvs] at hshort
        exact List.eq_nil_of_length_eq_zero (by simpa using hshort)
      refine pure ⟨?_, rfl, rfl⟩ (alike_cons.1 hv).1
      simp [hnil]
    · rw [hvs'] at hv; exact absurd (alike_cons.1 hv).2 not_alike_nil_cons
  · rw [hvs] at hv
    rcases hvs' : g'.values with _ | ⟨e', _ | ⟨e₂', es'⟩⟩
    · rw [hvs'] at hv; exact absurd hv not_alike_cons_nil
    · rw [hvs'] at hv; exact absurd (alike_cons.1 hv).2 not_alike_cons_nil
    · rw [hvs'] at hv
      cases hb₁ : g.bounds? with
      | none => exact stuck Parse.fails_stalled
      | some b =>
        cases hb₂ : g'.bounds? with
        | none => rw [hb₁, hb₂] at hb; exact absurd hb not_alike_some_none
        | some b' =>
          refine finishAt ht (by decide) fun span span' => pure ⟨?_, rfl, rfl⟩ ?_
          · simp [Tree.print_eq]
          · rw [hseps]
            exact .of_tree (by simp [hv.trees])

/-- A group that is no parameter list, behind its closing parenthesis. -/
theorem parenthesized {g g' : Group} (h : Alike g g') (ht : Alike t t') :
    Tracks [] fuel m m t t' (Grammar.parenthesized ctx start g)
      (Grammar.parenthesized ctx start' g')
      (Still (fun e => e.print = groupText g ∧ e.isConvertible = true ∧ e.ident? = none) t) := by
  obtain ⟨hopen, hitems, hseps, hclose⟩ := group_fields h
  have hsite := spreadSite_isSome hitems
  unfold Grammar.parenthesized
  dsimp only
  refine iteProp (by rw [hseps, hitems.length]) (fun _ => stuck (by simp)) fun hshort => ?_
  cases hs : g.spreadSite? with
  | some site => exact stuck (Parse.fails_bind (Parse.fails_fail _ _ _))
  | none =>
    obtain hs' : g'.spreadSite? = none := by simpa [hs] using hsite
    rw [hs']
    refine check (rejectPending ht) fun _ _ u' _ _ hu => ?_
    refine check (groupValue hitems hseps (by omega) hu) fun e e' w' he ha hw => ?_
    refine finish (by decide) hw fun span span' => pure ⟨⟨?_, rfl, rfl⟩, rfl, rfl⟩ ?_
    · rw [Tree.print_eq] at he ⊢
      simp [he, groupText]
    · rw [hopen, hclose]
      exact .of_tree (by simp [ha.tree])

/-- A group in parentheses. -/
theorem group (hp : Mirrors p p' k) :
    Follows (k + 1) (Grammar.group p ctx) (Grammar.group p' ctx)
      fun e tr u => Tells e tr u ∧ e.ident? = none := by
  intro t t' ht
  unfold Grammar.group
  refine here ht (bind (by omega) (readGroup hp ht) ?_)
  rintro g g' tr u u' ⟨hg, hc, hcv⟩ ha hu
  obtain ⟨hopen, hitems, hseps, hclose⟩ := group_fields ha
  refine sees hu (ite rfl (fun _ => ?_) fun _ => ?_)
  · refine extent hu fun span span' => pure ⟨⟨⟨?_, ?_⟩, Trace.append_pos hc, ?_⟩, rfl⟩ ?_
    · simp [Group.unresolved, Tree.print_eq, hg.text_eq, groupText, printMark]
    · simp [hg.nest_eq]
    · exact (Tree.isConvertible_ofList _).2 hcv
    · refine .of_tree ?_
      simp [Group.unresolved, hopen, hseps, hclose, (group_values hitems).trees]
  · refine imp (parenthesized ha hu) ?_
    rintro e tr' w ⟨⟨he, hcv, hid⟩, rfl, rfl⟩
    refine ⟨⟨⟨?_, ?_⟩, Trace.append_pos hc, hcv⟩, hid⟩
    · simp [hg.text_eq, he]
    · simp [hg.nest_eq]

/-! ## Operands -/

/-- What an operand has taken that begins with the given token: an expression that, if it is a name,
is spelled as the token. -/
structure TellsFrom (first : Token) (e : Expr) (tr : Trace) (u : Token) : Prop where
  /-- What has been taken spells the expression. -/
  tells : Tells e tr u
  /-- A name is spelled as the token. -/
  name : ∀ id ∈ e.ident?, id.raw = first.raw

omit [Exchange] in
theorem TellsFrom.of_none {first : Token} {e : Expr} {tr : Trace} {u : Token}
    (h : Tells e tr u ∧ e.ident? = none) : TellsFrom first e tr u :=
  ⟨h.1, by simp [h.2]⟩

omit [Exchange] in
theorem TellsFrom.takes {first : Token} {e : Expr} {tr : Trace} {u : Token}
    (h : TellsFrom first e tr u) : 0 < tr.count ∧ tr.nest [] ≠ none :=
  ⟨h.1.2.1, by simp [h.1.1.nest_eq]⟩

/-- A name, or an asynchronous function. -/
theorem nameOperand (hp : Mirrors p p' k) (ht : Alike t t') (hk : t.kind = .identifier) :
    Tracks [] (k + 1) .normal .normal t t' (Grammar.nameOperand p ctx)
      (Grammar.nameOperand p' ctx) (TellsFrom t) := by
  unfold Grammar.nameOperand
  refine seesWord ht ?_
  extract_lets rest rest'
  have hrest : ∀ b, Tracks [] (k + 1) .normal .normal t t' (rest b) (rest' b) (TellsFrom t) := by
    intro b
    refine ite rfl (fun _ => ?_) fun _ => ?_
    · exact imp (functionExpression hp ht) fun e tr u h => .of_none h
    · have ho : t.kind.isOvert = true := by simp [hk]
      refine next notTag ht (.plain (by simp [hk])) fun u u' hu => ?_
      refine check (checkReference ht ho) fun _ _ w' _ _ hw => ?_
      refine wrap (Nat.le_refl _) (finishName hw ht ho) ?_ fun _ _ h => congrArg Tree.identifier h
      rintro id tr v ⟨hl, hr, -, rfl, -⟩
      refine ⟨⟨⟨?_, fun _ => rfl⟩, Nat.one_pos, rfl⟩, ?_⟩
      · simp [Tree.print_eq, Ident.print, hl, hr]
      · simp [Tree.ident?, hr]
  refine ite rfl (fun hs => peek ht (.inl hk) fun u u' hu => pureThen ?_) fun _ =>
    pureThen (hrest _)
  rw [hu.isKeyword, hu.newlineBefore]
  exact hrest _

/-- A regular expression is scanned in place of a slash. -/
theorem regexLiteral (ht : Alike t t') (hs : t.isOneOf ["/", "/="] = true) :
    Tracks [] fuel .normal .normal t t'
      (do
        Parse.rescanRegex
        return Tree.literal (← Grammar.literal ctx))
      (do
        Parse.rescanRegex
        return Tree.literal (← Grammar.literal ctx))
      fun e tr u => Tells e tr u ∧ e.ident? = none := by
  rw [literal_eq]
  have hsame : ∀ f : Literal → Parse Expr,
      (Parse.rescanRegex >>= fun _ => (Parse.next >>= literalOf ctx) >>= f).Same
        (Parse.rescanRegex >>= fun _ => Parse.next >>= fun x => literalOf ctx x >>= f) :=
    fun f => .bind (.refl _) fun _ => .assoc
  refine congr (hsame _) (hsame _) (regex ht hs fun x x' u u' hx hxx hu => ?_)
  refine wrap (Nat.le_refl _) (literalOf_tracks hu hxx (by simp [hx])) ?_
    fun _ _ h => congrArg Tree.literal h
  rintro lit tr v ⟨⟨hl, hr⟩, rfl, -⟩
  refine ⟨⟨⟨?_, fun _ => rfl⟩, Nat.one_pos, rfl⟩, rfl⟩
  simp [Tree.print_eq, Literal.print, hl, hr]

/-- An operand that starts with a punctuator. -/
theorem punctuatedOperand (hp : Mirrors p p' k) (ht : Alike t t') (hk : t.kind = .punctuator) :
    Tracks [] (k + 1) .normal .normal t t' (Grammar.punctuatedOperand p ctx t)
      (Grammar.punctuatedOperand p' ctx t') fun e tr u => Tells e tr u ∧ e.ident? = none := by
  unfold Grammar.punctuatedOperand
  rw [ht.raw (by simp [hk])]
  split
  · exact group hp ht
  · exact arrayLiteral hp ht
  · exact objectLiteral hp ht
  · exact regexLiteral ht (by simp [Token.isOneOf, *])
  · exact regexLiteral ht (by simp [Token.isOneOf, *])
  · refine ite rfl (fun _ => markupRoot hp ht (by simp [Token.isPunctuator, *])) fun _ =>
      stuck (by simp)
  · exact stuck (Parse.fails_unexpected _ _)

/-- An operand that starts with a reserved word. -/
theorem keywordOperand (hp : Mirrors p p' k) (ht : Alike t t') (hk : t.kind = .keyword) :
    Tracks [] (k + 1) .normal .normal t t' (Grammar.keywordOperand p ctx t)
      (Grammar.keywordOperand p' ctx t') fun e tr u => Tells e tr u ∧ e.ident? = none := by
  unfold Grammar.keywordOperand
  rw [ht.raw (by simp [hk])]
  split
  · have hthis : t.isKeyword "this" = true := by simp [Token.isKeyword, *]
    refine lead notTag ht (.keyword hthis) fun u u' hu => finish (by decide) hu fun span span' =>
      pure ⟨⟨⟨?_, ?_⟩, Nat.one_pos, rfl⟩, rfl⟩ (.of_tree (by simp))
    · simp [Tree.print_eq]
    · simp
  · exact functionExpression hp ht
  · refine map (by omega) (classDefinition hp ht) (fun v tr u h => ⟨⟨h.1, h.2, rfl⟩, rfl⟩)
      fun _ _ h =>
      congrArg Tree.classExpr h
  · exact stuck (Parse.fails_unexpected _ _)

/-- An expression without operators, calls and accesses. -/
theorem operand (hp : Mirrors p p' k) (ht : Alike t t') :
    Tracks [] (k + 1) .normal .normal t t' (Grammar.operand p ctx) (Grammar.operand p' ctx)
      (TellsFrom t) := by
  have hliteral : t.kind.isOvert = true ∧ t.kind ≠ .eof ∧ t.kind ≠ .punctuator →
    Tracks [] (k + 1) .normal .normal t t'
        (Tree.literal <$> Grammar.literal ctx) (Tree.literal <$> Grammar.literal ctx)
        (TellsFrom t) := by
    intro hk
    refine map (Nat.le_refl _) (literal ht hk)
      (fun lit tr u h => .of_none ⟨⟨?_, by omega, rfl⟩, rfl⟩)
      fun _ _ h => congrArg Tree.literal h
    simpa [Tree.print_eq] using h.1
  unfold Grammar.operand
  refine look ht ?_
  rw [ht.kind]
  split
  · exact nameOperand hp ht ‹_›
  · exact hliteral (by simp [*])
  · exact hliteral (by simp [*])
  · exact hliteral (by simp [*])
  · exact hliteral (by simp [*])
  · exact hliteral (by simp [*])
  · refine iteHead id (fun hh => ?_) (fun _ _ _ h => ⟨TellsFrom.takes h, h⟩) fun hh =>
      ⟨hh, stuck (by simp)⟩
    refine map (by omega) (template hp ht hh (Nat.le_refl _))
      (fun v tr u h => .of_none ⟨⟨h.1, h.2, rfl⟩, rfl⟩)
      fun _ _ h => congrArg Tree.template h
  · exact imp (punctuatedOperand hp ht ‹_›) fun e tr u h => .of_none h
  · exact imp (keywordOperand hp ht ‹_›) fun e tr u h => .of_none h
  · exact stuck (Parse.fails_unexpected _ _)

end Tracks

end Verbatim
