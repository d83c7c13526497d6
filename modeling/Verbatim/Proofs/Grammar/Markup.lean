import Verbatim.Proofs.Grammar.Literal

/-!
# Markup is tracked

Names, attributes, children and elements. A production here begins in the mode of tags or of text
and ends in the mode that holds behind it. The first angle bracket of markup and the opening brace
of a container are taken in front of the production, so its trace is what it adds to them.

## Main results

* `Verbatim.Tracks.container` — code in braces.
* `Verbatim.Tracks.children`, `Verbatim.Tracks.element`, `Verbatim.Tracks.fragment`.
* `Verbatim.Tracks.markup`, `Verbatim.Tracks.markupRoot`.
-/

namespace Verbatim

variable [Exchange]

/-! ## Alike names -/

namespace Alike

theorem qualified {name name' : TagName} (h : Alike name name') :
    name'.qualified = name.qualified := by
  have hq : ∀ (ρ : Retouch) (n : TagName), (n.retouch ρ).qualified = n.qualified := by
    intro ρ n
    induction n with
    | plain | namespaced => rfl
    | member object dotLead property span ih =>
      change (object.retouch ρ).qualified ++ "." ++ property.name = _
      rw [ih]
      rfl
  have he : name.retouch Exchange.there = name'.retouch Retouch.blank := h
  rw [← hq Retouch.blank, ← he, hq]

theorem tagName {name name' : TagName} (h : Alike name name') :
    name.retouch Retouch.blank = name'.retouch Retouch.blank :=
  name.retouch_there.symm.trans h

theorem attributeName {name name' : AttributeName} (h : Alike name name') :
    name.retouch Retouch.blank = name'.retouch Retouch.blank :=
  name.retouch_there.symm.trans h

theorem closingTag {tag tag' : ClosingTag} (h : Alike tag tag') :
    tag.retouch Retouch.blank = tag'.retouch Retouch.blank :=
  tag.retouch_there.symm.trans h

/-- Alike markup is both an element or both a fragment. -/
theorem markup {v v' : Markup} (h : Alike v v') :
    (∃ e e', v = .element e ∧ v' = .element e' ∧ Alike e e') ∨
      ∃ f f', v = .fragment f ∧ v' = .fragment f' ∧ Alike f f' := by
  cases v with
  | element e =>
    cases v' with
    | element e' => exact .inl ⟨e, e', rfl, rfl, Markup.element.inj h⟩
    | fragment => cases h
  | fragment f =>
    cases v' with
    | element => cases h
    | fragment f' => exact .inr ⟨f, f', rfl, rfl, Markup.fragment.inj h⟩

end Alike

/-- A trace has the text that is added to the end of a given one, and closes a brace that was open
before it. -/
structure Closes (old new : String) (tr : Trace) : Prop where
  /-- The text. -/
  text_eq : new = old ++ tr.text
  /-- One brace more is closed than opened. -/
  nest_eq : ∀ braces, tr.nest (.plain :: braces) = some braces

namespace Tracks

open Verbatim.Grammar

variable {fuel k : Nat} {after : Mode} {t t' : Token} {ctx : Context} {p p' : Productions}
  {start start' : Position} {openLead : String}

/-! ## Names -/

/-- One name or part of a name. -/
theorem tagIdent (ht : Alike t t') :
    Tracks [] fuel .tag .tag t t' (Grammar.tagIdent ctx) (Grammar.tagIdent ctx) fun v tr _ =>
      Spells v.print tr ∧ tr.count = 1 := by
  unfold Grammar.tagIdent
  refine look ht (iteProp (by rw [ht.kind]) (fun _ => stuck (by simp)) fun hk => ?_)
  have hk : t.kind = .tagName := Decidable.not_not.1 hk
  refine next (fun _ => by simp [Token.isPunctuator, hk]) ht (.plain (by simp [hk]))
    fun u u' hu => ?_
  refine finish (by decide) hu fun span span' => pure ⟨⟨?_, ?_⟩, rfl⟩ ?_
  · simp [TagIdent.print]
  · simp
  · rw [ht.lead, ht.raw (by simp [hk])]
    rfl

theorem namespacedName {space space' : TagIdent} (hs : Alike space space') (ht : Alike t t') :
    Tracks [] fuel .tag .tag t t' (Grammar.namespacedName ctx start space)
      (Grammar.namespacedName ctx start' space') fun v tr _ => Adds space.print v.print tr := by
  unfold Grammar.namespacedName
  refine expect (by simp) ht fun _ u u' hu => seq (tagIdent hu) ?_
  rintro id id' tr w w' ⟨hid, -⟩ ha hw
  refine finish (by decide) hw fun span span' => pure ⟨?_, ?_⟩ ?_
  · simp [NamespacedName.print, hid.text_eq, String.append_assoc]
  · simp [hid.nest_eq]
  · change NamespacedName.mk (expected space) _ (expected id) _ = _
    rw [hs.eq, ha.eq]
    rfl

/-- The name of a tag is extended alike, or not at all. -/
theorem tagMember {name name' : TagName} (hn : Alike name name') (ht : Alike t t') :
    Tracks [] fuel .tag .tag t t' (Grammar.tagMember ctx start name)
      (Grammar.tagMember ctx start' name') fun w tr _ =>
        (∀ x ∈ w, Adds name.print x.print tr ∧ 0 < tr.count ∧ True) ∧ (w = none → tr = .empty) := by
  unfold Grammar.tagMember
  refine accept (by simp) ht (fun _ u u' hu => ?_) fun _ => pure ⟨by simp, fun _ => rfl⟩ alike_none
  refine seq (tagIdent hu) ?_
  rintro id id' tr w w' ⟨hid, -⟩ ha hw
  refine finish (by decide) hw fun span span' => pure ⟨?_, by simp⟩ ?_
  · rintro x ⟨⟩
    refine ⟨⟨?_, ?_⟩, Trace.append_pos Nat.one_pos, trivial⟩
    · simp [TagName.print, hid.text_eq, String.append_assoc]
    · simp [hid.nest_eq]
  · change some (TagName.member (expected name) _ (expected id) _) = _
    rw [hn.eq, ha.eq]
    rfl

/-- The name of an element. -/
theorem tagName (n n' : Nat) (ht : Alike t t') (hn : fuel ≤ n' + 1) :
    Tracks [] fuel .tag .tag t t' (Grammar.tagName ctx n) (Grammar.tagName ctx n') fun v tr _ =>
      Spells v.print tr ∧ 0 < tr.count := by
  unfold Grammar.tagName
  refine here ht (bind (by omega) (tagIdent ht) ?_)
  rintro id id' tr u u' ⟨hid, hc⟩ ha hu
  refine sees hu (ite rfl (fun _ => ?_) fun _ => ?_)
  · refine wrap (Nat.le_refl _) (namespacedName ha hu) (fun v tr' w hv => ?_) fun _ _ h =>
      congrArg TagName.namespaced h
    exact ⟨hv.spells hid, Trace.append_pos (by omega)⟩
  · have hplain : Alike (TagName.plain id) (TagName.plain id') := congrArg TagName.plain ha
    refine imp (iterate (Nat.le_refl _) (by omega) (P := fun _ => True)
      (fun _ hn ht => tagMember hn ht) n trivial hplain hu) fun v tr' w hv => ?_
    exact ⟨hv.1.spells hid, Trace.append_pos (by omega)⟩

/-! ## Code in braces -/

/-- The rest of an expression in braces, behind the opening brace. -/
theorem container (hp : Mirrors p p' k) {allowsEmpty : Bool} (ht : Alike t t') :
    Tracks [] k .normal after t t' (Grammar.container p ctx start openLead after allowsEmpty)
      (Grammar.container p' ctx start' openLead after allowsEmpty) fun v tr _ =>
        Closes (openLead ++ "\x7b") v.print tr := by
  unfold Grammar.container
  dsimp only
  refine look ht (ite (ht.isPunctuator _) (fun _ => ?_) fun _ => ?_)
  · refine guard (by simp) rfl fun _ => lastEnd ht fun _ _ =>
      finishAt ht (by decide) fun span span' => ?_
    refine expectThen (by simp) ht .close fun _ u u' hu => finish (by decide) hu fun span span' =>
      pure ⟨?_, ?_⟩ ?_
    · simp [Tree.print_eq, String.append_assoc]
    · simp
    · rw [ht.lead]
      exact .of_tree (by simp)
  · refine bind (by omega) (hp.assignment _ ht) ?_
    rintro e e' tr w w' ⟨he, -, -⟩ ha hw
    refine expectThen (by simp) hw .close fun _ u u' hu => finish (by decide) hu fun span span' =>
      pure ⟨?_, ?_⟩ ?_
    · simp [Tree.print_eq, he.text_eq, String.append_assoc]
    · simp [he.nest_eq]
    · exact .of_tree (by simp [ha.tree])

/-! ## Attributes -/

/-- The value of an attribute is read alike: a string, a container or an element. -/
theorem attributeValue (hp : Mirrors p p' k) (ht : Alike t t') :
    Tracks [] (k + 1) .tag .tag t t' (Grammar.attributeValue p ctx) (Grammar.attributeValue p' ctx)
      fun v tr _ => Spells v.print tr := by
  unfold Grammar.attributeValue
  refine look ht (ite ht.isString (fun hs => ?_) fun _ => ?_)
  · have hk : t.kind = .string := by simpa [Token.isString] using hs
    refine wrap (Nat.le_refl _) (literal ht (by simp [hk])) (fun v tr u h => ?_) fun _ _ h =>
      congrArg Tree.stringValue h
    exact ⟨by simp [Tree.print_eq, h.1.text_eq], h.1.nest_eq⟩
  refine ite (ht.isPunctuator _) (fun hs => ?_) fun _ => ite (ht.isPunctuator _) (fun hs => ?_)
    fun _ => stuck (by simp)
  · refine leadThen (noClosing (.inr (by decide)) hs) ht (.punctuator hs) (.enter hs)
      fun u u' hu => ?_
    refine wrap (by omega) (container hp hu) (fun v tr u h => ?_) fun _ _ h =>
      congrArg Tree.exprValue h
    refine ⟨?_, ?_⟩
    · have hv := h.text_eq
      simp_all [Tree.print_eq]
    · simp [h.nest_eq]
  · refine lead (noClosing (.inr (by decide)) hs) ht (.punctuator hs) fun u u' hu => ?_
    refine bind (by omega) (hp.markup hu) ?_
    rintro v v' tr w w' hv ha hw
    have htext := hv.text_eq
    obtain ⟨e, e', rfl, rfl, he⟩ | ⟨f, f', rfl, rfl, hf⟩ := ha.markup
    · refine pure ⟨?_, ?_⟩ (.of_tree (by simp [he.tree]))
      · simp_all [Tree.print_eq, Markup.print]
      · simp [hv.nest_eq]
    · refine pure ⟨?_, ?_⟩ (.of_tree (by simp [hf.tree]))
      · simp_all [Tree.print_eq, Markup.print]
      · simp [hv.nest_eq]

/-- A spread attribute. -/
theorem spreadAttribute (hp : Mirrors p p' k) (ht : Alike t t')
    (hs : t.isPunctuator "\x7b" = true) :
    Tracks [] (k + 1) .tag .tag t t' (Grammar.spreadAttribute p ctx)
      (Grammar.spreadAttribute p' ctx) fun v tr _ => Spells v.print tr ∧ 0 < tr.count := by
  unfold Grammar.spreadAttribute
  refine here ht (leadThen (noClosing (.inr (by decide)) hs) ht (.punctuator hs) (.enter hs)
    fun u u' hu => ?_)
  refine expect (by simp) hu fun _ w w' hw => bind (by omega) (hp.assignment _ hw) ?_
  rintro e e' tr x x' ⟨he, -, -⟩ ha hx
  refine expectThen (by simp) hx .close fun _ y y' hy => finish (by decide) hy fun span span' =>
    pure ⟨⟨?_, ?_⟩, Trace.append_pos Nat.one_pos⟩ (.of_tree (by simp [ha.tree]))
  · simp [Tree.print_eq, he.text_eq, String.append_assoc]
  · simp [he.nest_eq]

/-- An attribute. -/
theorem tagAttribute (hp : Mirrors p p' k) (ht : Alike t t') :
    Tracks [] (k + 1) .tag .tag t t' (Grammar.tagAttribute p ctx) (Grammar.tagAttribute p' ctx)
      fun v tr _ => Spells v.print tr ∧ 0 < tr.count := by
  unfold Grammar.tagAttribute
  refine sees ht (ite rfl (fun hs => spreadAttribute hp ht hs) fun _ => ?_)
  refine here ht (seq (tagIdent ht) ?_)
  rintro id id' tr u u' ⟨hid, hc⟩ ha hu
  extract_lets valued valued'
  have hvalued : ∀ {w w' : Token} {name name' : AttributeName} {tr : Trace},
      Spells name.print tr → 0 < tr.count → Alike name name' → Alike w w' →
      Tracks [] k .tag .tag w w' (valued name) (valued' name') fun v tr' _ =>
        Spells v.print (tr ++ tr') ∧ 0 < (tr ++ tr').count := by
    intro w w' name name' tr hname hc hn hw
    refine accept (by simp) hw (fun _ x x' hx => ?_) fun _ => ?_
    · refine bind (by omega) (attributeValue hp hx) ?_
      rintro v v' tr' y y' hv ha hy
      refine pureThen (finish (by decide) hy fun span span' =>
        pure ⟨⟨?_, ?_⟩, Trace.append_pos hc⟩ ?_)
      · simp [Tree.print_eq, hname.text_eq, hv.text_eq, String.append_assoc]
      · simp [hname.nest_eq, hv.nest_eq]
      · exact .of_tree (by simp [hn.attributeName, ha.tree])
    · refine pureThen (finish (by decide) hw fun span span' =>
        pure ⟨⟨?_, ?_⟩, Trace.append_pos hc⟩ ?_)
      · simp [Tree.print_eq, hname.text_eq]
      · simp [hname.nest_eq]
      · exact .of_tree (by simp [hn.attributeName])
  refine sees hu (ite rfl (fun _ => ?_) fun _ => ?_)
  · refine assoc (seq (namespacedName ha hu) ?_)
    rintro v v' tr' w w' hv hvv hw
    have hname : Spells (AttributeName.namespaced v).print (tr ++ tr') := hv.spells hid
    have hn : Alike (AttributeName.namespaced v) (.namespaced v') :=
      congrArg AttributeName.namespaced hvv
    refine pureThen ((hvalued hname (Trace.append_pos (by omega)) hn hw).weaken
      (fun v tr'' x h => ?_) (by omega))
    rwa [Trace.append_assoc] at h
  · have hname : Spells (AttributeName.plain id).print tr := hid
    have hn : Alike (AttributeName.plain id) (.plain id') := congrArg AttributeName.plain ha
    exact pureThen ((hvalued hname (by omega) hn hu).weaken (fun v tr' x h => h) (by omega))

/-! ## Children -/

/-- A child in braces. -/
theorem childContainer (hp : Mirrors p p' k) (ht : Alike t t')
    (hs : t.isPunctuator "\x7b" = true) :
    Tracks [] (k + 1) .text .text t t' (Grammar.childContainer p ctx)
      (Grammar.childContainer p' ctx) fun v tr _ => Spells v.print tr ∧ 0 < tr.count := by
  unfold Grammar.childContainer
  refine here ht (leadThen (by simp) ht (.punctuator hs) (.enter hs) fun u u' hu => ?_)
  refine sees hu (ite rfl (fun hdots => ?_) fun _ => ?_)
  · refine lead notTag hu (.punctuator hdots) fun w w' hw => bind (by omega) (hp.assignment _ hw) ?_
    rintro e e' tr x x' ⟨he, -, -⟩ ha hx
    refine expectThen (by simp) hx .close fun _ y y' hy => finish (by decide) hy fun span span' =>
      pure ⟨⟨?_, ?_⟩, Trace.append_pos Nat.one_pos⟩ (.of_tree (by simp [ha.tree]))
    · simp [Tree.print_eq, he.text_eq, String.append_assoc]
    · simp [he.nest_eq]
  · refine wrap (by omega) (container hp hu)
      (fun v tr w h => ⟨⟨?_, ?_⟩, Trace.append_pos Nat.one_pos⟩)
      fun _ _ h => congrArg Tree.exprChild h
    · have hv := h.text_eq
      simp_all [Tree.print_eq]
    · simp [h.nest_eq]

/-- The children of an element or fragment, with the angle bracket of the closing tag. -/
theorem children (hp : Mirrors p p' k) {name : String} (n n' : Nat) (ht : Alike t t')
    (hk : fuel ≤ k + 1) (hn : fuel ≤ n' + 1) :
    Tracks [] fuel .text .tag t t' (Grammar.children p ctx name n)
      (Grammar.children p' ctx name n') fun v tr _ =>
        Spells (concat (v.1.map (·.print)) ++ (v.2.2 ++ "<")) tr ∧ 0 < tr.count := by
  induction n generalizing n' fuel t t' with
  | zero => exact stuck Parse.fails_stalled
  | succ n ih =>
    refine roundsTaking _ hn (fun _ _ _ h => h.2) fun n' hn => ?_
    unfold Grammar.children
    refine look ht ?_
    -- A child that was taken, in front of the rest of the children.
    have hcons : ∀ {child child' : Tree .child} {w w' : Token} {fuel' : Nat} {tr : Trace},
        Spells child.print tr → 0 < tr.count → Alike child child' → Alike w w' →
        fuel' ≤ k + 1 → fuel' ≤ n' + 1 →
        Tracks [] fuel' .text .tag w w'
          (Grammar.children p ctx name n >>= fun x => Pure.pure (child :: x.1, x.2))
          (Grammar.children p' ctx name n' >>= fun x => Pure.pure (child' :: x.1, x.2))
          fun v tr' _ => Spells (concat (v.1.map (·.print)) ++ (v.2.2 ++ "<")) (tr ++ tr') ∧
            0 < (tr ++ tr').count := by
      intro child child' w w' fuel' tr hchild hc hch hw hk hn
      refine wrap (by omega) (ih n' hw hk hn) (fun v tr' u h => ⟨⟨?_, ?_⟩, Trace.append_pos hc⟩) ?_
      · simp [hchild.text_eq, h.1.text_eq, String.append_assoc]
      · simp [hchild.nest_eq, h.1.nest_eq]
      · rintro ⟨vs, closing⟩ ⟨vs', closing'⟩ h
        obtain ⟨hvs, hcl⟩ := alike_prod.1 h
        exact alike_prod.2 ⟨alike_cons.2 ⟨hch, hvs⟩, hcl⟩
    rw [ht.kind]
    split
    · exact stuck (Parse.fails_fail _ _ _)
    · rename_i hkind
      refine formed fun hform => nextStay (.stay fun _ => hkind) (by simp) ht
        (.plain (by simp [hkind])) fun u u' hu => ?_
      refine finishFrom (by decide) hu fun stop stop' => ?_
      refine hcons ⟨?_, ?_⟩ Nat.one_pos ?_ hu (by omega) (by omega)
      · simp [Tree.print_eq, hform.markupText hkind]
      · simp
      · exact congrArg Tree.textChild (ht.markupText hkind stop stop')
    · refine ite (ht.isPunctuator _) (fun hs => ?_) fun _ => ite (ht.isPunctuator _) (fun hs => ?_)
        fun _ => stuck (by simp)
      · refine bind (by omega) (childContainer hp ht hs) ?_
        rintro child child' tr u u' ⟨hchild, hc⟩ ha hu
        exact hcons hchild hc ha hu (by omega) (by omega)
      · refine leadThen (by simp) ht (.punctuator hs) (.tag hs) fun u u' hu => ?_
        refine sees hu (ite rfl (fun _ => ?_) fun _ => ?_)
        · refine pure ⟨⟨?_, ?_⟩, Nat.one_pos⟩ (.refl _ rfl)
          · simp
          · simp
        refine bind (by omega) (hp.markup hu) ?_
        rintro v v' tr w w' hv ha hw
        have htext := hv.text_eq
        obtain ⟨e, e', rfl, rfl, he⟩ | ⟨f, f', rfl, rfl, hf⟩ := ha.markup
        · have hchild : Spells (Tree.elementChild e).print (.mark t.lead "<" ++ tr) := by
            refine ⟨?_, by simp [hv.nest_eq]⟩
            simp [Tree.print_eq, ← htext, Markup.print]
          refine pureThen (imp (hcons hchild (Trace.append_pos Nat.one_pos)
            (congrArg Tree.elementChild he) hw (by omega) (by omega)) fun v tr u h => ?_)
          rwa [Trace.append_assoc] at h
        · have hchild : Spells (Tree.fragmentChild f).print (.mark t.lead "<" ++ tr) := by
            refine ⟨?_, by simp [hv.nest_eq]⟩
            simp [Tree.print_eq, ← htext, Markup.print]
          refine pureThen (imp (hcons hchild (Trace.append_pos Nat.one_pos)
            (congrArg Tree.fragmentChild hf) hw (by omega) (by omega)) fun v tr u h => ?_)
          rwa [Trace.append_assoc] at h

/-! ## Elements and fragments -/

/-- A fragment, behind its first angle bracket. -/
theorem fragment (hp : Mirrors p p' k) (ht : Alike t t') :
    Tracks [] (k + 1) .tag after t t' (Grammar.fragment p ctx start openLead after)
      (Grammar.fragment p' ctx start' openLead after) fun v tr _ =>
        Adds (openLead ++ "<") v.print tr := by
  have hr := hp.rounds
  unfold Grammar.fragment
  refine expectThen (by simp) ht .finish fun _ u u' hu => ?_
  refine seq (children hp _ _ hu (by omega) (by omega)) ?_
  rintro ⟨vs, closing, closingLead⟩ ⟨vs', closing', closingLead'⟩ tr w w' ⟨hvs, -⟩ ha hw
  obtain ⟨hv, ha⟩ := alike_prod.1 ha
  obtain rfl := alike_string.1 (alike_prod.1 ha).2
  dsimp only
  refine expect (by simp) hw fun _ x x' hx =>
    look hx (guard (by simp) (by rw [hx.isPunctuator]) fun _ => ?_)
  refine expectThen (by simp) hx .finish fun _ y y' hy => finish (by decide) hy fun span span' =>
    pure ⟨?_, ?_⟩ ?_
  · simp [Tree.print_eq, hvs.text_eq, String.append_assoc]
  · simp [hvs.nest_eq]
  · exact .of_tree (by simp [hv.trees])

/-- A closing tag, behind its angle bracket. -/
theorem closingTag (hp : Mirrors p p' k) {opened : String} (ht : Alike t t') :
    Tracks [] (k + 1) .tag after t t' (Grammar.closingTag p ctx start openLead opened after)
      (Grammar.closingTag p' ctx start' openLead opened after) fun v tr _ =>
        Adds (openLead ++ "<") v.print tr := by
  have hr := hp.rounds
  unfold Grammar.closingTag
  dsimp only
  refine expect (by simp) ht fun _ u u' hu => look hu (seq (tagName _ _ hu (by omega)) ?_)
  rintro name name' tr w w' ⟨hname, -⟩ hn hw
  refine guard (by simp) (by rw [hn.qualified]) fun _ => ?_
  refine expectThen (by simp) hw .finish fun _ x x' hx => finish (by decide) hx fun span span' =>
    pure ⟨?_, ?_⟩ ?_
  · simp [ClosingTag.print, hname.text_eq, String.append_assoc]
  · simp [hname.nest_eq]
  · change ClosingTag.mk _ _ (expected name) _ _ = _
    rw [hn.eq]
    rfl

/-- An element, behind its first angle bracket. -/
theorem element (hp : Mirrors p p' k) (ht : Alike t t') :
    Tracks [] (k + 1) .tag after t t' (Grammar.element p ctx start openLead after)
      (Grammar.element p' ctx start' openLead after) fun v tr _ =>
        Adds (openLead ++ "<") v.print tr := by
  have hr := hp.rounds
  have hends : ∀ {t t' : Token}, Alike t t' → endsAttributes t' = endsAttributes t := by
    intro t t' h
    simp [endsAttributes, h.isPunctuator]
  unfold Grammar.element
  dsimp only
  refine seq (tagName _ _ ht (by omega)) ?_
  rintro name name' tr u u' ⟨hname, hc⟩ hn hu
  refine seq (many (by omega) (by omega) hends (tagAttribute hp) _ hu) ?_
  rintro attrs attrs' tr' w w' ⟨hall, -⟩ ha hw
  have hattrs : Spells (concat (attrs.map (·.print))) tr' := hall
  refine sees hw (ite rfl (fun hs => ?_) fun _ => ?_)
  · refine lead (noClosing (.inr (by decide)) hs) hw (.punctuator hs) fun x x' hx => ?_
    refine sees hx (guard (by simp) rfl fun _ => expectThen (by simp) hx .finish
      fun _ y y' hy => ?_)
    refine finish (by decide) hy fun span span' => finish (by decide) hy fun span₁ span₁' =>
      pure ⟨?_, ?_⟩ ?_
    · simp [Tree.print_eq, hname.text_eq, hattrs.text_eq, printMark, String.append_assoc]
    · simp [hname.nest_eq, hattrs.nest_eq]
    · exact .of_tree (by simp [hn.tagName, ha.trees])
  refine expectThen (by simp) hw .finish fun _ x x' hx => finish (by decide) hx fun span span' => ?_
  rw [hn.qualified]
  refine seq (children hp _ _ hx (by omega) (by omega)) ?_
  rintro ⟨vs, closing, closingLead⟩ ⟨vs', closing', closingLead'⟩ tr₁ y y' ⟨hvs, -⟩ hboth hy
  obtain ⟨hv, hl⟩ := alike_prod.1 hboth
  obtain rfl := alike_string.1 (alike_prod.1 hl).2
  dsimp only
  refine bind (by omega) (closingTag hp hy) ?_
  rintro tag tag' tr₂ z z' htag hta hz
  refine finish (by decide) hz fun span span' => pure ⟨?_, ?_⟩ ?_
  · simp [Tree.print_eq, hname.text_eq, hattrs.text_eq, hvs.text_eq, htag.text_eq, printMark,
      String.append_assoc]
  · simp [hname.nest_eq, hattrs.nest_eq, hvs.nest_eq, htag.nest_eq]
  · exact .of_tree (by simp [hn.tagName, ha.trees, hv.trees, hta.closingTag])

/-- Markup behind its first angle bracket. -/
theorem markup (hp : Mirrors p p' k) (ht : Alike t t') :
    Tracks [] (k + 1) .tag after t t' (Grammar.markup p start openLead after ctx)
      (Grammar.markup p' start' openLead after ctx) fun v tr _ =>
        Adds (openLead ++ "<") v.print tr := by
  unfold Grammar.markup
  refine sees ht (ite rfl (fun _ => ?_) fun _ => ?_)
  · exact map (by omega) (fragment hp ht) (fun v tr u h => h) fun _ _ h =>
      congrArg Markup.fragment h
  · exact map (by omega) (element hp ht) (fun v tr u h => h) fun _ _ h => congrArg Markup.element h

/-- Markup as an operand. -/
theorem markupRoot (hp : Mirrors p p' k) (ht : Alike t t') (hs : t.isPunctuator "<" = true) :
    Tracks [] (k + 1) .normal .normal t t' (Grammar.markupRoot p ctx) (Grammar.markupRoot p' ctx)
      fun e tr u => Tells e tr u ∧ e.ident? = none := by
  unfold Grammar.markupRoot
  refine angle ht hs fun start start' lead u u' hu => bind (by omega) (hp.markup hu) ?_
  rintro v v' tr w w' hv ha hw
  have htext := hv.text_eq
  obtain ⟨e, e', rfl, rfl, he⟩ | ⟨f, f', rfl, rfl, hf⟩ := ha.markup
  · refine pure ⟨⟨⟨?_, ?_⟩, Trace.append_pos Nat.one_pos, rfl⟩, rfl⟩ (congrArg Tree.elementExpr he)
    · simp_all [Tree.print_eq, Markup.print]
    · simp [hv.nest_eq]
  · refine pure ⟨⟨⟨?_, ?_⟩, Trace.append_pos Nat.one_pos, rfl⟩, rfl⟩
      (congrArg Tree.fragmentExpr hf)
    · simp_all [Tree.print_eq, Markup.print]
    · simp [hv.nest_eq]

end Tracks

end Verbatim
