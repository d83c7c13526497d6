import Verbatim.Proofs.Grammar.Function

/-!
# Classes are tracked

Modifiers, members and classes.

## Main results

* `Verbatim.Tracks.modifiers` — the words in front of a key.
* `Verbatim.Tracks.classDefinition` — classes.
-/

namespace Verbatim

variable [Exchange]

namespace Alike

/-- Alike keys have the same name. -/
theorem staticName {key key' : Tree .key} (h : Alike key key') :
    key'.staticName = key.staticName :=
  h.congr _ fun ρ hρ key => by
    cases key <;> simp [Tree.staticName, hρ.value, Ident.retouch, PrivateName.retouch]

theorem option_ident {name name' : Option Ident} (h : Alike name name') :
    name.map (·.retouch Retouch.blank) = name'.map (·.retouch Retouch.blank) := h

end Alike

namespace Tracks

open Verbatim.Grammar

variable {fuel k : Nat} {m : Mode} {t t' : Token} {ctx : Context} {p p' : Productions}

/-! ## Modifiers -/

/-- What the words and the star in front of a key have taken. -/
structure PrintsModifiers (v : Modifiers × PropertyKind) (tr : Trace) (_ : Token) : Prop where
  /-- What has been taken spells the modifiers. -/
  spells : Spells (v.1.print v.2.accessor) tr
  /-- The word `static` is not among them. -/
  static : v.1.staticLead = none
  /-- An accessor is one with the word of its kind in front. -/
  accessor : v.1.accessorLead = none ↔ v.2 = .plain

/-- The words in front of a member are read alike, up to the one that is its key. -/
theorem modifiers (ht : Alike t t') :
    Tracks [] fuel .normal .normal t t' Grammar.modifiers Grammar.modifiers PrintsModifiers := by
  unfold Grammar.modifiers
  refine look ht ?_
  extract_lets rest kind kind'
  have hrest : ∀ {x u u' : Token} {fuel : Nat} {v : Modifiers × PropertyKind} {tr : Trace},
      PrintsModifiers v tr x → v.1.starLead = none → Alike u u' →
      Tracks [] fuel .normal .normal u u' (rest v) (rest v) fun w tr' x =>
        PrintsModifiers w (tr ++ tr') x := by
    rintro x u u' fuel ⟨mods, kind⟩ tr ⟨hmods, hs, ha⟩ hstar hu
    refine acceptMark (by decide) (by decide) hu fun starLead w w' hw =>
      pure ⟨⟨?_, ?_⟩, hs, ha⟩ (.refl _ rfl)
    · have hmods := hmods.text_eq
      simp_all [Modifiers.print, printMark]
    · simp [hmods.nest_eq]
  have hnone : ∀ u, PrintsModifiers ({}, .plain) .empty u :=
    fun u => ⟨⟨rfl, fun _ => rfl⟩, rfl, by simp⟩
  have hplain : Tracks [] fuel .normal .normal t t' (rest ({}, .plain)) (rest ({}, .plain))
      PrintsModifiers :=
    (hrest (hnone t) rfl ht).imp fun v tr u h => by simpa using h
  refine ite (ht.isWord _) (fun hs => ?_) fun _ => ite (by rw [ht.isWord, ht.isWord]) (fun hs => ?_)
    fun _ => pureThen hplain
  · refine isModifier ht (.inl (by simp_all [Token.isWord])) fun b => ?_
    refine ite rfl (fun _ => ?_) fun _ => pureThen hplain
    have hasync : PrintsModifiers ({ asyncLead := some t.lead }, .plain) (.word t.lead "async") t :=
      ⟨⟨by simp [Modifiers.print, printMark], by simp⟩, rfl, by simp⟩
    exact lead notTag ht (.word hs) fun u u' hu => pureThen (hrest hasync rfl hu)
  · have hword : t.isWord kind.accessor = true ∧ kind ≠ .plain ∧ t.kind = .identifier := by
      by_cases hg : t.raw = "get" <;> simp_all [kind, Token.isWord, PropertyKind.accessor]
    have hkind : kind' = kind := by
      have hr := ht.raw (by simp [hword.2.2])
      simp only [kind, kind', hr]
    rw [hkind]
    refine isModifier ht (.inl hword.2.2) fun b => ?_
    refine ite rfl (fun _ => ?_) fun _ => pureThen hplain
    have haccessor : PrintsModifiers ({ accessorLead := some t.lead }, kind)
        (.word t.lead kind.accessor) t :=
      ⟨⟨by simp [Modifiers.print, printMark], by simp⟩, rfl, by simp [hword.2.1]⟩
    exact lead notTag ht (.word hword.1) fun u u' hu => pureThen (hrest haccessor rfl hu)

/-! ## Members -/

/-- A static block, behind the word `static`. -/
theorem staticBlock (hp : Mirrors p p' k) {start start' : Position} {staticLead : String}
    (ht : Alike t t') :
    Tracks [] (k + 1) .normal .normal t t' (Grammar.staticBlock p ctx start staticLead)
      (Grammar.staticBlock p' ctx start' staticLead) fun v tr _ =>
        Adds (staticLead ++ "static") v.print tr := by
  unfold Grammar.staticBlock
  refine expect (by simp) ht fun _ u u' hu => pending hu fun o o' ho => setPending hu alike_none ?_
  refine bind (by omega) (items hp hu) ?_
  rintro vs vs' tr w w' hvs hv hw
  refine setPending hw ho (expect (by simp) hw fun _ x x' hx =>
    finish (by decide) hx fun span span' =>
    pure ⟨?_, ?_⟩ (.of_tree (by simp [hv.trees])))
  · simp [Tree.print_eq, hvs.text_eq, String.append_assoc]
  · simp [hvs.nest_eq]

theorem fieldInitializer (hp : Mirrors p p' k) (ht : Alike t t') :
    Tracks [] (k + 1) .normal .normal t t' (Grammar.fieldInitializer p ctx)
      (Grammar.fieldInitializer p' ctx) fun v tr _ => Spells v.print tr := by
  unfold Grammar.fieldInitializer
  refine accept (by simp) ht (fun _ u u' hu => ?_) fun _ => pure ⟨rfl, fun _ => rfl⟩ (.refl _ rfl)
  refine pending hu fun o o' ho => setPending hu alike_none
    (bind (by omega) (hp.assignment _ hu) ?_)
  rintro e e' tr w w' ⟨he, -, -⟩ ha hw
  refine setPending hw ho (pure ⟨?_, ?_⟩ (.of_tree (by simp [ha.tree])))
  · simp [Tree.print_eq, he.text_eq, String.append_assoc]
  · simp [he.nest_eq]

/-- A field, behind its key. -/
theorem field (hp : Mirrors p p' k) {start start' : Position} {mods : Modifiers}
    {name name' : Tree .key} (hname : Alike name name') (ht : Alike t t') :
    Tracks [] (k + 1) .normal .normal t t' (Grammar.field p ctx start mods name)
      (Grammar.field p' ctx start' mods name') fun v tr _ =>
        Adds (mods.print "" ++ name.print) v.print tr := by
  unfold Grammar.field
  refine bind (by omega) (fieldInitializer hp ht) ?_
  rintro v v' tr u u' hv ha hu
  refine seq (terminator hu) ?_
  rintro ending ending' tr' w w' hending hen hw
  obtain rfl := alike_terminator.1 hen
  refine finish (by decide) hw fun span span' => pure ⟨?_, ?_⟩
    (.of_tree (by simp [hname.tree, ha.tree]))
  · simp [Tree.print_eq, hv.text_eq, hending.text_eq, String.append_assoc]
  · simp [hv.nest_eq, hending.nest_eq]

/-- A method has the word in front of its key that its modifiers tell. -/
theorem methodKind {mods : Modifiers} {kind : PropertyKind} {name : Option String}
    {hasConstructor : Bool} {site site' : Site} :
    Tracks [] fuel m m t t' (Grammar.methodKind mods kind name hasConstructor site)
      (Grammar.methodKind mods kind name hasConstructor site')
      (Still (fun v => v.accessor = kind.accessor) t) := by
  unfold Grammar.methodKind
  dsimp only
  refine ite rfl (fun _ => ?_) fun _ => pure ⟨?_, rfl, rfl⟩ (.refl _ rfl)
  · refine guard (by simp) rfl fun hplain => guard (by simp) rfl fun _ =>
      pure ⟨?_, rfl, rfl⟩ (.refl _ rfl)
    obtain rfl : kind = .plain := by
      cases kind <;> simp_all
    rfl
  · cases kind <;> rfl

/-- A method, accessor or field, behind its modifiers. -/
theorem keyedMember (hp : Mirrors p p' k) {start start' : Position} {mods : Modifiers}
    {kind : PropertyKind} {hasConstructor : Bool} (ht : Alike t t') :
    Tracks [] (k + 1) .normal .normal t t'
      (Grammar.keyedMember p ctx start mods kind hasConstructor)
      (Grammar.keyedMember p' ctx start' mods kind hasConstructor) fun v tr _ =>
        Adds (mods.print kind.accessor) v.1.print tr ∧ 0 < tr.count := by
  unfold Grammar.keyedMember
  dsimp only
  refine look ht (bind (by omega) (key hp ht) ?_)
  rintro name name' tr u u' ⟨hname, hc⟩ hn hu
  rw [hn.staticName]
  refine guard (by simp) rfl fun _ => sees hu (ite rfl (fun hplain => ?_) fun _ => ?_)
  · refine guard (by simp) rfl fun _ => wrap (by omega) (field hp hn hu) (fun v tr' w hv => ?_)
      fun v v' ha =>
      alike_prod.2 ⟨ha, rfl⟩
    have hkind : kind = .plain := by simp_all
    refine ⟨⟨?_, ?_⟩, Trace.append_pos hc⟩
    · rw [hv.text_eq, hkind, PropertyKind.accessor, Trace.text_append, hname.text_eq,
        String.append_assoc]
    · simp [hname.nest_eq, hv.nest_eq]
  · refine check methodKind fun mk mk' w' hmk ha hw => ?_
    obtain rfl := alike_methodKind.1 ha
    refine bind (by omega) (methodFunction hp hw) ?_
    rintro v v' tr' x x' ⟨hv, -⟩ ha hx
    refine finish (by decide) hx fun span span' => pure ⟨⟨?_, ?_⟩, Trace.append_pos hc⟩ ?_
    · have hv := hv.text_eq
      simp_all [Tree.print_eq, Tree.printIn, hname.text_eq]
    · simp [hname.nest_eq, hv.nest_eq]
    · exact alike_prod.2 ⟨.of_tree (by simp [hn.tree, ha.tree]), rfl⟩

/-- A member of a class. -/
theorem classMember (hp : Mirrors p p' k) {hasConstructor : Bool} :
    Follows (k + 1) (Grammar.classMember p ctx hasConstructor)
      (Grammar.classMember p' ctx hasConstructor) fun v tr u => Prints v.1 tr u := by
  intro t t' ht
  unfold Grammar.classMember
  refine look ht ?_
  extract_lets start behind isStatic start' behind' isStatic'
  -- Behind the word `static`, or where it is missing.
  have hbehind : ∀ {u u' : Token} (staticLead : Option String), Alike u u' →
      Tracks [] (k + 1) .normal .normal u u' (behind staticLead) (behind' staticLead)
        fun v tr x => Prints v.1 (.perhaps staticLead "static" ++ tr) x := by
    intro u u' staticLead hu
    dsimp -zeta only [behind, behind']
    extract_lets keyed keyed'
    have hkeyed : Tracks [] (k + 1) .normal .normal u u' (keyed ()) (keyed' ())
        fun v tr x => Prints v.1 (.perhaps staticLead "static" ++ tr) x := by
      refine seq (modifiers hu) ?_
      rintro ⟨mods, kind⟩ ⟨mods', kind'⟩ tr w w' ⟨hmods, hstatic, -⟩ ha hw
      obtain ⟨ha, hkind⟩ := alike_prod.1 ha
      obtain rfl := alike_modifiers.1 ha
      obtain rfl := alike_propertyKind.1 hkind
      refine (keyedMember hp hw).weaken ?_ (by omega)
      rintro v tr' x ⟨hv, hc⟩
      refine ⟨⟨?_, ?_⟩, Trace.append_pos_right (Trace.append_pos_right hc)⟩
      · have hmods := hmods.text_eq
        simp_all [hv.text_eq, Modifiers.print, printMark, String.append_assoc]
      · simp [hmods.nest_eq, hv.nest_eq]
    cases staticLead with
    | none => exact hkeyed
    | some staticLead =>
      refine sees hu (ite rfl (fun _ => ?_) fun _ => hkeyed)
      refine wrap (by omega) (staticBlock hp hu) (fun v tr x hv => ?_) fun v v' ha =>
        alike_prod.2 ⟨ha, rfl⟩
      refine ⟨⟨?_, ?_⟩, Trace.append_pos Nat.one_pos⟩
      · simp [hv.text_eq]
      · simp [hv.nest_eq]
  have hnone : Tracks [] (k + 1) .normal .normal t t' (behind none) (behind' none)
      fun v tr x => Prints v.1 tr x :=
    (hbehind none ht).imp fun v tr u h => by simpa using h
  refine ite (ht.isPunctuator _) (fun hs => ?_) fun _ => ?_
  · refine lead notTag ht (.punctuator hs) fun u u' hu => extent hu fun span span' =>
      pure ⟨⟨?_, ?_⟩, Trace.append_pos Nat.one_pos⟩ (alike_prod.2 ⟨rfl, rfl⟩)
    · simp [Tree.print_eq]
    · simp
  refine ite (ht.isWord _) (fun hs => ?_) fun _ => pureThen hnone
  refine isModifier ht (.inl (by simp_all [Token.isWord])) fun b => ?_
  cases b with
  | false => exact pureThen hnone
  | true =>
    refine assoc (lead notTag ht (.word hs) fun u u' hu => pureThen ?_)
    exact (hbehind (some t.lead) hu).weaken (fun v tr u h => h) (by omega)

/-- The members of a class. -/
theorem classMembers (hp : Mirrors p p' k) {hasConstructor : Bool} (n n' : Nat) (ht : Alike t t')
    (hk : fuel ≤ k + 1) (hn : fuel ≤ n') :
    Tracks [] fuel .normal .normal t t' (Grammar.classMembers p ctx hasConstructor n)
      (Grammar.classMembers p' ctx hasConstructor n') fun vs tr _ =>
        Spells (concat (vs.map (·.print))) tr := by
  induction n generalizing n' fuel t t' hasConstructor with
  | zero => exact stuck Parse.fails_stalled
  | succ n ih =>
    refine rounds _ hn fun n' hn => ?_
    unfold Grammar.classMembers
    dsimp only
    refine look ht (ite (ht.isPunctuator _) (fun _ => pure ⟨rfl, fun _ => rfl⟩ (.refl _ rfl))
      fun _ => ?_)
    refine guard (by simp) ht.isEof fun _ => bind (by omega) (classMember hp ht) ?_
    rintro ⟨v, has⟩ ⟨v', has'⟩ tr u u' ⟨hv, hc⟩ hboth hu
    obtain ⟨ha, hhas⟩ := alike_prod.1 hboth
    obtain rfl := alike_bool.1 hhas
    refine seq (ih n' hu (by omega) (by omega)) ?_
    rintro vs vs' tr' w w' hvs hvv hw
    refine pure ⟨?_, ?_⟩ (alike_cons.2 ⟨ha, hvv⟩)
    · simp [hv.text_eq, hvs.text_eq]
    · simp [hv.nest_eq, hvs.nest_eq]

/-! ## Classes -/

theorem heritage (hp : Mirrors p p' k) (ht : Alike t t') :
    Tracks [] (k + 1) .normal .normal t t' (Grammar.heritage p ctx) (Grammar.heritage p' ctx)
      fun v tr _ => Spells v.print tr := by
  unfold Grammar.heritage
  dsimp only
  refine seesKeyword ht (ite rfl (fun _ => pure ⟨rfl, fun _ => rfl⟩ (.refl _ rfl)) fun hs => ?_)
  refine lead notTag ht (.keyword (by simpa using hs)) fun u u' hu =>
    bind (by omega) (hp.chain _ hu) ?_
  rintro e e' tr w w' ⟨he, -, -⟩ ha hw
  refine guard (by simp) ha.isCover fun _ => pure ⟨?_, ?_⟩ (.of_tree (by simp [ha.tree]))
  · simp [Tree.print_eq, he.text_eq, String.append_assoc]
  · simp [he.nest_eq]

/-- A class. -/
theorem classDefinition (hp : Mirrors p p' k) {isDeclaration nameRequired : Bool} :
    Follows (k + 1) (Grammar.classDefinition p ctx isDeclaration nameRequired)
      (Grammar.classDefinition p' ctx isDeclaration nameRequired) Prints := by
  intro t t' ht
  have hr := hp.rounds
  unfold Grammar.classDefinition
  refine here ht (expectKeyword ht fun _ u u' hu => ?_)
  extract_lets inner behind behind'
  have hbehind : ∀ {w w' : Token} {name name' : Option Ident} {tr : Trace},
      Spells (printName name) tr → Alike name name' → Alike w w' →
      Tracks [] k .normal .normal w w' (behind name) (behind' name') fun v tr' x =>
        Prints v (.word t.lead "class" ++ (tr ++ tr')) x := by
    intro w w' name name' tr hname hn hw
    refine bind (by omega) (heritage hp hw) ?_
    rintro base base' tr₁ x x' hbase hb hx
    refine expect (by simp) hx fun _ y y' hy => ?_
    refine seq (classMembers hp _ _ hy (by omega) (by omega)) ?_
    rintro vs vs' tr₂ z z' hvs hv hz
    refine expect (by simp) hz fun _ z z' hz => finish (by cases isDeclaration <;> decide) hz
      fun span span' => pure ⟨⟨?_, ?_⟩, Trace.append_pos Nat.one_pos⟩ ?_
    · simp [Tree.print_eq, hname.text_eq, hbase.text_eq, hvs.text_eq, String.append_assoc]
    · simp [hname.nest_eq, hbase.nest_eq, hvs.nest_eq]
    · exact .of_tree (by simp [hb.tree, hv.trees, hn.option_ident])
  refine look hu (ite hu.isName (fun _ => ?_) fun _ => ?_)
  · refine assoc (seq (bindingName hu) ?_)
    rintro id id' tr w w' ⟨hid, hc⟩ ha hw
    have hname : Spells (printName (some id)) tr := hid
    exact pureThen ((hbehind hname (alike_some.2 ha) hw).weaken (fun v tr u h => h) (by omega))
  · have hname : Spells (printName none) .empty := ⟨rfl, fun _ => rfl⟩
    refine guard (by simp) rfl fun _ => pureThen ?_
    exact (hbehind hname alike_none hu).weaken (fun v tr u h => by simpa using h) (by omega)

end Tracks

end Verbatim
