import Verbatim.Proofs.Recorded.Markup
import Verbatim.Proofs.Scan.Trivia
import Verbatim.Proofs.Tree.Conversion
import Verbatim.Proofs.Tree.Throughout

/-!
# What a tree records besides its parts

Some of what a construct is made of is recorded beside its parts: the commas of a list, the words in
front of a key, the spelling of a literal. A tree could hold any of these with any parts. The rules
say which belong together: how many commas a list has for its items, which words stand in front of
what kind of member, and how a regular expression is spelled. They are about one construct at a
time, and conversion to a pattern keeps them.

## Main definitions

* `Verbatim.IsComma` — a comma with trivia in front of it.
* `Verbatim.CommaList`, `Verbatim.Tree.commaLists` — the lists with commas of a construct.
* `Verbatim.CommaList.Matched` — the commas of a list match its items.
* `Verbatim.Modifiers.Introduce` — the words in front of a key match the function behind it.
* `Verbatim.Tree.Records` — the rules for one construct.

## Main results

* `Verbatim.Tree.Records.mapSpans` — extents have no influence.
* `Verbatim.Tree.Becomes.faithful` — conversion keeps the rules.
-/

namespace Verbatim

/-! ## Lists with commas -/

/-- Trivia in front of a character is trivia in front of any text that goes on with that
character. -/
theorem IsTrivia.before {text rest : List Char} {c : Char} (h : IsTrivia text (c :: rest)) :
    IsTrivia text [c] := by
  generalize hr : c :: rest = front at h
  induction h with
  | nil => exact .nil
  | @cons piece text front hp _ ih =>
    subst hr
    refine .cons ?_ (ih rfl)
    -- A comment that ends with its line sees no more than the first character behind it.
    have hhead : (text ++ [c]).head? = (text ++ c :: rest).head? := by cases text <;> rfl
    cases hp with
    | blank h => exact .blank h
    | lineEnd h => exact .lineEnd h
    | crlf => exact .crlf
    | line ho h => exact .line ho ⟨h.inLine, hhead ▸ h.atEnd⟩
    | block h => exact .block h

/-- A comma with trivia in front of it. -/
def IsComma (text : String) : Prop := ∃ lead, text = lead ++ "," ∧ IsTrivia lead.toList [',']

/-- A list with commas. -/
structure CommaList where
  /-- The number of items. -/
  count : Nat
  /-- The commas. -/
  commas : List String
  /-- Whether no comma may follow the last item, whatever that is. -/
  isBare : Bool := false
  /-- Whether the last item is a hole. -/
  endsInHole : Bool := false
  /-- Whether the last item is a target for all that remains. -/
  endsInRest : Bool := false

/-- The commas of a list match its items. -/
structure CommaList.Matched (l : CommaList) : Prop where
  /-- Each of them is a comma. -/
  commas : ∀ comma ∈ l.commas, IsComma comma
  /-- There is one between two items. -/
  between : l.count ≤ l.commas.length + 1
  /-- There is at most one behind an item, and without items there is none. -/
  behind : l.commas.length ≤ l.count
  /-- There may be none behind the last item. -/
  bare : l.isBare = true → l.commas.length < l.count
  /-- There is one behind a hole. -/
  hole : l.endsInHole = true → l.commas.length = l.count

/-- The list with commas of an import or export list. -/
def NamedImports.commaList (n : NamedImports) : CommaList :=
  { count := n.specifiers.length, commas := n.separators }

/-- The list with commas of an export list. -/
def NamedExports.commaList (n : NamedExports) : CommaList :=
  { count := n.specifiers.length, commas := n.separators }

namespace Tree

/-- Whether a part is absent. -/
def isAbsent : {c : Category} → Tree c → Bool
  | _, .absent => true
  | _, _ => false

/-- Whether the last of some items is a hole. -/
def endsInHole {c : Category} (items : Tree (.many c)) : Bool :=
  (items.toList.map isAbsent).getLast? = some true

/-- Whether the last of some items has dots in front. -/
def endsInDots {c : Category} (items : Tree (.many c)) : Bool :=
    items.toList.getLast?.any (·.hasDots)

/-- Some items as a list with the given commas. -/
def commaList {c : Category} (items : Tree (.many c)) (commas : List String) : CommaList :=
  { count := items.toList.length, commas, endsInHole := items.endsInHole }

/-- The targets of a pattern as a list with the given commas. -/
def targetList {c : Category} (items : Tree (.many c)) (commas : List String) : CommaList :=
  { items.commaList commas with endsInRest := items.endsInDots }

/-- The lists with commas that a construct consists of. -/
def commaLists : {c : Category} → Tree c → List CommaList
  | _, .array _ items commas _ _ => [items.commaList commas]
  | _, .object _ items commas _ _ => [items.commaList commas]
  | _, .sequence items commas _ => [{ items.commaList commas with isBare := true }]
  | _, .cover _ _ items commas _ _ => [items.commaList commas]
  | _, .argumentList _ items commas _ => [items.commaList commas]
  | _, .paramList _ items commas _ => [items.targetList commas]
  | _, .arrayPattern _ items commas _ _ => [items.targetList commas]
  | _, .objectPattern _ items commas _ _ => [items.targetList commas]
  | _, .declaration _ _ items commas _ _ => [{ items.commaList commas with isBare := true }]
  | _, .importStmt d => (d.clause.bind (·.named)).toList.map (·.commaList)
  | _, .exportNamed _ _ specifiers _ _ _ => specifiers.toList.map (·.commaList)
  | _, _ => []

end Tree

/-! ## Words in front of keys -/

/-- What stands in front of the parameters of a function. -/
def Tree.functionHead : Tree .function → FunctionHead
  | .function head _ _ _ => head

/-- The words in front of a key match the function behind it, which is that of an accessor or of
another method. -/
structure Modifiers.Introduce (mods : Modifiers) (isAccessor : Bool)
    (head : FunctionHead) : Prop where
  /-- The word of an accessor stands in front of accessors. -/
  accessor : mods.accessorLead.isSome = isAccessor
  /-- No other word stands beside it. -/
  alone : isAccessor = true → mods.asyncLead = none
  /-- An asynchronous function has its word in front. -/
  async : head.isAsync = mods.asyncLead.isSome
  /-- A generator has its star in front. -/
  generator : head.isGenerator = mods.starLead.isSome

/-- The words in front of the key of a property match its value. -/
structure Modifiers.FitProperty (mods : Modifiers) (kind : PropertyKind) (isMethod : Bool)
    (value : Expr) : Prop where
  /-- Objects have no static members. -/
  static : mods.staticLead = none
  /-- A method is no accessor. -/
  lone : isMethod = true → kind = .plain
  /-- A method or accessor has a function as its value. -/
  function : isMethod = true ∨ kind ≠ .plain →
    ∃ f, value = .functionExpr f ∧ mods.Introduce (kind != .plain) f.functionHead
  /-- Nothing stands in front of the key of any other property. -/
  plain : isMethod = false → kind = .plain → mods = {}

/-- Whether a method is an accessor. -/
def MethodKind.isAccessor : MethodKind → Bool
  | .getter | .setter => true
  | .constructor | .method => false

/-! ## The rules -/

/-- A regular expression is spelled by its body and flags. -/
def Literal.IsSpelled (lit : Literal) : Prop :=
  ∀ pattern flags, lit.value = .regex pattern flags → lit.raw = "/" ++ pattern ++ "/" ++ flags

namespace Tree

/-- The literal that a construct is. -/
def literal? : {c : Category} → Tree c → Option Literal
  | _, .literal lit | _, .literalKey lit | _, .stringValue lit => some lit
  | _, _ => none

/-- What is in front of a key fits what is behind it. -/
def Introduced : {c : Category} → Tree c → Prop
  | _, .property mods _ value kind isMethod _ _ _ => mods.FitProperty kind isMethod value
  | _, .method mods kind _ value _ => mods.Introduce kind.isAccessor value.functionHead
  | _, .field mods _ _ _ _ => mods = { staticLead := mods.staticLead }
  | _, _ => True

/-- The rules for one construct. -/
structure Records {c : Category} (t : Tree c) : Prop where
  /-- The commas match the items. -/
  lists : ∀ l ∈ t.commaLists, l.Matched
  /-- The words in front of a key fit the member. -/
  introduced : t.Introduced
  /-- A literal has its spelling. -/
  spelled : ∀ lit ∈ t.literal?, lit.IsSpelled
  /-- Tags match, and texts between them stand apart. -/
  markup : t.MarkupSound

/-- All constructs of a tree obey the rules. -/
abbrev Faithful {c : Category} (t : Tree c) : Prop := t.Throughout @Records

/-! ## Extents -/

section

variable {c : Category} (g : Span → Span)

theorem isAbsent_mapSpans (t : Tree c) : (t.mapSpans g).isAbsent = t.isAbsent := by
  cases t
  case property => rw [mapSpans_property]; rfl
  case patternProperty => rw [mapSpans_patternProperty]; rfl
  all_goals rfl

@[simp]
theorem endsInHole_mapSpans (items : Tree (.many c)) :
    (items.mapSpans g).endsInHole = items.endsInHole := by
  unfold endsInHole
  rw [toList_mapSpans, List.map_map]
  have heq : isAbsent ∘ mapSpans g = (isAbsent : Tree c → Bool) := funext (isAbsent_mapSpans g)
  rw [heq]

@[simp]
theorem endsInDots_mapSpans (items : Tree (.many c)) :
    (items.mapSpans g).endsInDots = items.endsInDots := by
  unfold endsInDots
  rw [toList_mapSpans, List.getLast?_map, Option.any_map]
  congr 1
  funext item
  exact hasDots_mapSpans g item

theorem commaList_mapSpans (items : Tree (.many c)) (commas : List String) :
    (items.mapSpans g).commaList commas = items.commaList commas := by
  simp [commaList, toList_mapSpans]

theorem targetList_mapSpans (items : Tree (.many c)) (commas : List String) :
    (items.mapSpans g).targetList commas = items.targetList commas := by
  simp [targetList, commaList_mapSpans]

theorem commaList_namedImports (n : NamedImports) :
    ((Visitor.moving g).namedImports n).commaList = n.commaList := by
  change CommaList.mk
    (Visitor.list (Visitor.moving g).importSpecifier n.specifiers).length _ _ _ _ = _
  rw [Visitor.list_eq_map, List.length_map]
  rfl

theorem commaList_namedExports (n : NamedExports) :
    ((Visitor.moving g).namedExports n).commaList = n.commaList := by
  change CommaList.mk
    (Visitor.list (Visitor.moving g).exportSpecifier n.specifiers).length _ _ _ _ = _
  rw [Visitor.list_eq_map, List.length_map]
  rfl

/-- Extents have no part in the lists of a tree. -/
theorem commaLists_mapSpans (t : Tree c) : (t.mapSpans g).commaLists = t.commaLists := by
  cases t
  case property => rw [mapSpans_property]; rfl
  case patternProperty => rw [mapSpans_patternProperty]; rfl
  case array | object | cover | argumentList => exact congrArg ([·]) (commaList_mapSpans g _ _)
  case sequence | declaration =>
    exact congrArg (fun l : CommaList => [{ l with isBare := true }]) (commaList_mapSpans g _ _)
  case paramList | arrayPattern | objectPattern => exact congrArg ([·]) (targetList_mapSpans g _ _)
  case importStmt d =>
    obtain ⟨lead, clause, fromLead, source, terminator, span⟩ := d
    rcases clause with _ | ⟨main, commaLead, space, _ | named⟩
    · rfl
    · rfl
    · exact congrArg (fun l => [l]) (commaList_namedImports g named)
  case exportNamed lead stmt specifiers origin terminator span =>
    cases specifiers with
    | none => rfl
    | some named => exact congrArg (fun l => [l]) (commaList_namedExports g named)
  all_goals rfl

/-- Extents have no part in which words stand in front of a key. -/
theorem Introduced.mapSpans {t : Tree c} (h : t.Introduced) : (t.mapSpans g).Introduced := by
  cases t
  case property mods key value kind isMethod isShorthand colonLead span =>
    rw [mapSpans_property]
    refine ⟨h.static, h.lone, fun hf => ?_, h.plain⟩
    obtain ⟨f, rfl, hmods⟩ := h.function hf
    refine ⟨f.mapSpans g, rfl, ?_⟩
    cases f
    exact ⟨hmods.accessor, hmods.alone, hmods.async, hmods.generator⟩
  case method mods kind key value span =>
    cases value
    exact ⟨h.accessor, h.alone, h.async, h.generator⟩
  case field => exact h
  case patternProperty => rw [mapSpans_patternProperty]; trivial
  all_goals trivial

theorem literal?_mapSpans (t : Tree c) :
    (t.mapSpans g).literal? = t.literal?.map (Visitor.moving g).literal := by
  cases t
  case property => rw [mapSpans_property]; rfl
  case patternProperty => rw [mapSpans_patternProperty]; rfl
  all_goals rfl

/-- The rules say nothing of extents. -/
theorem Records.mapSpans {t : Tree c} (h : t.Records) : (t.mapSpans g).Records := by
  refine ⟨?_, h.introduced.mapSpans g, ?_, h.markup.mapSpans g⟩
  · rw [commaLists_mapSpans]
    exact h.lists
  · rw [literal?_mapSpans]
    rintro _ hlit
    obtain ⟨lit, hmem, rfl⟩ := Option.map_eq_some_iff.1 hlit
    exact h.spelled lit hmem

end

/-! ## Constructs that record nothing of this kind -/

/-- A construct that obeys the rules because they say nothing of it. -/
theorem Records.of_none {c : Category} {t : Tree c} (hlists : t.commaLists = [])
    (hintroduced : t.Introduced) (hliteral : t.literal? = none)
    (hmarkup : t.MarkupSound) : t.Records :=
  ⟨hlists ▸ List.forall_mem_nil _, hintroduced, hliteral ▸ nofun, hmarkup⟩

/-- A construct with one list. -/
theorem Records.of_list {c : Category} {t : Tree c} {l : CommaList} (h : l.Matched)
    (hlists : t.commaLists = [l]) (hintroduced : t.Introduced) (hliteral : t.literal? = none)
    (hmarkup : t.MarkupSound) : t.Records :=
  ⟨hlists ▸ List.forall_mem_singleton.2 h, hintroduced, hliteral ▸ nofun, hmarkup⟩

/-- A literal. -/
theorem Records.of_literal {c : Category} {t : Tree c} {lit : Literal} (h : lit.IsSpelled)
    (hlists : t.commaLists = []) (hintroduced : t.Introduced) (hliteral : t.literal? = some lit)
    (hmarkup : t.MarkupSound) : t.Records := by
  refine ⟨hlists ▸ List.forall_mem_nil _, hintroduced, ?_, hmarkup⟩
  rw [hliteral]
  rintro _ ⟨⟩
  exact h

theorem Records.nil {c : Category} : (nil : Tree (.many c)).Records :=
    .of_none rfl trivial rfl trivial

theorem Records.cons {c : Category} {head : Tree c} {tail : Tree (.many c)} :
    (cons head tail).Records := .of_none rfl trivial rfl trivial

namespace Faithful

variable {c : Category}

theorem absent : (absent : Tree (.maybe c)).Faithful := .leaf (.of_none rfl trivial rfl trivial) rfl

theorem present {t : Tree c} (h : t.Faithful) : (present t).Faithful :=
  h.one (.of_none rfl trivial rfl trivial) rfl

/-- A list of trees that obey the rules. -/
theorem ofItems {items : List (Tree c)} (h : ∀ x ∈ items, x.Faithful) :
    (Tree.ofList items).Faithful :=
  Throughout.ofList .nil (fun _ _ => .cons) h

/-- The value of a shorthand property obeys the rules as the expression that it was read as. -/
theorem value {mods : Modifiers} {key : Tree .key} {value : Expr} {kind : PropertyKind}
    {isMethod isShorthand : Bool} {colonLead : String} {span : Span}
    (h : (Tree.property mods key value kind isMethod isShorthand colonLead span).Faithful) :
    value.Faithful := by
  have hparts : (Tree.property mods key value kind isMethod isShorthand colonLead span).bareParts =
    Part.whole ⟨{}, key⟩ :: (valueParts {} isShorthand value).map Part.whole := rfl
  rcases valueParts_cases {} isShorthand value with hwhole | ⟨id, opLead, inner, _, rfl, htwo⟩
  · exact h.part ⟨_, value⟩ (by simp [hparts, hwhole, Part.whole])
  · have hid := h.part ⟨_, namePattern id⟩ (by simp [hparts, htwo, Part.whole])
    have hinner := h.part ⟨_, inner⟩ (by simp [hparts, htwo, Part.whole])
    exact hid.two hinner (Records.of_none rfl trivial rfl trivial) rfl

/-- A property is made of its key and its value, whatever its value is read as. -/
theorem property {mods : Modifiers} {key : Tree .key} {value : Expr} {kind : PropertyKind}
    {isMethod isShorthand : Bool} {colonLead : String} {span : Span} (hkey : key.Faithful)
    (hvalue : value.Faithful) (hmods : mods.FitProperty kind isMethod value) :
    (Tree.property mods key value kind isMethod isShorthand colonLead span).Faithful := by
  refine .intro (.of_none rfl hmods rfl trivial) ?_
  have hparts : (Tree.property mods key value kind isMethod isShorthand colonLead span).bareParts =
    Part.whole ⟨{}, key⟩ :: (valueParts {} isShorthand value).map Part.whole := rfl
  rw [hparts, List.forall_mem_cons]
  refine ⟨hkey, ?_⟩
  rcases valueParts_cases {} isShorthand value with hwhole | ⟨id, opLead, inner, span', rfl, htwo⟩
  · rw [hwhole]
    exact List.forall_mem_singleton.2 hvalue
  · rw [htwo]
    refine List.forall_mem_cons.2 ⟨hvalue.part _ (List.mem_cons_self ..),
      List.forall_mem_singleton.2 ?_⟩
    exact hvalue.part ⟨_, inner⟩ (List.mem_cons_of_mem _ (List.mem_singleton_self _))

end Faithful

/-! ## Conversion -/

section

variable {use : TargetUse} {trailing : Bool} {c d : Category} {t : Tree c} {p : Tree d}

theorem Becomes.isAbsent_eq (h : Becomes use trailing t p) : p.isAbsent = t.isAbsent := by
  cases h
  case other e _ _ => cases e <;> rfl
  all_goals rfl

/-- The items of a list are holes where they were. -/
theorem Becomes.holes (h : Becomes use trailing t p) : ∀ (b e : Category) (hb : c = .many b)
    (he : d = .many e), (p.itemsOf he).map isAbsent = (t.itemsOf hb).map isAbsent := by
  induction h with
  | nil =>
    rintro _ _ ⟨⟩ ⟨⟩
    rfl
  | cons _ first _ _ ih =>
    rintro _ _ ⟨⟩ ⟨⟩
    exact congr (congrArg List.cons first.isAbsent_eq) (ih _ _ rfl rfl)
  | restElement | restMember =>
    rintro _ _ ⟨⟩ ⟨⟩
    rfl
  | identifier | array | object | assignment | other | property | absent | present => rintro _ _ ⟨⟩

/-- The commas of a literal match the items of the pattern that it becomes. -/
theorem Becomes.matched {b e : Category} {items : Tree (.many b)} {items' : Tree (.many e)}
    {commas : List String} (h : Becomes use trailing items items')
    (hm : (items.commaList commas).Matched) : (items'.targetList commas).Matched := by
  have hholes : items'.toList.map isAbsent = items.toList.map isAbsent := h.holes b e rfl rfl
  have hlength : items'.toList.length = items.toList.length := by
    simpa using congrArg List.length hholes
  have hends : items'.endsInHole = items.endsInHole := by
    unfold endsInHole
    rw [hholes]
  refine ⟨hm.commas, ?_, ?_, nofun, fun hhole => ?_⟩
  · exact Nat.le_trans (Nat.le_of_eq hlength) hm.between
  · exact Nat.le_trans hm.behind (Nat.le_of_eq hlength.symm)
  · exact (hm.hole (hends.symm.trans hhole)).trans hlength.symm

/-- What a tree becomes obeys the rules if the tree does. -/
theorem Becomes.faithful (h : Becomes use trailing t p) (ht : t.Faithful) : p.Faithful := by
  induction h with
  | identifier => exact .leaf (.of_none rfl trivial rfl trivial) rfl
  | array parts ih | object parts ih =>
    have hm := ht.here.lists _ (List.mem_singleton_self _)
    refine (ih (ht.part _ (List.mem_singleton_self _))).one ?_ rfl
    exact .of_list (parts.matched hm) rfl trivial rfl trivial
  | assignment =>
    exact (ht.part _ (List.mem_cons_self ..)).two
      (ht.part _ (List.mem_cons_of_mem _ (List.mem_singleton_self _)))
      (.of_none rfl trivial rfl trivial) rfl
  | other => exact ht.one (.of_none rfl trivial rfl trivial) rfl
  | property _ ih =>
    exact (ht.part _ (List.mem_cons_self ..)).two (ih ht.value)
      (.of_none rfl trivial rfl trivial) rfl
  | nil => exact .leaf .nil rfl
  | cons _ _ _ ih ih' =>
    exact (ih (ht.part _ (List.mem_cons_self ..))).two
      (ih' (ht.part _ (List.mem_cons_of_mem _ (List.mem_singleton_self _)))) .cons rfl
  | @restElement lead operand target span _ _ ih =>
    have hspread := (ht.toList _ (List.mem_singleton_self _)).part _ (List.mem_singleton_self _)
    have htarget := ih (hspread.part _ (List.mem_singleton_self _))
    have hrest : (restPattern lead target span).Faithful :=
      htarget.one (.of_none rfl trivial rfl trivial) rfl
    exact hrest.present.two (.leaf .nil rfl) .cons rfl
  | @restMember lead operand target span _ _ _ ih =>
    have hspread := ht.toList _ (List.mem_singleton_self _)
    have htarget := ih (hspread.part _ (List.mem_singleton_self _))
    have hrest : (Tree.restMember lead target span).Faithful :=
      htarget.one (.of_none rfl trivial rfl trivial) rfl
    exact hrest.two (.leaf .nil rfl) .cons rfl
  | absent => exact .absent
  | present _ ih => exact (ih (ht.part _ (List.mem_singleton_self _))).present

end

end Tree

end Verbatim
