import Verbatim.Grammar.Module
import Verbatim.Proofs.Tree.Retouch

/-!
# Alikeness: the same but for places and exchanged texts

Two parses of sources that spell the same tokens with other positions build the same trees with
other extents. One of the sources may also have other texts in its markup, at places that are known.
Every kind of value that a production hands on has a form without places, and a form that says what
the companion has for it, and two values are alike if these forms agree. A token without its place
also forgets the two things that may be spelled differently without a production noticing: the
letters of a private name, of which only the decoded name counts, and the delimiter in front of a
template piece.

## Main definitions

* `Verbatim.Exchange` — the texts that the companion has otherwise.
* `Verbatim.Placed` — values with a form without places, and one that is expected of a companion.
* `Verbatim.Alike` — what is expected of a companion.

## Main results

* `Verbatim.Alike.isPunctuator`, `Verbatim.Alike.isWord`, … — alike tokens cannot be told apart.
* `Verbatim.alike_prod`, `Verbatim.alike_cons`, … — alikeness by parts.
-/

namespace Verbatim

/-! ## Exchanged texts -/

/-- A text in markup, worded so that it is scanned as a whole. -/
structure Wording where
  /-- The spelling. -/
  raw : String
  /-- What it says. -/
  value : String
  /-- There is something to scan. -/
  raw_ne : raw ≠ ""
  /-- Nothing in it ends the text. -/
  plain : ∀ c ∈ raw.toList, c ≠ '\x7b' ∧ c ≠ '<'
  /-- The spelling is decoded to what it says. -/
  decode_raw : Entity.decode raw = .ok value

/-- The texts in markup that a companion has otherwise, by the places where they start. -/
class Exchange where
  /-- The text that the companion has instead. -/
  text : Nat → Option Wording

namespace Exchange

/-- No text is exchanged. -/
@[reducible]
def nothing : Exchange := ⟨fun _ => none⟩

variable [Exchange]

/-- A text as the companion has it. -/
def exchanged (t : MarkupText) : MarkupText :=
  match t.span.range.bind fun range => text range.1 with
  | some wording => { raw := wording.raw, value := wording.value }
  | none => { t with span := {} }

/-- What the companion has for a tree. -/
def there : Retouch where
  span _ := {}
  text := exchanged

@[simp]
theorem there_lead : there.lead = id := rfl

@[simp]
theorem there_span (s : Span) : there.span s = {} := rfl

end Exchange

namespace Retouch

/-- The retouch that forgets every extent. -/
def blank : Retouch where
  span _ := {}

@[simp]
theorem blank_lead : blank.lead = id := rfl

@[simp]
theorem blank_span (s : Span) : blank.span s = {} := rfl

@[simp]
theorem blank_hidden : blank.hidden = blank := rfl

/-- Literals keep what they say, and how. -/
structure Faithful (ρ : Retouch) : Prop where
  /-- Their values stay. -/
  value (lit : Literal) : (ρ.literal lit).value = lit.value
  /-- Their spellings stay. -/
  raw (lit : Literal) : (ρ.literal lit).raw = lit.raw

theorem faithful_blank : blank.Faithful := ⟨fun _ => rfl, fun _ => rfl⟩

end Retouch

namespace Exchange

variable [Exchange]

@[simp]
theorem there_hidden : there.hidden = .blank := rfl

theorem faithful_there : there.Faithful := ⟨fun _ => rfl, fun _ => rfl⟩

/-- What the companion has is without extents. -/
theorem blank_comp_there : Retouch.blank.comp there = there := by
  have htext : Retouch.blank.text ∘ there.text = there.text := by
    funext t
    change Retouch.blank.text (exchanged t) = exchanged t
    unfold exchanged
    split <;> rfl
  unfold Retouch.comp
  rw [htext]
  rfl

end Exchange

/-- If no text is exchanged, only extents are missing. -/
theorem Exchange.there_nothing : @Exchange.there .nothing = .blank := by
  have htext : @Exchange.exchanged .nothing = Retouch.blank.text := by
    funext t
    unfold Exchange.exchanged
    split
    · rename_i h
      cases hr : t.span.range <;> simp [hr] at h
    · rfl
  unfold Exchange.there
  rw [htext]
  rfl

open Retouch (blank)

open Exchange (there)

/-! ## Alikeness -/

/-- Values with a form without places. -/
class Placed (α : Type) where
  /-- What the companion has for the value, without places. -/
  expected : α → α
  /-- The value without its places. -/
  unplace : α → α
  /-- There is something that the companion can have. -/
  exists_expected (a : α) : ∃ b, expected a = unplace b

export Placed (expected unplace)

/-- What the companion has for a value, but for places. -/
def Alike {α : Type} [Placed α] (a b : α) : Prop := expected a = unplace b

namespace Alike

variable {α : Type} [Placed α] {a b : α}

/-- There is something that the companion can have. -/
theorem «exists» (a : α) : ∃ b, Alike a b := Placed.exists_expected a

/-- What is exchanged nowhere is alike to itself. -/
theorem refl (a : α) (h : expected a = unplace a) : Alike a a := h

/-- What the companion has, without places. -/
theorem eq (h : Alike a b) : expected a = unplace b := h

end Alike

/-! ## Values without places -/

/-- Values without places and texts. -/
@[reducible]
def Placed.plain {α : Type} : Placed α := ⟨id, id, fun a => ⟨a, rfl⟩⟩

/-- Values that are places. -/
@[reducible]
def Placed.place {α : Type} (a : α) : Placed α := ⟨fun _ => a, fun _ => a, fun a => ⟨a, rfl⟩⟩

instance : Placed Unit := .plain
instance : Placed Bool := .plain
instance : Placed String := .plain
instance : Placed Value := .plain
instance : Placed Terminator := .plain
instance : Placed Modifiers := .plain
instance : Placed PropertyKind := .plain
instance : Placed MethodKind := .plain

/-! ## Places -/

instance : Placed Position := .place {}
instance : Placed Site := .place {}
instance : Placed Span := .place {}

@[simp]
theorem alike_position (a b : Position) : Alike a b := rfl

@[simp]
theorem alike_site (a b : Site) : Alike a b := rfl

@[simp]
theorem alike_span (a b : Span) : Alike a b := rfl

@[simp]
theorem alike_unit (a b : Unit) : Alike a b := rfl

@[simp]
theorem alike_bool {a b : Bool} : Alike a b ↔ a = b := Iff.rfl

@[simp]
theorem alike_string {a b : String} : Alike a b ↔ a = b := Iff.rfl

@[simp]
theorem alike_terminator {a b : Terminator} : Alike a b ↔ a = b := Iff.rfl

@[simp]
theorem alike_modifiers {a b : Modifiers} : Alike a b ↔ a = b := Iff.rfl

@[simp]
theorem alike_propertyKind {a b : PropertyKind} : Alike a b ↔ a = b := Iff.rfl

@[simp]
theorem alike_methodKind {a b : MethodKind} : Alike a b ↔ a = b := Iff.rfl

@[simp]
theorem alike_value {a b : Value} : Alike a b ↔ a = b := Iff.rfl

/-! ## Pairs, options and lists -/

section

variable {α β : Type} [Placed α] [Placed β]

instance : Placed (α × β) where
  expected := fun (a, b) => (expected a, expected b)
  unplace := fun (a, b) => (unplace a, unplace b)
  exists_expected := fun (a, b) =>
    let ⟨a', ha⟩ := Alike.exists a
    let ⟨b', hb⟩ := Alike.exists b
    ⟨(a', b'), Prod.ext ha hb⟩

instance : Placed (Option α) where
  expected := Option.map expected
  unplace := Option.map unplace
  exists_expected
    | none => ⟨none, rfl⟩
    | some a => (Alike.exists a).imp' some fun _ => congrArg some

theorem Alike.exists_list (as : List α) : ∃ bs : List α, as.map expected = bs.map unplace := by
  induction as with
  | nil => exact ⟨[], rfl⟩
  | cons a as ih =>
    obtain ⟨b, hb⟩ := Alike.exists a
    obtain ⟨bs, hbs⟩ := ih
    exact ⟨b :: bs, by rw [List.map_cons, List.map_cons, hb.eq, hbs]⟩

instance : Placed (List α) := ⟨List.map expected, List.map unplace, Alike.exists_list⟩

@[simp]
theorem alike_prod {a a' : α} {b b' : β} : Alike (a, b) (a', b') ↔ Alike a a' ∧ Alike b b' :=
  Prod.mk.injEq .. ▸ Iff.rfl

@[simp]
theorem alike_none : Alike (none : Option α) none := rfl

@[simp]
theorem alike_some {a a' : α} : Alike (some a) (some a') ↔ Alike a a' := by
  change some (expected a) = some (unplace a') ↔ _
  rw [Option.some.injEq]
  rfl

@[simp]
theorem not_alike_none_some {a : α} : ¬ Alike none (some a) := nofun

@[simp]
theorem not_alike_some_none {a : α} : ¬ Alike (some a) none := nofun

@[simp]
theorem alike_nil : Alike ([] : List α) [] := rfl

@[simp]
theorem alike_cons {a a' : α} {as as' : List α} :
    Alike (a :: as) (a' :: as') ↔ Alike a a' ∧ Alike as as' :=
  List.cons.injEq .. ▸ Iff.rfl

@[simp]
theorem not_alike_nil_cons {a : α} {as : List α} : ¬ Alike [] (a :: as) := nofun

@[simp]
theorem not_alike_cons_nil {a : α} {as : List α} : ¬ Alike (a :: as) [] := nofun

/-- What is alike to a list of one item is such a list. -/
theorem Alike.singleton {a : α} {as : List α} (h : Alike [a] as) : ∃ a',
    as = [a'] ∧ Alike a a' := by
  rcases as with _ | ⟨a', _ | ⟨b, as⟩⟩
  · exact absurd h not_alike_cons_nil
  · exact ⟨a', rfl, (alike_cons.1 h).1⟩
  · exact absurd (alike_cons.1 h).2 not_alike_nil_cons

/-- What a list of one item is alike to is such a list. -/
theorem Alike.of_singleton {a : α} {as : List α} (h : Alike as [a]) : ∃ a', as = [a'] := by
  rcases as with _ | ⟨a', _ | ⟨b, as⟩⟩
  · exact absurd h not_alike_nil_cons
  · exact ⟨a', rfl⟩
  · exact absurd (alike_cons.1 h).2 not_alike_cons_nil

theorem Alike.or {a a' b b' : Option α} (h : Alike a a') (h' : Alike b b') :
    Alike (a.or b) (a'.or b') := by
  cases a <;> cases a' <;> simp_all

theorem Alike.length {as bs : List α} (h : Alike as bs) : as.length = bs.length := by
  simpa using congrArg List.length (show as.map expected = bs.map unplace from h)

/-- Alike lists stay alike under functions that take alike items to alike ones. -/
theorem Alike.map {f g : α → β} {as as' : List α} (h : Alike as as')
    (hf : ∀ a a', Alike a a' → Alike (f a) (g a')) : Alike (as.map f) (as'.map g) := by
  induction as generalizing as' with
  | nil =>
    cases as' with
    | nil => exact alike_nil
    | cons a as' => exact absurd h not_alike_nil_cons
  | cons a as ih =>
    cases as' with
    | nil => exact absurd h not_alike_cons_nil
    | cons a' as' =>
      obtain ⟨ha, has⟩ := alike_cons.1 h
      exact alike_cons.2 ⟨hf a a' ha, ih has⟩

theorem alike_list_string {as bs : List String} : Alike as bs ↔ as = bs := by
  change as.map id = bs.map id ↔ _
  rw [List.map_id, List.map_id]

theorem alike_option_string {a b : Option String} : Alike a b ↔ a = b := by
  cases a <;> cases b <;> simp

end

/-! ## Tokens -/

namespace Token

/-- The spelling of a token as far as productions can tell it: all of it, but nothing of a private
name and all but the first character of a template piece. -/
def visible (t : Token) : String :=
  match t.kind with
  | .privateName => ""
  | .template => String.ofList (t.raw.toList.drop 1)
  | _ => t.raw

end Token

/-- The meaning of a token without what the delimiter in front of a template piece says. -/
def TokenValue.headless : TokenValue → TokenValue
  | .template cooked _ isTail => .template cooked false isTail
  | value => value

namespace Token

/-- A token without its place. -/
def unplaced (t : Token) : Token :=
  { t with
    value := t.value.headless
    escaped := t.kind ≠ .privateName && t.escaped
    raw := t.visible
    start := {}
    stop := {}
    lineStart := 0 }

section

variable [Exchange]

/-- What the companion has in place of a text in markup. -/
def exchange? (t : Token) : Option Wording :=
  if t.kind = .markupText then Exchange.text t.start.offset else none

/-- What the companion has for a token. -/
def exchanged (t : Token) : Token :=
  match t.exchange? with
  | some wording => { t.unplaced with raw := wording.raw, value := .text wording.value }
  | none => t.unplaced

theorem exchange?_eq_none {t : Token} (h : t.kind ≠ .markupText) : t.exchange? = none :=
  if_neg h

theorem exchange?_of_isPunctuator {t : Token} {spelling : String}
    (h : t.isPunctuator spelling = true) : t.exchange? = none :=
  exchange?_eq_none (by rintro hk; simp [isPunctuator, hk] at h)

theorem exchange?_of_isOneOf {t : Token} {spellings : List String}
    (h : t.isOneOf spellings = true) : t.exchange? = none :=
  exchange?_eq_none (by rintro hk; simp [isOneOf, hk] at h)

theorem kind_of_exchange? {t : Token} {wording : Wording} (h : t.exchange? = some wording) :
    t.kind = .markupText := by
  unfold exchange? at h
  split at h
  · assumption
  · cases h

end

theorem exchange?_nothing (t : Token) : @exchange? .nothing t = none := by
  unfold exchange?
  split <;> rfl

end Token

variable [Exchange]

instance : Placed Token where
  expected := Token.exchanged
  unplace := Token.unplaced
  exists_expected t := by
    unfold Token.exchanged
    split
    · rename_i wording hx
      refine ⟨{ t with raw := wording.raw, value := .text wording.value }, ?_⟩
      simp [Token.unplaced, Token.visible, Token.kind_of_exchange? hx, TokenValue.headless]
    · exact ⟨t, rfl⟩

namespace Alike

variable {t t' : Token}

/-- Where no text is exchanged, tokens that are the same without places are alike. -/
theorem of_unplaced (hx : t.exchange? = none) (h : t.unplaced = t'.unplaced) : Alike t t' := by
  change t.exchanged = t'.unplaced
  rw [Token.exchanged, hx]
  exact h

omit [Exchange] in
/-- If no text is exchanged at all, every token is alike to itself. -/
theorem self (t : Token) : letI := Exchange.nothing; Alike t t :=
  let _ := Exchange.nothing
  of_unplaced t.exchange?_nothing rfl

/-- Where no text is exchanged, alike tokens are the same without places. -/
theorem unplaced (h : Alike t t') (hx : t.exchange? = none) : t'.unplaced = t.unplaced := by
  have he : t.exchanged = t'.unplaced := h
  rw [← he, Token.exchanged, hx]

/-- What exchanged texts have nothing to do with is the same in alike tokens. -/
theorem field {α : Type} (f : Token → α)
    (hf : ∀ t : Token, ∀ raw text, f { t with raw, value := .text text } = f t) (h : Alike t t') :
    f t'.unplaced = f t.unplaced := by
  have he : t.exchanged = t'.unplaced := h
  rw [← he, Token.exchanged]
  split
  · exact hf _ _ _
  · rfl

theorem kind (h : Alike t t') : t'.kind = t.kind := h.field (·.kind) fun _ _ _ => rfl

theorem lead (h : Alike t t') : t'.lead = t.lead := h.field (·.lead) fun _ _ _ => rfl

theorem newlineBefore (h : Alike t t') : t'.newlineBefore = t.newlineBefore :=
  h.field (·.newlineBefore) fun _ _ _ => rfl

theorem octal (h : Alike t t') : t'.octal = t.octal := h.field (·.octal) fun _ _ _ => rfl

theorem visible (h : Alike t t') (hm : t.kind ≠ .markupText) : t'.visible = t.visible :=
  congrArg Token.raw (h.unplaced (t.exchange?_eq_none hm))

theorem headless (h : Alike t t') (hm : t.kind ≠ .markupText) :
    t'.value.headless = t.value.headless :=
  congrArg (·.value) (h.unplaced (t.exchange?_eq_none hm))

end Alike

/-- The kinds of tokens of which productions can tell the whole spelling. -/
@[simp]
def TokenKind.isOvert : TokenKind → Bool
  | .privateName | .template | .markupText => false
  | _ => true

namespace Alike

variable {t t' : Token}

/-- Alike tokens are spelled the same, unless they are private names, template pieces or texts. -/
theorem raw (h : Alike t t') (hk : t.kind.isOvert = true) : t'.raw = t.raw := by
  have hv := h.visible (by rintro hm; simp [hm, TokenKind.isOvert] at hk)
  unfold Token.visible at hv
  rw [h.kind] at hv
  split at hv <;> simp_all [TokenKind.isOvert]

theorem escaped (h : Alike t t') (hp : t.kind ≠ .privateName) : t'.escaped = t.escaped := by
  have he : (t'.kind ≠ .privateName && t'.escaped) = (t.kind ≠ .privateName && t.escaped) :=
    h.field (·.escaped) fun _ _ _ => rfl
  rw [h.kind] at he
  simpa [hp] using he

theorem isPunctuator (h : Alike t t') (spelling : String) :
    t'.isPunctuator spelling = t.isPunctuator spelling := by
  unfold Token.isPunctuator
  rw [h.kind]
  by_cases hk : t.kind = .punctuator
  · rw [h.raw (by rw [hk]; rfl)]
  · simp [hk]

theorem isKeyword (h : Alike t t') (word : String) : t'.isKeyword word = t.isKeyword word := by
  unfold Token.isKeyword
  rw [h.kind]
  by_cases hk : t.kind = .keyword
  · rw [h.raw (by rw [hk]; rfl)]
  · simp [hk]

theorem isWord (h : Alike t t') (word : String) : t'.isWord word = t.isWord word := by
  unfold Token.isWord
  rw [h.kind]
  by_cases hk : t.kind = .identifier
  · rw [h.raw (by rw [hk]; rfl), h.escaped (by simp [hk])]
  · simp [hk]

theorem isOneOf (h : Alike t t') (spellings : List String) :
    t'.isOneOf spellings = t.isOneOf spellings := by
  unfold Token.isOneOf
  rw [h.kind]
  by_cases hk : t.kind = .punctuator
  · rw [h.raw (by rw [hk]; rfl)]
  · simp [hk]

theorem isEof (h : Alike t t') : t'.isEof = t.isEof := by
  unfold Token.isEof
  rw [h.kind]

theorem isString (h : Alike t t') : t'.isString = t.isString := by
  unfold Token.isString
  rw [h.kind]

theorem isName (h : Alike t t') : t'.isName = t.isName := by
  unfold Token.isName
  rw [h.kind]

theorem isAnyName (h : Alike t t') : t'.isAnyName = t.isAnyName := by
  unfold Token.isAnyName
  rw [h.kind]

/-- The decoded text of alike tokens is the same where it does not hang on the spelling. -/
theorem text_eq (h : Alike t t') (hm : t.kind ≠ .markupText) {text : String}
    (ht : t.value = .text text) : t'.text = t.text := by
  have hv := h.headless hm
  unfold Token.text
  cases hx : t'.value <;> simp_all [TokenValue.headless]

theorem text (h : Alike t t') (hk : t.kind.isOvert = true) : t'.text = t.text := by
  have hv := h.headless (by rintro hm; simp [hm, TokenKind.isOvert] at hk)
  have hr := h.raw hk
  unfold Token.text
  cases hx : t.value <;> cases hy : t'.value <;> simp_all [TokenValue.headless]

end Alike

/-! ## Leaves and trees -/

/-- Values that are retouched. -/
@[reducible]
def Placed.retouched {α : Type} (retouch : Retouch → α → α)
    (h : ∀ a, ∃ b, retouch there a = retouch blank b) : Placed α :=
  ⟨retouch there, retouch blank, h⟩

/-! Nothing is exchanged in leaves other than texts in markup. -/

@[simp]
theorem Exchange.literal_there (lit : Literal) : there.literal lit = blank.literal lit := rfl

@[simp]
theorem Ident.retouch_there (id : Ident) : id.retouch there = id.retouch blank := rfl

@[simp]
theorem PrivateName.retouch_there (name : PrivateName) :
    name.retouch there = name.retouch blank := rfl

@[simp]
theorem Quasi.retouch_there (piece : Quasi) : piece.retouch there = piece.retouch blank := rfl

@[simp]
theorem Terminator.retouch_there (t : Terminator) : t.retouch there = t := rfl

omit [Exchange] in
@[simp]
theorem Terminator.retouch_blank (t : Terminator) : t.retouch blank = t := rfl

@[simp]
theorem Modifiers.retouch_there (mods : Modifiers) : mods.retouch there = mods :=
  mods.retouch_eq_self rfl

omit [Exchange] in
@[simp]
theorem Modifiers.retouch_blank (mods : Modifiers) : mods.retouch blank = mods :=
  mods.retouch_eq_self rfl

@[simp]
theorem FunctionHead.retouch_there (head : FunctionHead) :
    head.retouch there = head.retouch blank := rfl

@[simp]
theorem TagName.retouch_there (name : TagName) : name.retouch there = name.retouch blank := by
  induction name with
  | plain _ | namespaced _ => rfl
  | member base dotLead prop span ih =>
    simp only [TagName.retouch, ih]
    rfl

@[simp]
theorem AttributeName.retouch_there (name : AttributeName) :
    name.retouch there = name.retouch blank := by
  cases name <;> rfl

@[simp]
theorem ClosingTag.retouch_there (tag : ClosingTag) : tag.retouch there = tag.retouch blank := by
  simp only [ClosingTag.retouch, TagName.retouch_there]
  rfl

@[simp]
theorem ExportName.retouch_there (name : ExportName) : name.retouch there = name.retouch blank := by
  cases name <;> rfl

@[simp]
theorem ImportAlias.retouch_there (a : ImportAlias) : a.retouch there = a.retouch blank := rfl

@[simp]
theorem ImportSpecifier.retouch_there (i : ImportSpecifier) :
    i.retouch there = i.retouch blank := by
  simp only [ImportSpecifier.retouch, ExportName.retouch_there]
  rfl

@[simp]
theorem NamespaceImport.retouch_there (n : NamespaceImport) :
    n.retouch there = n.retouch blank := rfl

@[simp]
theorem NamedImports.retouch_there (n : NamedImports) : n.retouch there = n.retouch blank := by
  simp only [NamedImports.retouch, ImportSpecifier.retouch_there]
  rfl

@[simp]
theorem ImportClause.retouch_there (c : ImportClause) : c.retouch there = c.retouch blank := by
  simp only [ImportClause.retouch, NamedImports.retouch_there]
  rfl

@[simp]
theorem ExportAlias.retouch_there (a : ExportAlias) : a.retouch there = a.retouch blank := by
  simp only [ExportAlias.retouch, ExportName.retouch_there]
  rfl

@[simp]
theorem ExportSpecifier.retouch_there (i : ExportSpecifier) :
    i.retouch there = i.retouch blank := by
  simp only [ExportSpecifier.retouch, ExportName.retouch_there, ExportAlias.retouch_there]
  rfl

@[simp]
theorem FromClause.retouch_there (c : FromClause) : c.retouch there = c.retouch blank := rfl

instance : Placed Ident := .retouched Ident.retouch fun id => ⟨id, id.retouch_there⟩
instance : Placed PrivateName := .retouched PrivateName.retouch fun n => ⟨n, n.retouch_there⟩
instance : Placed Literal := .retouched Retouch.literal fun lit => ⟨lit, Exchange.literal_there lit⟩
instance : Placed Quasi := .retouched Quasi.retouch fun piece => ⟨piece, piece.retouch_there⟩
instance : Placed TagIdent := .retouched TagIdent.retouch fun id => ⟨id, rfl⟩
instance : Placed NamespacedName := .retouched NamespacedName.retouch fun n => ⟨n, rfl⟩
instance : Placed TagName := .retouched TagName.retouch fun n => ⟨n, n.retouch_there⟩
instance : Placed AttributeName := .retouched AttributeName.retouch fun n => ⟨n, n.retouch_there⟩
instance : Placed ClosingTag := .retouched ClosingTag.retouch fun tag => ⟨tag, tag.retouch_there⟩
instance : Placed ExportName := .retouched ExportName.retouch fun n => ⟨n, n.retouch_there⟩
instance : Placed ImportAlias := .retouched ImportAlias.retouch fun a => ⟨a, a.retouch_there⟩
instance : Placed ImportSpecifier := .retouched ImportSpecifier.retouch fun i =>
    ⟨i, i.retouch_there⟩
instance : Placed NamespaceImport := .retouched NamespaceImport.retouch fun n =>
    ⟨n, n.retouch_there⟩
instance : Placed NamedImports := .retouched NamedImports.retouch fun n => ⟨n, n.retouch_there⟩
instance : Placed ImportClause := .retouched ImportClause.retouch fun c => ⟨c, c.retouch_there⟩
instance : Placed ExportAlias := .retouched ExportAlias.retouch fun a => ⟨a, a.retouch_there⟩
instance : Placed ExportSpecifier := .retouched ExportSpecifier.retouch fun i =>
    ⟨i, i.retouch_there⟩
instance : Placed FromClause := .retouched FromClause.retouch fun c => ⟨c, c.retouch_there⟩
instance : Placed MarkupText := .retouched Retouch.text fun t =>
  ⟨there.text t, congrArg (Retouch.text · t) Exchange.blank_comp_there.symm⟩

theorem Tree.retouch_there {c : Category} (t : Tree c) :
    t.retouch there = (t.retouch there).retouch blank := by
  rw [retouch_retouch rfl rfl, Exchange.blank_comp_there]

theorem Program.retouch_there (p : Program) :
    p.retouch there = (p.retouch there).retouch blank := by
  have hbody : (p.body.map (·.retouch there)).map (·.retouch blank) = p.body.map
    (·.retouch there) := by
    rw [List.map_map]
    exact List.map_congr_left fun t _ => t.retouch_there.symm
  exact congrArg (Program.mk p.goal · p.tail {}) hbody.symm

instance {c : Category} : Placed (Tree c) := .retouched Tree.retouch fun t => ⟨_, t.retouch_there⟩
instance : Placed Program := .retouched Program.retouch fun p => ⟨_, p.retouch_there⟩

namespace Alike

theorem tree {c : Category} {a b : Tree c} (h : Alike a b) : a.retouch there = b.retouch blank := h

theorem of_tree {c : Category} {a b : Tree c} (h : a.retouch there = b.retouch blank) :
    Alike a b := h

/-- Lists of alike trees. -/
theorem trees {c : Category} {as bs : List (Tree c)} (h : Alike as bs) :
    as.map (·.retouch there) = bs.map (·.retouch blank) := h

theorem ident {id id' : Ident} (h : Alike id id') : id.retouch blank = id'.retouch blank := h

theorem bare {id id' : Ident} (h : Alike id id') : Alike id.bare id'.bare := by
  change (id.retouch blank).bare = (id'.retouch blank).bare
  rw [h.ident]

theorem name {id id' : Ident} (h : Alike id id') : id'.name = id.name :=
  (congrArg Ident.name h.ident).symm

/-- A function of trees that no retouch has an influence on cannot tell alike trees apart. -/
theorem congr {α : Type} {c : Category} {a b : Tree c} (h : Alike a b) (f : Tree c → α)
    (hf : ∀ ρ : Retouch, ρ.Faithful → ∀ t : Tree c, f (t.retouch ρ) = f t) : f b = f a := by
  rw [← hf _ Retouch.faithful_blank, ← h.tree, hf _ Exchange.faithful_there]

/-- Alike texts in markup make alike leaves, wherever they are said to end. -/
theorem markupText {t t' : Token} (h : Alike t t') (hk : t.kind = .markupText)
    (stop stop' : Position) :
    Alike ({ value := t.text, raw := t.raw, span := .between t.start stop } : MarkupText)
      { value := t'.text, raw := t'.raw, span := .between t'.start stop' } := by
  have hkind : ∀ {u : Token}, u.kind = .markupText → u.visible = u.raw := fun {u} hu => by
    unfold Token.visible
    rw [hu]
  have he : t.exchanged = t'.unplaced := h
  have hx : t.exchange? = Exchange.text t.start.offset := if_pos hk
  change Exchange.exchanged _ = MarkupText.mk t'.text t'.raw {}
  unfold Token.exchanged at he
  rw [hx] at he
  unfold Exchange.exchanged
  simp only [Span.between, Option.bind_some]
  split
  · rename_i wording hs
    rw [hs] at he
    have hraw : wording.raw = t'.visible := congrArg Token.raw he
    have hvalue : .text wording.value = t'.value.headless := congrArg (·.value) he
    have htext : t'.text = wording.value := by
      unfold Token.text
      cases hv : t'.value <;> simp_all [TokenValue.headless]
    rw [htext, hraw, hkind (h.kind.trans hk)]
  · rename_i hs
    rw [hs] at he
    have hraw : t.visible = t'.visible := congrArg Token.raw he
    rw [hkind hk, hkind (h.kind.trans hk)] at hraw
    have hvalue : t.value.headless = t'.value.headless := congrArg (·.value) he
    have htext : t'.text = t.text := by
      unfold Token.text
      cases hv : t.value <;> cases hv' : t'.value <;> simp_all [TokenValue.headless]
    rw [htext, hraw]

end Alike

/-! ## What productions hand on between themselves -/

instance : Placed Markup where
  expected
    | .element e => .element (expected e)
    | .fragment f => .fragment (expected f)
  unplace
    | .element e => .element (unplace e)
    | .fragment f => .fragment (unplace f)
  exists_expected
    | .element e => (Alike.exists e).imp' .element fun _ => congrArg Markup.element
    | .fragment f => (Alike.exists f).imp' .fragment fun _ => congrArg Markup.fragment

instance {α : Type} [Placed α] : Placed (Parse.Round α) where
  expected
    | .item value => .item (expected value)
    | .hole value separator => .hole (expected value) separator
    | .last value => .last (expected value)
  unplace
    | .item value => .item (unplace value)
    | .hole value separator => .hole (unplace value) separator
    | .last value => .last (unplace value)
  exists_expected
    | .item v => (Alike.exists v).imp' .item fun _ => congrArg _
    | .hole v s => (Alike.exists v).imp' (.hole · s) fun _ => congrArg (Parse.Round.hole · s)
    | .last v => (Alike.exists v).imp' .last fun _ => congrArg _

instance : Placed Grammar.GroupItem where
  expected i := { value := expected i.value, start := {}, stop := {} }
  unplace i := { value := unplace i.value, start := {}, stop := {} }
  exists_expected i := (Alike.exists i.value).imp' (⟨·, {}, {}⟩) fun _ h => by
    rw [h.eq]

instance : Placed Grammar.Group where
  expected g := { g with items := expected g.items }
  unplace g := { g with items := unplace g.items }
  exists_expected g := (Alike.exists g.items).imp' ({ g with items := · }) fun _ h => by
    rw [h.eq]

instance : Placed Grammar.Chain where
  expected c := { c with value := expected c.value }
  unplace c := { c with value := unplace c.value }
  exists_expected c := (Alike.exists c.value).imp' ({ c with value := · }) fun _ h => by
    rw [h.eq]

instance : Placed Grammar.Variables where
  expected v := { v with items := expected v.items }
  unplace v := { v with items := unplace v.items }
  exists_expected v := (Alike.exists v.items).imp' ({ v with items := · }) fun _ h => by
    rw [h.eq]

end Verbatim
