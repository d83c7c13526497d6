import Verbatim.Grammar.Language
import Verbatim.Proofs.Progress.Basic

/-!
# Expressions take tokens

## Main results

* `Verbatim.Productions.Ready.templateParts`, `Verbatim.Productions.Ready.classMembers`,
  `Verbatim.Productions.Ready.children` — loops whose rounds take tokens.
* `Verbatim.Productions.Ready.operand`, `Verbatim.Productions.Ready.expression_step` — expressions.
-/

namespace Verbatim

namespace Parse.Concur

variable {α β : Type} {n : Nat} {b : Bool} {t : Token} {ctx : Context}
  {post : β → Bool → Token → Prop}

/-- A check for a fault that may be survived, and the rest of the sequence behind it. -/
theorem checked {c : Prop} [Decidable c] {fault : Fault} {site : Site} {f f' : Unit → Parse β}
    (hf : fault ≠ .stalled) (h : Concur n b t (f ()) (f' ()) post) :
    Concur n b t (if c then Parse.tolerate fault site >>= f else f ())
      (if c then Parse.tolerate fault site >>= f' else f' ()) post :=
  branch (fun _ => tolerate hf h) fun _ => h

/-! ## Literals and names -/

theorem octalFault_ne_stalled (u : Token) : Grammar.octalFault u ≠ .stalled := by
  unfold Grammar.octalFault
  split <;> nofun

theorem literalValue {u : Token} {f f' : Value → Parse β}
    (h : ∀ v, Concur n b t (f v) (f' v) post) :
    Concur n b t (Grammar.literalValue ctx u >>= f) (Grammar.literalValue ctx u >>= f') post := by
  unfold Grammar.literalValue
  split
  case h_2 =>
    split
    · exact h _
    · exact failThen nofun
  case h_7 => exact unexpectedThen
  all_goals exact h _

/-- A literal is taken. -/
theorem literal (ht : t.isEof = false) :
    Concur n b t (Grammar.literal ctx) (Grammar.literal ctx) Took :=
  next ht fun _ => checked (octalFault_ne_stalled t)
    (literalValue fun _ => finish fun _ => pure rfl)

theorem checkOperatorWord {u : Token} {f f' : Unit → Parse β}
    (h : Concur n b t (f ()) (f' ()) post) :
    Concur n b t (Grammar.checkOperatorWord ctx u >>= f) (Grammar.checkOperatorWord ctx u >>= f')
      post :=
  aside (branch (fun _ => unexpectedThen) fun _ => branch (fun _ => unexpected) fun _ =>
    pure ⟨rfl, rfl⟩) fun _ => h

theorem checkReference {u : Token} {f f' : Unit → Parse β} (h : Concur n b t (f ()) (f' ()) post) :
    Concur n b t (Grammar.checkReference ctx u >>= f) (Grammar.checkReference ctx u >>= f') post :=
  aside (checkOperatorWord (branch (fun _ => last (tolerate nofun (pure ⟨rfl, rfl⟩))) fun _ =>
    pure ⟨rfl, rfl⟩)) fun _ => h

/-- A name that is bound is taken. -/
theorem bindingName {restricted : Fault} (hr : restricted ≠ .stalled) :
    Concur n b t (Grammar.bindingName restricted ctx)
      (Grammar.bindingName restricted ctx) Took := by
  refine look (branch (fun _ => unexpectedHereThen) fun hn => ?_)
  have ht : t.isEof = false := Token.isEof_of_isName (by simpa using hn)
  refine next ht fun u => checkOperatorWord
    (branch (fun _ => ?_) fun _ => last (finishName fun _ => pure rfl))
  refine branch (fun _ => tolerate nofun (last (finishName fun _ => pure rfl))) fun _ => ?_
  exact checked hr (last (finishName fun _ => pure rfl))

theorem templatePiece {tagged : Bool} :
    Concur n b t (Grammar.templatePiece ctx tagged) (Grammar.templatePiece ctx tagged) Took := by
  refine look (branch (fun _ => unexpectedHereThen) fun hk => ?_)
  have ht : t.isEof = false := Token.isEof_of_kind (by simp_all)
  refine next ht fun u => ?_
  split
  · refine branch (fun _ => failThen ?_) fun _ => finish fun _ => pure rfl
    split <;> simp
  · exact unexpected

theorem isModifier {forbidsNewline : Bool} {f f' : Bool → Parse β}
    (h : ∀ v, Concur n b t (f v) (f' v) post) :
    Concur n b t (Grammar.isModifier forbidsNewline >>= f)
      (Grammar.isModifier forbidsNewline >>= f')
      post :=
  aside (peek fun _ => pure ⟨rfl, rfl⟩) h

end Parse.Concur

namespace Productions.Ready

open Verbatim.Parse Verbatim.Parse.Concur

variable {p p' : Productions} {n : Nat} {b : Bool} {t : Token} {ctx : Context}

/-! ## Templates and keys -/

/-- Every piece of a template takes a token. -/
theorem templateParts {tagged : Bool} {rounds rounds' : Nat} (hp : Ready n p p') (hr : n < rounds)
    (hr' : n < rounds') :
    Concur n false t (Grammar.templateParts p ctx tagged rounds)
      (Grammar.templateParts p' ctx tagged rounds') Took := by
  induction rounds generalizing n t rounds' with
  | zero => omega
  | succ rounds ih =>
    obtain ⟨rounds', rfl⟩ : ∃ k, rounds' = k + 1 := ⟨rounds' - 1, by omega⟩
    refine call templatePiece fun piece u => branch (fun _ => pure rfl) fun _ => ?_
    have hrest : (Grammar.templateParts p ctx tagged rounds).Advances n
        (Grammar.templateParts p' ctx tagged rounds') := fun m hm _ =>
      ih (hp.mono (Nat.le_of_lt hm)) (by omega) (by omega)
    exact (hp.expression _).thenDo fun _ _ => hrest.thenDo fun _ _ => pure rfl

theorem template (hp : Ready n p p') {tagged : Bool} :
    Concur n b t (Grammar.template p ctx tagged) (Grammar.template p' ctx tagged) Took :=
  here (call (weaken (hp.templateParts hp.rounds.1 hp.rounds.2)) fun _ _ =>
    finish fun _ => pure rfl)

/-- A key takes a token. -/
theorem key (hp : Ready n p p') {allowsPrivate : Bool} :
    Concur n b t (Grammar.key p ctx allowsPrivate) (Grammar.key p' ctx allowsPrivate) Took := by
  refine look (branch (fun hn => anyName (Token.isEof_of_isAnyName hn) fun _ _ => pure rfl)
    fun _ => ?_)
  cases hk : t.kind
  case string | numeric | bigint =>
    exact call (literal (Token.isEof_of_kind (by simp [hk]))) fun _ _ => pure rfl
  case privateName =>
    refine branch (fun _ => next (Token.isEof_of_kind (by simp [hk])) fun _ => ?_)
      fun _ => unexpected
    exact still (fun _ => ⟨_, _, rfl, rfl, rfl, rfl⟩) fun _ => pure rfl
  all_goals
    refine branch (fun hs => lead (Token.isEof_of_isPunctuator hs) fun _ => ?_) fun _ => unexpected
    exact (hp.assignment _).thenDo fun _ _ => expect fun _ _ => pure rfl

/-! ## Bindings -/

theorem withDefault (hp : Ready n p p') {start : Position} {target : Pattern} :
    Concur n true t (Grammar.withDefault p ctx start target)
      (Grammar.withDefault p' ctx start target) Took :=
  accept (fun _ _ => (hp.assignment _).thenDo fun _ _ => finish fun _ => pure rfl) (pure rfl)

theorem bindingElement (hp : Ready n p p') {restricted : Fault}
    (hf : restricted ≠ .stalled) : (Grammar.bindingElement p restricted ctx).Advances n
      (Grammar.bindingElement p' restricted ctx) := fun m hm t =>
  here (call (hp.binding hf ctx m hm t) fun _ _ => (hp.mono (Nat.le_of_lt hm)).withDefault)

theorem bindingRest (hp : Ready n p p') {restricted misplaced : Fault} {close : String}
    (hf : restricted ≠ .stalled) (hm : misplaced ≠ .stalled) :
    Concur n b t (Grammar.bindingRest p restricted ctx close misplaced)
      (Grammar.bindingRest p' restricted ctx close misplaced) Took :=
  here (expect fun _ _ => (hp.binding hf _).thenDo fun _ _ =>
    look (branch (fun _ => rejectThen nofun) fun _ =>
    branch (fun _ => rejectThen hm) fun _ => finish fun _ => pure rfl))

theorem arrayBindingRound (hp : Ready n p p') {restricted : Fault} (hf : restricted ≠ .stalled) :
    (Grammar.arrayBindingRound p restricted ctx).Advances n
      (Grammar.arrayBindingRound p' restricted ctx) := fun m hm t =>
  sees (branch (fun _ => separator fun _ _ => pure rfl) fun _ => sees (branch
    (fun _ => call ((hp.below hm).bindingRest hf nofun) fun _ _ => pure rfl)
    fun _ => call (hp.bindingElement hf m hm t) fun _ _ => pure rfl))

theorem arrayBinding (hp : Ready n p p') {restricted : Fault} (hf : restricted ≠ .stalled) :
    Concur n b t (Grammar.arrayBinding p restricted ctx) (Grammar.arrayBinding p' restricted ctx)
      Took :=
  here (expect fun _ _ => call (hp.listed (hp.arrayBindingRound hf)) fun _ _ => expect fun _ _ =>
    finish fun _ => pure rfl)

theorem bindingProperty (hp : Ready n p p') {restricted : Fault} (hf : restricted ≠ .stalled) :
    Concur n b t (Grammar.bindingProperty p restricted ctx)
      (Grammar.bindingProperty p' restricted ctx) Took := by
  refine here (look (branch (fun _ => peek fun u => pureThen ?_) fun _ => pureThen ?_))
  all_goals
    refine branch (fun _ => ?_) fun _ => ?_
    · exact call (bindingName hf) fun _ _ => call hp.withDefault fun _ _ => finish fun _ => pure rfl
    · exact call hp.key fun _ _ => expect fun _ _ => (hp.bindingElement hf).thenDo fun _ _ =>
        finish fun _ => pure rfl

theorem objectBindingRound (hp : Ready n p p') {restricted : Fault} (hf : restricted ≠ .stalled) :
    (Grammar.objectBindingRound p restricted ctx).Advances n
      (Grammar.objectBindingRound p' restricted ctx) := by
  intro m hm t
  have hrest : Concur m false t (Grammar.bindingMemberRest restricted ctx)
      (Grammar.bindingMemberRest restricted ctx) Took :=
    here (expect fun _ _ => call (bindingName hf) fun _ u =>
      look (branch (fun _ => rejectThen nofun) fun _ =>
      finish fun _ => pure rfl))
  exact sees (branch (fun _ => call hrest fun _ _ => pure rfl) fun _ =>
    call ((hp.below hm).bindingProperty hf) fun _ _ => pure rfl)

theorem objectBinding (hp : Ready n p p') {restricted : Fault} (hf : restricted ≠ .stalled) :
    Concur n b t (Grammar.objectBinding p restricted ctx) (Grammar.objectBinding p' restricted ctx)
      Took :=
  here (expect fun _ _ => call (hp.listed (hp.objectBindingRound hf)) fun _ _ => expect fun _ _ =>
    finish fun _ => pure rfl)

theorem binding_step (hp : Ready n p p') {restricted : Fault} (hf : restricted ≠ .stalled) :
    Concur n b t (Grammar.binding p restricted ctx) (Grammar.binding p' restricted ctx) Took :=
  sees (branch (fun _ => hp.arrayBinding hf) fun _ => sees
    (branch (fun _ => hp.objectBinding hf) fun _ =>
    call (bindingName hf) fun _ _ => pure rfl))

/-- The check of parameters takes no token and needs no rounds. -/
theorem checkParameters {strict unique : Bool} {site : Site} {params : List Pattern}
    {α : Type} {f f' : Unit → Parse α} {post : α → Bool → Token → Prop}
    (h : Concur n b t (f ()) (f' ()) post) :
    Concur n b t (Grammar.checkParameters strict unique site params >>= f)
      (Grammar.checkParameters strict unique site params >>= f') post := by
  have hnames : ∀ seen ids, Concur n b t
      (Grammar.checkParameterNames strict unique site seen ids)
      (Grammar.checkParameterNames strict unique site seen ids) (Idle b t) := by
    intro seen ids
    induction ids generalizing seen with
    | nil => exact pure ⟨rfl, rfl⟩
    | cons id ids ih =>
      unfold Grammar.checkParameterNames
      refine checked nofun ?_
      refine checked nofun ?_
      refine branch (fun _ => branch (fun _ => tolerate nofun (ih _)) fun _ => ?_) fun _ => ih _
      exact branch (fun _ => tolerate nofun (ih _)) fun _ => ih _
  exact aside (hnames _ _) fun _ => h

/-! ## Functions -/

/-- Every directive takes a token, and the rounds end at the first other statement. -/
theorem prologueFrom (hp : Ready n p p') {octal : Option Token} {rounds rounds' : Nat}
    (hr : n ≤ rounds) (hr' : n ≤ rounds') :
    Concur n true t (Grammar.prologueFrom p ctx octal rounds)
      (Grammar.prologueFrom p' ctx octal rounds') Took := by
  refine behind fun m hm => ?_
  induction rounds generalizing n m t ctx octal rounds' with
  | zero => omega
  | succ rounds ih =>
    obtain ⟨rounds', rfl⟩ : ∃ k, rounds' = k + 1 := ⟨rounds' - 1, by omega⟩
    have hrest : ∀ u ctx octal, Concur m true u (Grammar.prologueFrom p ctx octal rounds)
        (Grammar.prologueFrom p' ctx octal rounds') Took := fun u ctx octal =>
      behind fun k hk => ih (hp.below hm) (by omega) (by omega) k hk
    refine look (branch (fun _ => pure trivial) fun _ =>
      call (hp.expression _ m hm t) fun value u =>
      terminator fun ending u => branch (fun _ => finish fun _ => pure trivial) fun _ => ?_)
    cases octal with
    | none =>
      refine branch (fun _ => ?_) fun _ => ?_
      all_goals exact finish fun _ => call (hrest _ _ _) fun _ _ => pure trivial
    | some first =>
      refine branch (fun _ => tolerate nofun ?_) fun _ => ?_
      all_goals exact finish fun _ => call (hrest _ _ _) fun _ _ => pure trivial

theorem prologue (hp : Ready n p p') :
    Concur n true t (Grammar.prologue p ctx) (Grammar.prologue p' ctx) Took :=
  hp.prologueFrom (Nat.le_of_lt hp.rounds.1) (Nat.le_of_lt hp.rounds.2)

theorem items (hp : Ready n p p') :
    Concur n true t (Grammar.items p ctx) (Grammar.items p' ctx) Took := hp.many (hp.item ctx)

theorem functionBody (hp : Ready n p p') :
    Concur n b t (Grammar.functionBody p ctx) (Grammar.functionBody p' ctx) Took :=
  here (expect fun _ _ => call hp.prologue fun _ _ => call hp.items fun _ _ => expect fun _ _ =>
    finish fun _ => pure rfl)

theorem parameterRound (hp : Ready n p p') :
    (Grammar.parameterRound p ctx).Advances n (Grammar.parameterRound p' ctx) := fun m hm t =>
  sees (branch (fun _ => call ((hp.below hm).bindingRest nofun nofun) fun _ _ => pure rfl)
    fun _ => call (hp.bindingElement (by nofun) m hm t) fun _ _ => pure rfl)

theorem parameterList (hp : Ready n p p') :
    Concur n b t (Grammar.parameterList p ctx) (Grammar.parameterList p' ctx) Took :=
  expect fun _ _ => call (hp.listed hp.parameterRound) fun _ _ => expect fun _ _ => pure rfl

/-- Parameters and body take at least their brackets. -/
theorem paramsAndBody (hp : Ready n p p') {isAsync isGenerator unique : Bool} {name : Option Ident}
    {site : Site} :
    Concur n b t (Grammar.paramsAndBody p ctx isAsync isGenerator name site unique)
      (Grammar.paramsAndBody p' ctx isAsync isGenerator name site unique) Took := by
  refine pending fun _ => setPending (call hp.parameterList fun params u =>
    call hp.functionBody fun body u => branch (fun _ => rejectThen nofun) fun _ =>
      branch (fun _ => ?_) fun _ => checkParameters (setPending (pure rfl)))
  cases name with
  | none => exact pureThen (checkParameters (setPending (pure rfl)))
  | some id =>
    refine bind (M := fun _ b' _ => b' = true) ?_ fun _ b' u hb => ?_
    · exact branch (fun _ => last (tolerate nofun (pure rfl))) fun _ =>
        branch (fun _ => last (tolerate nofun (pure rfl))) fun _ => pure rfl
    · cases hb
      exact checkParameters (setPending (pure rfl))

theorem functionName {isDeclaration nameOptional isAsync isGenerator : Bool} :
    Concur n true t (Grammar.functionName ctx isDeclaration nameOptional isAsync isGenerator)
      (Grammar.functionName ctx isDeclaration nameOptional isAsync isGenerator) Took :=
  look (branch (fun _ => call (bindingName nofun) fun _ _ => pure rfl) fun _ =>
    branch (fun _ => unexpectedHereThen) fun _ => pure rfl)

theorem function (hp : Ready n p p') {isDeclaration nameOptional : Bool} :
    Concur n b t (Grammar.function p ctx isDeclaration nameOptional)
      (Grammar.function p' ctx isDeclaration nameOptional) Took := by
  have hlead : t.isWord "async" = true → Concur n b t (some <$> Parse.lead)
    (some <$> Parse.lead) Took :=
    fun hs => map (last (lead (Token.isEof_of_isWord hs) fun _ => pure rfl))
  refine here (seesWord (branch (fun hs => call (hlead hs) fun _ _ => ?_) fun _ => pureThen ?_))
  all_goals
    exact expectKeyword fun _ _ => acceptAny fun _ _ => look (call functionName fun _ _ =>
      call hp.paramsAndBody fun _ _ => finish fun _ => pure rfl)

theorem methodFunction (hp : Ready n p p') {isAsync isGenerator : Bool} {kind : PropertyKind} :
    Concur n b t (Grammar.methodFunction p ctx isAsync isGenerator kind)
      (Grammar.methodFunction p' ctx isAsync isGenerator kind) Took := by
  refine here (call hp.paramsAndBody fun parts u => ?_)
  refine bind (M := fun _ b' _ => b' = true) ?_ fun _ b' u hb => ?_
  · unfold Grammar.checkAccessor
    split
    case h_3 | h_5 => exact pure rfl
    all_goals exact last (tolerate nofun (pure rfl))
  · cases hb
    exact finish fun _ => pure rfl

/-! ## Classes -/

/-- The modifiers of a member may be missing. -/
theorem modifiers {α : Type} {f f' : Modifiers × PropertyKind → Parse α}
    {post : α → Bool → Token → Prop} (h : ∀ v b u, Concur n b u (f v) (f' v) post) :
    Concur n b t (Grammar.modifiers >>= f) (Grammar.modifiers >>= f') post := by
  refine bind (M := fun _ _ _ => True) ?_ fun v b u _ => h v b u
  refine look (branch (fun hs => isModifier fun _ => branch (fun _ => ?_) fun _ => ?_) fun _ =>
    branch (fun hs => isModifier fun _ => branch (fun _ => ?_) fun _ => ?_) fun _ => ?_)
  · refine lead (Token.isEof_of_isWord hs) fun _ => pureThen ?_
    exact accept (fun _ _ => pure trivial) (pure trivial)
  · exact pureThen (accept (fun _ _ => pure trivial) (pure trivial))
  · refine lead ?_ fun _ => pureThen ?_
    · exact (Bool.or_eq_true_iff.1 hs).elim Token.isEof_of_isWord Token.isEof_of_isWord
    · exact accept (fun _ _ => pure trivial) (pure trivial)
  all_goals exact pureThen (accept (fun _ _ => pure trivial) (pure trivial))

theorem staticBlock (hp : Ready n p p') {start : Position} {staticLead : String} :
    Concur n b t (Grammar.staticBlock p ctx start staticLead)
      (Grammar.staticBlock p' ctx start staticLead) Took :=
  expect fun _ _ => pending fun _ => setPending
    (call hp.items fun _ _ => setPending (expect fun _ _ =>
    finish fun _ => pure rfl))

theorem field (hp : Ready n p p') {start : Position} {mods : Modifiers} {name : Tree .key} :
    Concur n true t (Grammar.field p ctx start mods name) (Grammar.field p' ctx start mods name)
      Took := by
  have hvalue : Concur n true t (Grammar.fieldInitializer p ctx) (Grammar.fieldInitializer p' ctx)
      Took :=
    accept (fun _ _ => pending fun _ => setPending ((hp.assignment _).thenDo fun _ _ =>
      setPending (pure rfl))) (pure rfl)
  exact call hvalue fun _ _ => terminator fun _ _ => finish fun _ => pure rfl

theorem methodKind {mods : Modifiers} {kind : PropertyKind} {name : Option String}
    {hasConstructor : Bool} {site : Site} {α : Type} {f f' : MethodKind → Parse α}
    {post : α → Bool → Token → Prop} (h : ∀ v, Concur n b t (f v) (f' v) post) :
    Concur n b t (Grammar.methodKind mods kind name hasConstructor site >>= f)
      (Grammar.methodKind mods kind name hasConstructor site >>= f') post :=
  aside (branch (fun _ => branch (fun _ => rejectThen nofun) fun _ =>
    branch (fun _ => rejectThen nofun) fun _ =>
    pure ⟨rfl, rfl⟩) fun _ => pure ⟨rfl, rfl⟩) h

theorem keyedMember (hp : Ready n p p') {start : Position} {mods : Modifiers} {kind : PropertyKind}
    {hasConstructor : Bool} :
    Concur n b t (Grammar.keyedMember p ctx start mods kind hasConstructor)
      (Grammar.keyedMember p' ctx start mods kind hasConstructor) Took := by
  refine look (call hp.key fun _ _ => branch (fun _ => rejectThen nofun) fun _ => sees (branch
    (fun _ => branch (fun _ => rejectThen nofun) fun _ => call hp.field fun _ _ => pure rfl)
    fun _ => ?_))
  exact methodKind fun _ => call hp.methodFunction fun _ _ => finish fun _ => pure rfl

/-- A member of a class takes a token. -/
theorem classMember (hp : Ready n p p') {hasConstructor : Bool} :
    Concur n b t (Grammar.classMember p ctx hasConstructor)
      (Grammar.classMember p' ctx hasConstructor)
      Took := by
  refine look (branch (fun hs => ?_) fun _ => branch (fun hs => isModifier fun _ => ?_) fun _ =>
    pureThen (branch nofun fun _ => pureThen (modifiers fun _ _ _ => hp.keyedMember)))
  · exact lead (Token.isEof_of_isPunctuator hs) fun _ => extent fun _ => pure rfl
  have hlead : Concur n b t (some <$> Parse.lead) (some <$> Parse.lead) Took :=
    map (last (lead (Token.isEof_of_isWord hs) fun _ => pure rfl))
  refine branch (fun _ => call hlead fun o u => ?_) fun _ =>
    pureThen (modifiers fun _ _ _ => hp.keyedMember)
  cases o with
  | none => exact modifiers fun _ _ _ => hp.keyedMember
  | some staticLead =>
    exact sees (branch (fun _ => call hp.staticBlock fun _ _ => pure rfl) fun _ =>
      modifiers fun _ _ _ => hp.keyedMember)

/-- Every member takes a token, and the rounds end with the brace. -/
theorem classMembers (hp : Ready n p p') {hasConstructor : Bool} {rounds rounds' : Nat}
    (hr : n ≤ rounds) (hr' : n ≤ rounds') :
    Concur n true t (Grammar.classMembers p ctx hasConstructor rounds)
      (Grammar.classMembers p' ctx hasConstructor rounds') Took := by
  refine behind fun m hm => ?_
  induction rounds generalizing n m t hasConstructor rounds' with
  | zero => omega
  | succ rounds ih =>
    obtain ⟨rounds', rfl⟩ : ∃ k, rounds' = k + 1 := ⟨rounds' - 1, by omega⟩
    have hrest : ∀ u hasConstructor, Concur m true u
        (Grammar.classMembers p ctx hasConstructor rounds)
        (Grammar.classMembers p' ctx hasConstructor rounds') Took := fun u hasConstructor =>
      behind fun k hk => ih (hp.below hm) (by omega) (by omega) k hk
    exact look (branch (fun _ => pure trivial) fun _ => branch (fun _ => unexpectedThen) fun _ =>
      call (hp.below hm).classMember fun _ _ => call (hrest _ _) fun _ _ => pure trivial)

theorem heritage (hp : Ready n p p') :
    Concur n true t (Grammar.heritage p ctx) (Grammar.heritage p' ctx) Took :=
  seesKeyword (branch (fun _ => pure rfl) fun hs =>
    lead (Token.isEof_of_isKeyword (by simpa using hs)) fun _ => (hp.chain _).thenDo fun _ _ =>
      branch (fun _ => unexpectedHereThen) fun _ => pure rfl)

theorem classDefinition (hp : Ready n p p') {isDeclaration nameRequired : Bool} :
    Concur n b t (Grammar.classDefinition p ctx isDeclaration nameRequired)
      (Grammar.classDefinition p' ctx isDeclaration nameRequired) Took := by
  have hmembers : ∀ {u ctx}, Concur n true u (Grammar.classMembers p ctx false p.rounds)
      (Grammar.classMembers p' ctx false p'.rounds) Took :=
    hp.classMembers (Nat.le_of_lt hp.rounds.1) (Nat.le_of_lt hp.rounds.2)
  refine here
    (expectKeyword fun _ u => look (branch (fun _ => call (map (bindingName nofun)) fun _ _ => ?_)
    fun _ => branch (fun _ => unexpectedHereThen) fun _ => pureThen ?_))
  all_goals
    exact call hp.heritage fun _ _ => expect fun _ _ => call hmembers fun _ _ => expect fun _ _ =>
      finish fun _ => pure rfl

/-! ## Markup -/

theorem expectThen {ctx : Context} {spelling : String} {after : Mode} {α : Type}
    {f f' : String → Parse α} {post : α → Bool → Token → Prop}
    (h : ∀ lead u, Concur n true u (f lead) (f' lead) post) :
    Concur n b t (Grammar.expectThen ctx spelling after >>= f)
      (Grammar.expectThen ctx spelling after >>= f') post :=
  call (setMode (last (expect fun _ _ => pure rfl))) h

theorem leadThen {after : Mode} {α : Type} {f f' : String → Parse α}
    {post : α → Bool → Token → Prop} (ht : t.isEof = false)
    (h : ∀ lead u, Concur n true u (f lead) (f' lead) post) :
    Concur n b t (Grammar.leadThen after >>= f) (Grammar.leadThen after >>= f') post :=
  call (setMode (last (lead ht fun _ => pure rfl))) h

theorem tagIdent : Concur n b t (Grammar.tagIdent ctx) (Grammar.tagIdent ctx) Took :=
  look (branch (fun _ => unexpectedHereThen) fun hk =>
    next (Token.isEof_of_kind (by simp_all)) fun _ => finish fun _ => pure rfl)

theorem namespacedName {start : Position} {space : TagIdent} :
    Concur n b t (Grammar.namespacedName ctx start space) (Grammar.namespacedName ctx start space)
      Took :=
  expect fun _ _ => call tagIdent fun _ _ => finish fun _ => pure rfl

/-- A further member of a name takes a token. -/
theorem tagMember {start : Position} {name : TagName} :
    Concur n b t (Grammar.tagMember ctx start name) (Grammar.tagMember ctx start name)
      Moved :=
  accept (fun _ _ => call tagIdent fun _ _ => finish fun _ => pure fun _ => rfl) (pure nofun)

theorem tagName (hp : Ready n p p') :
    Concur n b t (Grammar.tagName ctx p.rounds) (Grammar.tagName ctx p'.rounds) Took := by
  refine here
    (call tagIdent fun _ _ => sees (branch (fun _ => call namespacedName fun _ _ => pure rfl)
    fun _ => hp.iterate fun _ _ _ _ => tagMember))

theorem container (hp : Ready n p p') {start : Position} {openLead : String} {after : Mode}
    {allowsEmpty : Bool} :
    Concur n true t (Grammar.container p ctx start openLead after allowsEmpty)
      (Grammar.container p' ctx start openLead after allowsEmpty) Took := by
  refine look (branch (fun _ => branch (fun _ => unexpectedThen) fun _ => ?_) fun _ => ?_)
  · exact lastEnd fun _ => finishAt fun _ => expectThen fun _ _ => finish fun _ => pure rfl
  · exact (hp.assignment _).thenDo fun _ _ => expectThen fun _ _ => finish fun _ => pure rfl

theorem attributeValue (hp : Ready n p p') :
    Concur n b t (Grammar.attributeValue p ctx) (Grammar.attributeValue p' ctx) Took := by
  refine look (branch (fun hs => ?_) fun _ => branch (fun hs => ?_) fun _ => branch (fun hs => ?_)
    fun _ => unexpected)
  · exact call (literal (Token.isEof_of_isString hs)) fun _ _ => pure rfl
  · exact leadThen (Token.isEof_of_isPunctuator hs) fun _ _ => call hp.container fun _ _ => pure rfl
  · refine lead (Token.isEof_of_isPunctuator hs) fun _ => (hp.markup _ _ _ _).thenDo fun v _ => ?_
    cases v <;> exact pure rfl

/-- An attribute takes a token. -/
theorem tagAttribute (hp : Ready n p p') :
    (Grammar.tagAttribute p ctx).Advances n (Grammar.tagAttribute p' ctx) := by
  intro m hm t
  have hp := hp.below hm
  refine sees (branch (fun hs => ?_) fun _ => ?_)
  · exact here (leadThen (Token.isEof_of_isPunctuator hs) fun _ _ => expect fun _ _ =>
      (hp.assignment _).thenDo fun _ _ => expectThen fun _ _ => finish fun _ => pure rfl)
  · refine here
      (call tagIdent fun _ _ => sees (branch (fun _ => call (map namespacedName) fun _ _ => ?_)
      fun _ => pureThen ?_))
    all_goals
      exact accept (fun _ _ => call hp.attributeValue fun _ _ => finish fun _ => pure rfl)
        (finish fun _ => pure rfl)

theorem childContainer (hp : Ready n p p') (ht : t.isEof = false) :
    Concur n b t (Grammar.childContainer p ctx) (Grammar.childContainer p' ctx) Took := by
  refine here (leadThen ht fun _ u => sees (branch (fun hs => ?_) fun _ => ?_))
  · exact lead (Token.isEof_of_isPunctuator hs) fun _ => (hp.assignment _).thenDo fun _ _ =>
      expectThen fun _ _ => finish fun _ => pure rfl
  · exact call hp.container fun _ _ => pure rfl

/-- Every child takes a token, and the rounds end with the closing tag. -/
theorem children (hp : Ready n p p') {name : String} {rounds rounds' : Nat} (hr : n ≤ rounds)
    (hr' : n ≤ rounds') :
    Concur n true t (Grammar.children p ctx name rounds) (Grammar.children p' ctx name rounds')
      Took := by
  refine behind fun m hm => ?_
  induction rounds generalizing n m t rounds' with
  | zero => omega
  | succ rounds ih =>
    obtain ⟨rounds', rfl⟩ : ∃ k, rounds' = k + 1 := ⟨rounds' - 1, by omega⟩
    have hrest : ∀ u, Concur m true u (Grammar.children p ctx name rounds)
        (Grammar.children p' ctx name rounds') Took := fun u =>
      behind fun k hk => ih (hp.below hm) (by omega) (by omega) k hk
    have hp' := hp.below hm
    refine look ?_
    dsimp only
    split
    · exact fail nofun
    · rename_i hk
      exact next (Token.isEof_of_kind (by simp [hk])) fun _ => finish fun _ =>
        call (hrest _) fun _ _ =>
        pure trivial
    · refine branch (fun hs => ?_) fun _ => branch (fun hs => ?_) fun _ => unexpected
      · exact call (hp'.childContainer (Token.isEof_of_isPunctuator hs)) fun _ _ =>
          call (hrest _) fun _ _ => pure trivial
      · refine leadThen (Token.isEof_of_isPunctuator hs) fun _ _ =>
          sees (branch (fun _ => pure trivial)
          fun _ => (hp'.markup _ _ _ _).thenDo fun v _ => ?_)
        cases v <;> exact pureThen (call (hrest _) fun _ _ => pure trivial)

theorem fragment (hp : Ready n p p') {start : Position} {openLead : String} {after : Mode} :
    Concur n b t (Grammar.fragment p ctx start openLead after)
      (Grammar.fragment p' ctx start openLead after) Took := by
  refine expectThen fun _ _ =>
    call (hp.children (Nat.le_of_lt hp.rounds.1) (Nat.le_of_lt hp.rounds.2))
    fun _ _ => expect fun _ _ => look (branch (fun _ => failThen nofun) fun _ => ?_)
  exact expectThen fun _ _ => finish fun _ => pure rfl

theorem closingTag (hp : Ready n p p') {start : Position} {openLead opened : String}
    {after : Mode} :
    Concur n b t (Grammar.closingTag p ctx start openLead opened after)
      (Grammar.closingTag p' ctx start openLead opened after) Took :=
  expect fun _ _ => look (call hp.tagName fun _ _ => branch (fun _ => failThen nofun) fun _ =>
    expectThen fun _ _ => finish fun _ => pure rfl)

theorem element (hp : Ready n p p') {start : Position} {openLead : String} {after : Mode} :
    Concur n b t (Grammar.element p ctx start openLead after)
      (Grammar.element p' ctx start openLead after) Took := by
  refine call hp.tagName fun name _ => call (hp.many hp.tagAttribute) fun _ _ =>
    sees (branch (fun hs => ?_) fun _ => ?_)
  · exact lead (Token.isEof_of_isPunctuator hs) fun _ => sees (branch (fun _ => unexpectedHereThen)
      fun _ => expectThen fun _ _ => finish fun _ => finish fun _ => pure rfl)
  · exact expectThen fun _ _ => finish fun _ =>
      call (hp.children (Nat.le_of_lt hp.rounds.1) (Nat.le_of_lt hp.rounds.2)) fun _ _ =>
        call hp.closingTag fun _ _ => finish fun _ => pure rfl

theorem markup_step (hp : Ready n p p') {start : Position} {openLead : String} {after : Mode} :
    Concur n b t (Grammar.markup p start openLead after ctx)
      (Grammar.markup p' start openLead after ctx) Took :=
  sees (branch (fun _ => map hp.fragment) fun _ => map hp.element)

theorem markupRoot (hp : Ready n p p') (ht : t.isPunctuator "<" = true) :
    Concur n b t (Grammar.markupRoot p ctx) (Grammar.markupRoot p' ctx) Took := by
  refine rescanTag ht fun u hu => here (lead (Token.isEof_of_isPunctuator hu) fun _ =>
    (hp.markup _ _ _ _).thenDo fun v _ => ?_)
  cases v <;> exact pure rfl

/-! ## Operands -/

theorem spreadOr {a a' : Parse Expr} (h : a.Advances n a') :
    (Grammar.spreadOr a).Advances n (Grammar.spreadOr a') := fun m hm t =>
  look (branch (fun hs => lead (Token.isEof_of_isPunctuator hs) fun _ =>
    (h.mono (Nat.le_of_lt hm)).thenDo fun _ _ => finish fun _ => pure rfl) fun _ => h m hm t)

theorem arrayRound (hp : Ready n p p') :
    (Grammar.arrayRound p ctx).Advances n (Grammar.arrayRound p' ctx) := fun m hm t =>
  sees (branch (fun _ => separator fun _ _ => pure rfl) fun _ =>
    call (spreadOr (hp.cover _) m hm t) fun _ _ => pure rfl)

theorem arrayLiteral (hp : Ready n p p') :
    Concur n b t (Grammar.arrayLiteral p ctx) (Grammar.arrayLiteral p' ctx) Took :=
  here (expect fun _ _ => call (hp.listed hp.arrayRound) fun _ _ => expect fun _ _ =>
    finish fun _ =>
    pure rfl)

theorem shorthandValue (hp : Ready n p p') {start : Position} {id : Ident} :
    Concur n true t (Grammar.shorthandValue p ctx start id) (Grammar.shorthandValue p' ctx start id)
      Took :=
  look (branch (fun hs => lead (Token.isEof_of_isPunctuator hs) fun _ =>
    still (fun _ => ⟨_, _, rfl, rfl, rfl, rfl⟩) fun _ => (hp.assignment _).thenDo fun _ _ =>
      finish fun _ => pure rfl) fun _ => pure rfl)

theorem shorthandName {first : Token} {name : Tree .key} :
    Concur n true t (Grammar.shorthandName ctx first name) (Grammar.shorthandName ctx first name)
      Took := by
  cases name
  case nameKey => exact branch (fun _ => pure rfl) fun _ => unexpectedHere
  all_goals exact unexpectedHere

theorem property (hp : Ready n p p') :
    Concur n b t (Grammar.property p ctx) (Grammar.property p' ctx) Took := by
  refine here
    (modifiers fun _ _ _ => look (call hp.key fun _ _ => look (branch (fun _ => ?_) fun _ =>
    branch (fun hs => ?_) fun _ => ?_)))
  · exact call hp.methodFunction fun _ _ => finish fun _ => pure rfl
  · exact lead (Token.isEof_of_isPunctuator hs) fun _ =>
      (hp.cover _).thenDo fun _ _ => finish fun _ =>
      pure rfl
  · exact call shorthandName fun _ _ => checkReference (call hp.shorthandValue fun _ _ =>
      finish fun _ => pure rfl)

theorem objectMember (hp : Ready n p p') :
    (Grammar.objectMember p ctx).Advances n (Grammar.objectMember p' ctx) := fun _ hm _ =>
  look (branch (fun hs => lead (Token.isEof_of_isPunctuator hs) fun _ =>
    ((hp.below hm).cover _).thenDo fun _ _ => finish fun _ => pure rfl) fun _ =>
      (hp.below hm).property)

theorem objectLiteral (hp : Ready n p p') :
    Concur n b t (Grammar.objectLiteral p ctx) (Grammar.objectLiteral p' ctx) Took :=
  here (expect fun _ _ => call (hp.listed hp.objectMember.map) fun _ _ => expect fun _ _ =>
    finish fun _ => pure rfl)

theorem argumentList (hp : Ready n p p') :
    Concur n b t (Grammar.argumentList p ctx) (Grammar.argumentList p' ctx) Took :=
  expect fun _ _ => call (hp.listed (spreadOr (hp.assignment _)).map) fun _ _ => expect fun _ _ =>
    pure rfl

theorem groupItem (hp : Ready n p p') :
    (Grammar.groupItem p ctx).Advances n (Grammar.groupItem p' ctx) := fun m hm t =>
  here (call (spreadOr (hp.cover _) m hm t) fun _ _ => lastEnd fun _ => pure rfl)

theorem readGroup (hp : Ready n p p') :
    Concur n b t (Grammar.readGroup p ctx) (Grammar.readGroup p' ctx) Took :=
  expect fun _ _ => call (hp.listed hp.groupItem.map) fun _ _ => expect fun _ _ => pure rfl

theorem rejectPending {α : Type} {f f' : Unit → Parse α} {post : α → Bool → Token → Prop}
    (h : Concur n b t (f ()) (f' ()) post) :
    Concur n b t (Grammar.rejectPending >>= f) (Grammar.rejectPending >>= f') post := by
  refine aside (pending fun o => ?_) fun _ => h
  cases o with
  | none => exact pure ⟨rfl, rfl⟩
  | some => exact reject nofun

/-- The expression in a group that is not empty. -/
theorem groupValue {g : Grammar.Group} (h : g.items ≠ []) {α : Type} {f f' : Expr → Parse α}
    {post : α → Bool → Token → Prop} (hf : ∀ v, Concur n b t (f v) (f' v) post) :
    Concur n b t (Grammar.groupValue g >>= f) (Grammar.groupValue g >>= f') post := by
  obtain ⟨start, stop, hbounds⟩ : ∃ start stop, g.bounds? = some (start, stop) := by
    rw [Grammar.Group.bounds?, List.head?_eq_some_head h, List.getLast?_eq_some_getLast h]
    exact ⟨_, _, rfl⟩
  unfold Grammar.groupValue
  split
  · exact hf _
  · exact aside (finishAt fun _ => pure ⟨rfl, rfl⟩) hf
  · simp_all

theorem group (hp : Ready n p p') :
    Concur n b t (Grammar.group p ctx) (Grammar.group p' ctx) Took := by
  refine here
    (call hp.readGroup fun g u => sees (branch (fun _ => extent fun _ => pure rfl) fun _ =>
    branch (fun _ => unexpectedHereThen) fun hlen => ?_))
  have hitems : g.items ≠ [] := by
    rintro hnil
    simp [hnil] at hlen
  cases g.spreadSite? with
  | some => exact failThen nofun
  | none => exact rejectPending (groupValue hitems fun _ => finish fun _ => pure rfl)

theorem functionExpression (hp : Ready n p p') :
    Concur n b t (Grammar.functionExpression p ctx) (Grammar.functionExpression p' ctx) Took :=
  map hp.function

theorem nameOperand (hp : Ready n p p') (ht : t.isEof = false) :
    Concur n b t (Grammar.nameOperand p ctx) (Grammar.nameOperand p' ctx) Took := by
  refine seesWord (branch (fun _ => peek fun _ => pureThen ?_) fun _ => pureThen ?_)
  all_goals
    exact branch (fun _ => hp.functionExpression) fun _ => next ht fun _ =>
      checkReference (finishName fun _ => pure rfl)

/-- An operand that starts with a punctuator takes a token. -/
theorem punctuatedOperand (hp : Ready n p p') (ht : t.kind = .punctuator) :
    Concur n b t (Grammar.punctuatedOperand p ctx t) (Grammar.punctuatedOperand p' ctx t) Took := by
  unfold Grammar.punctuatedOperand
  split
  · exact hp.group
  · exact hp.arrayLiteral
  · exact hp.objectLiteral
  · exact rescanRegex fun u hu => call (literal hu) fun _ _ => pure rfl
  · exact rescanRegex fun u hu => call (literal hu) fun _ _ => pure rfl
  · rename_i hraw
    exact branch (fun _ => hp.markupRoot (by simp [Token.isPunctuator, ht, hraw]))
      fun _ => fail nofun
  · exact unexpected

theorem keywordOperand (hp : Ready n p p') (ht : t.isEof = false) :
    Concur n b t (Grammar.keywordOperand p ctx t) (Grammar.keywordOperand p' ctx t) Took := by
  unfold Grammar.keywordOperand
  split
  · exact lead ht fun _ => finish fun _ => pure rfl
  · exact hp.functionExpression
  · exact map hp.classDefinition
  · exact unexpected

/-- An operand takes a token. -/
theorem operand (hp : Ready n p p') :
    Concur n b t (Grammar.operand p ctx) (Grammar.operand p' ctx) Took := by
  refine look ?_
  split
  case h_1 hk => exact hp.nameOperand (Token.isEof_of_kind (by simp [hk]))
  case h_7 => exact branch (fun _ => map hp.template) fun _ => unexpected
  case h_8 hk => exact hp.punctuatedOperand hk
  case h_9 hk => exact hp.keywordOperand (Token.isEof_of_kind (by simp [hk]))
  case h_10 => exact unexpected
  all_goals
    rename_i hk
    exact map (literal (Token.isEof_of_kind (by simp [hk])))

end Productions.Ready

end Verbatim
