import Verbatim.Proofs.Progress.Expression

/-!
# Operations and assignments take tokens

## Main results

* `Verbatim.Productions.Ready.chain_step`, `Verbatim.Productions.Ready.binary_step` — operations.
* `Verbatim.Parse.Concur.convertAs` — conversions take nothing.
* `Verbatim.Productions.Ready.cover_step`, `Verbatim.Productions.Ready.expression_step` —
  assignments, arrow functions and expressions.
-/

namespace Verbatim

namespace Parse.Concur

variable {α β : Type} {n : Nat} {b : Bool} {t : Token} {ctx : Context}
  {post : β → Bool → Token → Prop}

/-! ## Conversions -/

/-- Faults that may be survived, one after the other. -/
theorem tolerateAll {finder : Finder} {site : Site} {faults : List Fault} {f f' : Unit → Parse β}
    (hf : ∀ fault ∈ faults, fault ≠ .stalled) (h : Concur n b t (f ()) (f' ()) post) :
    Concur n b t (Parse.tolerateAll finder site faults >>= f)
      (Parse.tolerateAll finder site faults >>= f') post := by
  refine aside ?_ fun _ => h
  induction faults with
  | nil => exact pure ⟨rfl, rfl⟩
  | cons fault faults ih =>
    obtain ⟨hfault, hfaults⟩ := List.forall_mem_cons.1 hf
    exact tolerate hfault (ih hfaults)

/-- A conversion takes nothing, and its faults are its own. -/
theorem convertAs {finder : Finder} {site : Site} {conversion : Conversion α} {f f' : α → Parse β}
    (hc : conversion.Spares) (h : ∀ v, Concur n b t (f v) (f' v) post) :
    Concur n b t (Parse.convertAs finder site conversion >>= f)
      (Parse.convertAs finder site conversion >>= f') post := by
  have hend := hc [] nofun
  refine aside ?_ h
  unfold Parse.convertAs
  split
  · rename_i v faults hrun
    rw [show conversion [] = _ from hrun] at hend
    exact tolerateAll hend (pure ⟨rfl, rfl⟩)
  · rename_i fault faults hrun
    rw [show conversion [] = _ from hrun] at hend
    refine tolerateAll hend.2 fun q _ => ⟨rfl, ?_⟩
    cases finder with
    | grammar => exact hend.1
    | parameters => exact (nofun : Fault.malformedParameters ≠ .stalled)

end Parse.Concur

namespace Productions.Ready

open Verbatim.Parse Verbatim.Parse.Concur

variable {p p' : Productions} {n : Nat} {b : Bool} {t : Token} {ctx : Context}

/-! ## Chains -/

theorem accessName : Concur n b t (Grammar.accessName ctx) (Grammar.accessName ctx) Took := by
  refine look (branch (fun hn => anyName (Token.isEof_of_isAnyName hn) fun _ _ => pure rfl) fun _ =>
    branch (fun hk => ?_) fun _ => unexpected)
  exact next (Token.isEof_of_kind (by simp [hk])) fun _ =>
    still (fun _ => ⟨_, _, rfl, rfl, rfl, rfl⟩) fun _ => pure rfl

theorem accessIndex (hp : Ready n p p') :
    Concur n b t (Grammar.accessIndex p ctx) (Grammar.accessIndex p' ctx) Took :=
  expect fun _ _ => (hp.expression _).thenDo fun _ _ => expect fun _ _ => pure rfl

theorem taggedTemplate (hp : Ready n p p') {start : Position} {tag : Expr} :
    Concur n b t (Grammar.taggedTemplate p ctx start tag) (Grammar.taggedTemplate p' ctx start tag)
      Took :=
  call hp.template fun _ _ => finish fun _ => pure rfl

theorem optionalLink (hp : Ready n p p') {start : Position} {base : Expr} (ht : t.isEof = false) :
    Concur n b t (Grammar.optionalLink p ctx start base) (Grammar.optionalLink p' ctx start base)
      Took :=
  lead ht fun _ => look (branch (fun _ => call hp.argumentList fun _ _ => finish fun _ => pure rfl)
    fun _ => branch (fun _ => call hp.accessIndex fun _ _ => finish fun _ => pure rfl)
    fun _ => branch (fun _ => reject nofun) fun _ => call accessName fun _ _ =>
      finish fun _ => pure rfl)

/-- A link, if there is one, takes a token. -/
theorem plainLink (hp : Ready n p p') {start : Position} {base : Expr} :
    Concur n b t (Grammar.plainLink p ctx start base) (Grammar.plainLink p' ctx start base)
      Moved := by
  refine look (branch (fun hs => ?_) fun _ => branch (fun _ => ?_) fun _ =>
    branch (fun _ => ?_) fun _ =>
    pure nofun)
  · exact lead (Token.isEof_of_isPunctuator hs) fun _ => call accessName fun _ _ =>
      call (finish fun _ => pure rfl) fun _ _ => pure fun _ => rfl
  · exact call hp.accessIndex fun _ _ => call (finish fun _ => pure rfl) fun _ _ =>
      pure fun _ => rfl
  · exact call hp.argumentList fun _ _ => call (finish fun _ => pure rfl) fun _ _ =>
      pure fun _ => rfl

theorem chainLink (hp : Ready n p p') {start : Position} {c : Grammar.Chain} :
    Concur n b t (Grammar.chainLink p ctx start c) (Grammar.chainLink p' ctx start c)
      Moved := by
  refine look
    (branch (fun hs => ?_) fun _ => branch
      (fun hs => branch (fun _ => rejectThen nofun) fun _ => ?_)
    fun _ => ?_)
  · exact call (hp.optionalLink (Token.isEof_of_isPunctuator hs)) fun _ _ => pure fun _ => rfl
  · exact call hp.taggedTemplate fun _ _ => pure fun _ => rfl
  · exact bind hp.plainLink fun o b' u hb => pure fun ho => hb (by simpa using ho)

theorem superclass (ht : t.isEof = false) :
    Concur n b t (Grammar.superclass ctx) (Grammar.superclass ctx) Took :=
  next ht fun _ => look (branch (fun _ => unexpectedThen) fun _ => finish fun _ => pure rfl)

theorem metaProperty {first : Token} {word : String} {check : Parse Unit}
    (hcheck : ∀ u, Concur n true u check check Took) (ht : t.isEof = false) :
    Concur n b t (Grammar.metaProperty ctx first word check)
      (Grammar.metaProperty ctx first word check) Took :=
  finish fun _ => lead ht fun _ => seesWord (branch (fun _ => unexpectedHereThen) fun hs =>
    anyName (Token.isEof_of_isWord (by simpa using hs)) fun _ _ => call (hcheck _) fun _ _ =>
      finish fun _ => pure rfl)

theorem construct (hp : Ready n p p') (ht : t.isEof = false) :
    Concur n b t (Grammar.construct p ctx) (Grammar.construct p' ctx) Took := by
  refine next ht fun _ => sees (branch (fun hs => ?_) fun _ => ?_)
  · exact metaProperty (fun _ => branch (fun _ => last (tolerate nofun (pure rfl)))
      fun _ => pure rfl)
      (Token.isEof_of_isPunctuator hs)
  · refine seesKeyword (branch (fun _ => unexpectedHereThen) fun _ =>
      (hp.callee _).thenDo fun _ _ =>
      branch (fun _ => unexpectedHereThen) fun _ => sees
        (branch (fun _ => ?_) fun _ => pureThen ?_))
    · exact call (map hp.argumentList) fun _ _ => finish fun _ => pure rfl
    · exact finish fun _ => pure rfl

theorem importExpression (hp : Ready n p p') (ht : t.isEof = false) :
    Concur n b t (Grammar.importExpression p ctx) (Grammar.importExpression p' ctx) Took := by
  refine next ht fun _ => sees (branch (fun hs => ?_) fun _ => ?_)
  · exact metaProperty (fun _ => branch (fun _ => reject nofun) fun _ => pure rfl)
      (Token.isEof_of_isPunctuator hs)
  · exact expect fun _ _ => (hp.assignment _).thenDo fun _ _ => expect fun _ _ =>
      finish fun _ => pure rfl

theorem asyncCall (hp : Ready n p p') {start : Position} {name : Ident} :
    Concur n b t (Grammar.asyncCall p ctx start name)
      (Grammar.asyncCall p' ctx start name) Took := by
  refine pending fun _ => setPending (call hp.readGroup fun g _ =>
    look (branch (fun _ => ?_) fun _ => ?_))
  · exact setPending (extent fun _ => pure rfl)
  · exact rejectPending (setPending (call (finish fun _ => pure rfl) fun _ _ =>
      hp.iterate fun _ hm _ _ => (hp.below hm).plainLink))

theorem chainHead (hp : Ready n p p') :
    Concur n b t (Grammar.chainHead p ctx) (Grammar.chainHead p' ctx) Took :=
  look (branch (fun hs => superclass (Token.isEof_of_isKeyword hs)) fun _ =>
    branch (fun hs => hp.construct (Token.isEof_of_isKeyword hs)) fun _ =>
    branch (fun hs => hp.importExpression (Token.isEof_of_isKeyword hs)) fun _ => hp.operand)

theorem asyncCallee {first : Token} {value : Expr} {α : Type} {f f' : Option Ident → Parse α}
    {post : α → Bool → Token → Prop} (h : ∀ o, Concur n b t (f o) (f' o) post) :
    Concur n b t (Grammar.asyncCallee first value >>= f) (Grammar.asyncCallee first value >>= f')
      post := by
  refine aside (look ?_) h
  cases value
  case identifier => exact branch (fun _ => pure ⟨rfl, rfl⟩) fun _ => pure ⟨rfl, rfl⟩
  all_goals exact pure ⟨rfl, rfl⟩

theorem chain_step (hp : Ready n p p') :
    Concur n b t (Grammar.chain p ctx) (Grammar.chain p' ctx) Took := by
  refine look (call hp.chainHead fun _ _ => asyncCallee fun name => ?_)
  cases name with
  | some => exact hp.asyncCall
  | none => exact call (hp.iterate fun _ hm _ _ => (hp.below hm).chainLink) fun _ _ => pure rfl

theorem calleeLink (hp : Ready n p p') {start : Position} {value : Expr} :
    Concur n b t (Grammar.calleeLink p ctx start value) (Grammar.calleeLink p' ctx start value)
      Moved :=
  look (branch (fun _ => unexpectedThen) fun _ =>
    branch (fun _ => call hp.taggedTemplate fun _ _ => pure fun _ => rfl) fun _ =>
      branch (fun _ => pure nofun) fun _ => hp.plainLink)

theorem callee_step (hp : Ready n p p') :
    Concur n b t (Grammar.callee p ctx) (Grammar.callee p' ctx) Took := by
  have hlinks : ∀ {start v u}, Concur n true u
      (Parse.iterate (Grammar.calleeLink p ctx start) p.rounds v)
      (Parse.iterate (Grammar.calleeLink p' ctx start) p'.rounds v) Took :=
    hp.iterate fun _ hm _ _ => (hp.below hm).calleeLink
  exact look (branch (fun hs => call (hp.construct (Token.isEof_of_isKeyword hs)) fun _ _ => hlinks)
    fun _ => branch (fun hs => call (superclass (Token.isEof_of_isKeyword hs)) fun _ _ => hlinks)
    fun _ => call hp.operand fun _ _ => hlinks)

/-! ## Operators -/

theorem rejectCover {e : Expr} {α : Type} {f f' : Unit → Parse α}
    {post : α → Bool → Token → Prop} (h : Concur n b t (f ()) (f' ()) post) :
    Concur n b t (Grammar.rejectCover ctx e >>= f) (Grammar.rejectCover ctx e >>= f') post :=
  aside (branch (fun _ => unexpectedHere) fun _ => pure ⟨rfl, rfl⟩) fun _ => h

theorem checkUpdateTarget {target : Expr} {start : Token} {restricted : Fault} {α : Type}
    {f f' : Unit → Parse α} {post : α → Bool → Token → Prop}
    (hr : restricted ≠ .stalled) (h : Concur n b t (f ()) (f' ()) post) :
    Concur n b t (Grammar.checkUpdateTarget ctx target start restricted >>= f)
      (Grammar.checkUpdateTarget ctx target start restricted >>= f') post := by
  refine aside ?_ fun _ => h
  unfold Grammar.checkUpdateTarget
  split
  · exact branch (fun _ => last (tolerate hr (pure ⟨rfl, rfl⟩))) fun _ => pure ⟨rfl, rfl⟩
  · exact branch (fun _ => last (tolerate nofun (pure ⟨rfl, rfl⟩))) fun _ => pure ⟨rfl, rfl⟩

theorem isEof_of_unaryOp {op : UnaryOp} (h : Grammar.unaryOp? t = some op) : t.isEof = false := by
  refine Token.isEof_of_kind fun hk => ?_
  simp [Grammar.unaryOp?, hk] at h

theorem isEof_of_updateOp {op : UpdateOp} (h : Grammar.updateOp? t = some op) :
    t.isEof = false := by
  unfold Grammar.updateOp? at h
  split at h
  · exact Token.isEof_of_isPunctuator ‹_›
  · split at h
    · exact Token.isEof_of_isPunctuator ‹_›
    · cases h

theorem isEof_of_binaryOp {op : BinaryOp} (h : Grammar.binaryOp? ctx t = some op) :
    t.isEof = false := by
  refine Token.isEof_of_kind fun hk => ?_
  simp [Grammar.binaryOp?, hk] at h

theorem updateAfter (hp : Ready n p p') :
    Concur n b t (Grammar.updateAfter p ctx) (Grammar.updateAfter p' ctx) Took := by
  refine look (call hp.chain_step fun value u => look ?_)
  cases hop : Grammar.updateOp? u with
  | none => exact pure rfl
  | some op =>
    exact branch (fun _ => pure rfl) fun _ => checkUpdateTarget nofun
      (lead (isEof_of_updateOp hop) fun _ =>
      finish fun _ => pure rfl)

/-- A unary expression takes a token before it calls itself. -/
theorem unary_step (hp : Ready n p p') :
    Concur n b t (Grammar.unary p ctx) (Grammar.unary p' ctx) Took := by
  refine look ?_
  cases hop : Grammar.unaryOp? t with
  | some op =>
    refine next (isEof_of_unaryOp hop) fun _ => (hp.unary _).thenDo fun operand _ => rejectCover ?_
    dsimp only
    split
    · exact branch (fun _ => tolerate nofun (finish fun _ => pure rfl)) fun _ =>
        finish fun _ => pure rfl
    · exact finish fun _ => pure rfl
  | none =>
    refine branch (fun hs => ?_) fun _ => ?_
    · have ht : t.isEof = false := by
        simp only [Grammar.isAwait, Bool.and_eq_true] at hs
        exact Token.isEof_of_isWord hs.2
      exact branch (fun _ => look (rejectThen nofun)) fun _ => next ht fun _ =>
        (hp.unary _).thenDo fun _ _ =>
        rejectCover (finish fun _ => pure rfl)
    · cases hop : Grammar.updateOp? t with
      | some op =>
        exact next (isEof_of_updateOp hop) fun _ => look ((hp.unary _).thenDo fun _ _ =>
          checkUpdateTarget nofun (finish fun _ => pure rfl))
      | none => exact hp.updateAfter

theorem exponentiation_step (hp : Ready n p p') :
    Concur n b t (Grammar.exponentiation p ctx) (Grammar.exponentiation p' ctx) Took :=
  look (call hp.unary_step fun _ _ => look (branch (fun _ => pure rfl) fun hs =>
    branch (fun _ => rejectThen nofun) fun _ => rejectCover
      (lead (Token.isEof_of_isPunctuator (by simpa using hs))
      fun _ => (hp.exponentiation _).thenDo fun _ _ => rejectCover (finish fun _ => pure rfl))))

/-- An operator and its right side take a token. -/
theorem binaryStep (hp : Ready n p p') {start : Position} {least : Nat} {value : Expr} :
    Concur n b t (Grammar.binaryStep p ctx start least value)
      (Grammar.binaryStep p' ctx start least value) Moved := by
  refine look ?_
  cases hop : Grammar.binaryOp? ctx t with
  | none => exact pure nofun
  | some op =>
    exact branch (fun _ => pure nofun) fun _ => rejectCover (lead (isEof_of_binaryOp hop) fun _ =>
      (hp.binary _ _).thenDo fun _ _ => rejectCover (branch (fun _ => rejectThen nofun) fun _ =>
        finish fun _ => pure fun _ => rfl))

theorem binary_step (hp : Ready n p p') {least : Nat} :
    Concur n b t (Grammar.binary p least ctx) (Grammar.binary p' least ctx) Took :=
  here (call hp.exponentiation_step fun _ _ => hp.iterate fun _ hm _ _ => (hp.below hm).binaryStep)

theorem conditional (hp : Ready n p p') :
    Concur n b t (Grammar.conditional p ctx) (Grammar.conditional p' ctx) Took :=
  here (call hp.binary_step fun _ _ => sees (branch (fun _ => pure rfl) fun hs => rejectCover
    (lead (Token.isEof_of_isPunctuator (by simpa using hs)) fun _ =>
      (hp.assignment _).thenDo fun _ _ =>
      expect fun _ _ => (hp.assignment _).thenDo fun _ _ => finish fun _ => pure rfl)))

/-! ## Arrow functions -/

theorem arrowBody (hp : Ready n p p') :
    Concur n true t (Grammar.arrowBody p ctx) (Grammar.arrowBody p' ctx) Took :=
  sees (branch (fun _ => call hp.functionBody fun _ _ => pure rfl) fun _ =>
    (hp.assignment _).thenDo fun _ _ => pure rfl)

/-- An arrow function, from the arrow on. -/
theorem arrow (hp : Ready n p p') {start : Position} {asyncLead : Option String}
    {params : Tree .arrowParams} {site : Site} :
    Concur n b t (Grammar.arrow p ctx start asyncLead params site)
      (Grammar.arrow p' ctx start asyncLead params site) Took :=
  expect fun _ _ => pending fun _ => setPending (call hp.arrowBody fun _ _ =>
    setPending (branch (fun _ => rejectThen nofun) fun _ =>
      checkParameters (finish fun _ => pure rfl)))

theorem bareArrow (hp : Ready n p p') {start : Position} {asyncLead : Option String} {id : Ident}
    {first : Token} :
    Concur n b t (Grammar.bareArrow p ctx start asyncLead id first)
      (Grammar.bareArrow p' ctx start asyncLead id first) Took :=
  branch (fun _ => unexpectedThen) fun _ => checked nofun hp.arrow

/-- The conversion of a group takes no token and needs no rounds. -/
theorem groupParameters {site : Site} {trailing : Bool} {items : List Expr} {α : Type}
    {f f' : List Pattern → Parse α} {post : α → Bool → Token → Prop}
    (h : ∀ v, Concur n b t (f v) (f' v) post) :
    Concur n b t (Grammar.groupParameters ctx site trailing items >>= f)
      (Grammar.groupParameters ctx site trailing items >>= f') post := by
  refine aside ?_ h
  induction items with
  | nil => exact pure ⟨rfl, rfl⟩
  | cons item items ih =>
    cases item
    case spread =>
      refine branch (fun _ => rejectThen nofun) fun _ => convertAs ?_ fun _ => pure ⟨rfl, rfl⟩
      exact .bind (Tree.asTarget_spares _ _) fun _ => .bind (Tree.checkRest_spares _) fun _ => .pure
    case yield | await => exact reject nofun
    all_goals
      exact Concur.convertAs (Tree.asTarget_spares _ _) fun _ => aside ih fun _ => pure ⟨rfl, rfl⟩

theorem groupArrow (hp : Ready n p p') {start : Position} {asyncLead : Option String}
    {openLead closeLead : String} {items : List Expr} {separators : List String} :
    Concur n b t (Grammar.groupArrow p ctx start asyncLead openLead items separators closeLead)
      (Grammar.groupArrow p' ctx start asyncLead openLead items separators closeLead) Took :=
  groupParameters fun _ => branch (fun _ => rejectThen nofun) fun _ => hp.arrow

theorem asyncBareArrow (hp : Ready n p p') (ht : t.isEof = false) :
    Concur n b t (Grammar.asyncBareArrow p ctx) (Grammar.asyncBareArrow p' ctx) Took :=
  here (lead ht fun _ => taking fun _ _ _ => finishName fun _ => look (branch
    (fun _ => unexpectedThen) fun _ => hp.bareArrow))

/-- Looking for an asynchronous arrow function takes nothing. -/
theorem seesAsyncBareArrow {α : Type} {f f' : Bool → Parse α} {post : α → Bool → Token → Prop}
    (h : ∀ v, (v = true → t.isEof = false) → Concur n b t (f v) (f' v) post) :
    Concur n b t (Grammar.seesAsyncBareArrow >>= f) (Grammar.seesAsyncBareArrow >>= f') post := by
  refine bind (M := fun v b' u => b' = b ∧ u = t ∧ (v = true → t.isEof = false)) ?_ ?_
  · exact seesWord
      (branch (fun hs => peek fun _ => pure ⟨rfl, rfl, fun _ => Token.isEof_of_isWord hs⟩)
      fun _ => pure ⟨rfl, rfl, nofun⟩)
  · rintro v _ _ ⟨rfl, rfl, ht⟩
    exact h v ht

/-! ## Assignments -/

theorem yieldExpression (hp : Ready n p p') (ht : t.isEof = false) :
    Concur n b t (Grammar.yieldExpression p ctx) (Grammar.yieldExpression p' ctx) Took := by
  refine branch (fun _ => look (rejectThen nofun)) fun _ => next ht fun _ =>
    look (branch (fun _ => ?_) fun _ =>
    branch (fun hs => ?_) fun _ => branch (fun _ => ?_) fun _ => ?_)
  · exact pureThen (finish fun _ => pure rfl)
  · exact lead (Token.isEof_of_isPunctuator hs) fun _ => (hp.assignment _).thenDo fun _ _ =>
      finish fun _ => pure rfl
  · exact (hp.assignment _).thenDo fun _ _ => finish fun _ => pure rfl
  · exact pureThen (finish fun _ => pure rfl)

theorem simpleTarget {e : Expr} {first : Token} {fault : Fault} {α : Type}
    {f f' : Pattern → Parse α} {post : α → Bool → Token → Prop} (hf : fault ≠ .stalled)
    (h : ∀ v, Concur n b t (f v) (f' v) post) :
    Concur n b t (Parse.simpleTarget ctx e first fault >>= f)
      (Parse.simpleTarget ctx e first fault >>= f') post := by
  refine aside ?_ h
  unfold Parse.simpleTarget
  split
  · exact checked nofun (pure ⟨rfl, rfl⟩)
  · exact checked hf (pure ⟨rfl, rfl⟩)

theorem assignmentTarget {e : Expr} {first : Token} {fault : Fault} {α : Type}
    {f f' : Pattern → Parse α} {post : α → Bool → Token → Prop} (hf : fault ≠ .stalled)
    (h : ∀ v, Concur n b t (f v) (f' v) post) :
    Concur n b t (Parse.assignmentTarget ctx e first fault >>= f)
      (Parse.assignmentTarget ctx e first fault >>= f') post := by
  unfold Parse.assignmentTarget
  split
  · exact convertAs (Tree.asTarget_spares _ _) h
  · exact convertAs (Tree.asTarget_spares _ _) h
  · exact simpleTarget hf h

theorem isEof_of_assignOp {op : AssignOp} (h : Grammar.assignOp? t = some op) :
    t.isEof = false := by
  refine Token.isEof_of_kind fun hk => ?_
  simp [Grammar.assignOp?, hk] at h

/-- An assignment, from its operator on. -/
theorem assignTo (hp : Ready n p p') {first : Token} {left : Expr} {op : AssignOp}
    {pendingBefore : Option Site} (ht : t.isEof = false) :
    Concur n b t (Grammar.assignTo p ctx first left op pendingBefore)
      (Grammar.assignTo p' ctx first left op pendingBefore) Took := by
  refine branch (fun _ => assignmentTarget nofun fun _ => ?_) fun _ =>
    simpleTarget nofun fun _ => ?_
  all_goals
    exact setPending (lead ht fun _ => (hp.assignment _).thenDo fun _ _ => finish fun _ => pure rfl)

theorem settle {value : Expr} {pendingBefore : Option Site} :
    Concur n true t (Grammar.settle value pendingBefore) (Grammar.settle value pendingBefore)
      Took := by
  refine pending fun now => ?_
  cases now with
  | none => exact setPending (pure rfl)
  | some => exact branch (fun _ => rejectThen nofun) fun _ => setPending (pure rfl)

/-- An arrow function behind its parameters, if it is one. -/
theorem arrowAfter (hp : Ready n p p') {first : Token} {value : Expr}
    {pendingBefore : Option Site} :
    Concur n true t (Grammar.arrowAfter? p ctx first value pendingBefore)
      (Grammar.arrowAfter? p' ctx first value pendingBefore) Took := by
  refine look (branch (fun _ => pure rfl) fun _ => ?_)
  dsimp only
  split
  · exact branch (fun _ => unexpectedThen) fun _ => setPending (map hp.groupArrow)
  · exact branch (fun _ => unexpectedThen) fun _ => setPending (map hp.bareArrow)
  · exact pure rfl

theorem plainCover (hp : Ready n p p') :
    Concur n b t (Grammar.plainCover p ctx) (Grammar.plainCover p' ctx) Took := by
  refine look (pending fun _ => setPending (call hp.conditional fun value _ =>
    call hp.arrowAfter fun o u => ?_))
  cases o with
  | some => exact pure rfl
  | none =>
    refine look ?_
    cases hop : Grammar.assignOp? u with
    | some => exact hp.assignTo (isEof_of_assignOp hop)
    | none => exact settle

theorem cover_step (hp : Ready n p p') :
    Concur n b t (Grammar.cover p ctx) (Grammar.cover p' ctx) Took := by
  refine look (branch (fun hs => hp.yieldExpression ?_) fun _ => seesAsyncBareArrow fun v ht =>
    branch (fun hv => hp.asyncBareArrow (ht hv)) fun _ => hp.plainCover)
  simp only [Bool.and_eq_true] at hs
  exact Token.isEof_of_isWord hs.2

theorem assignment_step (hp : Ready n p p') :
    Concur n b t (Grammar.assignment p ctx) (Grammar.assignment p' ctx) Took :=
  pending fun _ => setPending (call hp.cover_step fun _ _ => rejectPending (setPending (pure rfl)))

theorem sequenceFrom (hp : Ready n p p') {start : Position} {first : Expr} :
    Concur n true t (Grammar.sequenceFrom p ctx start first)
      (Grammar.sequenceFrom p' ctx start first) Took :=
  sees (branch (fun _ => pure rfl) fun _ => call (hp.afterCommas (hp.assignment _)) fun _ _ =>
    finish fun _ => pure rfl)

theorem expression_step (hp : Ready n p p') :
    Concur n b t (Grammar.expression p ctx) (Grammar.expression p' ctx) Took :=
  here (call hp.assignment_step fun _ _ => hp.sequenceFrom)

end Productions.Ready

end Verbatim
