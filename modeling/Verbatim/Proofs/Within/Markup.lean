import Verbatim.Proofs.Within.Code
import Verbatim.Proofs.Restoration

/-!
# Each token is scanned in the mode of its place

Which tokens there are depends on where the parser is: in code, in a tag or between tags. Each token
that markup takes has a part to play, and was scanned in the mode that belongs to this part. The
productions of markup are written down once more with this part at every place where a token is
taken, and do the same as those without.

## Main definitions

* `Verbatim.Spot` — the parts that tokens play in markup.
* `Verbatim.Noted` — actions with the parts of the tokens that they take.
* `Verbatim.Noted.Plays` — an action with parts does what one without does.

## Main results

* `Verbatim.run_modes` — modes change with the regions of a source.
-/

namespace Verbatim

/-! ## The parts of tokens in markup -/

/-- The part that a token plays in markup. -/
inductive Spot where
  /-- The angle bracket with which markup as an operand begins. It is scanned once more as such. -/
  | root
  /-- A name in a tag, or a part of one. -/
  | name
  /-- A sign of a tag. -/
  | sign (spelling : String)
  /-- The beginning of the value of an attribute, or of attributes that are spread. -/
  | value
  /-- A text between tags. -/
  | text
  /-- The beginning of another child, or of the closing tag. -/
  | child (spelling : String)
  /-- A sign in braces, in front of the code or behind it. -/
  | code (spelling : String)
deriving DecidableEq

namespace Spot

/-- The mode that belongs to the part. -/
def mode : Spot → Mode
  | .root | .name | .sign _ | .value => .tag
  | .text | .child _ => .text
  | .code _ => .normal

/-- Whether the token can play the part. -/
def Fits : Spot → Token → Prop
  | .root, _ => True
  | .name, t => t.kind = .tagName
  | .sign spelling, t | .child spelling, t | .code spelling, t => t.isPunctuator spelling = true
  | .value, t => t.isString = true ∨ t.isPunctuator "\x7b" = true ∨ t.isPunctuator "<" = true
  | .text, t => t.kind = .markupText

/-- Where a token is taken in this part, it can play it and was scanned in the mode for it. -/
structure Suits (spot : Spot) (q : Parser) : Prop where
  /-- It can play the part. -/
  fits : spot.Fits q.lookahead
  /-- It was scanned in the mode of the part. -/
  scanned : q.ScannedIn spot.mode

/-- A part that a given punctuator can play, and that belongs to the given mode. -/
structure Marks (part : String → Spot) (m : Mode) : Prop where
  /-- The punctuator can play the part. -/
  fits {spelling : String} {t : Token} : t.isPunctuator spelling = true → (part spelling).Fits t
  /-- The mode is that of the part. -/
  mode {spelling : String} : (part spelling).mode = m

theorem marks_sign : Marks sign .tag := ⟨id, rfl⟩

theorem marks_code : Marks code .normal := ⟨id, rfl⟩

end Spot

/-- A parsing action with the parts of the tokens that markup takes. -/
inductive Noted : Type → Type 1 where
  /-- An action by which markup takes no token: it takes none, or it reads code. -/
  | plain {α : Type} (action : Parse α) : Noted α
  /-- The lookahead is taken in the given part. -/
  | take (spot : Spot) : Noted Token
  /-- One action after the other. -/
  | andThen {α β : Type} (first : Noted α) (resume : α → Noted β) : Noted β

namespace Noted

open Parse

variable {α β : Type}

instance : Monad Noted where
  pure value := .plain (pure value)
  bind := .andThen

instance : MonadLiftT Parse Noted := ⟨.plain⟩

/-- The action without the parts. -/
def erase {α : Type} : Noted α → Parse α
  | .plain action => action
  | .take _ => next
  | .andThen first resume => first.erase >>= fun value => (resume value).erase

/-- The tokens that markup takes on a run, as far as it gets: the part of each, and the parser that
has it as its lookahead. -/
def taken {α : Type} : Noted α → Parser → List (Spot × Parser)
  | .plain _, _ => []
  | .take spot, q => [(spot, q)]
  | .andThen first resume, q =>
    first.taken q ++
      match first.erase.run q with
      | .ok value r => (resume value).taken r
      | .error .. => []

theorem taken_bind {a : Noted α} {f : α → Noted β} {q r : Parser} {v : α}
    (h : a.erase.run q = .ok v r) : (a >>= f).taken q = a.taken q ++ (f v).taken r := by
  change (andThen a f).taken q = _
  rw [taken, h]

theorem taken_bind_error {a : Noted α} {f : α → Noted β} {q r : Parser} {e : SyntaxError}
    (h : a.erase.run q = .error e r) : (a >>= f).taken q = a.taken q := by
  change (andThen a f).taken q = _
  rw [taken, h, List.append_nil]

/-! ### The productions of markup -/

/-- Consumes the lookahead, which plays the given part, and keeps its trivia. -/
def lead (spot : Spot) : Noted String := return (← take spot).lead

/-- Takes the given punctuator in the given part. -/
def expect (ctx : Context) (part : String → Spot) (spelling : String) : Noted String := do
  if ← sees spelling then lead (part spelling) else unexpectedHere ctx

/-- Takes a sign of a tag if it is there. -/
def accept (spelling : String) : Noted (Option String) := do
  if ← sees spelling then return some (← lead (.sign spelling)) else return none

/-- Takes the given punctuator in the given part, behind which another mode holds. -/
def expectThen (ctx : Context) (part : String → Spot) (spelling : String) (after : Mode) :
    Noted String := do
  setMode after
  expect ctx part spelling

/-- Consumes the lookahead, which plays the given part, and behind which another mode holds. -/
def leadThen (spot : Spot) (after : Mode) : Noted String := do
  setMode after
  lead spot

/-- One name or part of a name. -/
def tagIdent (ctx : Context) : Noted TagIdent := do
  if (← look).kind ≠ .tagName then unexpectedHere ctx
  let t ← take .name
  let span ← finish .tagIdent t.start
  return { lead := t.lead, name := t.raw, span }

/-- A name within a namespace, behind the namespace. -/
def namespacedName (ctx : Context) (start : Position) (space : TagIdent) :
    Noted NamespacedName := do
  let colonLead ← expect ctx .sign ":"
  let name ← tagIdent ctx
  let span ← finish .namespacedName start
  return { space, colonLead, name, span }

/-- A further member of a name, if there is one. -/
def tagMember (ctx : Context) (start : Position) (name : TagName) : Noted (Option TagName) := do
  match ← accept "." with
  | none => return none
  | some dotLead =>
    let property ← tagIdent ctx
    let span ← finish .tagMember start
    return some (.member name dotLead property span)

/-- Repeats a step on a value as long as it gives a new value. -/
def iterate (step : α → Noted (Option α)) : Nat → α → Noted α
  | 0, _ => stalled
  | rounds + 1, value => do
    match ← step value with
    | some value => iterate step rounds value
    | none => return value

/-- Reads items until the lookahead is such that the list ends. -/
def many (ends : Token → Bool) (item : Noted α) : Nat → Noted (List α)
  | 0 => stalled
  | rounds + 1 => do
    if ends (← look) then return []
    let head ← item
    let tail ← many ends item rounds
    return head :: tail

/-- The name of an element. -/
def tagName (ctx : Context) (rounds : Nat) : Noted TagName := do
  let start ← here
  let first ← tagIdent ctx
  if ← sees ":" then return .namespaced (← namespacedName ctx start first)
  iterate (tagMember ctx start) rounds (.plain first)

section

variable (p : Productions) (inner : Position → String → Mode → Context → Noted Markup)
  (ctx : Context)

/-- The rest of an expression in braces, behind the opening brace. -/
def container (start : Position) (openLead : String) (after : Mode) (allowsEmpty : Bool) :
    Noted (Tree .container) := do
  let t ← look
  if t.isPunctuator "\x7d" then
    if !allowsEmpty then unexpected ctx t
    let insideSpan ← finishAt .emptyExpr (← lastEnd) t.start
    let _ ← expectThen ctx .code "\x7d" after
    let span ← finish .container start
    return .emptyContainer openLead t.lead insideSpan "" span
  let value ← p.assignment ctx.inside
  let closeLead ← expectThen ctx .code "\x7d" after
  let span ← finish .container start
  return .exprContainer openLead value closeLead span

/-- A string as the value of an attribute. -/
def literal : Noted Literal := do
  let t ← take .value
  if t.octal && ctx.strict then tolerate (Grammar.octalFault t) t.site
  let value ← Grammar.literalValue ctx t
  let span ← finish .literal t.start
  return { lead := t.lead, value, raw := t.raw, span }

/-- The value of an attribute. -/
def attributeValue : Noted (Tree .attributeValue) := do
  let t ← look
  if t.isString then return .stringValue (← literal ctx)
  if t.isPunctuator "\x7b" then
    let openLead ← leadThen .value .normal
    return .exprValue (← container p ctx t.start openLead .tag false)
  if t.isPunctuator "<" then
    let openLead ← lead .value
    match ← inner t.start openLead .tag ctx with
    | .element e => return .elementValue e
    | .fragment f => return .fragmentValue f
  unexpected ctx t

/-- A spread attribute; the lookahead is its opening brace. -/
def spreadAttribute : Noted (Tree .attribute) := do
  let start ← here
  let openLead ← leadThen .value .normal
  let dotsLead ← expect ctx .code "..."
  let operand ← p.assignment ctx.inside
  let closeLead ← expectThen ctx .code "\x7d" .tag
  let span ← finish .spreadAttribute start
  return .spreadAttribute openLead dotsLead operand closeLead span

/-- An attribute. -/
def tagAttribute : Noted (Tree .attribute) := do
  if ← sees "\x7b" then spreadAttribute p ctx
  else
    let start ← here
    let first ← tagIdent ctx
    let name : AttributeName ←
      if ← sees ":" then .namespaced <$> namespacedName ctx start first else pure (.plain first)
    let (eqLead, value) : String × Tree (.maybe .attributeValue) ←
      match ← accept "=" with
      | some eqLead => pure (eqLead, .present (← attributeValue p inner ctx))
      | none => pure ("", .absent)
    let span ← finish .attribute start
    return .attribute name eqLead value span

/-- A child in braces; the lookahead is the opening brace. -/
def childContainer : Noted (Tree .child) := do
  let start ← here
  let openLead ← leadThen (.child "\x7b") .normal
  if ← sees "..." then
    let dotsLead ← lead (.code "...")
    let operand ← p.assignment ctx.inside
    let closeLead ← expectThen ctx .code "\x7d" .text
    let span ← finish .spreadChild start
    return .spreadChild openLead dotsLead operand closeLead span
  return .exprChild (← container p ctx start openLead .text true)

/-- The children of an element or fragment up to the `<` of its closing tag, which is consumed. -/
def children (name : String) : Nat → Noted (List (Tree .child) × Position × String)
  | 0 => stalled
  | rounds + 1 => do
    let t ← look
    match t.kind with
    | .eof => fail .markup (.unterminatedElement name) t.site
    | .markupText =>
      let t ← take .text
      let span ← finish .markupText t.start
      let (rest, closing) ← children name rounds
      return (.textChild { value := t.text, raw := t.raw, span } :: rest, closing)
    | _ =>
      if t.isPunctuator "\x7b" then
        let child ← childContainer p ctx
        let (rest, closing) ← children name rounds
        return (child :: rest, closing)
      else if t.isPunctuator "<" then
        let openLead ← leadThen (.child "<") .tag
        if ← sees "/" then return ([], t.start, openLead)
        let child : Tree .child ←
          match ← inner t.start openLead .text ctx with
          | .element e => pure (.elementChild e)
          | .fragment f => pure (.fragmentChild f)
        let (rest, closing) ← children name rounds
        return (child :: rest, closing)
      else unexpected ctx t

/-- A fragment, behind its first angle bracket. -/
def fragment (start : Position) (openLead : String) (after : Mode) : Noted (Tree .fragment) := do
  let openingLead ← expectThen ctx .sign ">" .text
  let (inner, _, closingLead) ← children p inner ctx "" p.rounds
  let slashLead ← expect ctx .sign "/"
  let t ← look
  if !t.isPunctuator ">" then fail .markup (.mismatchedTag "<>") t.site
  let closeLead ← expectThen ctx .sign ">" after
  let span ← finish .fragment start
  return .fragment openLead openingLead (.ofList inner) closingLead slashLead closeLead span

/-- A closing tag, behind its angle bracket. -/
def closingTag (start : Position) (openLead opened : String) (after : Mode) : Noted ClosingTag := do
  let slashLead ← expect ctx .sign "/"
  let site := (← look).site
  let name ← tagName ctx p.rounds
  if name.qualified != opened then fail .markup (.mismatchedTag opened) site
  let closeLead ← expectThen ctx .sign ">" after
  let span ← finish .closingTag start
  return { lead := openLead, slashLead, name, closeLead, span }

/-- An element, behind its first angle bracket. -/
def element (start : Position) (openLead : String) (after : Mode) : Noted (Tree .element) := do
  let name ← tagName ctx p.rounds
  let attributes ← many Grammar.endsAttributes (tagAttribute p inner ctx) p.rounds
  if ← sees "/" then
    let selfClosing ← lead (.sign "/")
    if !(← sees ">") then unexpectedHere ctx
    let closeLead ← expectThen ctx .sign ">" after
    let openingSpan ← finish .openingTag start
    let span ← finish .element start
    return .element openLead name (.ofList attributes) (some selfClosing) closeLead openingSpan .nil
      none span
  let closeLead ← expectThen ctx .sign ">" .text
  let openingSpan ← finish .openingTag start
  let (inner, closingStart, closingLead) ← children p inner ctx name.qualified p.rounds
  let closing ← closingTag p ctx closingStart closingLead name.qualified after
  let span ← finish .element start
  return .element openLead name (.ofList attributes) none closeLead openingSpan (.ofList inner)
    (some closing) span

end

/-- Markup behind its first angle bracket, with productions of the given depth. -/
def markup : Nat → Position → String → Mode → Context → Noted Markup
  | 0, _, _, _, _ => stalled
  | depth + 1, start, openLead, after, ctx => do
    if ← sees ">" then
      .fragment <$> fragment (.ofDepth depth) (markup depth) ctx start openLead after
    else .element <$> element (.ofDepth depth) (markup depth) ctx start openLead after

/-- Markup as an operand; the lookahead is its first angle bracket. -/
def markupRoot (depth : Nat) (ctx : Context) : Noted Expr := do
  setMode .tag
  rescan
  let start ← here
  let openLead ← lead .root
  match ← markup depth start openLead .normal ctx with
  | .element e => return .elementExpr e
  | .fragment f => return .fragmentExpr f

/-! ### What they do -/

/-- Where the parser is such that `P`, the action with parts does what the one without does, and
each token that it takes suits its part. Behind it, the parser is such that `Q`. -/
def Plays (P : Parser → Prop) (a : Noted α) (b : Parse α) (Q : α → Parser → Prop) : Prop :=
  ∀ q, P q → a.erase.run q = b.run q ∧ (∀ x ∈ a.taken q, x.1.Suits x.2) ∧
    ∀ v r, b.run q = .ok v r → Q v r

/-- The same of an action that leads from one mode to another. -/
abbrev Leads (m : Mode) (a : Noted α) (b : Parse α) (m' : Mode) : Prop :=
  Plays (·.In m) a b fun _ => (·.In m')

namespace Plays

variable {a a' : Noted α} {b b' : Parse α} {f : α → Noted β} {g : α → Parse β} {m m' : Mode}
  {P P' : Parser → Prop} {Q Q' : α → Parser → Prop} {R : β → Parser → Prop} {ctx : Context}
  {t : Token}

/-- One action after the other, the second one in the mode to which the first one leads. -/
theorem bind (h : Plays P a b Q) (hf : ∀ v, Plays (Q v) (f v) (g v) R) :
    Plays P (a >>= f) (b >>= g) R := by
  intro q hq
  obtain ⟨hrun, htaken, hpost⟩ := h q hq
  have herase : (a >>= f).erase.run q = (a.erase >>= fun v => (f v).erase).run q := rfl
  rw [herase, run_bind, run_bind, hrun]
  cases hb : b.run q with
  | ok v r =>
    obtain ⟨hrun', htaken', hpost'⟩ := hf v r (hpost v r hb)
    rw [taken_bind (hrun.trans hb)]
    exact ⟨hrun', fun x hx => (List.mem_append.1 hx).elim (htaken x) (htaken' x), hpost'⟩
  | error e r =>
    rw [taken_bind_error (hrun.trans hb)]
    exact ⟨rfl, htaken, fun _ _ h => nomatch h⟩

/-- What takes no token, or only tokens of code. -/
theorem of_plain (h : ∀ q v r, P q → b.run q = .ok v r → Q v r) : Plays P (.plain b) b Q :=
  fun q hq => ⟨rfl, fun _ hx => (List.not_mem_nil hx).elim, fun v r => h q v r hq⟩

theorem imp (h : Plays P a b Q) (hP : ∀ q, P' q → P q) (hQ : ∀ v r, Q v r → Q' v r) :
    Plays P' a b Q' :=
  fun q hq =>
    have ⟨herase, htaken, hends⟩ := h q (hP q hq)
    ⟨herase, htaken, fun v r hr => hQ v r (hends v r hr)⟩

theorem plain [b.Steady m] : Leads m (.plain b) b m := of_plain fun _ _ _ hq hr => Steady.isIn hr hq

theorem fails (h : b.Fails) : Plays P (.plain b) b Q :=
  of_plain fun q v r _ hr => absurd hr (h q v r)

/-- Nothing comes behind a failure. -/
theorem failing (h : b.Fails) : Plays P (.plain b >>= f) (b >>= g) R :=
  bind (Q := fun _ _ => False) (fails h) fun _ _ hq => hq.elim

theorem pure {value : α} : Leads m (.plain (Pure.pure value)) (Pure.pure value) m := plain

theorem branch {c : Prop} [Decidable c] (h : c → Plays P a b Q) (h' : ¬ c → Plays P a' b' Q) :
    Plays P (if c then a else a') (if c then b else b') Q := by
  split
  · exact h ‹_›
  · exact h' ‹_›

theorem map {k : α → β} (h : Leads m a b m') : Leads m (k <$> a) (k <$> b) m' :=
  bind h fun _ => pure

/-- A token is taken in its part, and the mode that holds by then is that of the next one. -/
theorem take {spot : Spot} (h : ∀ q, P q → spot.Suits q ∧ q.scanner.mode = m') :
    Plays P (.take spot) next fun _ => (·.In m') := by
  refine fun q hq => ⟨rfl, fun x hx => ?_, fun v r hr => (h q hq).2 ▸ (Parser.in_of_next hr).1⟩
  obtain rfl := List.mem_singleton.1 hx
  exact (h q hq).1

theorem lead {spot : Spot} (h : ∀ q, P q → spot.Suits q ∧ q.scanner.mode = m') :
    Plays P (Noted.lead spot) Parse.lead fun _ => (·.In m') := bind (take h) fun _ => pure

/-- What is done next may depend on the lookahead. -/
theorem look {f : Token → Noted β} {g : Token → Parse β}
    (h : ∀ t, Plays (fun q => P q ∧ q.lookahead = t) (f t) (g t) R) :
    Plays P (.plain Parse.look >>= f) (Parse.look >>= g) R := by
  refine bind (of_plain fun q t r hq hr => ?_) h
  cases hr
  exact ⟨hq, rfl⟩

/-- A punctuator is taken in its part, if it is there. -/
theorem sees {spelling : String} {f : Bool → Noted β} {g : Bool → Parse β}
    (h : Plays (fun q => P q ∧ q.lookahead.isPunctuator spelling = true) (f true) (g true) R)
    (h' : Plays P (f false) (g false) R) :
    Plays P (.plain (Parse.sees spelling) >>= f) (Parse.sees spelling >>= g) R := by
  refine bind (Q := fun seen q => P q ∧ q.lookahead.isPunctuator spelling = seen)
    (of_plain fun q seen r hq hr => ?_) fun seen => ?_
  · cases hr
    exact ⟨hq, rfl⟩
  · cases seen with
    | true => exact h
    | false => exact h'.imp (fun _ hq => hq.1) fun _ _ hr => hr

theorem expect {part : String → Spot} {spelling : String} (h : Spot.Marks part m) :
    Leads m (Noted.expect ctx part spelling) (Parse.expect ctx spelling) m :=
  sees (lead fun _ hq => ⟨⟨h.fits hq.2, h.mode ▸ hq.1.scanned⟩, hq.1.mode⟩)
    (fails (fails_unexpectedHere _))

/-- Another mode holds behind a token that is taken in its part. -/
theorem expectThen {part : String → Spot} {spelling : String} (h : Spot.Marks part m) :
    Leads m (Noted.expectThen ctx part spelling m') (Grammar.expectThen ctx spelling m') m' := by
  refine bind (Q := fun _ q => q.ScannedIn m ∧ q.scanner.mode = m') (of_plain fun q _ r hq hr => ?_)
    fun _ => sees (lead fun q hq => ?_) (fails (fails_unexpectedHere _))
  · cases hr
    exact ⟨hq.scanned, rfl⟩
  · exact ⟨⟨h.fits hq.2, h.mode ▸ hq.1.1⟩, hq.1.2⟩

theorem leadThen {spot : Spot} (h : ∀ q, P q → spot.Suits q) :
    Plays P (Noted.leadThen spot m') (Grammar.leadThen m') fun _ => (·.In m') := by
  refine bind (Q := fun _ q => spot.Suits q ∧ q.scanner.mode = m') (of_plain fun q _ r hq hr => ?_)
    fun _ => lead fun _ hq => hq
  cases hr
  exact ⟨⟨(h q hq).fits, (h q hq).scanned⟩, rfl⟩

theorem accept {spelling : String} :
    Leads .tag (Noted.accept spelling) (Parse.accept spelling) .tag :=
  sees (bind (lead fun _ hq => ⟨⟨hq.2, hq.1.scanned⟩, hq.1.mode⟩) fun _ => pure) pure

theorem iterate {step : α → Noted (Option α)} {step' : α → Parse (Option α)}
    (h : ∀ v, Leads m (step v) (step' v) m) (rounds : Nat) (v : α) :
    Leads m (Noted.iterate step rounds v) (Parse.iterate step' rounds v) m := by
  induction rounds generalizing v with
  | zero => exact fails fails_stalled
  | succ rounds ih =>
    refine bind (h v) fun o => ?_
    cases o with
    | none => exact pure
    | some v => exact ih v

theorem many {ends : Token → Bool} (h : Leads m a b m) (rounds : Nat) :
    Leads m (Noted.many ends a rounds) (Parse.many ends b rounds) m := by
  induction rounds with
  | zero => exact fails fails_stalled
  | succ rounds ih =>
    exact bind plain fun _ => branch (fun _ => pure) fun _ => bind h fun _ => bind ih fun _ => pure

/-! #### Tags -/

theorem tagIdent : Leads .tag (Noted.tagIdent ctx) (Grammar.tagIdent ctx) .tag := by
  refine look fun t => branch (fun _ => failing (fails_unexpectedHere _))
    fun hk => bind (take fun q hq => ?_) fun _ => bind plain fun _ => pure
  obtain ⟨hin, rfl⟩ := hq
  exact ⟨⟨show _ = _ from Decidable.not_not.1 hk, hin.scanned⟩, hin.mode⟩

theorem namespacedName {start : Position} {space : TagIdent} :
    Leads .tag (Noted.namespacedName ctx start space) (Grammar.namespacedName ctx start space)
      .tag :=
  bind (expect Spot.marks_sign) fun _ => bind tagIdent fun _ => bind plain fun _ => pure

theorem tagMember {start : Position} {name : TagName} :
    Leads .tag (Noted.tagMember ctx start name) (Grammar.tagMember ctx start name) .tag := by
  refine bind accept fun dotLead => ?_
  cases dotLead with
  | none => exact pure
  | some dotLead => exact bind tagIdent fun _ => bind plain fun _ => pure

theorem tagName {rounds : Nat} :
    Leads .tag (Noted.tagName ctx rounds) (Grammar.tagName ctx rounds) .tag :=
  bind plain fun _ => bind tagIdent fun _ => bind plain fun _ =>
    branch (fun _ => bind namespacedName fun _ => pure) fun _ => iterate (fun _ => tagMember) _ _

/-! #### Braces -/

variable {p : Productions} [p.Steady] {inner : Position → String → Mode → Context → Noted Markup}

theorem container {start : Position} {openLead : String} {after : Mode} {allowsEmpty : Bool} :
    Leads .normal (Noted.container p ctx start openLead after allowsEmpty)
      (Grammar.container p ctx start openLead after allowsEmpty) after := by
  refine bind plain fun t => branch (fun _ => branch (fun _ => failing (fails_unexpected _ _))
    fun _ => ?_) fun _ => bind plain fun _ => bind (expectThen Spot.marks_code) fun _ =>
      bind plain fun _ => pure
  exact bind plain fun _ => bind plain fun _ => bind (expectThen Spot.marks_code) fun _ =>
    bind plain fun _ => pure

theorem literal : Plays (fun q => q.In .tag ∧ q.lookahead.isString = true) (Noted.literal ctx)
    (Grammar.literal ctx) fun _ => (·.In .tag) :=
  bind (take fun _ hq => ⟨⟨.inl hq.2, hq.1.scanned⟩, hq.1.mode⟩) fun _ =>
    branch (fun _ => bind plain fun _ => bind plain fun _ => bind plain fun _ => pure)
      fun _ => bind plain fun _ => bind plain fun _ => pure

section

variable (hinner : ∀ start lead after,
  Leads .tag (inner start lead after ctx) (p.markup start lead after ctx) after)
include hinner

/-- The value of an attribute leads from the mode of tags back to it. -/
theorem attributeValue :
    Leads .tag (Noted.attributeValue p inner ctx) (Grammar.attributeValue p ctx) .tag := by
  refine look fun t => branch (fun h => bind (literal.imp ?_ fun _ _ hr => hr) fun _ => pure)
    fun _ => branch (fun h => bind (leadThen ?_) fun _ => bind container fun _ => pure)
      fun _ => branch (fun h => bind (lead ?_) fun _ => bind (hinner _ _ _) fun m => ?_)
        fun _ => fails (fails_unexpected _ _)
  · rintro q ⟨hq, rfl⟩
    exact ⟨hq, h⟩
  · rintro q ⟨hq, rfl⟩
    exact ⟨.inr (.inl h), hq.scanned⟩
  · rintro q ⟨hq, rfl⟩
    exact ⟨⟨.inr (.inr h), hq.scanned⟩, hq.mode⟩
  · cases m <;> exact pure

/-- An attribute leads from the mode of tags back to it. -/
theorem tagAttribute :
    Leads .tag (Noted.tagAttribute p inner ctx) (Grammar.tagAttribute p ctx) .tag := by
  have spread : Plays (fun q => q.In .tag ∧ q.lookahead.isPunctuator "\x7b" = true)
      (Noted.spreadAttribute p ctx) (Grammar.spreadAttribute p ctx) fun _ => (·.In .tag) := by
    refine bind (Q := fun _ q => q.In .tag ∧ q.lookahead.isPunctuator "\x7b" = true)
      (of_plain fun q _ r hq hr => ?_) fun _ => bind (leadThen fun q hq => ?_) fun _ =>
        bind (expect Spot.marks_code) fun _ => bind plain fun _ =>
          bind (expectThen Spot.marks_code) fun _ => bind plain fun _ => pure
    · cases hr
      exact hq
    · exact ⟨.inr (.inl hq.2), hq.1.scanned⟩
  refine sees spread (bind plain fun _ => bind tagIdent fun _ => bind plain fun _ =>
    branch (fun _ => bind (map namespacedName) fun _ => bind accept fun eqLead => ?_)
      fun _ => bind pure fun _ => bind accept fun eqLead => ?_)
  all_goals
    cases eqLead with
    | none => exact bind pure fun _ => bind plain fun _ => pure
    | some =>
      exact bind (attributeValue hinner) fun _ => bind pure fun _ => bind plain fun _ => pure

omit hinner in
theorem childContainer : Plays (fun q => q.In .text ∧ q.lookahead.isPunctuator "\x7b" = true)
    (Noted.childContainer p ctx) (Grammar.childContainer p ctx) fun _ => (·.In .text) := by
  refine bind (Q := fun _ q => q.In .text ∧ q.lookahead.isPunctuator "\x7b" = true)
    (of_plain fun q _ r hq hr => ?_) fun _ => bind (leadThen fun q hq => ?_) fun _ =>
      sees (bind (lead fun q hq => ?_) fun _ => bind plain fun _ =>
        bind (expectThen Spot.marks_code) fun _ => bind plain fun _ => pure)
          (bind container fun _ => pure)
  · cases hr
    exact hq
  · exact ⟨hq.2, hq.1.scanned⟩
  · exact ⟨⟨hq.2, hq.1.scanned⟩, hq.1.mode⟩

/-- Children lead from the mode of text to that of tags. -/
theorem children {name : String} (rounds : Nat) :
    Leads .text (Noted.children p inner ctx name rounds) (Grammar.children p ctx name rounds)
      .tag := by
  induction rounds with
  | zero => exact fails fails_stalled
  | succ rounds ih =>
    refine look fun t => ?_
    cases hk : t.kind
    case eof => exact fails (fails_fail _ _ _)
    case markupText =>
      refine bind (take ?_) fun _ => bind plain fun _ => bind ih fun _ => pure
      rintro q ⟨hq, rfl⟩
      exact ⟨⟨hk, hq.scanned⟩, hq.mode⟩
    all_goals
      refine branch (fun h => bind (childContainer.imp ?_ fun _ _ hr => hr) fun _ =>
        bind ih fun _ => pure) fun _ => branch (fun h => bind (leadThen ?_) fun _ => bind plain
          fun _ => branch (fun _ => pure) fun _ => bind (hinner _ _ _) fun m => ?_)
            fun _ => fails (fails_unexpected _ _)
      · rintro q ⟨hq, rfl⟩
        exact ⟨hq, h⟩
      · rintro q ⟨hq, rfl⟩
        exact ⟨h, hq.scanned⟩
      · cases m <;> exact bind pure fun _ => bind ih fun _ => pure

omit hinner [p.Steady] in
theorem closingTag {start : Position} {openLead opened : String} {after : Mode} :
    Leads .tag (Noted.closingTag p ctx start openLead opened after)
      (Grammar.closingTag p ctx start openLead opened after) after :=
  bind (expect Spot.marks_sign) fun _ => bind plain fun _ => bind tagName fun _ =>
    branch (fun _ => failing (fails_fail _ _ _)) fun _ => bind (expectThen Spot.marks_sign)
      fun _ => bind plain fun _ => pure

theorem fragment {start : Position} {openLead : String} {after : Mode} :
    Leads .tag (Noted.fragment p inner ctx start openLead after)
      (Grammar.fragment p ctx start openLead after) after :=
  bind (expectThen Spot.marks_sign) fun _ => bind (children hinner _) fun _ =>
    bind (expect Spot.marks_sign) fun _ => bind plain fun _ =>
      branch (fun _ => failing (fails_fail _ _ _)) fun _ => bind (expectThen Spot.marks_sign)
        fun _ => bind plain fun _ => pure

theorem element {start : Position} {openLead : String} {after : Mode} :
    Leads .tag (Noted.element p inner ctx start openLead after)
      (Grammar.element p ctx start openLead after) after := by
  refine bind tagName fun name => bind (many (tagAttribute hinner) _) fun _ =>
    sees (bind (lead fun _ hq => ⟨⟨hq.2, hq.1.scanned⟩, hq.1.mode⟩) fun _ => bind plain fun _ =>
      branch (fun _ => failing (fails_unexpectedHere _)) fun _ =>
        bind (expectThen Spot.marks_sign) fun _ => bind plain fun _ => bind plain fun _ => pure) ?_
  exact bind (expectThen Spot.marks_sign) fun _ => bind plain fun _ =>
    bind (children hinner _) fun _ => bind closingTag fun _ => bind plain fun _ => pure

end

theorem markup (depth : Nat) {start : Position} {openLead : String} {after : Mode} :
    Leads .tag (Noted.markup depth start openLead after ctx)
      ((Productions.ofDepth depth).markup start openLead after ctx) after := by
  induction depth generalizing start openLead after with
  | zero => exact fails fails_stalled
  | succ depth ih =>
    have hinner := fun start lead after => @ih start lead after
    exact bind plain fun _ => branch (fun _ => map (fragment hinner)) fun _ => map (element hinner)

/-- Wherever it is run, markup as an operand takes each token in its part. -/
theorem markupRoot (depth : Nat) : Plays (fun _ => True) (Noted.markupRoot depth ctx)
    (Grammar.markupRoot (.ofDepth depth) ctx) fun _ => (·.In .normal) := by
  refine bind (Q := fun _ q => q.scanner.mode = .tag) (of_plain fun q _ r _ hr => ?_) fun _ =>
    bind (Q := fun _ => (·.In .tag)) (of_plain fun q _ r hq hr => ?_) fun _ => bind plain fun _ =>
      bind (lead fun q hq => ⟨⟨trivial, hq.scanned⟩, hq.mode⟩) fun _ =>
        bind (markup depth) fun m => ?_
  · cases hr
    rfl
  · exact hq ▸ Parser.in_of_rescan hr
  · cases m <;> exact pure

end Plays

end Noted

/-! ## Regions and modes -/

/-- The productions of statements and expressions. -/
inductive Grammar.IsOrdinary (p : Productions) : {α : Type} → (Context → Parse α) → Prop where
  -- Expressions.
  | expression : IsOrdinary p (Grammar.expression p)
  | assignment : IsOrdinary p (Grammar.assignment p)
  | cover : IsOrdinary p (Grammar.cover p)
  | yieldExpression : IsOrdinary p (Grammar.yieldExpression p)
  | asyncBareArrow : IsOrdinary p (Grammar.asyncBareArrow p)
  | arrow (start : Position) (asyncLead : Option String) (params : Tree .arrowParams)
      (site : Site) :
    IsOrdinary p (Grammar.arrow p · start asyncLead params site)
  | conditional : IsOrdinary p (Grammar.conditional p)
  | binary (least : Nat) : IsOrdinary p (Grammar.binary p least)
  | exponentiation : IsOrdinary p (Grammar.exponentiation p)
  | unary : IsOrdinary p (Grammar.unary p)
  | awaitOperation : IsOrdinary p (Grammar.awaitOperation p)
  | updateAfter : IsOrdinary p (Grammar.updateAfter p)
  | chain : IsOrdinary p (Grammar.chain p)
  | callee : IsOrdinary p (Grammar.callee p)
  | construct : IsOrdinary p (Grammar.construct p)
  | superclass : IsOrdinary p Grammar.superclass
  | importExpression : IsOrdinary p (Grammar.importExpression p)
  | argumentList : IsOrdinary p (Grammar.argumentList p)
  | operand : IsOrdinary p (Grammar.operand p)
  | group : IsOrdinary p (Grammar.group p)
  | arrayLiteral : IsOrdinary p (Grammar.arrayLiteral p)
  | objectLiteral : IsOrdinary p (Grammar.objectLiteral p)
  | objectMember : IsOrdinary p (Grammar.objectMember p)
  | template (tagged : Bool) : IsOrdinary p (Grammar.template p · tagged)
  | functionExpression : IsOrdinary p (Grammar.functionExpression p)
  | classDefinition (isDeclaration nameRequired : Bool) :
    IsOrdinary p (Grammar.classDefinition p · isDeclaration nameRequired)
  | classMember (hasConstructor : Bool) : IsOrdinary p (Grammar.classMember p · hasConstructor)
  | parameterList : IsOrdinary p (Grammar.parameterList p)
  | binding (restricted : Fault) : IsOrdinary p (Grammar.binding p restricted)
  | markupRoot : IsOrdinary p (Grammar.markupRoot p)
  -- Statements.
  | moduleItem : IsOrdinary p (Grammar.moduleItem p)
  | importDeclaration : IsOrdinary p (Grammar.importDeclaration · p.rounds)
  | exportDeclaration : IsOrdinary p (Grammar.exportDeclaration p)
  | item : IsOrdinary p (Grammar.item p)
  | statement : IsOrdinary p (Grammar.statement p)
  | block : IsOrdinary p (Grammar.block p)
  | emptyStatement : IsOrdinary p fun _ => Grammar.emptyStatement
  | expressionStatement : IsOrdinary p (Grammar.expressionStatement p)
  | variableStatement : IsOrdinary p (Grammar.variableStatement p)
  | functionDeclaration : IsOrdinary p (Grammar.functionDeclaration p)
  | nestedFunction : IsOrdinary p (Grammar.nestedFunction p)
  | breakStatement : IsOrdinary p Grammar.breakStatement
  | continueStatement : IsOrdinary p Grammar.continueStatement
  | debuggerStatement : IsOrdinary p Grammar.debuggerStatement
  | doWhileLoop : IsOrdinary p (Grammar.doWhileLoop p)
  | forLoop : IsOrdinary p (Grammar.forLoop p)
  | ifStatement : IsOrdinary p (Grammar.ifStatement p)
  | returnStatement : IsOrdinary p (Grammar.returnStatement p)
  | switchStatement : IsOrdinary p (Grammar.switchStatement p)
  | throwStatement : IsOrdinary p (Grammar.throwStatement p)
  | tryStatement : IsOrdinary p (Grammar.tryStatement p)
  | whileLoop : IsOrdinary p (Grammar.whileLoop p)
  | withStatement : IsOrdinary p (Grammar.withStatement p)
  | labelledStatement (start : Position) (label : Ident) :
    IsOrdinary p (Grammar.labelledStatement p · start label)

theorem Grammar.IsOrdinary.steady {p : Productions} [p.Steady] {α : Type}
    {plain : Context → Parse α} (h : IsOrdinary p plain) (ctx : Context) :
    (plain ctx).Steady .normal := by
  cases h <;> infer_instance

open Held in
/-- Where a statement or expression is read in the mode of code and this ends well, the parser is in
that mode again, and as many elements are open as before. Markup ends well only with the mode that
its caller asks for, and the lookahead was scanned in this mode then. All the tokens that markup
takes, in a parse that ends well or not, are those that it takes in some part, and they were scanned
in the mode for this part. -/
theorem run_modes (n : Nat) (ctx : Context) (q : Parser) :
    (∀ {α : Type} {held : Held α} {plain : Context → Parse α} {depth v s r},
      Grammar.IsOrdinary (.ofDepth n) plain → IsCode (.ofDepth n) (.ofDepth n) held plain →
      (held ⟨ctx, depth⟩).run q = .ok (v, s) r → q.scanner.mode = .normal →
      r.scanner.mode = .normal ∧ s.markupDepth = depth) ∧
    (∀ {start openLead after v r},
      (Grammar.markup (.ofDepth n) start openLead after ctx).run q = .ok v r →
      r.scanner.mode = after ∧ r.ScannedIn after) ∧
    (Noted.markupRoot n ctx).erase.run q = (Grammar.markupRoot (.ofDepth n) ctx).run q ∧
    ∀ x ∈ (Noted.markupRoot n ctx).taken q, x.1.Fits x.2.lookahead ∧ x.2.ScannedIn x.1.mode := by
  refine ⟨fun {α held plain depth v s r} hplain hcode hrun hq => ?_, fun hrun => ?_, ?_⟩
  · have hfollows := hcode.follows (Productions.follow_ofDepth n) ctx depth q
    cases hb : (plain ctx).run q with
    | ok v' r' =>
      rw [hb] at hfollows
      obtain ⟨_, _, hheld, rfl, rfl⟩ := hfollows
      cases hrun.symm.trans hheld
      exact ⟨(hplain.steady _).mode hb hq, rfl⟩
    | error e r' =>
      rw [hb] at hfollows
      cases hrun.symm.trans hfollows
  · have hin := Grammar.markup_leaves _ _ _ hrun
    exact ⟨hin.mode, hin.scanned⟩
  · obtain ⟨herase, htaken, -⟩ := @Noted.Plays.markupRoot ctx n q trivial
    exact ⟨herase, fun x hx => ⟨(htaken x hx).fits, (htaken x hx).scanned⟩⟩

/-- An element with code in an attribute and between its tags, another element and a text. -/
theorem run_modes_element : ∃ q v s r, Parser.start "<a b={c}>{d}<e/>f</a>" false false = .ok q ∧
    (Held.expression (.ofDepth 12) ⟨.start .script true, 0⟩).run q = .ok (v, s) r ∧
    q.scanner.mode = .normal ∧ r.scanner.mode = .normal ∧ s.markupDepth = 0 ∧
    ((Noted.markupRoot 12 (.start .script true)).taken q).map (·.1) =
      [.root, .name, .name, .sign "=", .value, .code "\x7d", .sign ">", .child "\x7b", .code "\x7d",
        .child "<", .name, .sign "/", .sign ">", .text, .child "<", .sign "/", .name, .sign ">"] ∧
    ∀ x ∈ (Noted.markupRoot 12 (.start .script true)).taken q, x.2.ScannedIn x.1.mode := by
  have hok : (Parser.start "<a b={c}>{d}<e/>f</a>" false false).toOption.any (fun q =>
      ((Held.expression (.ofDepth 12) ⟨.start .script true, 0⟩).run q matches .ok ..) &&
      q.scanner.mode = .normal &&
      ((Noted.markupRoot 12 (.start .script true)).taken q).map (·.1) =
        [.root, .name, .name, .sign "=", .value, .code "\x7d", .sign ">", .child "\x7b",
          .code "\x7d", .child "<", .name, .sign "/", .sign ">", .text, .child "<", .sign "/",
          .name, .sign ">"]) = true := by decide +kernel
  cases hstart : Parser.start "<a b={c}>{d}<e/>f</a>" false false with
  | error => rw [hstart] at hok; cases hok
  | ok q =>
    rw [hstart] at hok
    simp only [Except.toOption, Option.any_some, Bool.and_eq_true, decide_eq_true_eq] at hok
    obtain ⟨⟨hends, hq⟩, htaken⟩ := hok
    cases hrun : (Held.expression (.ofDepth 12) ⟨.start .script true, 0⟩).run q with
    | error => rw [hrun] at hends; cases hends
    | ok v r =>
      obtain ⟨hcode, -, -, htokens⟩ := run_modes 12 (.start .script true) q
      obtain ⟨hr, hdepth⟩ := hcode .expression .expression hrun hq
      exact ⟨q, v.1, v.2, r, rfl, hrun, hq, hr, hdepth, htaken, fun x hx => (htokens x hx).2⟩

end Verbatim
