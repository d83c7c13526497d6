import Verbatim.Proofs.Grammar.Target

/-!
# Literals, names, templates and keys are tracked

The productions of a language call each other through a record. The records of two depths mirror
each other if each production of the one tracks the same production of the other, as long as no more
characters are left than the depth of the other allows.

Those of single tokens come first, and those of templates and keys. The first piece of a template
leaves the template owed until it is finished; each later piece closes the substitution in front of
it.

## Main definitions

* `Verbatim.Prints`, `Verbatim.Tells` — what a production that ends well has taken.
* `Verbatim.Mirrors` — records of productions that track each other.

## Main results

* `Verbatim.Tracks.literal`, `Verbatim.Tracks.bindingName`, `Verbatim.Tracks.key`.
* `Verbatim.Tracks.template` — templates.
-/

namespace Verbatim

/-! ## Records of productions -/

/-- A production has taken tokens that spell the text of its tree. -/
def Prints {c : Category} (v : Tree c) (tr : Trace) (_ : Token) : Prop :=
  Spells v.print tr ∧ 0 < tr.count

/-- The same of an expression, which may turn out to be a target. -/
def Tells (e : Expr) (tr : Trace) (_ : Token) : Prop :=
  Spells e.print tr ∧ 0 < tr.count ∧ e.isConvertible = true

/-- The text of an element or a fragment. -/
def Markup.print : Markup → String
  | .element e => e.print
  | .fragment f => f.print

/-- What holds of productions that begin in the normal mode and end in it, with `fuel` characters
before the companion. -/
def Follows [Exchange] {α : Type} [Placed α] (fuel : Nat) (action action' : Parse α)
    (post : α → Trace → Token → Prop) : Prop :=
  ∀ {t t' : Token}, Alike t t' → Tracks [] fuel .normal .normal t t' action action' post

/-- Records of productions that track each other. -/
structure Mirrors [Exchange] (p p' : Productions) (fuel : Nat) : Prop where
  /-- The companion has enough rounds. -/
  rounds : p'.rounds = fuel
  /-- Expressions, with commas. -/
  expression : ∀ ctx, Follows fuel (p.expression ctx) (p'.expression ctx) Tells
  /-- Expressions without commas. -/
  assignment : ∀ ctx, Follows fuel (p.assignment ctx) (p'.assignment ctx) Tells
  /-- Expressions without commas that may yet turn out to be patterns. -/
  cover : ∀ ctx, Follows fuel (p.cover ctx) (p'.cover ctx) Tells
  /-- Operands of binary operators. -/
  binary : ∀ least ctx, Follows fuel (p.binary least ctx) (p'.binary least ctx) Tells
  /-- Operands of multiplication. -/
  exponentiation : ∀ ctx, Follows fuel (p.exponentiation ctx) (p'.exponentiation ctx) Tells
  /-- Operands of unary operators. -/
  unary : ∀ ctx, Follows fuel (p.unary ctx) (p'.unary ctx) Tells
  /-- Operands without operators, with calls. -/
  chain : ∀ ctx, Follows fuel (p.chain ctx) (p'.chain ctx) Tells
  /-- Operands without operators and calls. -/
  callee : ∀ ctx, Follows fuel (p.callee ctx) (p'.callee ctx) Tells
  /-- Targets of bindings. -/
  binding : ∀ restricted ctx,
    Follows fuel (p.binding restricted ctx) (p'.binding restricted ctx) Prints
  /-- Statements. -/
  statement : ∀ ctx, Follows fuel (p.statement ctx) (p'.statement ctx) Prints
  /-- Statements and declarations. -/
  item : ∀ ctx, Follows fuel (p.item ctx) (p'.item ctx) Prints
  /-- Markup behind its first angle bracket. -/
  markup : ∀ {start start' lead after ctx} {t t' : Token}, Alike t t' →
    Tracks [] fuel .tag after t t' (p.markup start lead after ctx) (p'.markup start' lead after ctx)
      fun v tr _ => Adds (lead ++ "<") v.print tr

namespace Tracks

open Verbatim.Grammar

variable [Exchange] {β : Type} [Placed β] {owed : List Nat} {fuel : Nat} {m m' : Mode}
    {t t' x x' : Token}
  {ctx : Context} {p p' : Productions}

/-! ## Literals -/

/-- What a literal is made of, once its token was taken. -/
def literalOf (ctx : Context) (t : Token) : Parse Literal := do
  if t.octal && ctx.strict then Parse.tolerate (octalFault t) t.site
  let value ← Grammar.literalValue ctx t
  let span ← Parse.finish .literal t.start
  return { lead := t.lead, value, raw := t.raw, span }

omit [Exchange] in
theorem literal_eq : Grammar.literal ctx = Parse.next >>= literalOf ctx := rfl

/-- Alike tokens of literals have the same value, or fail alike. -/
theorem literalValue (hx : Alike x x') (hk : x.kind.isOvert = true) :
    Tracks [] fuel m m t t' (Grammar.literalValue ctx x) (Grammar.literalValue ctx x')
      (Still (fun _ => True) t) := by
  have hv := hx.headless (by rintro h; simp [h] at hk)
  unfold Grammar.literalValue
  rw [hx.kind, hx.text hk, hx.raw hk]
  -- Alike tokens have the same kind of value, which either fits the kind of the token or does not.
  cases x.kind <;> cases hv₁ : x.value <;> rw [hv₁] at hv <;>
    cases hv₂ : x'.value <;> rw [hv₂] at hv <;> cases hv
  all_goals first
    | exact pure ⟨trivial, rfl, rfl⟩ (.refl _ rfl)
    | exact stuck (Parse.fails_unexpected _ _)
    | skip
  case bigint.text.text.refl text =>
    dsimp only
    cases Text.bigint? text with
    | some value => exact pure ⟨trivial, rfl, rfl⟩ (.refl _ rfl)
    | none => exact stuck (by simp)

theorem literalOf_tracks (ht : Alike t t') (hx : Alike x x') (hk : x.kind.isOvert = true) :
    Tracks [] fuel m m t t' (literalOf ctx x) (literalOf ctx x')
      (Still (fun lit => lit.lead = x.lead ∧ lit.raw = x.raw) t) := by
  unfold literalOf
  dsimp only
  refine checked ht (by rw [hx.octal]) ?_
  refine check (literalValue hx hk) fun v v' u' _ hv hu => ?_
  refine finish (by decide) hu fun span span' => pure ⟨⟨rfl, rfl⟩, rfl, rfl⟩ ?_
  obtain rfl := alike_value.1 hv
  rw [hx.lead, hx.raw hk]
  rfl

/-- A literal that is one token. -/
theorem literal [m.Spaced] (ht : Alike t t')
    (hk : t.kind.isOvert = true ∧ t.kind ≠ .eof ∧ t.kind ≠ .punctuator) :
    Tracks [] fuel m m t t' (Grammar.literal ctx) (Grammar.literal ctx) fun lit tr _ =>
      Spells lit.print tr ∧ tr.count = 1 := by
  have hplain : t.kind ≠ .eof ∧ t.kind ≠ .template ∧ t.kind ≠ .privateName ∧
      t.kind ≠ .punctuator := by
    cases h : t.kind <;> simp_all
  rw [literal_eq]
  refine next (fun _ => by simp [Token.isPunctuator, hk.2.2]) ht (.plain hplain) fun u u' hu => ?_
  refine (literalOf_tracks hu ht hk.1).weaken ?_ (Nat.le_refl _)
  rintro lit tr u ⟨⟨hl, hr⟩, rfl, -⟩
  exact ⟨⟨by simp [Literal.print, hl, hr], fun _ => rfl⟩, rfl⟩

/-! ## Names -/

theorem checkOperatorWord (hx : Alike x x') (hk : x.kind.isOvert = true) :
    Tracks [] fuel m m t t' (Grammar.checkOperatorWord ctx x) (Grammar.checkOperatorWord ctx x')
      (Still (fun _ => True) t) := by
  unfold Grammar.checkOperatorWord
  dsimp only
  rw [hx.text hk]
  refine guard (by simp) rfl fun _ => guard (by simp) rfl fun _ => ?_
  exact pure ⟨trivial, rfl, rfl⟩ (.refl _ rfl)

theorem checkReference (hx : Alike x x') (hk : x.kind.isOvert = true) :
    Tracks [] fuel m m t t' (Grammar.checkReference ctx x) (Grammar.checkReference ctx x')
      (Still (fun _ => True) t) := by
  unfold Grammar.checkReference
  refine check (checkOperatorWord hx hk) fun _ _ u' _ _ hu => ?_
  rw [hx.text hk]
  exact ite rfl (fun _ => tolerateLast hu) fun _ => pure ⟨trivial, rfl, rfl⟩ (.refl _ rfl)

/-- A name that is bound. -/
theorem bindingName [m.Spaced] {restricted : Fault} (ht : Alike t t') :
    Tracks [] fuel m m t t' (Grammar.bindingName restricted ctx)
      (Grammar.bindingName restricted ctx)
      fun id tr _ => Spells id.print tr ∧ tr.count = 1 := by
  unfold Grammar.bindingName
  dsimp only
  refine look ht (guard (by simp) (by rw [ht.isName]) fun hn => ?_)
  have hk : t.kind = .identifier := by simpa [Token.isName] using hn
  have ho : t.kind.isOvert = true := by simp [hk]
  refine next (fun _ => by simp [Token.isPunctuator, hk]) ht (.plain (by simp [hk]))
    fun u u' hu => ?_
  refine check (checkOperatorWord ht ho) fun _ _ w' _ _ hw => ?_
  rw [ht.text ho]
  have hlast : Tracks [] (fuel - 1) m m u w' (Parse.finishName t) (Parse.finishName t')
      fun id tr _ => Spells id.print (.word t.lead t.raw ++ tr) ∧
        (.word t.lead t.raw ++ tr).count = 1 := by
    refine (finishName hw ht ho).weaken ?_ (Nat.le_refl _)
    rintro id tr v ⟨hl, hr, -, rfl, -⟩
    exact ⟨⟨by simp [Ident.print, hl, hr], fun _ => rfl⟩, rfl⟩
  refine ite rfl (fun _ => ?_) fun _ => hlast
  refine ite rfl (fun _ => tolerate hw hlast) fun _ => ?_
  exact ite rfl (fun _ => tolerate hw hlast) fun _ => hlast

/-! ## Templates -/

/-- The trace of a template piece: its text, and its effect on the open braces. -/
def piece (isLater : Bool) (q : Quasi) : Trace where
  text := q.lead ++ ((if isLater then "\x7d" else "`") ++
    (q.raw ++ if q.isTail then "`" else "$\x7b"))
  nest braces :=
    match isLater, braces with
    | false, _ => some (if q.isTail then braces else .substitution :: braces)
    | true, .substitution :: outer => some (if q.isTail then outer else .substitution :: outer)
    | true, _ => none
  count := 1

omit [Exchange] in
/-- The text of a piece between its delimiters. -/
theorem pieceText_of_raw {raw inner : String} {isHead isTail : Bool}
    (h : raw = (if isHead then "`" else "\x7d") ++ inner ++ (if isTail then "`" else "$\x7b")) :
    raw.toList.drop 1 = inner.toList ++ (if isTail then "`" else "$\x7b").toList ∧
      pieceText raw isTail = inner := by
  have hd : raw.toList.drop 1 = inner.toList ++ (if isTail then "`" else "$\x7b").toList := by
    subst h
    cases isHead <;> simp
  refine ⟨hd, ?_⟩
  unfold pieceText
  rw [hd]
  cases isTail <;> simp

/-- A piece of a template is taken. The first piece leaves its template owed. -/
theorem templatePiece {f f' : Quasi → Parse β} {post : β → Trace → Token → Prop} {tagged : Bool}
    (isLater : Bool) (ht : Alike t t') (hhead : isLater = false → t.isTemplateHead = true)
    (h : ∀ q q' u u', Alike q q' → Alike u u' →
      Tracks ((if isLater then [] else [t.start.offset]) ++ owed) (fuel - 1) .normal m' u u' (f q)
        (f' q') fun w tr => post w (piece isLater q ++ tr)) :
    Tracks owed fuel .normal m' t t' (Grammar.templatePiece ctx tagged >>= f)
      (Grammar.templatePiece ctx tagged >>= f') post := by
  refine formed fun hform => ?_
  unfold Grammar.templatePiece
  dsimp only
  refine assoc (look ht ?_)
  by_cases hk : t.kind = .template
  case neg =>
    rw [if_pos hk]
    exact stuck (by simp)
  have hk' : t'.kind = .template := ht.kind.trans hk
  rw [if_neg (not_not_intro hk), if_neg (not_not_intro hk')]
  obtain ⟨cooked, isHead, isTail, inner, hv, hraw⟩ := hform.template hk
  obtain ⟨hdrop, htext⟩ := pieceText_of_raw hraw
  have hdrop' : t'.raw.toList.drop 1 = t.raw.toList.drop 1 := by
    have hvis := ht.visible (by simp [hk])
    simp only [Token.visible, hk, hk'] at hvis
    exact String.ofList_injective hvis
  obtain ⟨isHead', hv'⟩ : ∃ isHead', t'.value = .template cooked isHead' isTail := by
    have hh := ht.headless (by simp [hk])
    rw [hv] at hh
    cases hv' : t'.value <;> rw [hv'] at hh <;> cases hh
    exact ⟨_, rfl⟩
  have hsingle : ∀ span, Trace.single ⟨t, .normal, isLater⟩ =
      piece isLater { lead := t.lead, raw := pieceText t.raw isTail, cooked, isTail, span } := by
    intro span
    refine Trace.ext ?_ (fun braces => ?_) rfl
    · cases isLater with
      | false =>
        have hh : isHead = true := by
          have := hhead rfl
          simpa [Token.isTemplateHead, hk, hv] using this
        simp only [Trace.single, Taken.print, Taken.spelling, hk, piece, htext]
        simp [hraw, hh, String.append_assoc]
      | true => simp [Trace.single, Taken.print, Taken.spelling, hk, piece, htext, hdrop]
    · simp only [Trace.single, Taken.nest, hk, piece, Taken.isTail, hv]
      cases isLater with
      | false => exact if_pos (hhead rfl)
      | true => rcases braces with _ | ⟨_ | _, _⟩ <;> rfl
  refine assoc (grab id isLater ht (by simp [Token.isEof, hk]) .spaced (by simp)
    (fun q _ hm => hm ▸ grabs_next q) (fun q _ hm => hm ▸ grabs_next q) fun u u' hu => ?_)
  dsimp only [id]
  rw [hv, hv']
  dsimp only
  have hopen : openings [⟨t, .normal, isLater⟩] = if isLater then [] else [t.start.offset] := by
    cases isLater <;> simp [openings, hk]
  have hlast : Tracks (openings [⟨t, .normal, isLater⟩] ++ owed) (fuel - 1) .normal m' u u'
      ((do
        let span ← Parse.finish .templateElement t.start
        return { lead := t.lead, raw := pieceText t.raw isTail, cooked, isTail, span }) >>= f)
      ((do
        let span ← Parse.finish .templateElement t'.start
        return { lead := t'.lead, raw := pieceText t'.raw isTail, cooked, isTail, span }) >>= f')
      fun w tr => post w (Trace.single ⟨t, .normal, isLater⟩ ++ tr) := by
    refine assoc (finish (by decide) hu fun span span' => pureThen ?_)
    rw [hopen, hsingle span]
    refine h _ _ u u' ?_ hu
    rw [ht.lead, pieceText, pieceText, hdrop']
    rfl
  refine iteThen ?_ (fun _ => stuck (by simp)) fun _ => hlast
  rfl

/-- What has been taken of a template behind a substitution. -/
structure EndsTemplate (v : List Quasi × List Expr) (tr : Trace) (_ : Token) : Prop where
  /-- What has been taken spells the pieces and the expressions between them. -/
  text_eq : tr.text = printPieces "\x7d" v.1 (v.2.map (·.print))
  /-- The brace of the substitution is closed. -/
  nest_eq : ∀ braces, tr.nest (.substitution :: braces) = some braces
  /-- Something has been taken. -/
  pos : 0 < tr.count

theorem isTail_of_alike {q q' : Quasi} (h : Alike q q') : q'.isTail = q.isTail := by
  change (unplace q').isTail = (expected q).isTail
  rw [h.eq]

/-- The pieces behind the first, with the expressions between them. -/
theorem templateParts {tagged : Bool} {k : Nat} (hp : Mirrors p p' k) (n n' : Nat)
    (ht : Alike t t') (hn : fuel ≤ n' + 1) (hk : fuel ≤ k + 1) :
    Tracks [] fuel .normal .normal t t' (Grammar.templateParts p ctx tagged n)
      (Grammar.templateParts p' ctx tagged n') EndsTemplate := by
  induction n generalizing n' fuel t t' with
  | zero => exact stuck Parse.fails_stalled
  | succ n ih =>
    refine roundsTaking _ hn (fun _ _ _ h => h.pos) fun n' hn => ?_
    unfold Grammar.templateParts
    refine templatePiece true ht (by simp) fun q q' u u' hq hu => ?_
    refine ite (isTail_of_alike hq) (fun htail => ?_) fun htail => ?_
    · refine pure ⟨?_, fun braces => ?_, ?_⟩ (by simpa using hq)
      · simp [piece, printPieces, htail, String.append_assoc]
      · simp [piece, htail]
      · exact Trace.append_pos Nat.one_pos
    refine bind (by omega) (hp.expression _ hu) ?_
    rintro e e' tr w w' ⟨he, -, -⟩ ha hw
    refine seq (ih n' hw (by omega) (by omega)) ?_
    rintro ⟨qs, es⟩ ⟨qs', es'⟩ tr' x x' ⟨htext, hnest, -⟩ has hx
    obtain ⟨hqs, hes⟩ := alike_prod.1 has
    refine pure ⟨?_, fun braces => ?_, ?_⟩ ?_
    · simp_all [piece, printPieces, he.text_eq, String.append_assoc]
    · simp_all [piece, he.nest_eq]
    · exact Trace.append_pos Nat.one_pos
    · exact alike_prod.2 ⟨alike_cons.2 ⟨hq, hqs⟩, alike_cons.2 ⟨ha, hes⟩⟩

/-- A template is closed, which was owed. -/
theorem closeTemplate {post : Tree .template → Trace → Token → Prop} {qs qs' : List Quasi}
    {es es' : List Expr} {start start' : Position} (ht : Alike t t') (hqs : Alike qs qs')
    (hes : Alike es es') (hpost : ∀ span, post (.templateLit qs (.ofList es) span) .empty t) :
    Tracks [start.offset] fuel m m t t'
      (do
        let span ← Parse.finish .template start
        return .templateLit qs (.ofList es) span)
      (do
        let span ← Parse.finish .template start'
        return .templateLit qs' (.ofList es') span) post := by
  refine assoc (lastEnd ht fun _ _ => assoc (spanBetween ht (assoc (reportTemplate ht ?_))))
  refine pure (hpost _) ?_
  have hqs : qs.map (fun q => q.retouch Retouch.blank) =
      qs'.map (fun q => q.retouch Retouch.blank) := hqs
  change Tree.retouch _ _ = Tree.retouch _ _
  simpa [hes.trees] using hqs

/-- A template; the lookahead is its first piece. -/
theorem template {tagged : Bool} {k : Nat} (hp : Mirrors p p' k) (ht : Alike t t')
    (hh : t.isTemplateHead = true) (hk : fuel ≤ k + 1) :
    Tracks [] fuel .normal .normal t t' (Grammar.template p ctx tagged)
      (Grammar.template p' ctx tagged) Prints := by
  unfold Grammar.template
  refine here ht ?_
  cases p.rounds with
  | zero => exact stuck (Parse.fails_bind Parse.fails_stalled)
  | succ n =>
    rw [hp.rounds]
    refine roundsTaking (fun n => Grammar.templateParts p' ctx tagged n >>= _) hk
      (fun _ _ _ h => h.2) fun n' hn => ?_
    unfold Grammar.templateParts
    refine assoc (templatePiece false ht (fun _ => hh) fun q q' u u' hq hu => ?_)
    refine iteThen (isTail_of_alike hq) (fun htail => pureThen ?_) fun htail => ?_
    · refine closeTemplate hu (by simpa using hq) (.refl _ rfl) fun span =>
        ⟨⟨?_, fun braces => ?_⟩, ?_⟩
      · simp [Tree.print_eq, piece, printPieces, htail, String.append_assoc]
      · simp [piece, htail]
      · exact Trace.append_pos Nat.one_pos
    refine assoc (bind (by omega) (hp.expression _ hu) ?_)
    rintro e e' tr w w' ⟨he, -, -⟩ ha hw
    refine assoc (seq (templateParts hp n n' hw (by omega) (by omega)) ?_)
    rintro ⟨qs, es⟩ ⟨qs', es'⟩ tr' x x' ⟨htext, hnest, -⟩ has hx
    obtain ⟨hqs, hes⟩ := alike_prod.1 has
    refine pureThen (closeTemplate hx (alike_cons.2 ⟨hq, hqs⟩) (alike_cons.2 ⟨ha, hes⟩)
      fun span => ⟨⟨?_, fun braces => ?_⟩, ?_⟩)
    · simp_all [Tree.print_eq, piece, printPieces, he.text_eq, String.append_assoc]
    · simp_all [piece, he.nest_eq]
    · exact Trace.append_pos Nat.one_pos

/-! ## Keys -/

/-- Keys of properties and members. -/
theorem key {k : Nat} {allowsPrivate : Bool} (hp : Mirrors p p' k) :
    Follows (k + 1) (Grammar.key p ctx allowsPrivate) (Grammar.key p' ctx allowsPrivate)
      Prints := by
  intro t t' ht
  unfold Grammar.key
  refine look ht (ite ht.isAnyName (fun hn => ?_) fun _ => ?_)
  · refine wrap (Nat.le_refl _) (anyName ht hn) ?_ fun _ _ h => congrArg Tree.nameKey h
    rintro id tr u ⟨hid, hc, -⟩
    exact ⟨by simpa [Tree.print_eq] using hid, by omega⟩
  have hliteral : t.kind.isOvert = true ∧ t.kind ≠ .eof ∧ t.kind ≠ .punctuator →
      Tracks [] (k + 1) .normal .normal t t'
        (do return .literalKey (← Grammar.literal ctx))
        (do return .literalKey (← Grammar.literal ctx)) Prints := by
    intro hk
    refine wrap (Nat.le_refl _) (literal ht hk) ?_ fun _ _ h => congrArg Tree.literalKey h
    rintro lit tr u ⟨hlit, hc⟩
    exact ⟨by simpa [Tree.print_eq] using hlit, by omega⟩
  rw [ht.kind]
  split
  · exact hliteral (by simp [*])
  · exact hliteral (by simp [*])
  · exact hliteral (by simp [*])
  · refine ite rfl (fun _ => ?_) fun _ => stuck (by simp)
    refine regroup (wrap (Nat.le_refl _) (privateName ht ‹_›) ?_ fun _ _ h =>
      congrArg Tree.privateKey h)
    rintro name tr u ⟨hname, hc⟩
    exact ⟨by simpa [Tree.print_eq] using hname, by omega⟩
  · refine ite (ht.isPunctuator _) (fun hs => ?_) fun _ => stuck (by simp)
    refine lead notTag ht (.punctuator hs) fun u u' hu => ?_
    refine bind (by omega) (hp.assignment _ hu) ?_
    rintro e e' tr w w' ⟨he, hc, -⟩ ha hw
    refine expect (by simp) hw fun _ x x' hx => pure ⟨⟨?_, ?_⟩, ?_⟩ ?_
    · simp [Tree.print_eq, he.text_eq, String.append_assoc]
    · simp [he.nest_eq]
    · exact Trace.append_pos Nat.one_pos
    · exact .of_tree (by simp [ha.tree])

/-- Whether the word that is the lookahead modifies what follows. -/
theorem isModifier {forbidsNewline : Bool} {f f' : Bool → Parse β}
    {post : β → Trace → Token → Prop} (ht : Alike t t')
    (hw : t.kind = .identifier ∨ t.kind = .keyword)
    (h : ∀ b, Tracks owed fuel m m' t t' (f b) (f' b) post) :
    Tracks owed fuel m m' t t' (Grammar.isModifier forbidsNewline >>= f)
      (Grammar.isModifier forbidsNewline >>= f') post := by
  refine assoc (peek ht hw fun u u' hu => pureThen ?_)
  rw [hu.isEof, hu.newlineBefore, hu.isOneOf]
  exact h _

end Tracks

end Verbatim
