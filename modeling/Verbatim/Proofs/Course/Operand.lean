import Verbatim.Proofs.Course.Class
import Verbatim.Proofs.Course.Markup

/-!
# Operands, accesses and calls

A group in parentheses is the one construct that is finished after tokens behind it were taken: that
its items are a sequence is known only behind the closing parenthesis. So what is read of a group is
kept item by item.

## Main definitions

* `Verbatim.Grammar.GroupItem.ReadFrom` — an item of a group that was read.
* `Verbatim.Grammar.Group.ReadFrom` — a group that was read.

## Main results

* `Verbatim.Parse.Proceeds.operand`, `Verbatim.Parse.Proceeds.chain` — operands, and what may follow
  them.
-/

namespace Verbatim

open Verbatim.Grammar Verbatim.Course

section

variable {source : String}

/-- An item of a group is read between two courses, and its place is that of what was read. -/
structure Grammar.GroupItem.ReadFrom (item : GroupItem) (c c' : Course source) : Prop where
  /-- Where it starts. -/
  start : item.start = c.ahead.start
  /-- Where it ends. -/
  stop : item.stop = c'.lastEnd
  /-- What was read. -/
  builds : c.Builds item.value c'

/-- A group is read between two courses, its items behind `c₁` and in front of `c₂`. -/
structure Grammar.Group.ReadFrom (g : Group) (c c₁ c₂ c' : Course source) : Prop where
  /-- The opening parenthesis. -/
  opening : c.Passes (.token (g.openLead ++ "(")) c₁
  /-- The items. -/
  items : Rows (·.ReadFrom · ·) g.items g.separators c₁ c₂
  /-- The closing parenthesis. -/
  closing : c₂.Passes (.token (g.closeLead ++ ")")) c'
  /-- No node is finished behind the items. -/
  nodes : c'.nodes = c₂.nodes

variable {c c₁ c₂ c' : Course source}

/-- The values of the items of a group are laid out as a list. -/
theorem Grammar.Group.ReadFrom.values {g : Group} (h : g.ReadFrom c c₁ c₂ c') :
    c₁.Passes (Tree.listOf (.ofList g.values) g.separators) c₂ := by
  have hlist := h.items.reads (f := fun item => .part .standalone item.value) fun hv => hv.builds
  rwa [Tree.listOf, Tree.toList_ofList, Group.values, List.map_map]

/-- Items with no comma behind the last reach from the start of the first to the end of the last. -/
theorem Course.Rows.bounds {items : List GroupItem} {separators : List String}
    (h : Rows (·.ReadFrom · ·) items separators c c') (hlen : separators.length < items.length) :
    (∃ first last, items.head? = some first ∧ items.getLast? = some last ∧
      first.start = c.ahead.start ∧ last.stop = c'.lastEnd) ∧
      c.taken.length < c'.taken.length := by
  induction h with
  | nil => cases hlen
  | last hv => exact ⟨⟨_, _, rfl, rfl, hv.start, hv.stop⟩, hv.builds.length_lt rfl⟩
  | @cons v vs comma commas c c₁ c₂ c' hv separator rest ih =>
    obtain ⟨⟨first, last, hfirst, hlast, -, hstop⟩, hlt⟩ := ih (by simpa using hlen)
    have hitem := hv.builds.length_lt rfl
    have hcomma := separator.length_lt rfl
    refine ⟨⟨v, last, rfl, ?_, hv.start, hstop⟩, by omega⟩
    cases vs with
    | nil => cases hfirst
    | cons w vs => simpa using hlast

end

namespace Parse.Proceeds

variable {source : String} {p : Productions} {ctx : Context} {c c₀ c₁ c₂ : Course source}

/-! ## Spread, arrays and objects -/

theorem spreadOr {value : Parse Expr} {post : Expr → Outlook source → Prop}
    (hvalue : ∀ c : Course source, value.Yields c fun v c' => c.Builds v c')
    (h : ∀ v c', c.Builds v c' → post v (.on c')) : (Grammar.spreadOr value).Proceeds c post := by
  simp only [Grammar.spreadOr, proceeds_bind, proceeds_look, meets_on, proceeds_ite]
  refine ⟨fun ht => lead (raw_of_isPunctuator ht) fun dotsLead c₁ h₁ => ?_,
    fun _ => (hvalue c).use h⟩
  refine (hvalue c₁).use fun operand c₂ h₂ => finish (h₁.seq h₂) rfl (by decide)
    fun span c' hr => ?_
  exact h _ _ (.part hr rfl)

theorem arrayRound (hp : p.Proceeds source) (c : Course source) :
    (Grammar.arrayRound p ctx).Yields c (RoundPasses (fun v c c' => c.Builds v c') c) := by
  refine Yields.of_rule fun post h => ?_
  simp only [Grammar.arrayRound, proceeds_bind, proceeds_sees, meets_on, proceeds_ite]
  refine ⟨fun _ => separator fun comma c' hcomma => h (.hole .absent comma) _
    ⟨c, .part .blank rfl, hcomma⟩, fun _ => ?_⟩
  exact spreadOr (hp.cover ctx) fun v c' hv => h (.item (.present v)) _ (.part hv rfl)

theorem arrayLiteral (hp : p.Proceeds source) {post : Expr → Outlook source → Prop}
    (h : ∀ v c', c.Builds v c' → post v (.on c')) :
    (Grammar.arrayLiteral p ctx).Proceeds c post := by
  refine expect fun openLead c₁ h₁ => listed (arrayRound hp) fun vs commas c₂ h₂ => ?_
  refine expect fun closeLead c₃ h₃ => finish (h₁.seq (h₂.builds.seq h₃)) rfl (by decide) ?_
  exact fun span c' hr => h _ _ (.part hr rfl)

theorem markPending {site : Site} {post : Unit → Outlook source → Prop} (h : post () (.on c)) :
    (Grammar.markPending site).Proceeds c post := fun _ => h

/-- The value of a shorthand property begins with its name. -/
theorem shorthandValue (hp : p.Proceeds source) {id : Ident} {post : Expr → Outlook source → Prop}
    (hid : c₀.Passes (.ident id) c)
    (h : ∀ v c', c₀.Passes (.shorthand (.nameKey id) (.part .standalone v)) c' → post v (.on c')) :
    (Grammar.shorthandValue p ctx c₀.ahead.start id).Proceeds c post := by
  simp only [Grammar.shorthandValue, proceeds_bind, proceeds_look, meets_on, proceeds_ite,
    proceeds_pure]
  refine ⟨fun ht => lead (raw_of_isPunctuator ht) fun eqLead c₁ h₁ => markPending ?_, fun _ => ?_⟩
  · have hname : c₀.Builds (.namePattern id) c := .part hid rfl
    refine hp.ofAssignment fun value c₂ h₂ => finish (hname.seq (h₁.seq h₂)) rfl (by decide) ?_
    intro span c' hr
    have hvalue : c₀.Builds (.assignment (.namePattern id) eqLead .assign value span) c' :=
      .part hr rfl
    exact h _ _ (hvalue.shorthand (.part (.node (.seq (.part .ident)))))
  · have hvalue : c₀.Builds (.identifier id) c := .part hid rfl
    exact h _ _ (hvalue.shorthand (.part .ident))

/-- The name that a shorthand property consists of is its key. -/
theorem shorthandName {first : Token} {name : Tree .key} {post : Ident → Outlook source → Prop}
    (h : ∀ id, name = .nameKey id → post id (.on c)) :
    (Grammar.shorthandName ctx first name).Proceeds c post := by
  unfold Grammar.shorthandName
  split
  · exact proceeds_ite.mpr ⟨fun _ => h _ rfl, fun _ => trivial⟩
  · trivial

/-- A property of an object is laid out as it was read. -/
theorem property (hp : p.Proceeds source) {post : Tree .member → Outlook source → Prop}
    (h : ∀ v c', c.Builds v c' → post v (.on c')) : (Grammar.property p ctx).Proceeds c post := by
  refine modifiers fun ⟨mods, kind⟩ c₁ hstatic hplain h₁ => key hp fun name c₂ h₂ => ?_
  simp only [meets_on, proceeds_bind, proceeds_look, proceeds_ite]
  refine ⟨fun _ => ?_, fun hmods => ?_⟩
  · have hlayout : c.Passes (mods.layout kind.accessor) c₁ := by
      change c.Passes (.seq (.mark mods.staticLead "static") (mods.innerLayout kind.accessor)) c₁
      rw [show mods.staticLead = none from hstatic]
      exact Passes.blank.seq h₁
    refine methodFunction hp fun value c₃ h₃ => ?_
    have hvalue : c₂.Passes (.part .method (.functionExpr value)) c₃ := .part h₃ rfl
    refine finish (hlayout.seq (h₂.seq hvalue)) ?_ (by decide) fun span c' hr =>
      h _ _ (.part ?_ rfl)
    · simp [Layout.isSolid, Category.isSolid]
    · cases kind <;> exact hr
  · -- Without modifiers the property is plain, and nothing was read in front of its key.
    obtain ⟨staticLead, asyncLead, accessorLead, starLead⟩ := mods
    obtain ⟨⟨⟨rfl, rfl⟩, rfl⟩, -⟩ : ((asyncLead = none ∧ accessorLead = none) ∧
      starLead = none) ∧ _ :=
      by simpa using hmods
    obtain rfl : staticLead = none := hstatic
    obtain rfl : kind = .plain := hplain rfl
    have hkey : c.Builds name c₂ := (Passes.seq h₁ h₂).assoc.drop.assoc.drop.drop
    refine ⟨fun ht => lead (raw_of_isPunctuator ht) fun colonLead c₃ h₃ => ?_, fun _ => ?_⟩
    · refine hp.ofCover fun value c₄ h₄ => ?_
      have hnone : c.Passes (.loose (Modifiers.print {} "")) c := .blank
      exact finish (hnone.seq (hkey.seq (h₃.seq h₄))) rfl (by decide) fun span c' hr =>
        h _ _ (.part hr rfl)
    · refine shorthandName fun id hname => checkReference ?_
      subst hname
      have hid : c.Passes (.ident id) c₂ := hkey.imp fun us hl => by
        cases hl with
        | part inner => exact inner
      refine shorthandValue hp hid fun value c₃ h₃ => ?_
      exact finish h₃ rfl (by decide) fun span c' hr => h _ _ (.part hr rfl)

theorem objectMember (hp : p.Proceeds source) {post : Tree .member → Outlook source → Prop}
    (h : ∀ v c', c.Builds v c' → post v (.on c')) :
    (Grammar.objectMember p ctx).Proceeds c post := by
  simp only [Grammar.objectMember, proceeds_bind, proceeds_look, meets_on, proceeds_ite]
  refine ⟨fun ht => lead (raw_of_isPunctuator ht) fun dotsLead c₁ h₁ => ?_, fun _ => property hp h⟩
  refine hp.ofCover fun operand c₂ h₂ => finish (h₁.seq h₂) rfl (by decide) fun span c' hr => ?_
  exact h _ _ (.part hr rfl)

theorem objectLiteral (hp : p.Proceeds source) {post : Expr → Outlook source → Prop}
    (h : ∀ v c', c.Builds v c' → post v (.on c')) :
    (Grammar.objectLiteral p ctx).Proceeds c post := by
  have hround : ∀ c : Course source, (Round.item <$> Grammar.objectMember p ctx.inside).Yields c
      (RoundPasses (fun v c c' => c.Builds v c') c) :=
    fun c => Yields.of_rule fun post h => objectMember hp fun v c' hv => h (.item v) _ hv
  refine expect fun openLead c₁ h₁ => listed hround fun vs commas c₂ h₂ => ?_
  refine expect fun closeLead c₃ h₃ => finish (h₁.seq (h₂.builds.seq h₃)) rfl (by decide) ?_
  exact fun span c' hr => h _ _ (.part hr rfl)

theorem argumentList (hp : p.Proceeds source) {post : Tree .arguments → Outlook source → Prop}
    (h : ∀ v c', c.Builds v c' → post v (.on c')) :
    (Grammar.argumentList p ctx).Proceeds c post := by
  have hround : ∀ c : Course source,
      (Round.item <$> Grammar.spreadOr (p.assignment ctx.inside)).Yields c
        (RoundPasses (fun v c c' => c.Builds v c') c) :=
    fun c => Yields.of_rule fun post h => spreadOr (hp.assignment ctx.inside) fun v c' hv =>
      h (.item v) _ hv
  refine expect fun openLead c₁ h₁ => listed hround fun vs commas c₂ h₂ => ?_
  exact expect fun closeLead c₃ h₃ => h _ _ (.part (h₁.seq (h₂.builds.seq h₃)) rfl)

/-! ## Groups -/

theorem readGroup (hp : p.Proceeds source) {post : Group → Outlook source → Prop}
    (h : ∀ g c₁ c₂ c', g.ReadFrom c c₁ c₂ c' → post g (.on c')) :
    (Grammar.readGroup p ctx).Proceeds c post := by
  have hround : ∀ c : Course source, (Round.item <$> Grammar.groupItem p ctx.inside).Yields c
      (RoundPasses (·.ReadFrom · ·) c) :=
    fun c => Yields.of_rule fun post h => spreadOr (hp.cover ctx.inside) fun v c' hv =>
      h (.item _) c' ⟨rfl, rfl, hv⟩
  refine expect fun openLead c₁ h₁ => listed hround fun items separators c₂ h₂ => ?_
  exact expectTaken fun u hu hraw => h _ c₁ c₂ _ ⟨h₁, h₂, .token hraw, rfl⟩

@[simp]
theorem rejectPending {post : Unit → Outlook source → Prop} (h : post () (.on c)) :
    Grammar.rejectPending.Proceeds c post := by
  intro o
  cases o with
  | none => exact h
  | some site => trivial

/-- A sequence is finished behind the group that it stands in. -/
theorem groupValue {g : Group} {post : Expr → Outlook source → Prop} (hg : g.ReadFrom c₀ c₁ c₂ c)
    (hlen : g.separators.length < g.items.length)
    (h : ∀ v c', c₀.Passes (.all [.token (g.openLead ++ "("), .part .standalone v,
      .token (g.closeLead ++ ")")]) c' → post v (.on c')) :
    (Grammar.groupValue g).Proceeds c post := by
  unfold Grammar.groupValue
  split
  · rename_i value hvalues
    obtain ⟨item, hitems, rfl⟩ : ∃ item, g.items = [item] ∧ item.value = value := by
      unfold Group.values at hvalues
      obtain ⟨item, rest, hitems, rfl, hrest⟩ := List.map_eq_cons_iff.1 hvalues
      exact ⟨item, by rw [hitems, List.map_eq_nil_iff.1 hrest], rfl⟩
    have hrows := hg.items
    rw [hitems] at hrows hlen
    generalize g.separators = separators at hrows hlen
    cases hrows with
    | last hitem => exact h _ _ (hg.opening.seq (hitem.builds.seq hg.closing))
    | cons => simp at hlen
  · rename_i start stop hbounds _
    obtain ⟨⟨first, last, hfirst, hlast, hstart, hstop⟩, hlt⟩ := hg.items.bounds hlen
    obtain ⟨rfl, rfl⟩ : start = c₁.ahead.start ∧ stop = c₂.lastEnd := by
      simp only [Group.bounds?, hfirst, hlast, Option.some.injEq, Prod.mk.injEq] at hbounds
      exact ⟨hbounds.1 ▸ hstart, hbounds.2 ▸ hstop⟩
    obtain ⟨us₀, hmoves₀, hlaid₀⟩ := hg.opening
    obtain ⟨us₁, hmoves₁, hlaid₁⟩ := hg.values
    obtain ⟨us₂, hmoves₂, hlaid₂⟩ := hg.closing
    have hne : us₁ ≠ [] := by
      rintro rfl
      rw [hmoves₁.taken, List.append_nil] at hlt
      exact Nat.lt_irrefl _ hlt
    have hf := hmoves₁.mayFinish hne hg.nodes (Nat.le_trans hmoves₂.lastEnd_mono c.lastEnd_le)
    have hmoves := hmoves₀.trans (hmoves₁.trans hmoves₂)
    have hk : NodeKind.sequence ≠ .program := by decide
    refine ⟨by simp, fun _ => ⟨hf, h _ _ ⟨_, hmoves.finish (by simp [hne]) hk hf ?_,
      .seq hlaid₀ (.seq (.part (.node hlaid₁ (hmoves₁.covers hne)) rfl) hlaid₂)⟩⟩⟩
    exact ⟨_, _, rfl, c₁.ahead_lies.start, hmoves₁.lastEnd_isOf hne, hmoves₀.ahead_le,
      hmoves₁.start_le hne, hmoves₂.lastEnd_mono⟩
  · trivial

theorem parenthesized {g : Group} {post : Expr → Outlook source → Prop}
    (hg : g.ReadFrom c₀ c₁ c₂ c) (h : ∀ v c', c₀.Builds v c' → post v (.on c')) :
    (Grammar.parenthesized ctx c₀.ahead.start g).Proceeds c post := by
  simp only [Grammar.parenthesized, proceeds_ite, proceeds_bind, proceeds_unexpectedHere,
    implies_true, true_and]
  intro hlen
  cases hs : g.spreadSite? with
  | some site => trivial
  | none =>
    refine rejectPending (groupValue hg (Nat.lt_of_not_le hlen) fun inner c' hr => ?_)
    exact finish hr rfl (by decide) fun span c' hr => h _ _ (.part hr rfl)

theorem group (hp : p.Proceeds source) {post : Expr → Outlook source → Prop}
    (h : ∀ v c', c.Builds v c' → post v (.on c')) : (Grammar.group p ctx).Proceeds c post := by
  refine readGroup hp fun g c₁ c₂ c₃ hg => ?_
  simp only [meets_on, proceeds_bind, proceeds_sees, proceeds_ite]
  refine ⟨fun _ => ?_, fun _ => parenthesized hg h⟩
  have hmark : c.Passes (.mark none "async") c := .blank
  refine extent (hmark.seq (hg.opening.seq (hg.values.seq hg.closing))) rfl fun span hr => ?_
  exact h _ _ (.part hr rfl)

/-! ## Operands -/

theorem nameOperand (hp : p.Proceeds source) {post : Expr → Outlook source → Prop}
    (h : ∀ v c', c.Builds v c' → post v (.on c')) :
    (Grammar.nameOperand p ctx).Proceeds c post := by
  have hname : next.Proceeds c fun t o => (Grammar.checkReference ctx t).Meets (courses source) o
      fun _ o => (Parse.finishName t).Meets (courses source) o fun id o =>
        post (.identifier id) o :=
    fun u hu => checkReference (finishName fun id c' hid => h _ _ (.part hid rfl))
  simp only [Grammar.nameOperand, proceeds_bind, proceeds_seesWord, meets_on, proceeds_ite,
    proceeds_peek, proceeds_pure]
  exact ⟨fun _ _ => ⟨fun _ => functionExpression hp h, fun _ => hname⟩,
    fun _ => ⟨fun hf => absurd hf Bool.false_ne_true, fun _ => hname⟩⟩

section

variable {post : Expr → Outlook source → Prop}

/-- An operand that starts with a punctuator is laid out as it was read. -/
theorem punctuatedOperand (hp : p.Proceeds source) (ht : c.ahead.kind = .punctuator)
    (h : ∀ v c', c.Builds v c' → post v (.on c')) :
    (Grammar.punctuatedOperand p ctx c.ahead).Proceeds c post := by
  -- What is scanned again as a regular expression is read in place of the slash.
  have hregex : c.ahead.isOneOf ["/", "/="] = true → (do
      rescanRegex
      return .literal (← Grammar.literal ctx) : Parse Expr).Proceeds c post := by
    refine fun hslash => ⟨hslash, fun u hu => literal fun lit c' hlit => h _ _ (.part ?_ rfl)⟩
    exact hlit.of_replace ht
  unfold Grammar.punctuatedOperand
  split
  · exact group hp h
  · exact arrayLiteral hp h
  · exact objectLiteral hp h
  · rename_i hraw
    exact hregex (by simp [Token.isOneOf, ht, hraw])
  · rename_i hraw
    exact hregex (by simp [Token.isOneOf, ht, hraw])
  · rename_i hraw
    refine proceeds_ite.mpr ⟨fun _ => markupRoot hp ?_ h, fun _ => trivial⟩
    simp [Token.isPunctuator, ht, hraw]
  · trivial

theorem keywordOperand (hp : p.Proceeds source) (h : ∀ v c', c.Builds v c' → post v (.on c')) :
    (Grammar.keywordOperand p ctx c.ahead).Proceeds c post := by
  unfold Grammar.keywordOperand
  split
  · rename_i hraw
    exact lead hraw fun lead c₁ h₁ => finish h₁ rfl (by decide) fun span c' hr =>
      h _ _ (.part hr rfl)
  · exact functionExpression hp h
  · exact classDefinition hp fun v c' hv => h _ _ (.part hv rfl)
  · trivial

/-- An operand is laid out as it was read. -/
theorem operand (hp : p.Proceeds source) (h : ∀ v c', c.Builds v c' → post v (.on c')) :
    (Grammar.operand p ctx).Proceeds c post := by
  have hliteral : (Grammar.literal ctx).Proceeds c fun lit o => post (.literal lit) o :=
    literal fun lit c' hlit => h _ _ (.part hlit rfl)
  simp only [Grammar.operand, proceeds_bind, proceeds_look, meets_on]
  split
  · exact nameOperand hp h
  all_goals try exact hliteral
  · exact proceeds_ite.mpr ⟨fun _ => template hp fun v c' hv => h _ _ (.part hv rfl),
      fun _ => trivial⟩
  · exact punctuatedOperand hp ‹_› h
  · exact keywordOperand hp h
  · trivial

end

end Parse.Proceeds

end Verbatim
