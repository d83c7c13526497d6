import Verbatim.Proofs.Grammar.Operation

/-!
# Assignments and arrow functions are tracked

An expression that was read turns out to be a parameter list or a target by what follows it. The
conversion keeps its text, so the tokens that it was read from spell the result as well.

## Main results

* `Verbatim.Tracks.groupParameters`, `Verbatim.Tracks.arrow` — arrow functions.
* `Verbatim.Tracks.cover`, `Verbatim.Tracks.assignment`, `Verbatim.Tracks.expression`.
-/

namespace Verbatim

open Verbatim.Grammar

/-! ## Groups and spread items among expressions -/

/-- Whether an expression is an item of a group that has a case of its own among parameters. -/
def Tree.isSpecialItem : Expr → Bool
  | .spread .. | .yield .. | .await .. => true
  | _ => false

theorem AssignOp.text_of_ofText? {text : String} {op : AssignOp} (h : ofText? text = some op) :
    op.text = text := by
  simpa using List.find?_some h

theorem spells_assignOp {t : Token} {op : AssignOp} (h : assignOp? t = some op) :
    t.Spells (.word t.lead op.text) := by
  have hbrace : op.text ≠ "\x7b" ∧ op.text ≠ "\x7d" := by cases op <;> decide
  unfold assignOp? at h
  split at h
  · exact .operator (.inl ‹_›) (AssignOp.text_of_ofText? h).symm hbrace.1 hbrace.2
  · cases h

variable [Exchange]

namespace Alike

variable {e' : Expr}

theorem assignOp? {t t' : Token} (h : Alike t t') : Grammar.assignOp? t' = Grammar.assignOp? t := by
  unfold Grammar.assignOp?
  rw [h.kind]
  split
  · rw [h.raw (by simp [*])]
  · rfl

theorem isSpecialItem {e : Expr} (h : Alike e e') : e'.isSpecialItem = e.isSpecialItem :=
  h.congr _ fun _ _ e => by cases e <;> rfl

/-- What is alike to a spread item is one. -/
theorem spread {dotsLead : String} {operand : Expr} {span : Span}
    (h : Alike (.spread dotsLead operand span) e') :
    ∃ operand' span', e' = .spread dotsLead operand' span' ∧ Alike operand operand' := by
  have ht := h.tree
  cases e' with
  | spread dotsLead' operand' span' =>
    obtain ⟨rfl, ho, -⟩ := Tree.spread.inj ht
    exact ⟨operand', span', rfl, ho⟩
  | _ => cases ht

/-- What is alike to a group is one. -/
theorem cover {asyncLead : Option String} {openLead closeLead : String} {items : Tree (.many .expr)}
    {separators : List String} {span : Span}
    (h : Alike (.cover asyncLead openLead items separators closeLead span) e') :
    ∃ items' span', e' = .cover asyncLead openLead items' separators closeLead span' ∧
      Alike items.toList items'.toList := by
  have ht := h.tree
  cases e' with
  | cover asyncLead' openLead' items' separators' closeLead' span' =>
    simp only [Tree.retouch_cover, Exchange.there_lead, Retouch.blank_lead, Option.map_id,
      List.map_id,
      id] at ht
    obtain ⟨rfl, rfl, hi, rfl, rfl, -⟩ := Tree.cover.inj ht
    have hlist := congrArg Tree.toList hi
    rw [Tree.toList_retouch, Tree.toList_retouch] at hlist
    exact ⟨_, _, rfl, hlist⟩
  | _ => cases ht

theorem arrowPatterns {params params' : Tree .arrowParams} (h : Alike params params') :
    Alike (Grammar.arrowPatterns params) (Grammar.arrowPatterns params') := by
  have ht := h.tree
  cases params with
  | bareParam id =>
    cases params' with
    | bareParam id' => exact alike_cons.2 ⟨congrArg Tree.namePattern (Tree.bareParam.inj ht), rfl⟩
    | listedParams => cases ht
  | listedParams ps =>
    cases params' with
    | bareParam => cases ht
    | listedParams ps' => exact Alike.parameters (Tree.listedParams.inj ht)

theorem arrowHasUseStrict {body body' : Tree .arrowBody} (h : Alike body body') :
    Grammar.arrowHasUseStrict body' = Grammar.arrowHasUseStrict body := by
  have ht := h.tree
  cases body with
  | blockBody b =>
    cases body' with
    | blockBody b' => exact Alike.hasUseStrict (Tree.blockBody.inj ht)
    | exprBody => cases ht
  | exprBody e =>
    cases body' with
    | blockBody => cases ht
    | exprBody => rfl

end Alike

namespace Tracks

variable {fuel k : Nat} {m : Mode} {t t' : Token} {ctx : Context} {p p' : Productions}
  {start start' : Position} {site site' : Site} {asyncLead : Option String}

/-! ## Arrow functions -/

/-- The body of an arrow function is a block or an expression. -/
theorem arrowBody (hp : Mirrors p p' k) :
    Follows k (Grammar.arrowBody p ctx) (Grammar.arrowBody p' ctx) fun v tr u =>
      Prints v.1 tr u := by
  intro t t' ht
  unfold Grammar.arrowBody
  refine sees ht (ite rfl (fun _ => ?_) fun _ => ?_)
  · refine bind (by omega) (functionBody hp ht) ?_
    rintro ⟨body, strict⟩ ⟨body', strict'⟩ tr u u' ⟨hb, hc⟩ ha hu
    obtain ⟨hbb, hst⟩ := alike_prod.1 ha
    refine pure ?_ (alike_prod.2 ⟨congrArg Tree.blockBody hbb, hst⟩)
    rw [Trace.append_empty]
    exact ⟨hb, hc⟩
  · refine bind (by omega) (hp.assignment _ ht) ?_
    rintro e e' tr u u' ⟨he, hc, -⟩ ha hu
    refine pure ?_ (alike_prod.2 ⟨congrArg Tree.exprBody ha, rfl⟩)
    rw [Trace.append_empty]
    exact ⟨he, hc⟩

/-- What the rest of an arrow function has taken behind the given text. -/
structure Extends (text : String) (e : Expr) (tr : Trace) (_ : Token) : Prop where
  /-- What has been taken is what the expression adds to the text. -/
  adds : Adds text e.print tr
  /-- Something has been taken. -/
  pos : 0 < tr.count
  /-- The expression may become a pattern. -/
  convertible : e.isConvertible = true

/-- An arrow function behind its parameters. -/
theorem arrow (hp : Mirrors p p' k) {params params' : Tree .arrowParams}
    (hps : Alike params params') (ht : Alike t t') :
    Tracks [] (k + 1) .normal .normal t t' (Grammar.arrow p ctx start asyncLead params site)
      (Grammar.arrow p' ctx start' asyncLead params' site')
      (Extends (printMark asyncLead "async" ++ params.print)) := by
  unfold Grammar.arrow
  refine expect (by simp) ht fun _ u u' hu => pending hu fun o o' ho => setPending hu alike_none ?_
  refine bind (by omega) (arrowBody hp hu) ?_
  rintro ⟨body, strict⟩ ⟨body', strict'⟩ tr v v' ⟨hb, hc⟩ ha hv
  obtain ⟨hbb, hst⟩ := alike_prod.1 ha
  obtain rfl := alike_bool.1 hst
  refine setPending hv ho ?_
  dsimp only
  refine guard (by simp) (by rw [hbb.arrowHasUseStrict, hps.arrowPatterns.allAreNames]) fun _ => ?_
  refine check (checkParameters hps.arrowPatterns hv) fun _ _ w' _ _ hw => ?_
  refine finish (by decide) hw fun span span' =>
    pure ⟨⟨?_, ?_⟩, Trace.append_pos Nat.one_pos, rfl⟩ ?_
  · have hb := hb.text_eq
    cases asyncLead <;> simp_all [Tree.print_eq, printMark, String.append_assoc]
  · simp [hb.nest_eq]
  · exact .of_tree (by simp [hps.tree, hbb.tree])

/-- An arrow function with one parameter without parentheses. -/
theorem bareArrow (hp : Mirrors p p' k) {id id' : Ident} {x x' : Token} (hid : Alike id id')
    (ht : Alike t t') :
    Tracks [] (k + 1) .normal .normal t t' (Grammar.bareArrow p ctx start asyncLead id x)
      (Grammar.bareArrow p' ctx start' asyncLead id' x')
      (Extends (printMark asyncLead "async" ++ id.print)) := by
  unfold Grammar.bareArrow
  refine guard (by simp) (by rw [hid.name]) fun _ => ?_
  have hprint : (Tree.bareParam id).print = id.print := by simp [Tree.print_eq]
  rw [← hprint]
  exact checked ht (by rw [hid.name]) (arrow hp (congrArg Tree.bareParam hid) ht)

omit [Exchange] in
theorem groupParameters_other {trailing : Bool} {item : Expr} {rest : List Expr}
    (h : item.isSpecialItem = false) :
    Grammar.groupParameters ctx site trailing (item :: rest) = do
      let head ← Parse.convertAs .parameters site (item.asTarget .binding ctx.strict false)
      let tail ← Grammar.groupParameters ctx site trailing rest
      return head :: tail := by
  cases item <;> first | rfl | cases h

/-- The operand of a spread item as target of the last parameter. -/
theorem restTarget {strict : Bool} {e e' : Expr} (ht : Alike t t') (he : Alike e e')
    (hc : e.isConvertible = true) :
    Tracks [] fuel m m t t'
      (Parse.convert site do
        let target ← e.asTarget .binding strict false
        Tree.checkRest target
        return target)
      (Parse.convert site' do
        let target ← e'.asTarget .binding strict false
        Tree.checkRest target
        return target)
      (Still (fun q => q.print = e.print) t) := by
  refine convertAs ht fun q faults hq => ?_
  obtain ⟨q₁, s₁, hq₁, h⟩ := Run.bind_eq_ok.1 hq
  obtain ⟨_, s₂, hcheck, h⟩ := Run.bind_eq_ok.1 h
  obtain ⟨rfl, rfl⟩ := Run.pure_eq_ok.1 h
  obtain ⟨q', hq', ha⟩ := he.asTarget hq₁
  refine ⟨Tree.print_asTarget hc hq₁, q', ?_, ha⟩
  have hsame : Tree.checkRest q' = Tree.checkRest q₁ := 
    ha.congr _ fun ρ _ => Tree.checkRest_retouch ρ
  exact Run.bind_eq_ok.2 ⟨q', s₁, hq', Run.bind_eq_ok.2 ⟨(), s₂, hsame ▸ hcheck, rfl⟩⟩

/-- The items of a group as parameters. -/
theorem groupParameters {trailing : Bool} {items items' : List Expr} (h : Alike items items')
    (hc : ∀ e ∈ items, e.isConvertible = true) (ht : Alike t t') :
    Tracks [] fuel m m t t' (Grammar.groupParameters ctx site trailing items)
      (Grammar.groupParameters ctx site' trailing items')
      (Still (fun ps => ps.map (·.print) = items.map (·.print)) t) := by
  induction items generalizing items' t t' with
  | nil =>
    cases items' with
    | nil => exact pure ⟨rfl, rfl, rfl⟩ (.refl _ rfl)
    | cons => exact absurd h not_alike_nil_cons
  | cons e rest ih =>
    cases items' with
    | nil => exact absurd h not_alike_cons_nil
    | cons e' rest' =>
    obtain ⟨he, hrest⟩ := alike_cons.1 h
    obtain ⟨hce, hcr⟩ := List.forall_mem_cons.1 hc
    cases hs : e.isSpecialItem with
    | false =>
      rw [groupParameters_other hs, groupParameters_other (he.isSpecialItem.trans hs)]
      refine check (convertTarget ht he hce) fun q q' u' hq hqq hu => ?_
      refine check (ih hrest hcr hu) fun qs qs' w' hqs hqqs hw => ?_
      refine pure ⟨?_, rfl, rfl⟩ (alike_cons.2 ⟨hqq, hqqs⟩)
      simp [hq, hqs]
    | true =>
      cases e with
      | yield | await => exact stuck (Parse.fails_reject _ _)
      | spread dotsLead operand span =>
        obtain ⟨operand', span', rfl, ho⟩ := he.spread
        unfold Grammar.groupParameters
        have hempty : rest'.isEmpty = rest.isEmpty := by
          have hlen := hrest.length
          cases rest <;> cases rest' <;> simp_all
        refine guard (by simp) (by rw [hempty]) fun hlast => ?_
        refine check (restTarget ht ho hce) fun q q' u' hq hqq hu => ?_
        have hnil : rest = [] := by simp_all
        refine pure ⟨?_, rfl, rfl⟩ (alike_cons.2 ⟨.of_tree (by simp [hqq.tree]), rfl⟩)
        rw [Tree.print_eq] at hq
        simp [hnil, Tree.print_eq, hq]
      | _ => cases hs

/-- An arrow function behind its parameters in parentheses. -/
theorem groupArrow (hp : Mirrors p p' k) {openLead closeLead : String} {items items' : List Expr}
    {separators : List String} (h : Alike items items')
    (hc : ∀ e ∈ items, e.isConvertible = true) (ht : Alike t t') :
    Tracks [] (k + 1) .normal .normal t t'
      (Grammar.groupArrow p ctx start asyncLead openLead items separators closeLead)
      (Grammar.groupArrow p' ctx start' asyncLead openLead items' separators closeLead)
      (Extends (printMark asyncLead "async" ++ (openLead ++ ("(" ++
        (joinList (items.map (·.print)) separators ++ (closeLead ++ ")")))))) := by
  unfold Grammar.groupArrow
  dsimp only
  rw [h.length]
  refine check (groupParameters h hc ht) fun ps ps' u' hps hpps hu => ?_
  have hnames : ∀ qs : List Pattern, (qs.flatMap (·.boundNames)).any (·.name == "await") =
      ((qs.flatMap (·.boundNames)).map (·.name)).any (· == "await") := by
    simp [List.any_map, Function.comp_def]
  refine guard (by simp) (by rw [hnames, hnames, hpps.allNames]) fun _ => ?_
  have hparams : Alike (Tree.paramList openLead (.ofList ps) separators closeLead)
      (Tree.paramList openLead (.ofList ps') separators closeLead) :=
    .of_tree (by simp [hpps.trees])
  refine imp (arrow hp (congrArg Tree.listedParams hparams) hu) ?_
  rintro e tr v he
  rw [← hps]
  simpa [Tree.print_eq] using he

/-- An asynchronous arrow function with one parameter without parentheses, with a check that the
parameter is a name. Where the name was seen behind the lookahead, the check is not needed. -/
def checkedBareArrow (p : Productions) (ctx : Context) : Parse Expr := do
  let start ← Parse.here
  let asyncLead ← Parse.lead
  let seen ← Parse.look
  if !seen.isName then Parse.stalled else
  let t ← Parse.next
  let id ← Parse.finishName t
  let after ← Parse.look
  if !after.isPunctuator "=>" || after.newlineBefore then Parse.unexpected ctx after
  Grammar.bareArrow p ctx start (some asyncLead) id t

omit [Exchange] in
/-- What it means that such a function begins at the lookahead. -/
theorem of_seesAsyncBareArrow {q r : Parser} (h : Grammar.seesAsyncBareArrow.run q = .ok true r) :
    ∃ u sc, Scan.next r.scanner = .ok u sc ∧ u.isName = true := by
  have hrun : (if q.lookahead.isWord "async" = true then do
        let u ← Parse.peek
        return u.isName && !u.newlineBefore
      else return false : Parse Bool).run q = .ok true r := h
  split at hrun
  · rw [Parse.run_bind] at hrun
    split at hrun
    · rename_i u r₁ hpeek
      obtain ⟨sc, hsc, rfl⟩ := peek_eq_ok hpeek
      obtain ⟨hvalue, hr⟩ := EStateM.Result.ok.inj hrun
      have hquiet := Scan.next_quiet_ok hsc
      rw [← quiet_goBack hsc] at hquiet
      obtain ⟨sc', hsc', -⟩ := Scan.next_of_quiet hquiet
      subst hr
      exact ⟨u, sc', hsc', by simp_all⟩
    · cases hrun
  · cases hrun

omit [Exchange] in
/-- If a name follows `async`, the arrow function is one with a bare parameter. -/
theorem asyncBareArrow_sameAt {q : Parser} {u : Token} {sc : Scanner}
    (h : Scan.next q.scanner = .ok u sc) (hu : u.isName = true) :
    (Grammar.asyncBareArrow p ctx).SameAt q (checkedBareArrow p ctx) := by
  unfold Grammar.asyncBareArrow checkedBareArrow
  refine .behind fun start r hr => .behind fun asyncLead r' hr' => ?_
  obtain rfl : q = r := (EStateM.Result.ok.inj hr).2
  have hlook : r'.lookahead = u := by
    have hrun := ((grabs_next q).map Token.lead).run
    rw [show inMode q q.scanner.mode = q from rfl, next_of_scan h] at hrun
    obtain ⟨-, rfl⟩ := EStateM.Result.ok.inj (hr'.symm.trans hrun)
    rfl
  refine (show ∀ rest : Parse Expr, rest.SameAt r' (do
    let seen ← Parse.look
    if !seen.isName then Parse.stalled else rest) from fun rest => ?_) _
  have hif : (if (!r'.lookahead.isName) = true then Parse.stalled else rest) = rest := by
    rw [hlook, hu]
    rfl
  constructor
  · change rest.run r' = Parse.run
      (if (!r'.lookahead.isName) = true then Parse.stalled else rest) r'
    rw [hif]
  · change rest.takes r' = Parse.takes
      (if (!r'.lookahead.isName) = true then Parse.stalled else rest) r'
    rw [hif]

/-- An arrow function with a bare parameter that starts with `async` is read alike. -/
theorem checkedBareArrow_tracks (hp : Mirrors p p' k) (ht : Alike t t')
    (hs : t.isWord "async" = true) :
    Tracks [] (k + 1) .normal .normal t t' (checkedBareArrow p ctx) (checkedBareArrow p' ctx)
      Tells := by
  unfold checkedBareArrow
  refine here ht (lead notTag ht (.word hs) fun u u' hu => look hu (ite (by rw [hu.isName]) ?_ ?_))
  · exact fun _ => stuck (by simp)
  intro hn
  have hk : u.kind = .identifier := by simp_all [Token.isName]
  refine next notTag hu (.plain (by simp [hk])) fun v v' hv => ?_
  refine seq (finishName hv hu (by simp [hk])) ?_
  rintro id id' tr w w' ⟨hl, hr, -, rfl, rfl⟩ hid hw
  refine look hw (guard (by simp) (by rw [hw.isPunctuator, hw.newlineBefore]) fun _ => ?_)
  refine weaken (bareArrow hp hid hw) ?_ (by omega)
  rintro e tr' x ⟨he, hc, hcv⟩
  refine ⟨⟨?_, ?_⟩, Trace.append_pos Nat.one_pos, hcv⟩
  · simp [he.text_eq, printMark, Ident.print, hl, hr, String.append_assoc]
  · simp [he.nest_eq]

/-! ## Yield -/

/-- Whether the operand of `yield` may begin at a token hangs on whether a template does. -/
theorem startsYieldOperand_eq (ht : Alike t t')
    (hh : t'.isTemplateHead = t.isTemplateHead) :
    Grammar.startsYieldOperand t' = Grammar.startsYieldOperand t := by
  unfold Grammar.startsYieldOperand
  rw [ht.isEof, ht.kind, hh, ht.isOneOf, ht.isKeyword, ht.isWord]

omit [Exchange] in
theorem not_templateHead (h : Grammar.startsYieldOperand t = false) : t.isTemplateHead = false := by
  cases hh : t.isTemplateHead with
  | false => rfl
  | true =>
    have hk := Token.kind_of_isTemplateHead hh
    simp [Grammar.startsYieldOperand, hh, hk, Token.isEof, Token.isOneOf, Token.isKeyword,
      Token.isWord] at h

/-- A value handed to the consumer of a generator. -/
theorem yieldExpression (hp : Mirrors p p' k) (ht : Alike t t') (hs : t.isWord "yield" = true) :
    Tracks [] (k + 1) .normal .normal t t' (Grammar.yieldExpression p ctx)
      (Grammar.yieldExpression p' ctx) Tells := by
  unfold Grammar.yieldExpression
  refine ite rfl (fun _ => look ht (stuck (by simp))) fun _ => ?_
  refine next notTag ht (.word hs) fun u u' hu => look hu ?_
  extract_lets rest rest'
  have hrest : ∀ {starLead : Option String} {o o' : Tree (.maybe .expr)} {fuel : Nat}
      {w w' : Token} {tr : Trace}, Spells (printMark starLead "*" ++ o.print) tr → Alike o o' →
      Alike w w' → Tracks [] fuel .normal .normal w w' (rest (starLead, o)) (rest' (starLead, o'))
        fun e tr' x => tr' = .empty ∧ Tells e (.word t.lead "yield" ++ tr) x := by
    intro starLead o o' fuel w w' tr ho hoo hw
    refine finish (by decide) hw fun span span' => pure
      ⟨rfl, ⟨?_, ?_⟩, Trace.append_pos Nat.one_pos, rfl⟩ ?_
    · simp [Tree.print_eq, ho.text_eq, String.append_assoc]
    · simp [ho.nest_eq]
    · exact .of_tree (by simp [ht.lead, hoo.tree])
  have habsent : Tracks [] k .normal .normal u u' (rest (none, .absent)) (rest' (none, .absent))
      fun e tr => Tells e (.word t.lead "yield" ++ tr) := by
    have hnone : Spells (printMark none "*" ++ (Tree.absent : Tree (.maybe .expr)).print) .empty :=
      ⟨by simp [Tree.print_eq, printMark], fun _ => rfl⟩
    refine imp (hrest hnone (.refl _ rfl) hu) ?_
    rintro e tr x ⟨rfl, he⟩
    exact he
  refine ite hu.newlineBefore (fun _ => habsent) fun _ => ite (hu.isPunctuator _) (fun hs => ?_)
    fun _ => ?_
  · refine lead notTag hu (.punctuator hs) fun v v' hv => bind (by omega) (hp.assignment _ hv) ?_
    rintro e e' tr w w' ⟨he, -, -⟩ ha hw
    have hstar : Spells (printMark (some u.lead) "*" ++ (Tree.present e).print)
        (.mark u.lead "*" ++ tr) := by
      refine ⟨?_, ?_⟩
      · simp [Tree.print_eq, printMark, he.text_eq]
      · simp [he.nest_eq]
    refine pureThen (imp (hrest hstar (congrArg Tree.present ha) hw) ?_)
    rintro v tr' x ⟨rfl, hv⟩
    rwa [Trace.append_empty]
  -- Where a template begins, the operand is read to its end.
  refine iteHead (startsYieldOperand_eq hu) (fun _ => ?_) (fun _ _ _ h => h) fun hno =>
    ⟨not_templateHead hno, habsent⟩
  refine bind (by omega) (hp.assignment _ hu) ?_
  rintro e e' tr w w' ⟨he, hc, -⟩ ha hw
  have hoperand : Spells (printMark none "*" ++ (Tree.present e).print) tr := by
    refine ⟨?_, he.nest_eq⟩
    simp [Tree.print_eq, printMark, he.text_eq]
  refine pureThen (imp (hrest hoperand (congrArg Tree.present ha) hw) ?_)
  rintro v tr' x ⟨rfl, hv⟩
  rw [Trace.append_empty]
  exact ⟨⟨hc, by simp [he.nest_eq]⟩, hv⟩

/-! ## Assignments -/

/-- An assignment behind its left side. -/
theorem assignTo (hp : Mirrors p p' k) {x x' : Token} {left left' : Expr} {op : AssignOp}
    {o o' : Option Site} (hl : Alike left left') (hc : left.isConvertible = true)
    (ho : Alike o o') (ht : Alike t t') (hop : Grammar.assignOp? t = some op) :
    Tracks [] (k + 1) .normal .normal t t' (Grammar.assignTo p ctx x left op o)
      (Grammar.assignTo p' ctx x' left' op o') (Extends left.print) := by
  unfold Grammar.assignTo
  extract_lets rest rest'
  have hrest : ∀ {q q' : Pattern} {u' : Token}, q.print = left.print → Alike q q' → Alike t u' →
      Tracks [] (k + 1) .normal .normal t u' (rest q) (rest' q') (Extends left.print) := by
    intro q q' u' hq hqq hu
    refine setPending hu ho (lead notTag hu (spells_assignOp hop) fun v v' hv => ?_)
    refine bind (by omega) (hp.assignment _ hv) ?_
    rintro e e' tr w w' ⟨he, -, -⟩ ha hw
    refine finish (by decide) hw fun span span' => pure
      ⟨⟨?_, ?_⟩, Trace.append_pos Nat.one_pos, rfl⟩ ?_
    · rw [← hq]
      simp [Tree.print_eq, he.text_eq, String.append_assoc]
    · simp [he.nest_eq]
    · exact .of_tree (by simp [hqq.tree, ha.tree])
  refine iteProp Iff.rfl (fun _ => ?_) fun _ => ?_
  · exact check (assignmentTarget ht hl hc) fun q q' u' hq hqq hu => hrest hq hqq hu
  · exact check (simpleTarget ht hl) fun q q' u' hq hqq hu => hrest hq hqq hu

/-- An expression that is neither an assignment nor an arrow function is closed. -/
theorem settle {value value' : Expr} {o o' : Option Site} (hv : Alike value value')
    (ho : Alike o o') (ht : Alike t t') :
    Tracks [] fuel m m t t' (Grammar.settle value o) (Grammar.settle value' o')
      (Still (· = value) t) := by
  unfold Grammar.settle
  refine pending ht fun now now' hnow => ?_
  have hlast : Tracks [] fuel m m t t'
      (Parse.setPending (o.or now) >>= fun _ => Pure.pure value)
      (Parse.setPending (o'.or now') >>= fun _ => Pure.pure value') (Still (· = value) t) :=
    setPending ht (ho.or hnow) (pure ⟨rfl, rfl, rfl⟩ hv)
  cases now with
  | none =>
    cases now' with
    | none => exact hlast
    | some => exact absurd hnow not_alike_none_some
  | some site =>
    cases now' with
    | none => exact absurd hnow not_alike_some_none
    | some site' => exact guard (by simp) (by rw [hv.isLiteralPattern]) fun _ => hlast

/-- What an arrow function has taken behind the given text, if there is one. -/
def ExtendsOption (text : String) (w : Option Expr) (tr : Trace) (u : Token) : Prop :=
  (∀ x ∈ w, Extends text x tr u) ∧ (w = none → tr = .empty)

omit [Exchange] in
theorem arrowAfter_other {x : Token} {value : Expr} {o : Option Site} (hi : value.ident? = none)
    (hc : value.isCover = false) :
    Grammar.arrowAfter? p ctx x value o = do
      let t ← Parse.look
      if !t.isPunctuator "=>" then return none
      return none := by
  cases value <;> first | rfl | contradiction

/-- An arrow function, if an arrow follows what can be parameters. -/
theorem arrowAfter (hp : Mirrors p p' k) {x x' : Token} {value value' : Expr}
    {o o' : Option Site} (hv : Alike value value') (hc : value.isConvertible = true)
    (ho : Alike o o') (ht : Alike t t') :
    Tracks [] (k + 1) .normal .normal t t' (Grammar.arrowAfter? p ctx x value o)
      (Grammar.arrowAfter? p' ctx x' value' o') (ExtendsOption value.print) := by
  have hnone : Tracks [] (k + 1) .normal .normal t t' (Pure.pure none) (Pure.pure none)
      (ExtendsOption value.print) := pure ⟨by simp, fun _ => rfl⟩ alike_none
  have hsome : ∀ {e : Expr} {tr : Trace} {u : Token}, Extends value.print e tr u →
      ExtendsOption value.print (some e) tr u := by
    intro e tr u h
    exact ⟨fun y hy => by cases hy; exact h, by simp⟩
  cases hi : value.ident? with
  | some id =>
    obtain rfl := Tree.eq_identifier hi
    obtain ⟨id', rfl, hid⟩ := hv.identifier
    unfold Grammar.arrowAfter?
    refine look ht (ite (by rw [ht.isPunctuator]) (fun _ => hnone) fun _ => ?_)
    refine guard (by simp) ht.newlineBefore fun _ => setPending ht ho ?_
    refine map (by omega) (bareArrow hp hid ht) (fun e tr u h => hsome ?_) fun _ _ h =>
      alike_some.2 h
    simpa [Tree.print_eq, printMark] using h
  | none =>
    cases hcover : value.isCover with
    | false =>
      rw [arrowAfter_other hi hcover, arrowAfter_other (hv.ident?_none hi)
        (hv.isCover.trans hcover)]
      exact look ht (ite (by rw [ht.isPunctuator]) (fun _ => hnone) fun _ => hnone)
    | true =>
      cases value with
      | cover asyncLead openLead items separators closeLead span =>
        obtain ⟨items', span', rfl, hitems⟩ := hv.cover
        rw [← Tree.ofList_toList items] at hc
        have hall := (Tree.isConvertible_ofList items.toList).1 hc
        unfold Grammar.arrowAfter?
        refine look ht (ite (by rw [ht.isPunctuator]) (fun _ => hnone) fun _ => ?_)
        refine guard (by simp) ht.newlineBefore fun _ => setPending ht ho ?_
        refine map (by omega) (groupArrow hp hitems hall ht) (fun e tr u h => hsome ?_) fun _ _ h =>
          alike_some.2 h
        rw [← Tree.texts_ofList _ .standalone, Tree.ofList_toList] at h
        simpa [Tree.print_eq] using h
      | _ => cases hcover

/-- An expression that begins with a conditional one. -/
theorem plainCover (hp : Mirrors p p' k) :
    Follows (k + 1) (Grammar.plainCover p ctx) (Grammar.plainCover p' ctx) Tells := by
  intro t t' ht
  unfold Grammar.plainCover
  refine look ht (pending ht fun o o' ho => setPending ht alike_none ?_)
  refine bind (by omega) (conditional hp ht) ?_
  rintro e e' tr u u' ⟨he, hc, hcv⟩ ha hu
  refine bind (by omega) (arrowAfter hp ha hcv ho hu) ?_
  rintro w w' tr' v v' ⟨hsome, hnone⟩ hw hv
  cases w with
  | some x =>
    cases w' with
    | none => exact absurd hw not_alike_some_none
    | some x' =>
      obtain ⟨hx, hxc, hxcv⟩ := hsome x rfl
      refine pure ?_ (alike_some.1 hw)
      rw [Trace.append_empty]
      exact ⟨hx.spells he, Trace.append_pos hc, hxcv⟩
  | none =>
    cases w' with
    | some => exact absurd hw not_alike_none_some
    | none =>
      obtain rfl := hnone rfl
      refine look hv ?_
      rw [hv.assignOp?]
      split
      · refine weaken (assignTo hp ha hcv ho hv ‹_›) ?_ (by omega)
        rintro x tr₁ y ⟨hx, hxc, hxcv⟩
        rw [Trace.empty_append]
        exact ⟨hx.spells he, Trace.append_pos hc, hxcv⟩
      · refine imp (settle ha ho hv) ?_
        rintro x tr₁ y ⟨rfl, rfl, rfl⟩
        rw [Trace.append_empty, Trace.append_empty]
        exact ⟨he, hc, hcv⟩

/-- An expression without commas that may turn out to be a pattern. -/
theorem cover (hp : Mirrors p p' k) :
    Follows (k + 1) (Grammar.cover p ctx) (Grammar.cover p' ctx) Tells := by
  intro t t' ht
  -- The name of a parameter was seen behind `async`, so it may as well be checked.
  have hsame : ∀ p : Productions, (Grammar.cover p ctx).Same (do
      let t ← Parse.look
      if ctx.allowsYield && t.isWord "yield" then Grammar.yieldExpression p ctx
      else if ← Grammar.seesAsyncBareArrow then checkedBareArrow p ctx
      else Grammar.plainCover p ctx) := by
    intro p q
    refine .behind fun x r _ => ?_
    split
    · exact ⟨rfl, rfl⟩
    refine .behind fun b r' hr' => ?_
    cases b with
    | false => exact ⟨rfl, rfl⟩
    | true =>
      obtain ⟨u, sc, hu, hn⟩ := of_seesAsyncBareArrow hr'
      exact asyncBareArrow_sameAt hu hn
  refine congr (hsame p) (hsame p') (look ht ?_)
  refine ite (by rw [ht.isWord]) (fun hs => ?_) fun _ => ?_
  · exact yieldExpression hp ht (by simp_all)
  unfold Grammar.seesAsyncBareArrow
  refine assoc (seesWord ht (iteThen rfl (fun hs => ?_) fun _ => pureThen (plainCover hp ht)))
  have hk : t.kind = .identifier := by simp_all [Token.isWord]
  refine assoc (peek ht (.inl hk) fun u u' hu => pureThen ?_)
  rw [hu.isName, hu.newlineBefore]
  exact ite rfl (fun _ => checkedBareArrow_tracks hp ht hs) fun _ => plainCover hp ht

/-- An expression without commas. -/
theorem assignment (hp : Mirrors p p' k) :
    Follows (k + 1) (Grammar.assignment p ctx) (Grammar.assignment p' ctx) Tells := by
  intro t t' ht
  unfold Grammar.assignment
  refine pending ht fun o o' ho => setPending ht alike_none (bind (by omega) (cover hp ht) ?_)
  rintro e e' tr u u' he ha hu
  refine check (rejectPending hu) fun _ _ w' _ _ hw => setPending hw ho (pure ?_ ha)
  rw [Trace.append_empty]
  exact he

/-- The expressions behind commas. -/
theorem sequenceFrom (hp : Mirrors p p' k) {first first' : Expr} (hf : Alike first first')
    (hc : first.isConvertible = true) (ht : Alike t t') :
    Tracks [] k .normal .normal t t' (Grammar.sequenceFrom p ctx start first)
      (Grammar.sequenceFrom p' ctx start' first') fun e tr _ =>
        Adds first.print e.print tr ∧ e.isConvertible = true := by
  have hr := hp.rounds
  unfold Grammar.sequenceFrom
  refine sees ht (ite rfl (fun _ => pure ⟨.refl _, hc⟩ hf) fun _ => ?_)
  refine seq
    (afterCommas (by omega) (by omega) (fun hu => imp (hp.assignment _ hu) fun e tr u h =>
      h.1) _ ht) ?_
  rintro ⟨es, seps⟩ ⟨es', seps'⟩ tr u u' htr ha hu
  obtain ⟨hes, hseps⟩ := alike_prod.1 ha
  obtain rfl := alike_list_string.1 hseps
  refine finish (by decide) hu fun span span' => pure ⟨?_, rfl⟩
    (.of_tree (by simp [hf.tree, hes.trees]))
  have htext : (Tree.sequence (.ofList (first :: es)) seps span).print =
      joinList (first.print :: es.map (·.print)) seps := by simp [Tree.print_eq]
  rw [Trace.append_empty, htext]
  exact htr _

/-- An expression, with commas. -/
theorem expression (hp : Mirrors p p' k) :
    Follows (k + 1) (Grammar.expression p ctx) (Grammar.expression p' ctx) Tells := by
  intro t t' ht
  unfold Grammar.expression
  refine here ht (bind (by omega) (assignment hp ht) ?_)
  rintro e e' tr u u' ⟨he, hc, hcv⟩ ha hu
  refine weaken (sequenceFrom hp ha hcv hu) ?_ (by omega)
  rintro v tr' w ⟨hv, hvcv⟩
  exact ⟨hv.spells he, Trace.append_pos hc, hvcv⟩

end Tracks

end Verbatim
