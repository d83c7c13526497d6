import Verbatim.Proofs.Legality

/-!
# Jumps

A jump leaves or repeats a construct that stands around it, or ends the function that it is in. No
jump reaches beyond the body of a function or a static block. What a jump may refer to is read off
the tree here; the parser keeps some marks and a list of names instead, which are shown to agree.

The list has the names of the labels in scope, but not what they stand in front of. So a jump back
to a label is only known to stand in some loop, which need not be the statement with the label.

## Main definitions

* `Verbatim.Enclosure` — what stands around a place, as far as jumps refer to it.
* `Verbatim.Tree.Encloses`, `Verbatim.Program.Surrounds` — a construct with what stands around it.
* `Verbatim.Context.Agrees` — the marks of the parser agree with what stands around a place.
* `Verbatim.Tree.WellScoped` — what the language demands of jumps and labels.

## Main results

* `Verbatim.Tree.Encloses.contains` — wherever statements stand, the marks agree.
* `Verbatim.parse_jumps` — in a parse without faults, jumps and labels are well scoped.
* `Verbatim.parse_continue_label` — in a parse without faults, a jump back to a label stands in a
  loop, and in the statement with that label.
* `Verbatim.parse_continue_block` — that statement may be any.
-/

namespace Verbatim

open Grammar

/-! ## What stands around a place -/

/-- What stands around a place, as far as jumps refer to it. -/
inductive Enclosure where
  /-- The body of a loop. -/
  | loop
  /-- The clauses of a switch. -/
  | switch
  /-- The statement behind a label. -/
  | label (name : String) (target : Stmt)
  /-- The body of a function, method or arrow function. -/
  | function
  /-- A static block. -/
  | staticBlock

namespace Enclosure

/-- Whether no jump reaches beyond. -/
def isBoundary : Enclosure → Bool
  | .function | .staticBlock => true
  | _ => false

/-- The name of a label. -/
def name? : Enclosure → Option String
  | .label name _ => some name
  | _ => none

variable (around : List Enclosure)

/-- What stands around a place in the same function or static block. -/
def within : List Enclosure := around.takeWhile (!·.isBoundary)

/-- The labels in scope. -/
def inScope : List String := (within around).filterMap (·.name?)

/-- The function or static block that a place is in. -/
def owner? : Option Enclosure := around.find? (·.isBoundary)

variable {around} {e : Enclosure}

theorem within_cons (h : e.isBoundary = false) : within (e :: around) = e :: within around := by
  simp [within, h]

theorem within_boundary (h : e.isBoundary = true) : within (e :: around) = [] := by
  simp [within, h]

/-- What is in scope stays in scope inside. -/
theorem mem_within_cons {f : Enclosure} (h : e.isBoundary = false) (hf : f ∈ within around) :
    f ∈ within (e :: around) := within_cons h ▸ List.mem_cons_of_mem e hf

theorem inScope_cons (h : e.isBoundary = false) :
    inScope (e :: around) = e.name?.toList ++ inScope around := by
  unfold inScope
  rw [within_cons h, List.filterMap_cons]
  cases e.name? <;> rfl

theorem inScope_boundary (h : e.isBoundary = true) : inScope (e :: around) = [] := by
  unfold inScope
  rw [within_boundary h]
  rfl

end Enclosure

open Enclosure (within inScope owner?)

namespace Tree

/-- What a construct puts around its part of the given kind. -/
def enclosure? {c : Category} (t : Tree c) (part : Category) : Option Enclosure :=
  match t with
  | .forStmt .. | .forInStmt .. | .forOfStmt .. | .whileStmt .. | .doWhileStmt .. =>
    if part = .stmt then some .loop else none
  | .switchStmt .. => if part = .many .switchCase then some .switch else none
  | .labeledStmt label _ body _ => some (.label label.name body)
  | .function .. => if part = .body then some .function else none
  | .arrow .. => if part = .arrowBody then some .function else none
  | .staticBlock .. => some .staticBlock
  | _ => none

/-- A construct that occurs in another one, with what stands around both, innermost first. -/
inductive Encloses : {c d : Category} → List Enclosure → Tree c → List Enclosure →
    Tree d → Prop where
  /-- A construct occurs in itself. -/
  | whole {c : Category} {around : List Enclosure} {t : Tree c} : Encloses around t around t
  /-- Around what occurs in a part stands what the whole puts around the part. -/
  | inPart {c d : Category} {around around' : List Enclosure} {t : Tree c} {x : Tree d}
      (part : Part)
    (mem : part ∈ t.innerParts {})
    (inside : Encloses ((t.enclosure? part.category).toList ++ around) part.tree around' x) :
    Encloses around t around' x

end Tree

/-- A construct that occurs in a program, with what stands around it. -/
def Program.Surrounds (program : Program) {c : Category} (around : List Enclosure) (x : Tree c) :
    Prop :=
  ∃ stmt ∈ program.body, Tree.Encloses [] stmt around x

/-! ## The marks of the parser -/

namespace Context

/-- The marks inside of what stands around a place. -/
def enter (ctx : Context) : Option Enclosure → Context
  | none => ctx
  | some .loop => ctx.loopBody
  | some .switch => ctx.switchBody
  | some (.label name _) => ctx.labelled name
  | some .function => ctx.callable false false
  | some .staticBlock => ctx.staticBlock

/-- The marks of the parser agree with what stands around a place. -/
structure Agrees (ctx : Context) (around : List Enclosure) : Prop where
  /-- Inside the marked loop. -/
  loop : ctx.inLoop = true → .loop ∈ within around
  /-- Inside the marked switch. -/
  switch : ctx.inSwitch = true → .switch ∈ within around
  /-- The labels are those in scope. -/
  labels : ctx.labels = inScope around
  /-- Inside the marked function. -/
  function : ctx.inFunction = true → owner? around = some .function

/-- Two contexts have the same marks. -/
structure SameMarks (ctx ctx' : Context) : Prop where
  inLoop : ctx.inLoop = ctx'.inLoop
  inSwitch : ctx.inSwitch = ctx'.inSwitch
  labels : ctx.labels = ctx'.labels
  inFunction : ctx.inFunction = ctx'.inFunction

namespace Agrees

variable {ctx ctx' : Context} {around : List Enclosure} {e : Enclosure}

theorem congr (h : ctx.Agrees around) (hs : ctx'.SameMarks ctx) : ctx'.Agrees around where
  loop hl := h.loop (hs.inLoop ▸ hl)
  switch hl := h.switch (hs.inSwitch ▸ hl)
  labels := hs.labels.trans h.labels
  function hf := h.function (hs.inFunction ▸ hf)

/-- Behind a boundary nothing from outside counts. -/
theorem boundary (ctx : Context) (around : List Enclosure) (h : e.isBoundary = true) :
    (ctx.enter (some e)).Agrees (e :: around) := by
  cases e
  case function => exact ⟨nofun, nofun, (Enclosure.inScope_boundary h).symm, fun _ => rfl⟩
  case staticBlock => exact ⟨nofun, nofun, (Enclosure.inScope_boundary h).symm, nofun⟩
  all_goals cases h

/-- Inside of a further construct the marks agree again. -/
theorem enter (h : ctx.Agrees around) (e? : Option Enclosure) :
    (ctx.enter e?).Agrees (e?.toList ++ around) := by
  match e? with
  | none => exact h
  | some .loop =>
    refine ⟨fun _ => List.mem_cons_self, fun hs => ?_, ?_, h.function⟩
    · exact Enclosure.mem_within_cons rfl (h.switch hs)
    · exact h.labels.trans (Enclosure.inScope_cons (e := .loop) rfl).symm
  | some .switch =>
    refine ⟨fun hl => ?_, fun _ => List.mem_cons_self, ?_, h.function⟩
    · exact Enclosure.mem_within_cons rfl (h.loop hl)
    · exact h.labels.trans (Enclosure.inScope_cons (e := .switch) rfl).symm
  | some (.label name target) =>
    refine ⟨fun hl => ?_, fun hs => ?_, ?_, h.function⟩
    · exact Enclosure.mem_within_cons rfl (h.loop hl)
    · exact Enclosure.mem_within_cons rfl (h.switch hs)
    · exact (congrArg (name :: ·) h.labels).trans
        (Enclosure.inScope_cons (e := .label name target) rfl).symm
  | some .function | some .staticBlock => exact boundary ctx around rfl

end Agrees

end Context

/-- Whether statements stand in a construct without the body of a function or a static block around
them. -/
def Category.holdsStatements : Category → Bool
  | .stmt | .block | .elseClause | .body | .arrowBody | .catchClause | .finallyClause
  | .switchCase => true
  | .many c | .maybe c => c.holdsStatements
  | _ => false

namespace Tree

section

variable {c : Category} (t : Tree c)

/-- What the parts of a construct are does not hang on what surrounds it. -/
theorem trees_innerParts (ctx ctx' : Context) :
    (t.innerParts ctx).map (Part.mk {} ·.tree) = (t.innerParts ctx').map (Part.mk {} ·.tree) := by
  cases t
  case property mods key value kind isMethod isShorthand colonLead span =>
    cases isShorthand with
    | false => rfl
    | true =>
      cases value
      case assignment target opLead op value span => cases op <;> cases target <;> rfl
      all_goals rfl
  all_goals rfl

/-- A part is a part whatever surrounds the construct. -/
theorem exists_part {ctx ctx' : Context} {part : Part} (h : part ∈ t.innerParts ctx) :
    ∃ inner, Part.mk inner part.tree ∈ t.innerParts ctx' := by
  have hmem : Part.mk {} part.tree ∈ (t.innerParts ctx').map (Part.mk {} ·.tree) := by
    rw [← t.trees_innerParts ctx ctx']
    exact List.mem_map_of_mem h
  obtain ⟨⟨inner, tree⟩, hpart, heq⟩ := List.mem_map.1 hmem
  cases heq
  exact ⟨inner, hpart⟩

/-- Where statements stand in a part, the parser sets its marks by what the whole puts around the
part, and if none stand in the whole, that is a boundary. -/
theorem marks_innerParts (ctx : Context) : ∀ part ∈ t.innerParts ctx,
    part.category.holdsStatements = true →
      (c.holdsStatements = true ∨ ∃ e ∈ t.enclosure? part.category, e.isBoundary = true) ∧
        part.surroundings.SameMarks (ctx.enter (t.enclosure? part.category)) := by
  cases t
  case property mods key value kind isMethod isShorthand colonLead span =>
    refine List.forall_mem_cons.2 ⟨fun h => Bool.noConfusion (show false = true from h), ?_⟩
    rcases valueParts_cases ctx isShorthand value with hone | ⟨_, _, _, _, -, htwo⟩
    · rw [hone]
      exact List.forall_mem_singleton.2 fun h => Bool.noConfusion (show false = true from h)
    · rw [htwo]
      refine List.forall_mem_cons.2 ⟨fun h => Bool.noConfusion (show false = true from h), ?_⟩
      exact List.forall_mem_singleton.2 fun h => Bool.noConfusion (show false = true from h)
  all_goals
    repeat' first
      | exact List.forall_mem_nil _
      | exact fun h => Bool.noConfusion (show false = true from h)
      | exact fun h => ⟨.inl h, rfl, rfl, rfl, rfl⟩
      | exact fun h => ⟨.inr ⟨_, rfl, rfl⟩, rfl, rfl, rfl, rfl⟩
      | refine List.forall_mem_cons.2 ⟨?_, ?_⟩

end

/-- Wherever statements stand, the marks of the parser agree with what stands around. -/
theorem Encloses.contains {c d : Category} {around around' : List Enclosure} {t : Tree c}
    {x : Tree d}
    (hx : Encloses around t around' x) {ctx : Context}
    (h : c.holdsStatements = true → ctx.Agrees around) :
    ∃ ctx', Contains ctx t ctx' x ∧ (d.holdsStatements = true → ctx'.Agrees around') := by
  induction hx generalizing ctx with
  | whole => exact ⟨ctx, .whole, h⟩
  | @inPart _ _ around _ t _ part mem _ ih =>
    obtain ⟨inner, hpart⟩ : ∃ inner, Part.mk inner part.tree ∈ t.innerParts ctx :=
      t.exists_part mem
    have hinner : part.category.holdsStatements = true →
        inner.Agrees ((t.enclosure? part.category).toList ++ around) := fun hcode => by
      obtain ⟨hwhole, hmarks⟩ := t.marks_innerParts ctx _ hpart hcode
      refine .congr ?_ hmarks
      rcases hwhole with hwhole | ⟨e, he, hboundary⟩
      · exact (h hwhole).enter _
      · rw [show t.enclosure? part.category = some e from he]
        exact .boundary ctx around hboundary
    obtain ⟨ctx', hinside, hagrees⟩ := ih hinner
    exact ⟨ctx', .inPart _ hpart hinside, hagrees⟩

end Tree

/-! ## Jumps and labels -/

/-- What the language demands of jumps and labels. -/
def Tree.WellScoped (around : List Enclosure) : {c : Category} → Tree c → Prop
  | _, .breakStmt _ none _ _ => .loop ∈ within around ∨ .switch ∈ within around
  | _, .breakStmt _ (some label) _ _ => label.name ∈ inScope around
  | _, .continueStmt _ label _ _ => .loop ∈ within around ∧ ∀ id ∈ label, id.name ∈ inScope around
  | _, .labeledStmt label _ _ _ => label.name ∉ inScope around
  | _, .returnStmt _ _ _ _ => owner? around = some .function
  | _, _ => True

variable {o : Options} {source : String} {out : Parsed}

/-- Where the marks agree, what obeys the rules is well scoped. -/
theorem Tree.Allowed.wellScoped {c : Category} {ctx : Context} {x : Tree c}
    {around : List Enclosure} (h : x.Allowed true ctx) (ha : ctx.Agrees around) :
    x.WellScoped around := by
  cases x
  case breakStmt lead label ending span =>
    cases label with
    | none =>
      have hplace : (ctx.inLoop || ctx.inSwitch) = true := h
      exact (Bool.or_eq_true_iff.1 hplace).imp ha.loop ha.switch
    | some label =>
      have hscope : ctx.labels.contains label.name = true := h
      rw [List.contains_iff_mem, ha.labels] at hscope
      exact hscope
  case continueStmt lead label ending span =>
    obtain ⟨hloop, hscope⟩ := h
    refine ⟨ha.loop hloop, fun id hid => ?_⟩
    obtain rfl : label = some id := hid
    have hscope : ctx.labels.contains id.name = true := hscope
    rwa [List.contains_iff_mem, ha.labels] at hscope
  case labeledStmt label colonLead body span =>
    have hscope : ctx.labels.contains label.name = false := h
    intro hmem
    rw [← ha.labels, ← List.contains_iff_mem, hscope] at hmem
    cases hmem
  case returnStmt => exact ha.function (h rfl)
  all_goals trivial

theorem Tree.wellScoped_of_data {c : Category} {x : Tree c} (around : List Enclosure)
    (h : c.holdsStatements = false) : x.WellScoped around := by
  cases x
  case breakStmt | continueStmt | labeledStmt | returnStmt => cases h
  all_goals trivial

/-- What occurs in a tree that obeys all rules is well scoped. -/
theorem Tree.Encloses.wellScoped {c d : Category} {ctx : Context} {around around' : List Enclosure}
    {t : Tree c} {x : Tree d} (hx : Encloses around t around' x)
    (h : t.Everywhere (Allowed true) ctx) (ha : ctx.Agrees around) : x.WellScoped around' := by
  cases hd : d.holdsStatements with
  | false => exact x.wellScoped_of_data around' hd
  | true =>
    obtain ⟨ctx', hin, hagrees⟩ := hx.contains fun _ => ha
    exact (h.of hin).wellScoped (hagrees hd)

/-- Nothing stands around a whole source. -/
theorem Context.ofSource_agrees (goal : Goal) (allowsMarkup : Bool) (body : List Stmt) :
    (ofSource goal allowsMarkup body).Agrees [] := ⟨nofun, nofun, rfl, nofun⟩

/-- In a parse without faults, every jump and every label is well scoped. -/
theorem parse_jumps (h : parse o source = .ok out) (clean : out.errors = []) {c : Category}
    {around : List Enclosure} {x : Tree c} (hx : out.program.Surrounds around x) :
    x.WellScoped around := by
  obtain ⟨stmt, hstmt, hx⟩ := hx
  have hrules := parse_everywhere_allowed h clean hstmt
  exact hx.wellScoped hrules (Context.ofSource_agrees ..)

/-- A jump back to a label from inside a switch in the loop with the label. -/
theorem parse_jumps_switch :
    ∃ out around, ∃ x : Stmt, parse {} "a:while(b)switch(c)\x7bdefault:continue a\x7d" = .ok out ∧
      out.errors = [] ∧ out.program.Surrounds around x ∧ around.length = 3 ∧
        x.WellScoped around := by
  have hparse : (parse {} "a:while(b)switch(c)\x7bdefault:continue a\x7d").toOption.map
      (fun out => (out.program.body, out.errors)) =
        some ([.labeledStmt { name := "a", raw := "a" } "" (.whileStmt "" ""
          (.identifier { name := "b", raw := "b" }) "" (.switchStmt "" ""
            (.identifier { name := "c", raw := "c" }) "" "" (.cons (.switchCase "" .absent ""
              (.cons (.continueStmt "" (some { lead := " ", name := "a", raw := "a" }) .inserted {})
                .nil) {}) .nil) "" {}) {}) {}], []) := by
    decide +kernel
  obtain ⟨out, h, hout⟩ := Except.exists_ok_of_map hparse
  obtain ⟨hbody, clean⟩ := Prod.mk.inj hout
  have hx : out.program.Surrounds [.switch, .loop, .label "a" _] _ :=
    ⟨_, hbody ▸ List.mem_singleton_self _, .inPart _ (List.mem_singleton_self _)
      (.inPart _ (List.mem_cons_of_mem _ (List.mem_singleton_self _))
        (.inPart _ (List.mem_cons_of_mem _ (List.mem_singleton_self _))
          (.inPart _ (List.mem_cons_self ..) (.inPart _ (List.mem_cons_of_mem _
            (List.mem_singleton_self _)) (.inPart _ (List.mem_cons_self ..) .whole)))))⟩
  exact ⟨out, _, _, h, clean, hx, rfl, parse_jumps h clean hx⟩

/-! ## Jumps back to a label -/

namespace Tree

/-- Whether a statement is a loop, behind further labels. -/
def isLabelledLoop : {c : Category} → Tree c → Bool
  | _, .forStmt .. | _, .forInStmt .. | _, .forOfStmt .. | _, .whileStmt .. | _, .doWhileStmt .. =>
    true
  | _, .labeledStmt _ _ body _ => body.isLabelledLoop
  | _, _ => false

/-- A label that is put around a statement was not in scope. -/
theorem WellScoped.not_mem {c k : Category} {t : Tree c} {around : List Enclosure} {name : String}
    {target : Stmt} (h : t.WellScoped around) (he : t.enclosure? k = some (.label name target)) :
    name ∉ inScope around := by
  cases t
  case labeledStmt label colonLead body span =>
    cases he
    exact h
  all_goals first
    | cases he
    | exact absurd (Option.ite_none_right_eq_some.1 he).2 nofun

/-- No label comes into scope twice. -/
theorem Encloses.nodup {c d : Category} {around around' : List Enclosure} {t : Tree c} {x : Tree d}
    (hx : Encloses around t around' x) (hrule : ∀ {d : Category} {around' : List Enclosure}
      {y : Tree d}, Encloses around t around' y → y.WellScoped around')
    (h : (inScope around).Nodup) : (inScope around').Nodup := by
  induction hx with
  | whole => exact h
  | @inPart _ _ around _ t _ part mem _ ih =>
    refine ih (fun hy => hrule (.inPart part mem hy)) ?_
    cases he : t.enclosure? part.category with
    | none => exact h
    | some e =>
      change (inScope (e :: around)).Nodup
      cases hb : e.isBoundary with
      | true =>
        rw [Enclosure.inScope_boundary hb]
        exact List.nodup_nil
      | false =>
        rw [Enclosure.inScope_cons hb]
        cases e
        case label name target => exact List.nodup_cons.2 ⟨(hrule .whole).not_mem he, h⟩
        all_goals exact h

end Tree

/-- In a parse without faults, a jump back to a label stands in the body of a loop, and in exactly
one statement with that label. -/
theorem parse_continue_label (h : parse o source = .ok out) (clean : out.errors = [])
    {around : List Enclosure} {lead : String} {label : Ident} {ending : Terminator} {span : Span}
    (hx : out.program.Surrounds around (.continueStmt lead (some label) ending span)) :
    (inScope around).count label.name = 1 ∧ .loop ∈ within around := by
  obtain ⟨stmt, hstmt, hx⟩ := hx
  have hrules := parse_everywhere_allowed h clean hstmt
  have hscoped : ∀ {c : Category} {around : List Enclosure} {y : Tree c},
      Tree.Encloses [] stmt around y → y.WellScoped around :=
    fun hy => hy.wellScoped hrules (Context.ofSource_agrees ..)
  obtain ⟨hloop, hscope⟩ := hscoped hx
  have hnodup : (inScope around).Nodup := hx.nodup hscoped List.nodup_nil
  refine ⟨?_, hloop⟩
  rw [hnodup.count, if_pos (hscope label rfl)]

/-- A jump back to a label of a block, from inside a loop in it. -/
theorem exists_labelled_block : ∃ (out : Parsed) (target : Stmt) (label : Ident),
    parse {} "a:\x7bwhile(b)continue a\x7d" = .ok out ∧ out.errors = [] ∧
      out.program.Surrounds [.loop, .label label.name target]
        (.continueStmt "" (some label) .inserted {}) ∧ target.isLabelledLoop = false := by
  have hparse : (parse {} "a:\x7bwhile(b)continue a\x7d").toOption.map
      (fun out => (out.program.body, out.errors)) =
        some ([.labeledStmt { name := "a", raw := "a" } "" (.blockStmt (.block "" (.cons
          (.whileStmt "" "" (.identifier { name := "b", raw := "b" }) "" (.continueStmt ""
            (some { lead := " ", name := "a", raw := "a" }) .inserted {}) {}) .nil) "" {})) {}],
          []) := by
    decide +kernel
  obtain ⟨out, h, hout⟩ := Except.exists_ok_of_map hparse
  obtain ⟨hbody, clean⟩ := Prod.mk.inj hout
  have hx : out.program.Surrounds [.loop, .label "a" (.blockStmt _)] (.continueStmt ..) :=
    ⟨_, hbody ▸ List.mem_singleton_self _, .inPart _ (List.mem_singleton_self _)
      (.inPart _ (List.mem_singleton_self _) (.inPart _ (List.mem_singleton_self _)
        (.inPart _ (List.mem_cons_self ..) (.inPart _ (List.mem_cons_of_mem _
          (List.mem_singleton_self _)) .whole))))⟩
  exact ⟨out, _, { lead := " ", name := "a", raw := "a" }, h, clean, hx, rfl⟩

/-- There the label is in scope once. -/
theorem parse_continue_label_once : ∃ (out : Parsed) (target : Stmt) (label : Ident),
    parse {} "a:\x7bwhile(b)continue a\x7d" = .ok out ∧ out.errors = [] ∧
      out.program.Surrounds [.loop, .label label.name target]
        (.continueStmt "" (some label) .inserted {}) ∧
      (inScope [.loop, .label label.name target]).count label.name = 1 ∧
      .loop ∈ within [.loop, .label label.name target] := by
  obtain ⟨out, target, label, h, clean, hx, -⟩ := exists_labelled_block
  exact ⟨out, target, label, h, clean, hx, parse_continue_label h clean hx⟩

/-- The statement with the label need not be a loop. -/
theorem parse_continue_block :
    ¬ ∀ (o : Options) (source : String) (out : Parsed), parse o source = .ok out →
      out.errors = [] → ∀ (around : List Enclosure) (lead : String) (label : Ident)
        (ending : Terminator) (span : Span),
        out.program.Surrounds around (.continueStmt lead (some label) ending span) →
          ∃ target, .label label.name target ∈ within around ∧ target.isLabelledLoop = true := by
  intro hclaim
  obtain ⟨out, block, label, h, clean, hx, hblock⟩ := exists_labelled_block
  obtain ⟨target, hmem, hloop⟩ := hclaim _ _ out h clean _ _ _ _ _ hx
  have htarget : Enclosure.label label.name target ∈ [.loop, .label label.name block] := hmem
  simp only [List.mem_cons, reduceCtorEq, Enclosure.label.injEq, List.not_mem_nil, or_false,
    false_or, true_and] at htarget
  rw [htarget, hblock] at hloop
  exact Bool.false_ne_true hloop

end Verbatim
