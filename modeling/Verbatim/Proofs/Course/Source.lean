import Verbatim.Proofs.Consumed
import Verbatim.Proofs.Course.Program
import Verbatim.Proofs.Positions

/-!
# The course of a whole source

A parse starts on a course on which nothing was taken yet. If it ends well, then it has gone along a
course on which it has taken all of its tokens, and the body of the program is laid out over these.
Whether it ends well or not, it has finished its nodes in their order.

## Main definitions

* `Verbatim.Reading.Along` — the course that a parse went along.

## Main results

* `Verbatim.Reading.along` — a parse that ends well went along a course.
* `Verbatim.parseNodes_inOrder` — each node lies within or in front of those finished later.
-/

namespace Verbatim

/-! ## The first token -/

/-- A parser at the start of a source is on a course on which nothing was taken yet. -/
theorem Parser.start_on {source : String} {isModule tolerant : Bool} {first : Parser}
    (h : Parser.start source isModule tolerant = .ok first) :
    ∃ c : Course source, c.taken = [] ∧ c.nodes = [] ∧ c.Of first := by
  have hstart := Scanner.IsOf.start source isModule true
  unfold Parser.start at h
  dsimp only at h
  split at h
  · rename_i t s hs
    cases h
    have hkeeps := Scan.next_keeps source _ hstart
    rw [hs] at hkeeps
    have hplaces := Scan.next_places hs
    let c : Course source :=
      { taken := [], ahead := t, nodes := [], mode := .normal
        lies := fun u hu => List.mem_singleton.1 hu ▸ ⟨hkeeps.2, hplaces.forward⟩
        ordered := List.pairwise_singleton _ _
        formed := Scan.next_formed hs
        bounded := fun node hn => absurd hn List.not_mem_nil
        inOrder := .nil }
    refine ⟨c, rfl, rfl, rfl, rfl, rfl, Scan.next_mode hs, hkeeps.1, hplaces.behind, hstart.cursor,
      fun u hu => absurd hu List.not_mem_nil,
        .inr ⟨(Scanner.start source isModule true).quiet, ?_⟩, rfl⟩
    refine ⟨rfl, rfl, rfl, ?_, rfl⟩
    rw [Scan.next_quiet_ok hs]
    change _ = EStateM.Result.ok t { s.quiet with mode :=
      (Scanner.start source isModule true).mode }
    rw [← Scan.next_mode hs]
    rfl
  · cases h

/-! ## The order of the nodes -/

/-- The node of a whole source lies around those that were finished before. -/
theorem Course.Moves.inOrder_concat {source : String} {us : List Token} {c c' : Course source}
    {kind : NodeKind} (h : c.Moves us c') (hn : c.nodes = []) :
    InOrder (c'.nodes ++ [{ kind, span := .between c.ahead.start c'.lastEnd }]) := by
  refine List.pairwise_append.2 ⟨c'.inOrder, List.pairwise_singleton _ _, fun node hnode m hm => ?_⟩
  obtain rfl := List.mem_singleton.1 hm
  obtain ⟨ms, hms, hin⟩ := h.nodes
  rw [hn, List.nil_append] at hms
  exact (hin node (hms ▸ hnode)).2.precedes_around (Nat.le_refl _) (Nat.le_refl _)

/-- The course that a parse went along. -/
structure Reading.Along {o : Options} {source : String} (r : Reading o source)
    (c c' : Course source) : Prop where
  /-- At first nothing was taken. -/
  taken : c.taken = []
  /-- No node was finished. -/
  nodes : c.nodes = []
  /-- The tokens that the parse consumes are taken. -/
  all_taken : c'.taken = (consumed o source).map (·.1)
  /-- The body of the program is read. -/
  body : c.Builds (.ofList r.program.body) c'
  /-- The extent of the program begins at the first token and ends at the last. -/
  span : r.program.span = .between c.ahead.start c'.lastEnd
  /-- The end of the source comes next. -/
  ahead : r.last.lookahead = c'.ahead
  /-- The node of the program is finished last. -/
  last : r.last.nodes.toList = c'.nodes ++ [{ kind := .program, span := r.program.span }]

/-- What is known of a run over a whole source. -/
theorem Options.runs {o : Options} {source : String} {first : Parser}
    (h : Parser.start source (o.goal = .module) o.tolerant = .ok first) :
    ∃ c : Course source, c.taken = [] ∧ c.nodes = [] ∧
      EndsIn (Outlook.Of (consumed o source)) (fun _ r => InOrder r.nodes.toList)
        (fun v k => ∃ c', k = .ended c' v.span ∧ c.Builds (.ofList v.body) c' ∧
          v.span = .between c.ahead.start c'.lastEnd ∧ v.tail = c'.ahead.lead)
        ((o.action source).run first) := by
  obtain ⟨c, htaken, hnodes, hc⟩ := Parser.start_on h
  refine ⟨c, htaken, hnodes, ?_⟩
  have hprogram : (o.action source).Proceeds c _ :=
    Parse.Proceeds.program (.ofDepth (source.length + 3))
  have hfirst : Outlook.Of [] (.on c) first := ⟨htaken, hc⟩
  have hrun := hprogram.runWith courses_holds hfirst
  rwa [List.nil_append, show (o.action source).takes first = Verbatim.consumed o source by
    rw [Verbatim.consumed, h]] at hrun

/-- A parse that ends well went along a course. -/
theorem Reading.along {o : Options} {source : String} (r : Reading o source) :
    ∃ c c' : Course source, r.Along c c' := by
  obtain ⟨c, htaken, hnodes, hrun⟩ := Options.runs r.start_eq
  rw [r.run_eq] at hrun
  obtain ⟨_, hlast, c', rfl, hbody, hspan, -⟩ := hrun
  obtain ⟨hconsumed, hahead, hlast⟩ := hlast
  exact ⟨c, c', htaken, hnodes, hconsumed, hbody, hspan, hahead, hlast⟩

/-! ## The nodes of a parse -/

/-- A node lies within another one, or in front of it. -/
def NodeRecord.Precedes (node later : NodeRecord) : Prop := node.span.Precedes later.span

theorem Span.Precedes.select {o : Options} {span later : Span} (h : span.Precedes later)
    (hr : o.range = true) : (span.select o).Precedes (later.select o) := by
  obtain ⟨range, range', h, h', hle⟩ := h
  exact ⟨range, range', (if_pos hr).trans h, (if_pos hr).trans h', hle⟩

/-- A parse finishes its nodes in their order, whether it ends well or not. -/
theorem outcomeOf_inOrder (o : Options) (source : String) :
    InOrder (outcomeOf o.goal o.tolerant o.jsx source).nodes.toList := by
  cases hstart : Parser.start source (o.goal = .module) o.tolerant with
  | error e =>
    rw [outcomeOf, Parse.onSource, hstart]
    exact .nil
  | ok first =>
    obtain ⟨c, -, hnodes, hrun⟩ := Options.runs hstart
    cases h : (o.action source).run first with
    | error e last =>
      rw [h] at hrun
      have houtcome : outcomeOf o.goal o.tolerant o.jsx source =
          { nodes := last.nodes, result := .error e } := by
        change Parse.onSource (o.action source) .. = _
        rw [Parse.onSource, hstart]
        dsimp only
        rw [h]
      rw [houtcome]
      exact hrun
    | ok v last =>
      rw [h] at hrun
      obtain ⟨_, hlast, c', rfl, ⟨us, hmoves, -⟩, hspan, -⟩ := hrun
      obtain ⟨-, -, hlast⟩ := hlast
      rw [outcomeOf_eq hstart h, hlast, hspan]
      exact hmoves.inOrder_concat hnodes

/-- Each node of a parse lies within or in front of those that are finished later, whether the parse
ends well or not. If it does, then its last node is the program, and no other one is. -/
theorem parseNodes_inOrder (o : Options) (source : String) (hr : o.range = true) :
    (parseNodes o source).1.Pairwise NodeRecord.Precedes ∧
      ∀ out, (parseNodes o source).2 = .ok out → ∃ nodes,
        (parseNodes o source).1 = nodes ++ [{ kind := .program, span := out.program.span }] ∧
          ∀ node ∈ nodes, node.kind ≠ .program := by
  refine ⟨?_, fun out h => ?_⟩
  · rw [parseNodes_eq_select, List.pairwise_map]
    exact (outcomeOf_inOrder o source).imp fun hp => hp.select hr
  · obtain ⟨r, rfl⟩ := Reading.of_parse (show parse o source = .ok out from h)
    obtain ⟨c, c', hc⟩ := r.along
    refine ⟨c'.nodes.map (·.select o), ?_, fun node hnode => ?_⟩
    · rw [parseNodes_eq_select, outcomeOf_eq r.start_eq r.run_eq, hc.last, List.map_append]
      rfl
    · obtain ⟨us, hmoves, -⟩ := hc.body
      obtain ⟨ms, hms, hin⟩ := hmoves.nodes
      rw [hc.nodes, List.nil_append] at hms
      obtain ⟨record, hrecord, rfl⟩ := List.mem_map.1 hnode
      exact (hin record (hms ▸ hrecord)).1

/-- The nodes of a call, the last of which is the program. -/
theorem parseNodes_inOrder_call : ∃ out nodes,
    (parseNodes { range := true } "f(a, b)").1.Pairwise NodeRecord.Precedes ∧
      (parseNodes { range := true } "f(a, b)").2 = .ok out ∧
      (parseNodes { range := true } "f(a, b)").1 =
        nodes ++ [{ kind := .program, span := out.program.span }] ∧ nodes.length = 5 := by
  obtain ⟨horder, hlast⟩ := parseNodes_inOrder { range := true } "f(a, b)" rfl
  obtain ⟨out, h⟩ : ∃ out, parse { range := true } "f(a, b)" = .ok out :=
    exists_of_isOk (by decide +kernel)
  obtain ⟨nodes, hnodes, -⟩ := hlast out h
  refine ⟨out, nodes, horder, h, hnodes, ?_⟩
  have hlength := congrArg List.length hnodes
  have hsix : (parseNodes { range := true } "f(a, b)").1.length = 6 := by decide +kernel
  rw [List.length_append, List.length_singleton] at hlength
  omega

end Verbatim
