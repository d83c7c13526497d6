import Verbatim.Proofs.Consumed

/-!
# What is recorded does not influence what is read

Extents, tokens, comments and labels are looked at all over a run: each node that is finished asks
which parts of its extent are recorded, each token that is taken whether tokens are kept, each
rewinding truncates the comments that are kept, and each error gets the label. None of it decides
what is read. Each of two runs that differ in what they record is the image of the same complete
run, so they end in the same way, and behind the same tokens. Markup does influence what is read,
but only in sources that are rejected without it.

## Main definitions

* `Verbatim.Options.ReadsLike` — options that differ at most in what is recorded.
* `Verbatim.Agree` — results of parses that agree apart from what is recorded.

## Main results

* `Verbatim.parse_bookkeeping` — options that differ in what is recorded only have results that
  agree, and allowing markup changes no result of a parse that ends well.
-/

namespace Verbatim

/-! ## Results without bookkeeping -/

/-- Options that differ at most in what is recorded and in the label of the source. -/
structure Options.ReadsLike (o o' : Options) : Prop where
  goal : o.goal = o'.goal
  tolerant : o.tolerant = o'.tolerant
  jsx : o.jsx = o'.jsx

/-- An error without the label of its source. -/
def SyntaxError.unlabelled (e : SyntaxError) : SyntaxError := { e with source := none }

/-- A program without its extents. -/
def Program.bare (p : Program) : Program := p.mapSpans fun _ => {}

/-- Two results of parses agree apart from what is recorded: the programs apart from extents, and
the errors apart from the label of the source. -/
def Agree : Except SyntaxError Parsed → Except SyntaxError Parsed → Prop
  | .ok out, .ok out' => out.program.bare = out'.program.bare ∧
    out.errors.map (·.unlabelled) = out'.errors.map (·.unlabelled)
  | .error e, .error e' => e.unlabelled = e'.unlabelled
  | _, _ => False

theorem SyntaxError.unlabelled_label (source : Option String) (e : SyntaxError) :
    (e.label source).unlabelled = e.unlabelled := by
  unfold label
  split <;> rfl

theorem Program.bare_mapSpans (p : Program) (f : Span → Span) : (p.mapSpans f).bare = p.bare := by
  rw [bare, mapSpans_mapSpans]
  rfl

/-- What two options select of one outcome agrees. -/
theorem Outcome.select_agree (outcome : Outcome Program) (o o' : Options) :
    Agree (outcome.select o) (outcome.select o') := by
  unfold Outcome.select
  cases outcome.result with
  | error e =>
    exact (e.unlabelled_label _).trans (e.unlabelled_label _).symm
  | ok v =>
    refine ⟨?_, ?_⟩
    · change (v.1.mapSpans _).bare = (v.1.mapSpans _).bare
      rw [v.1.bare_mapSpans, v.1.bare_mapSpans]
    · change (List.map _ _).map _ = (List.map _ _).map _
      simp [Function.comp_def, SyntaxError.unlabelled_label]

/-! ## Main statement -/

/-- Options that differ only in what is recorded have results that agree: both parses fail with the
same error or end well with the same program and the same tolerated errors. On the way they take the
same tokens and report the same kinds of nodes. A source that is accepted without markup is accepted
with it, with the same result. -/
theorem parse_bookkeeping (o o' : Options) (source : String) (h : o.ReadsLike o') :
    Agree (parse o source) (parse o' source) ∧
      (parseNodes o source).1.map (·.kind) = (parseNodes o' source).1.map (·.kind) ∧
      (∀ first first', Parser.start source (o.goal = .module) o.tolerant o.records = .ok first →
        Parser.start source (o'.goal = .module) o'.tolerant o'.records = .ok first' →
        (o.action source).takes first = (o'.action source).takes first') ∧
      ∀ out, parse { o with jsx := false } source = .ok out →
        parse { o with jsx := true } source = .ok out := by
  -- Both runs are images of this one.
  have hcomplete : outcomeOf o'.goal o'.tolerant o'.jsx source =
      outcomeOf o.goal o.tolerant o.jsx source := by
    rw [h.goal, h.tolerant, h.jsx]
  refine ⟨?_, ?_, fun first first' hfirst hfirst' => ?_, fun out => parse_withMarkup o source⟩
  · rw [parse_eq_select o, parse_eq_select o', hcomplete]
    exact Outcome.select_agree _ _ _
  · have hkinds : ∀ (o : Options) (nodes : List NodeRecord),
        (nodes.map (·.select o)).map (·.kind) = nodes.map (·.kind) := fun o nodes => by
      rw [List.map_map]
      rfl
    rw [parseNodes_eq_select o, parseNodes_eq_select o', hcomplete, hkinds, hkinds]
  · rw [takes_select hfirst, takes_select hfirst']
    unfold consumed Options.action
    rw [h.goal, h.tolerant, h.jsx]

/-- A short source with a comment, parsed with different records and without markup. -/
theorem parse_bookkeeping_sum :
    Agree (parse { range := true, source := some "sum" } "a + 1 // b")
        (parse { comments := true, tokens := true } "a + 1 // b") ∧
      ∃ out, parse { range := true, source := some "sum", jsx := false } "a + 1 // b" = .ok out ∧
        parse { range := true, source := some "sum" } "a + 1 // b" = .ok out := by
  obtain ⟨hagree, -, -, hmarkup⟩ := parse_bookkeeping { range := true, source := some "sum" }
    { comments := true, tokens := true } "a + 1 // b" ⟨rfl, rfl, rfl⟩
  obtain ⟨out, hout⟩ : ∃ out,
      parse { range := true, source := some "sum", jsx := false } "a + 1 // b" = .ok out :=
    exists_of_isOk (by decide +kernel)
  exact ⟨hagree, out, hout, hmarkup out hout⟩

end Verbatim
