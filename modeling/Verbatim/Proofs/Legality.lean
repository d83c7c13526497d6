import Verbatim.Proofs.Static.Statement
import Verbatim.Proofs.Tolerance

/-!
# What is parsed obeys the rules

Every construct that occurs in a parsed program obeys the rules that are never tolerated, and if no
fault was recorded, it obeys all of them.

With faults or without, operations group as the precedences of their operators say, with parentheses
where they would not. So a tree of operations can be told from its spelling.

## Main definitions

* `Verbatim.Program.Contains` — a construct that occurs in a program, with its surroundings.
* `Verbatim.Tree.Canonical` — operations whose operands need no parentheses.

## Main results

* `Verbatim.parse_allowed` — every construct in a parsed program obeys the rules.
* `Verbatim.parse_canonical` — all operations in a parsed program are canonical.
-/

namespace Verbatim

/-- What is known of a part of a result is known of a result. -/
theorem Except.exists_ok_of_map {ε α β : Type} {result : Except ε α} {f : α → β} {part : β}
    (h : result.toOption.map f = some part) : ∃ value, result = .ok value ∧ f value = part := by
  cases result with
  | error e => cases h
  | ok value => exact ⟨value, rfl, Option.some.inj h⟩

/-- A construct occurs in the program, and this surrounds it. -/
def Program.Contains (program : Program) (o : Options) {c : Category} (ctx : Context) (x : Tree c) :
    Prop :=
  ∃ stmt ∈ program.body, Tree.Contains (.ofSource o.goal o.jsx program.body) stmt ctx x

theorem Program.Contains.of_body {program : Program} {o : Options} {body : List Stmt} {stmt : Stmt}
    {c : Category} {ctx : Context} {x : Tree c} (hbody : program.body = body) (hstmt : stmt ∈ body)
    (hx : Tree.Contains (.ofSource o.goal o.jsx body) stmt ctx x) : program.Contains o ctx x := by
  subst hbody
  exact ⟨stmt, hstmt, hx⟩

/-- What occurs in something that occurs in a program occurs in the program. -/
theorem Program.Contains.trans {program : Program} {o : Options} {c d : Category}
    {ctx ctx' : Context} {x : Tree c} {y : Tree d} (h : program.Contains o ctx x)
    (hy : Tree.Contains ctx x ctx' y) : program.Contains o ctx' y := by
  obtain ⟨stmt, hstmt, hx⟩ := h
  exact ⟨stmt, hstmt, hx.trans hy⟩

/-- The parts of what occurs in a program occur in it. -/
theorem Program.Contains.part {program : Program} {o : Options} {c : Category} {ctx : Context}
    {x : Tree c} {part : Part} (h : program.Contains o ctx x) (mem : part ∈ x.innerParts ctx) :
    program.Contains o part.surroundings part.tree := h.trans (.inPart part mem .whole)

/-- The statements of a parse obey the rules, all of them if no faults are tolerated. -/
theorem parse_fits {o : Options} {source : String} {out : Parsed} {clean : Bool}
    (hclean : clean = true → o.tolerant = false) (h : parse o source = .ok out) :
    ∀ stmt ∈ out.program.body, stmt.Fits clean (.ofSource o.goal o.jsx out.program.body) := by
  obtain ⟨first, program, last, hstart, hrun, rfl⟩ := exists_run_of_parse h
  obtain ⟨t, hfirst⟩ : ∃ t, first.StandsAt clean (.code t) := by
    unfold Parser.start at hstart
    dsimp only at hstart
    split at hstart
    · rename_i lookahead after hnext
      cases hstart
      exact ⟨⟨lookahead, Scan.next_plain hnext rfl⟩, hclean, rfl, Scan.next_mode hnext⟩
    · cases hstart
  have hend := Parse.Meets.run (readings_holds clean)
    (Parse.Reads.program (.ofDepth (source.length + 3)) o.goal o.jsx) hfirst
  rw [Productions.forSource] at hrun
  rw [hrun] at hend
  obtain ⟨_, -, hbody⟩ := hend
  exact hbody

/-- Every construct in a parsed program obeys the rules, all of them if no fault was recorded. -/
theorem parse_allowed {o : Options} {source : String} {out : Parsed}
    (h : parse o source = .ok out) {c : Category} {ctx : Context} {x : Tree c}
    (hx : out.program.Contains o ctx x) : x.Allowed out.errors.isEmpty ctx := by
  have hfits : ∀ stmt ∈ out.program.body,
      stmt.Fits out.errors.isEmpty (.ofSource o.goal o.jsx out.program.body) := by
    cases he : out.errors with
    | cons first rest => exact parse_fits (fun hc => by cases hc) h
    | nil =>
      -- Without recorded faults, the parse without tolerance is the same.
      have hstrict : parse { o with tolerant := false } source = .ok out := by
        cases ho : o.tolerant with
        | false => rwa [← ho]
        | true =>
          refine ((parse_ok_iff_tolerant o source).1 out).2 ⟨?_, he⟩
          rwa [← ho]
      exact @parse_fits { o with tolerant := false } _ _ _ (fun _ => rfl) hstrict
  obtain ⟨stmt, hstmt, hx⟩ := hx
  exact (hfits stmt hstmt).of hx

/-- Without recorded faults, all rules are obeyed. -/
theorem parse_allowed_of_clean {o : Options} {source : String} {out : Parsed}
    (h : parse o source = .ok out) (clean : out.errors = []) {c : Category} {ctx : Context}
    {x : Tree c} (hx : out.program.Contains o ctx x) : x.Allowed true ctx := by
  have hx := parse_allowed h hx
  rwa [clean] at hx

/-- Without recorded faults, the statements of a program obey all rules. -/
theorem parse_everywhere_allowed {o : Options} {source : String} {out : Parsed}
    (h : parse o source = .ok out) (clean : out.errors = []) {stmt : Stmt}
    (hstmt : stmt ∈ out.program.body) :
    stmt.Everywhere (Tree.Allowed true) (.ofSource o.goal o.jsx out.program.body) :=
  ⟨fun hx => parse_allowed_of_clean h clean ⟨stmt, hstmt, hx⟩⟩

/-! ## Precedence -/

namespace Tree

/-- If an expression is an operation, its operands need no parentheses. -/
def Canonical : Expr → Prop
  | .binary left _ op right _ => op.Groups left right
  | .unary _ _ operand _ => operand.Standalone
  | .await _ operand _ => operand.Standalone
  | _ => True

theorem Allowed.canonical {clean : Bool} {ctx : Context} {e : Expr} (h : e.Allowed clean ctx) :
    e.Canonical := by
  cases e
  case binary left opLead op right span => exact h
  case unary lead op operand span => exact h
  case await lead operand span => exact And.left h
  all_goals trivial

end Tree

/-- In every program that is parsed, with faults or without, operations group by the precedence of
their operators. -/
theorem parse_canonical {o : Options} {source : String} {out : Parsed}
    (h : parse o source = .ok out) {ctx : Context} {e : Expr} (he : out.program.Contains o ctx e) :
    e.Canonical := (parse_allowed h he).canonical

/-- A sum whose first term is a negation. -/
theorem parse_canonical_sum :
    ∃ out e, parse {} "-a+b" = .ok out ∧ out.program.Contains {} (.start .script true) e ∧
      e.operator? = some .add ∧ e.Canonical := by
  have hparse : (parse {} "-a+b").toOption.map (·.program.body) =
      some [.exprStmt (.binary (.unary "" .minus (.identifier { name := "a", raw := "a" }) {}) ""
        .add (.identifier { name := "b", raw := "b" }) {}) none .inserted {}] := by decide +kernel
  obtain ⟨out, h, hbody⟩ := Except.exists_ok_of_map hparse
  have he : out.program.Contains {} _ _ :=
    .of_body hbody (List.mem_singleton_self _) (.inPart _ (List.mem_singleton_self _) .whole)
  exact ⟨out, _, h, he, rfl, parse_canonical h he⟩

end Verbatim
