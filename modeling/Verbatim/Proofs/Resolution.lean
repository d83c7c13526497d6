import Verbatim.Proofs.Resolved.Statement
import Verbatim.Proofs.Tolerance

/-!
# Shorthand properties with a default become patterns

In what is parsed without faults, no object literal has a shorthand property with a default, but for
two places that nobody looks at: the front of the superclass of a declared class, and the front of a
property that is assigned to.

## Main results

* `Verbatim.parse_resolved` — the statements of a parse without faults are resolved.
* `Verbatim.parse_superclass_default` — a superclass that is not.
-/

namespace Verbatim

/-- The statements of a parse that does not tolerate faults are resolved. -/
theorem parse_resolved_of_strict {o : Options} {source : String} {out : Parsed}
    (ho : o.tolerant = false) (h : parse o source = .ok out) :
    ∀ stmt ∈ out.program.body, stmt.Resolved false := by
  have hp : (Productions.ofDepth (source.length + 3)).Resolves := .ofDepth _
  have hmeets := Parse.Resolves.program (s := false) hp o.goal o.jsx
  obtain ⟨first, program, last, hstart, hrun, rfl⟩ := exists_run_of_parse h
  rw [ho] at hstart
  have hfirst : first.Pends false := by
    unfold Parser.start at hstart
    dsimp only at hstart
    split at hstart
    · cases hstart
      exact ⟨rfl, rfl⟩
    · cases hstart
  have hend := Parse.Meets.run pendings_holds hmeets hfirst
  rw [Productions.forSource] at hrun
  rw [hrun] at hend
  obtain ⟨_, -, hbody⟩ := hend
  exact hbody

/-- In a parse without faults, no object literal has a shorthand property with a default, but for
the fronts of superclasses and of properties that are assigned to. -/
theorem parse_resolved {o : Options} {source : String} {out : Parsed} (h : parse o source = .ok out)
    (clean : out.errors = []) : ∀ stmt ∈ out.program.body, stmt.Resolved false := by
  cases ho : o.tolerant with
  | false => exact parse_resolved_of_strict ho h
  | true =>
    have hlenient : parse { o with tolerant := true } source = .ok out := by rw [← ho]; exact h
    have houtcomes := parse_outcomes o source
    rw [hlenient] at houtcomes
    cases hstrict : parse { o with tolerant := false } source with
    | ok out' =>
      rw [hstrict] at houtcomes
      cases houtcomes
      exact parse_resolved_of_strict rfl hstrict
    | error e =>
      rw [hstrict] at houtcomes
      cases houtcomes with
      | survived _ _ _ _ _ _ recorded => exact absurd (recorded.symm.trans clean) nofun

/-- Nobody looks at what is pending in the superclass of a declared class. -/
theorem parse_superclass_default :
    (parse {} "class A extends \x7ba=b\x7d \x7b\x7d").toOption.map
        (fun out => (out.program.body, out.errors)) =
      some ([.classStmt (.classDef "" (some { lead := " ", name := "A", raw := "A" })
        (.present (.heritage " " (.object " "
          (.cons (.property {} (.nameKey { name := "a", raw := "a" })
            (.assignment (.namePattern { name := "a", raw := "a" }) "" .assign
              (.identifier { name := "b", raw := "b" }) {}) .plain false true "" {}) .nil)
          [] "" {}))) " " .nil "" {})], []) := by
  decide +kernel

end Verbatim
