import Verbatim.Proofs.Recorded.Statement

/-!
# What programs record

The words in front of the key of a property or method of a parsed program match the function behind
it: `async` stands in front of asynchronous functions, a star in front of generators, and `get` or
`set` in front of accessors, in front of which `async` does not stand. A star may: an accessor with
a star is read as one whose function is a generator.

An element closes itself, or its closing tag has the name of its opening tag, part by part. Among
the children of an element or fragment no two texts are neighbours, and no text is empty: a text
between tags is taken as a whole.

## Main results

* `Verbatim.parse_introduced` — the words in front of a key match what is behind it.
* `Verbatim.parse_generator_getter` — an accessor whose function is a generator.
* `Verbatim.parse_tags_match` — tags match, and texts stand apart.
* `Verbatim.parse_tags_match_member` — an element whose name is written in two ways.
-/

namespace Verbatim

/-! ## Words in front of members -/

/-- In a parsed program, the words in front of a key match what is behind it. -/
theorem parse_introduced {o : Options} {source : String} {out : Parsed}
    (h : parse o source = .ok out) {c : Category} {ctx : Context} {x : Tree c}
    (hx : out.program.Contains o ctx x) : x.Introduced := (hx.records h).introduced

/-- A getter with a star in front of its key, whose function is a generator. -/
theorem parse_generator_getter : ∃ out ctx key params body,
    parse {} "({get *x(){}})" = .ok out ∧
      out.program.Contains {} ctx (.property { accessorLead := some "", starLead := some " " } key
        (.functionExpr (.function { isGenerator := true } params body {})) .getter false
        false "" {}) ∧
      ({ accessorLead := some "", starLead := some " " } : Modifiers).FitProperty .getter false
        (.functionExpr (.function { isGenerator := true } params body {})) := by
  have hparse : (parse {} "({get *x(){}})").toOption.map (·.program.body) =
      some [.exprStmt
        (.parenthesized ""
          (.object "" (.cons (.property { accessorLead := some "", starLead := some " " }
        (.nameKey { name := "x", raw := "x" }) (.functionExpr (.function { isGenerator := true }
        (.paramList "" .nil [] "") (.bodyBlock "" .nil "" {}) {})) .getter false false "" {}) .nil)
          [] "" {}) "" {})
        none .inserted {}] := by decide +kernel
  obtain ⟨out, h, hbody⟩ := Except.exists_ok_of_map hparse
  have hx : out.program.Contains {} _ _ :=
    .of_body hbody (List.mem_singleton_self _) (.inPart _ (List.mem_singleton_self _)
      (.inPart _ (List.mem_cons_self ..) (.inPart _ (List.mem_cons_self ..)
        (.inPart _ (List.mem_cons_self ..) .whole))))
  exact ⟨out, _, _, _, _, h, hx, parse_introduced h hx⟩

/-! ## Tags -/

/-- In a parsed program, the tags of every element match, and its children are such that no two
texts are neighbours and no text is empty. So are the children of every fragment. -/
theorem parse_tags_match {o : Options} {source : String} {out : Parsed}
    (h : parse o source = .ok out) :
    (∀ ctx lead name attributes selfClosing closeLead openingSpan children closing span,
      out.program.Contains o ctx
        (.element lead name attributes selfClosing closeLead openingSpan children
        closing span) → TagsMatch name selfClosing children.toList closing ∧
          ChildrenApart children.toList) ∧
    ∀ ctx lead openingLead children closingLead slashLead closeLead span,
      out.program.Contains o ctx
        (.fragment lead openingLead children closingLead slashLead closeLead span) →
      ChildrenApart children.toList :=
  ⟨fun _ _ _ _ _ _ _ _ _ _ hx => (hx.records h).markup,
    fun _ _ _ _ _ _ _ _ hx => (hx.records h).markup⟩

/-- A member as the name of an element, with trivia in its closing tag only, and a text on either
side of an expression. -/
theorem parse_tags_match_member : ∃ out ctx name attributes children closing,
    parse {} "<a.b>x{c}y</a . b>" = .ok out ∧
      out.program.Contains {} ctx (.element "" name attributes none "" {} children
        (some closing) {}) ∧
      closing.name ≠ name ∧ closing.name.bare = name.bare ∧ ChildrenApart children.toList := by
  have hparse : (parse {} "<a.b>x{c}y</a . b>").toOption.map (·.program.body) =
      some [.exprStmt (.elementExpr (.element "" (.member (.plain { lead := "", name := "a" }) ""
        { lead := "", name := "b" } {}) .nil none "" {}
          (.cons (.textChild { value := "x", raw := "x" })
        (.cons (.exprChild (.exprContainer "" (.identifier { name := "c", raw := "c" }) "" {}))
          (.cons (.textChild { value := "y", raw := "y" }) .nil)))
        (some ⟨"", "", .member (.plain { lead := "", name := "a" }) " "
          { lead := " ", name := "b" } {}, "",
          {}⟩) {})) none .inserted {}] := by decide +kernel
  obtain ⟨out, h, hbody⟩ := Except.exists_ok_of_map hparse
  have hx : out.program.Contains {} _ _ :=
    .of_body hbody (List.mem_singleton_self _) (.inPart _ (List.mem_singleton_self _)
      (.inPart _ (List.mem_singleton_self _) .whole))
  obtain ⟨htags, hchildren⟩ := (parse_tags_match h).1 _ _ _ _ _ _ _ _ _ _ hx
  refine ⟨out, _, _, _, _, _, h, hx, by decide, ?_, hchildren⟩
  rcases htags with ⟨hs, -⟩ | ⟨-, tag, htag, hbare⟩
  · cases hs
  · cases htag
    exact hbare

end Verbatim
