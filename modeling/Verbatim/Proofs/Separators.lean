import Verbatim.Proofs.Formed.Statement
import Verbatim.Proofs.Recorded.Statement

/-!
# Separators of lists

In a parsed program, the commas of every list match its items, so printing a list never makes up a
separator and never leaves one out.

## Main definitions

* `Verbatim.CommaList.Separated` — how many commas a list has, and how it is printed.

## Main results

* `Verbatim.joinWith_eq` — where the commas match the items, all of them are printed and no other.
* `Verbatim.parse_separators` — the commas of every list in a parsed program match its items.
-/

namespace Verbatim

/-! ## Printing lists -/

/-- Where the separators match the texts, each text is printed with the one behind it, and none is
made up. -/
theorem joinWith_eq (fallback : String) {texts separators : List String}
    (hbetween : texts.length ≤ separators.length + 1) (hbehind : separators.length ≤ texts.length) :
    joinWith fallback texts separators = concat
      (List.zipWith (· ++ ·) texts (separators ++ [""])) := by
  induction texts generalizing separators with
  | nil => rfl
  | cons text texts ih =>
    cases separators with
    | nil =>
      obtain rfl : texts = [] := by simpa using hbetween
      change text ++ "" = text ++ "" ++ ""
      rw [String.append_empty, String.append_empty]
    | cons separator separators =>
      have htexts := ih (Nat.le_of_succ_le_succ hbetween) (Nat.le_of_succ_le_succ hbehind)
      cases texts with
      | nil =>
        change text ++ separator = text ++ separator ++ ""
        rw [String.append_empty]
      | cons next texts => exact congrArg (text ++ separator ++ ·) htexts

/-! ## Lists of parsed programs -/

/-- How many commas a list has, and how it is printed. -/
structure CommaList.Separated (l : CommaList) : Prop where
  /-- Each of them is a comma with trivia in front of it. -/
  commas : ∀ comma ∈ l.commas, IsComma comma
  /-- There is none without items. -/
  empty : l.count = 0 → l.commas = []
  /-- There is one between two items, and there may be one behind the last. -/
  between : l.count ≠ 0 → l.commas.length + 1 = l.count ∨ l.commas.length = l.count
  /-- There is none behind the last item of a sequence or declaration, or behind a target for all
  that remains. -/
  last : l.isBare = true ∨ l.endsInRest = true → l.commas.length + 1 = l.count
  /-- There is one behind a hole that comes last. -/
  hole : l.endsInHole = true → l.commas.length = l.count
  /-- Whatever is printed of the items, each comma is printed behind it, and no separator is made
  up. -/
  printed : ∀ (fallback : String) (texts : List String), texts.length = l.count →
    joinWith fallback texts l.commas = concat (List.zipWith (· ++ ·) texts (l.commas ++ [""]))

/-- Commas that match the items of a list separate them if none follows a rest element. -/
theorem CommaList.Matched.separated {l : CommaList} (h : l.Matched)
    (hrest : l.endsInRest = true → l.commas.length < l.count) : l.Separated where
  commas := h.commas
  empty hcount := List.length_eq_zero_iff.1 (Nat.le_zero.1 (hcount ▸ h.behind))
  between _ := by
    have hbetween := h.between
    have hbehind := h.behind
    omega
  last hlast := by
    have hbetween := h.between
    have hfew := hlast.elim h.bare hrest
    omega
  hole := h.hole
  printed fallback texts htexts :=
    joinWith_eq fallback (htexts ▸ h.between) (htexts ▸ h.behind)

/-- Dots in front of the last item are dots in front of an item. -/
theorem Tree.hasDots_of_endsInDots {c : Category} {items : Tree (.many c)}
    (h : items.endsInDots = true) : items.hasDots = true := by
  obtain ⟨item, hitem, hdots⟩ := (Option.any_eq_true ..).1
    (show items.toList.getLast?.any _ = true from h)
  rw [← Tree.ofList_toList items, Tree.hasDots_ofList, List.any_eq_true]
  exact ⟨item, List.mem_of_getLast? hitem, hdots⟩

/-- No comma follows a target for all that remains. -/
theorem Tree.Formed.lt_of_endsInRest {c : Category} {t : Tree c} (h : t.Formed) {l : CommaList}
    (hl : l ∈ t.commaLists) (hrest : l.endsInRest = true) : l.commas.length < l.count := by
  have hshape := h.shape
  cases t
  case arrayPattern | objectPattern =>
    obtain rfl := List.mem_singleton.1 hl
    exact hshape.final (hasDots_of_endsInDots hrest)
  case paramList =>
    obtain rfl := List.mem_singleton.1 hl
    exact hshape.1.final (hasDots_of_endsInDots hrest)
  case array | object | sequence | cover | argumentList | declaration =>
    obtain rfl := List.mem_singleton.1 hl
    cases hrest
  case importStmt | exportNamed =>
    obtain ⟨named, -, rfl⟩ := List.mem_map.1 hl
    cases hrest
  all_goals exact absurd hl List.not_mem_nil

/-- The statements of a reading are well formed. -/
theorem Reading.sound {o : Options} {source : String} (r : Reading o source) :
    ∀ stmt ∈ r.program.body, stmt.Sound := by
  have hdrafts : (Grammar.program (.ofDepth (source.length + 3)) o.goal o.jsx).Sees
      { token := r.first.lookahead } _ := Parse.Drafts.program (.ofDepth (source.length + 3))
  have hrun := Parse.Meets.run sights_holds hdrafts (.of_lookahead rfl)
  have heq : (Grammar.program (.ofDepth (source.length + 3)) o.goal o.jsx).run r.first =
      .ok r.program r.last := r.run_eq
  rw [heq] at hrun
  obtain ⟨_, -, hbody⟩ := hrun
  exact hbody

/-- What occurs in a parsed program is well formed. -/
theorem Program.Contains.formed {o : Options} {source : String} {out : Parsed}
    (h : parse o source = .ok out) {c : Category} {ctx : Context} {x : Tree c}
    (hx : out.program.Contains o ctx x) : x.Formed := by
  obtain ⟨r, rfl⟩ := Reading.of_parse h
  obtain ⟨stmt, hstmt, hx⟩ := hx
  have hstmt : stmt ∈ (r.program.mapSpans (·.select o)).body := hstmt
  rw [Program.mapSpans_eq] at hstmt
  obtain ⟨full, hmem, rfl⟩ := List.mem_map.1 hstmt
  obtain ⟨y, hy, rfl⟩ := hx.of_mapSpans (·.select o)
  exact ((r.sound full hmem).formed hy).mapSpans _

/-- In a parsed program, the commas of every list match its items. -/
theorem parse_separators {o : Options} {source : String} {out : Parsed}
    (h : parse o source = .ok out) {c : Category} {ctx : Context} {x : Tree c}
    (hx : out.program.Contains o ctx x) {l : CommaList} (hl : l ∈ x.commaLists) : l.Separated :=
  ((hx.records h).lists l hl).separated ((hx.formed h).lt_of_endsInRest hl)

/-- A pattern with a hole and a target for all that remains. -/
theorem parse_separators_pattern :
    ∃ out ctx items, parse {} "[a,/**/,...b]=c" = .ok out ∧
      out.program.Contains {} ctx (.arrayPattern "" items [",", "/**/,"] "" {}) ∧
      ({ count := 3, commas := [",", "/**/,"], endsInRest := true } : CommaList).Separated := by
  have hparse : (parse {} "[a,/**/,...b]=c").toOption.map (·.program.body) =
      some [.exprStmt (.assignment (.arrayPattern "" (.cons (.present (.namePattern
        { name := "a", raw := "a" })) (.cons .absent (.cons (.present (.restPattern "" (.namePattern
        { name := "b", raw := "b" }) {})) .nil))) [",", "/**/,"] "" {}) "" .assign
        (.identifier { name := "c", raw := "c" }) {}) none .inserted {}] := by decide +kernel
  obtain ⟨out, h, hbody⟩ := Except.exists_ok_of_map hparse
  have hx : out.program.Contains {} _ _ :=
    .of_body hbody (List.mem_singleton_self _) (.inPart _ (List.mem_singleton_self _)
      (.inPart _ (List.mem_cons_self ..) .whole))
  exact ⟨out, _, _, h, hx, parse_separators h hx (List.mem_singleton_self _)⟩

end Verbatim
