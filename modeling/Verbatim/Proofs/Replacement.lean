import Verbatim.Proofs.References
import Verbatim.Proofs.Scan.Rendered
import Verbatim.Parsed
import Verbatim.Tree.Edit

/-!
# Replaced literals among their neighbours

A literal whose value is replaced is spelled anew, and the new spelling is put between neighbours
that stay. The spelling of a string is that of the language. A string within a tag has no escapes,
and so it is read back there if nothing in it is escaped and it has no references. The spelling of a
big integer begins with a sign if the integer is negative, and runs into a sign in front of it.

## Main results

* `Verbatim.Read.tagString_quote` — a quoted text is read back within a tag if it has no escapes.
* `Verbatim.parse_replaced_attribute` — an attribute with a backslash is not read back.
* `Verbatim.parse_replaced_bigint` — a negative big integer is not parsed behind a minus.
-/

namespace Verbatim

open Verbatim.Text

/-! ## Strings within tags -/

/-- A text without ampersands is its own decoded form. -/
theorem Entity.decodeFrom_plain {text : List Char} (h : '&' ∉ text) (offset : Nat) :
    decodeFrom offset 0 text = .ok text := by
  induction text generalizing offset with
  | nil => rfl
  | cons c text ih =>
    obtain ⟨hc, htext⟩ : c ≠ '&' ∧ '&' ∉ text := by
      simpa [eq_comm] using h
    rw [decodeFrom, if_pos hc, ih htext]
    rfl

/-- Without escapes, a text between quotes is itself. -/
theorem Text.quoteBody_plain {quote : Char} {text : List Char}
    (h : ∀ c ∈ text, ∀ next, escape quote c next = [c]) : quoteBody quote text = text := by
  induction text with
  | nil => rfl
  | cons c text ih =>
    obtain ⟨hc, htext⟩ := List.forall_mem_cons.1 h
    rw [quoteBody, hc, ih htext]
    rfl

/-- A quote in a text is escaped. -/
theorem Text.escape_quote_ne {quote : Char} (hq : Read.isQuote quote = true) :
    escape quote quote none ≠ [quote] := by
  obtain rfl | rfl : quote = '"' ∨ quote = '\x27' := by simpa [Read.isQuote] using hq
  · decide
  · decide

/-- Within a tag, a quoted text is read back if no character of it is escaped and it has no
references. -/
theorem Read.tagString_quote {quote : Char} (hq : isQuote quote = true) {text : String}
    (hplain : ∀ c ∈ text.toList, ∀ next, escape quote c next = [c]) (hamp : '&' ∉ text.toList)
    (rest : List Char) : tagString quote ((Text.quote quote text).toList ++ rest) =
      .ok { kind := .string, value := .text text } rest := by
  have hstop : ∀ c ∈ text.toList, decide (c ≠ quote) = true := fun c hc => by
    refine decide_eq_true fun hcq => ?_
    subst hcq
    exact escape_quote_ne hq (hplain c hc none)
  have hspelled : (Text.quote quote text).toList ++ rest = quote ::
    (text.toList ++ quote :: rest) := by
    simp [Text.quote, quoteBody_plain hplain]
  have hbody : (text.toList ++ quote :: rest).takeWhile (· ≠ quote) = text.toList := by
    rw [List.takeWhile_append_of_pos hstop, List.takeWhile_cons]
    simp
  have hbehind : (text.toList ++ quote :: rest).dropWhile (· ≠ quote) = quote :: rest := by
    rw [List.dropWhile_append_of_pos hstop, List.dropWhile_cons]
    simp
  have htake : takeWhile (· ≠ quote) (text.toList ++ quote :: rest) = .ok text.toList
    (quote :: rest) := by
    change EStateM.Result.ok ((text.toList ++ quote :: rest).takeWhile _)
      ((text.toList ++ quote :: rest).dropWhile _) = _
    rw [hbody, hbehind]
  have hdecode : decoded text.toList rest = .ok text rest := by
    unfold decoded Entity.decode
    rw [String.ofList_toList, Entity.decodeFrom_plain hamp]
    change EStateM.Result.ok (String.ofList text.toList) rest = _
    rw [String.ofList_toList]
  rw [hspelled]
  refine Run.bind_eq_ok.2 ⟨(), text.toList ++ quote :: rest, rfl, ?_⟩
  refine Run.bind_eq_ok.2 ⟨text.toList, quote :: rest, htake, ?_⟩
  refine Run.bind_eq_ok.2 ⟨some quote, quote :: rest, rfl, ?_⟩
  refine Run.bind_eq_ok.2 ⟨(), rest, rfl, ?_⟩
  exact Run.bind_eq_ok.2 ⟨text, rest, hdecode, rfl⟩

/-! ## Spellings that are not read back -/

/-- The value of an attribute is replaced by a backslash, which is spelled by two of them. The
printed text is parsed, and the attribute has the value of two backslashes. With a quote in the
value it is not even parsed. -/
theorem parse_replaced_attribute :
    (parse {} "<a b=\"c\"/>").toOption.map (fun out =>
        let edited := (Edit.apply ⟨some 0, .replace (.string "\\")⟩ out.program).1
        (out.program.print, edited.print, edited.leaves.literals.map (·.value))) =
      some ("<a b=\"c\"/>", "<a b=\"\\\\\"/>", [.string "\\"]) ∧
    (parse {} "<a b=\"\\\\\"/>").toOption.map
    (fun out => out.program.leaves.literals.map (·.value)) =
      some [.string "\\\\"] ∧
    (parse {} "<a b=\"c\"/>").toOption.map (fun out =>
        (Edit.apply ⟨some 0, .replace (.string "\"")⟩ out.program).1.print) =
      some "<a b=\"\\\"\"/>" ∧
    (parse {} "<a b=\"\\\"\"/>").toOption.isSome = false := by
  decide +kernel

/-- A number behind a minus is replaced by a negative big integer, which is spelled without
parentheses. The printed text has a decrement and is not parsed. -/
theorem parse_replaced_bigint :
    (parse {} "x=a-5").toOption.map (fun out =>
        (out.program.print, (Edit.apply ⟨some 0, .replace (.bigint (-1))⟩ out.program).1.print)) =
      some ("x=a-5", "x=a--1n") ∧
    (match parse {} "x=a--1n" with
      | .ok _ => none
      | .error e => some e) = some ⟨.grammar, .unexpectedNumber, ⟨5, 1, 6⟩, none⟩ := by
  decide +kernel

end Verbatim
