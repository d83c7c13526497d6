import Verbatim.Proofs.Projection.Source
import Verbatim.Proofs.Scan.Scanned
import Verbatim.Proofs.Taking

/-!
# Comments of web pages at the start of a script

A script may begin with a comment of web pages. For the tokens of the language such a comment is
trivia, so what comes behind it is scanned as if the comment were not there. Within a tag it is no
trivia, and markup that begins a script is scanned again from the place in front of its trivia. So
behind such a comment no markup can begin.

## Main definitions

* `Verbatim.webComment` — a comment of web pages and the end of its line.

## Main results

* `Verbatim.Scan.next_behind_webComment` — the first token of a script stays the same.
* `Verbatim.parse_webComment_markup` — if it is an angle bracket, the parse fails.
-/

namespace Verbatim

open Verbatim.Text

/-- A comment of web pages with the given text, and the end of its line. -/
def webComment (body : List Char) : List Char := "<!--".toList ++ body ++ ['\n']

/-- The pieces of trivia that a comment of web pages and the end of its line are. -/
def webPieces (body : List Char) : List Trivium :=
  [.comment .line "<!--".toList body [], .lineEnd ['\n']]

section

variable {body chars rest : List Char} {pieces : List Trivium}

theorem webComment_eq (body : List Char) : webComment body = "<!--".toList ++ body ++ ['\n'] := rfl

theorem flatMap_webPieces (body : List Char) :
    (webPieces body).flatMap Trivium.chars = webComment body := by
  change "<!--".toList ++ body ++ [] ++ (['\n'] ++ []) = _
  rw [List.append_nil, List.append_nil, webComment_eq]

/-! ## Trivia -/

/-- A comment of web pages ends with its line. -/
theorem lineComment_webComment (hbody : ∀ c ∈ body, isLineTerminator c = false) :
    lineComment "<!--" (webComment body ++ chars) =
      (.comment .line "<!--".toList body [], '\n' :: chars) := by
  have hdrop : (webComment body ++ chars).drop "<!--".length = body ++ '\n' :: chars := by
    rw [webComment_eq, List.append_assoc, List.append_assoc, ← String.length_toList, List.drop_left]
    rfl
  have hall : ∀ c ∈ body, (!isLineTerminator c) = true := fun c hc => by rw [hbody c hc]; rfl
  rw [lineComment, hdrop, List.takeWhile_append_of_pos hall, List.dropWhile_append_of_pos hall]
  simp [show isLineTerminator '\n' = true from rfl]

/-- In a script a comment of web pages is trivia in front of any trivia. -/
theorem Gap.behind_webComment (hbody : ∀ c ∈ body, isLineTerminator c = false) {fresh : Bool}
    (h : Gap true true chars pieces rest) :
    Gap true fresh (webComment body ++ chars) (webPieces body ++ pieces) rest := by
  have hfront : Front.of true fresh (webComment body ++ chars) =
      .piece (.comment .line "<!--".toList body []) ('\n' :: chars) := by
    change Front.piece (lineComment "<!--" (webComment body ++ chars)).1
      (lineComment "<!--" (webComment body ++ chars)).2 = _
    rw [lineComment_webComment hbody]
  have hline : Front.of true (fresh || (Trivium.comment .line "<!--".toList body []).endsLine)
      ('\n' :: chars) = .piece (.lineEnd ['\n']) chars := rfl
  refine .cons hfront (.cons hline ?_)
  rwa [show (Trivium.lineEnd ['\n']).endsLine = true from rfl, Bool.or_true]

/-- The same at the start of a source that does not begin with the line that names an
interpreter. -/
theorem Lead.behind_webComment (hbody : ∀ c ∈ body, isLineTerminator c = false)
    (hfirst : "#!".toList.isPrefixOf chars = false) (h : Lead true true chars pieces rest) :
    Lead true true (webComment body ++ chars) (webPieces body ++ pieces) rest := by
  cases h with
  | plain _ hg => exact .plain rfl (hg.behind_webComment hbody)
  | interpreter => cases hfirst

end

/-! ## The first token -/

/-- The source that a comment of web pages stands in front of. -/
def behindWebComment (body : List Char) (source : String) : String :=
  .ofList (webComment body ++ source.toList)

/-- The find behind a comment of web pages. -/
def Find.behind (body : List Char) (f : Find) : Find :=
  { f with pieces := webPieces body ++ f.pieces }

/-- A web comment in front of a source changes nothing of what the scanner comes upon behind it. -/
theorem Find.Next.behind_webComment {body : List Char}
    (hbody : ∀ c ∈ body, isLineTerminator c = false) {source : String}
    (hfirst : "#!".toList.isPrefixOf source.toList = false) {keeps : Bool} {f : Find}
    (h : f.Next (.start source false keeps)) :
    (f.behind body).Next (.start (behindWebComment body source) false keeps) := by
  have hlead : (f.behind body).lead = webComment body ++ f.lead := by
    rw [Find.lead, Find.behind, List.flatMap_append, flatMap_webPieces]
    rfl
  have hrest : (Scanner.start (behindWebComment body source) false keeps).cursor.rest =
      webComment body ++ source.toList := String.toList_ofList
  refine ⟨?_, ?_, h.reads⟩
  · have hc : source.toList = f.lead ++ f.raw ++ f.rest := h.chars
    rw [hrest, hlead, hc]
    simp [Find.behind]
  · rw [hrest]
    exact Lead.behind_webComment hbody hfirst h.trivia

namespace Scan

/-- Behind a comment of web pages that begins a script, the first token stays the same but for its
trivia, and so does what remains behind it. -/
theorem next_behind_webComment {body : List Char} (hbody : ∀ c ∈ body, isLineTerminator c = false)
    {source : String} (hfirst : "#!".toList.isPrefixOf source.toList = false) {keeps : Bool}
    {t : Token} {s : Scanner} (h : next (.start source false keeps) = .ok t s) :
    ∃ t' s', next (.start (behindWebComment body source) false keeps) = .ok t' s' ∧
      t'.toLexeme = t.toLexeme ∧ t'.raw = t.raw ∧
      t'.lead = .ofList (webComment body) ++ t.lead ∧
      s'.cursor.rest = s.cursor.rest ∧ s'.braces = s.braces := by
  obtain ⟨f, hf, rfl, rfl⟩ := next_eq_ok.1 h
  have hf' := hf.behind_webComment hbody hfirst
  refine ⟨_, _, next_eq_ok.2 ⟨_, hf', rfl, rfl⟩, rfl, rfl, ?_, ?_, rfl⟩
  · change String.ofList ((webPieces body ++ f.pieces).flatMap Trivium.chars) = _
    rw [List.flatMap_append, flatMap_webPieces, String.ofList_append]
    rfl
  · exact (Find.back_spec hf'.chars).1.trans (Find.back_spec hf.chars).1.symm

/-- Within a tag nothing begins with an exclamation mark. -/
theorem next_tag_ne_ok_of_comment {s s' : Scanner} {t : Token} {chars : List Char}
    (hm : s.mode = .tag)
    (hc : s.cursor.rest = '!' :: chars) : next s ≠ .ok t s' := by
  intro h
  obtain ⟨f, hf, -, -⟩ := next_eq_ok.1 h
  have htrivia := hf.trivia
  rw [if_neg (by simp [hm]), hc] at htrivia
  have hnone : Lead s.allowsHtml (s.cursor.position.offset = 0) ('!' :: chars) []
    ('!' :: chars) := by
    have hhtml : s.allowsHtml = false := by simp [Scanner.allowsHtml, hm]
    rw [hhtml]
    exact .plain (Bool.and_false _) (.nil rfl)
  obtain ⟨-, hr⟩ := hnone.unique htrivia
  have hreads := hf.reads
  rw [Find.opening, hm, hr] at hreads
  cases hreads

end Scan

/-! ## Markup behind a comment of web pages -/

namespace Parse

/-- No run of the action from the given state ends well. -/
def Refuses {α : Type} (action : Parse α) (q : Parser) : Prop := ∀ v r, action.run q ≠ .ok v r

namespace Refuses

variable {α β : Type} {q : Parser}

theorem fail {stage : Stage} {fault : Fault} {site : Site} :
    (Parse.fail stage fault site : Parse α).Refuses q := fun _ _ h => by cases h

/-- If the rest fails in each case, so does the whole. -/
theorem of_bind {action : Parse β} {f : β → Parse α}
    (h : ∀ v q₁, action.run q = .ok v q₁ → (f v).Refuses q₁) : (action >>= f).Refuses q := by
  intro v r hrun
  rw [run_bind] at hrun
  split at hrun
  · exact h _ _ ‹_› v r hrun
  · cases hrun

/-- If the first action fails, so does the whole. -/
theorem bind {action : Parse β} {f : β → Parse α} (h : action.Refuses q) :
    (action >>= f).Refuses q :=
  of_bind fun v q₁ hrun => absurd hrun (h v q₁)

theorem behind {action : Parse β} {f : β → Parse α} {v : β} {q₁ : Parser}
    (hrun : action.run q = .ok v q₁) (hf : (f v).Refuses q₁) : (action >>= f).Refuses q :=
  of_bind fun w q₂ h => by
    rw [hrun] at h
    cases h
    exact hf

end Refuses

end Parse

open Parse

/-- Within a tag a comment of web pages begins with an angle bracket, and an exclamation mark comes
behind it. -/
theorem Scan.next_tag_webComment {s s' : Scanner} {t : Token} {chars : List Char}
    (hm : s.mode = .tag) (hc : s.cursor.rest = '<' :: '!' :: chars) (h : next s = .ok t s') :
    s'.mode = .tag ∧ s'.cursor.rest = '!' :: chars := by
  obtain ⟨f, hf, -, rfl⟩ := next_eq_ok.1 h
  refine ⟨(s.past_mode _).trans hm, (Find.back_spec hf.chars).1.trans ?_⟩
  have htrivia := hf.trivia
  have hhtml : s.allowsHtml = false := by simp [Scanner.allowsHtml, hm]
  rw [if_neg (by simp [hm]), hc, hhtml] at htrivia
  have hnone : Lead false (s.cursor.position.offset = 0) ('<' :: '!' :: chars) []
      ('<' :: '!' :: chars) := .plain (Bool.and_false _) (.nil rfl)
  obtain ⟨-, hr⟩ := hnone.unique htrivia
  have hreads := hf.reads
  rw [Find.opening, hm, hr] at hreads
  exact (Run.pure_eq_ok.1 (show (pure _ : Read Lexeme) ('!' :: chars) = _ from hreads)).2.symm

/-- Markup does not begin where its trivia begins with a comment of web pages. -/
theorem markupRoot_refuses {p : Productions} {ctx : Context} {q : Parser} {chars : List Char}
    (hq : q.before.cursor.rest = '<' :: '!' :: chars) : (Grammar.markupRoot p ctx).Refuses q := by
  refine .behind rfl (.of_bind fun _ q₁ hrescan => ?_)
  have hrun : Parser.rescanWith Scan.next { q with scanner := { q.scanner with mode := .tag } } =
      .ok () q₁ := hrescan
  rw [Tracks.rescanWith_eq] at hrun
  split at hrun
  · rename_i t s hnext
    cases hrun
    obtain ⟨hm, hrest⟩ := Scan.next_tag_webComment rfl hq hnext
    refine .behind rfl (.bind (.bind fun v r hlead => ?_))
    obtain ⟨_, _, hscan, -⟩ := Tracks.next_eq_ok hlead
    exact Scan.next_tag_ne_ok_of_comment hm hrest hscan
  · cases hrun

/-- A parser whose lookahead is an angle bracket at which no markup can begin. -/
structure Parser.Bars (q : Parser) : Prop where
  /-- The lookahead is a punctuator. -/
  kind : q.lookahead.kind = .punctuator
  /-- It is the angle bracket. -/
  raw : q.lookahead.raw = "<"
  /-- No markup can begin, whatever is pending. -/
  markup : ∀ p ctx site, (Grammar.markupRoot p ctx).Refuses { q with pending := site }

namespace Parser.Bars

variable {p : Productions} {ctx : Context} {q : Parser}

theorem setPending (h : q.Bars) (site : Option Site) : Bars { q with pending := site } :=
  ⟨h.kind, h.raw, fun p ctx site => h.markup p ctx site⟩

/-- An angle bracket begins no operator in front of an operand. -/
theorem operators (h : q.Bars) (ctx : Context) : Grammar.unaryOp? q.lookahead = none ∧
    Grammar.updateOp? q.lookahead = none ∧ Grammar.isAwait ctx q.lookahead = false := by
  simp only [Grammar.unaryOp?, Grammar.updateOp?, Grammar.isAwait, Token.isPunctuator,
    Token.isWord, h.kind, h.raw]
  exact ⟨rfl, rfl, Bool.and_false _⟩

theorem operand (h : q.Bars) : (Grammar.operand p ctx).Refuses q := by
  refine .behind rfl ?_
  simp only [h.kind, Grammar.punctuatedOperand, h.raw]
  split
  · exact h.markup p ctx q.pending
  · exact .fail

theorem chain (h : q.Bars) : (Grammar.chain p ctx).Refuses q := by
  refine .behind rfl (.bind (.behind rfl ?_))
  have hkey : ∀ word, q.lookahead.isKeyword word = false := fun word => by
    simp [Token.isKeyword, h.kind]
  simp only [hkey]
  exact h.operand

theorem unary (h : q.Bars) : (Grammar.unary p ctx).Refuses q := by
  refine .behind rfl ?_
  obtain ⟨hunary, hupdate, hawait⟩ := h.operators ctx
  simp only [hunary, hupdate, hawait]
  exact .behind rfl (.bind h.chain)

theorem conditional (h : q.Bars) : (Grammar.conditional p ctx).Refuses q :=
  .behind rfl (.bind (.behind rfl (.bind (.behind rfl (.bind h.unary)))))

/-- In front of an angle bracket at which no markup can begin, no expression is read. -/
theorem expression (h : q.Bars) : (Grammar.expression p ctx).Refuses q := by
  have hword : ∀ word, q.lookahead.isWord word = false := fun word => by
    simp [Token.isWord, h.kind]
  have hcover : (Grammar.cover p ctx).Refuses { q with pending := none } := by
    refine .behind rfl ?_
    simp only [hword, Bool.and_false, Bool.false_eq_true, if_false]
    have hasync : Grammar.seesAsyncBareArrow.run { q with pending := none } =
        .ok false { q with pending := none } := by
      have hrun : ∀ q' : Parser, (seesWord "async").run q' =
          .ok (q'.lookahead.isWord "async") q' := fun _ => rfl
      rw [Grammar.seesAsyncBareArrow, run_bind, hrun]
      simp [hword]
    exact .behind hasync
      (.behind rfl (.behind rfl (.behind rfl (.bind (h.setPending none).conditional))))
  exact .behind rfl (.bind (.behind rfl (.behind rfl (.bind hcover))))

theorem item (h : q.Bars) : (Grammar.item p ctx).Refuses q := by
  have hword : ∀ word, q.lookahead.isWord word = false := fun word => by
    simp [Token.isWord, h.kind]
  refine .behind rfl ?_
  simp only [h.kind, hword]
  refine .behind rfl ?_
  simp only [h.kind, Token.isPunctuator, h.raw]
  exact .behind rfl (.bind h.expression)

/-- Where no markup can begin, a source that starts with an angle bracket is refused. -/
theorem program (h : q.Bars) (depth : Nat) (allowsMarkup : Bool) :
    (Grammar.program (.ofDepth (depth + 1)) .script allowsMarkup).Refuses q := by
  have hstring : q.lookahead.isString = false := by simp [Token.isString, h.kind]
  have hprologue : ∀ ctx : Context, (Grammar.prologue (.ofDepth (depth + 1)) ctx).run q =
      .ok ([], ctx.strict) q := by
    intro ctx
    change (Grammar.prologueFrom _ ctx none (Productions.ofDepth depth).rounds.succ).run q = _
    have hlook : look.run q = .ok q.lookahead q := rfl
    rw [Grammar.prologueFrom, run_bind, hlook]
    simp [hstring]
  refine .behind rfl (.behind (hprologue _) (.bind (.behind rfl ?_)))
  simp only [Token.isEof, h.kind]
  exact .bind h.item

end Parser.Bars

/-- Behind a comment of web pages that begins a script, no markup can begin: if the first token
behind it is an angle bracket, the parse fails. -/
theorem parse_webComment_markup {o : Options} (ho : o.goal = .script) {body : List Char}
    (hbody : ∀ c ∈ body, isLineTerminator c = false) {source : String}
    (hfirst : "#!".toList.isPrefixOf source.toList = false) {t : Token} {s : Scanner}
    (h : Scan.next (.start source false true) = .ok t s) (ht : t.isPunctuator "<" = true)
    (out : Parsed) : parse o (behindWebComment body source) ≠ .ok out := by
  obtain ⟨t', s', hnext, hlexeme, hraw, -⟩ := Scan.next_behind_webComment hbody hfirst h
  obtain ⟨hk, hr⟩ : t.kind = .punctuator ∧ t.raw = "<" := by simpa [Token.isPunctuator] using ht
  let q : Parser :=
    { scanner := s', before := (Scanner.start (behindWebComment body source) false true).save,
      lookahead := t', report := { tolerant := o.tolerant } }
  have hrest : q.before.cursor.rest = '<' :: '!' ::
    ('-' :: '-' :: (body ++ '\n' :: source.toList)) := by
    rw [show q.before.cursor.rest = _ from String.toList_ofList, webComment_eq, List.append_assoc]
    simp
  have hq : q.Bars :=
    ⟨(congrArg Lexeme.kind hlexeme).trans hk, hraw.trans hr, fun p ctx site =>
      markupRoot_refuses (q := { q with pending := site }) hrest⟩
  have hstart : Parser.start (behindWebComment body source) (o.goal = .module) o.tolerant =
      .ok q := by
    unfold Parser.start
    simp only [ho, reduceCtorEq, decide_false, hnext]
    rfl
  intro hparse
  obtain ⟨first, program, last, hfirst, hrun, -⟩ := exists_complete_run hparse
  obtain rfl := Except.ok.inj (hstart.symm.trans hfirst)
  obtain ⟨depth, hdepth⟩ : ∃ depth, Productions.forSource (behindWebComment body source) =
      .ofDepth (depth + 1) := ⟨_, rfl⟩
  rw [hdepth] at hrun
  have hrefuses := hq.program depth o.jsx
  rw [← ho] at hrefuses
  exact hrefuses program last hrun

/-- Markup at the start of a script, behind a comment of web pages and behind another comment. -/
theorem parse_webComment_element :
    (match parse {} "<!--\n<a/>" with
      | .ok _ => none
      | .error e => some e) = some ⟨.markup, .illegalToken, ⟨1, 1, 2⟩, none⟩ ∧
    (parse {} "//\n<a/>").toOption.isSome = true := by
  decide +kernel

end Verbatim
