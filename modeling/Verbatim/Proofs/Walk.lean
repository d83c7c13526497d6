import Verbatim.Parsed
import Verbatim.Proofs.Scan.Scanned

/-!
# Walks over tokens

A run of a parsing action takes tokens one after the other. Each is scanned where the one before it
ended, in the mode that held then, and two of them are scanned twice: a slash that begins a regular
expression and an angle bracket that begins markup. A walk is this sequence of steps without the
parser around it, over scanners that keep no comments.

## Main definitions

* `Verbatim.Parse.takes` — the tokens that a run of an action takes.
* `Verbatim.Step`, `Verbatim.Walk` — how tokens are scanned one after the other.
* `Verbatim.Stands` — a parser whose lookahead was scanned at a given place, and which records
  everything.
* `Verbatim.Taken`, `Verbatim.Trace` — a token with its part in a template, and what a list of them
  spells and does to the open braces.
-/

namespace Verbatim

/-! ## What a run takes -/

/-- The tokens that a run of an action takes, each with the mode of the token behind it. -/
def Parse.takes {α : Type} : Parse α → Parser → List (Token × Mode)
  | .done _, _ => []
  | .ask request, p =>
    match request with
    | .next => [(p.lookahead, p.scanner.mode)]
    | _ => []
  | .andThen first resume, p =>
    first.takes p ++
      match first.run p with
      | .ok value after => (resume value).takes after
      | .error .. => []

@[simp]
theorem Parse.takes_pure {α : Type} (value : α) (p : Parser) :
    (pure value : Parse α).takes p = [] := rfl

/-- A sequence takes what its parts take. -/
theorem Parse.takes_bind {α β : Type} {action : Parse α} {f : α → Parse β} {p after : Parser}
    {value : α} (h : action.run p = .ok value after) :
    (action >>= f).takes p = action.takes p ++ (f value).takes after := by
  change (Parse.andThen action f).takes p = _
  rw [Parse.takes, h]

/-! ## What is recorded -/

namespace Parser

variable {p q : Parser}

/-- Scanning changes neither what is recorded nor the label of the source. -/
theorem scan_records {α : Type} {action : Scan α} {v : α} (h : scan action p = .ok v q) :
    q.records = p.records ∧ q.report.source = p.report.source := by
  unfold scan at h
  split at h <;> cases h
  exact ⟨rfl, rfl⟩

/-- What a request leaves is recorded as before, with the same label. -/
theorem answer_records {request : Request} {v : request.Answer} (h : answer request p = .ok v q) :
    q.records = p.records ∧ q.report.source = p.report.source := by
  have hrescan : ∀ {action : Scan Token} {v : Unit}, rescanWith action p = .ok v q →
      q.records = p.records ∧ q.report.source = p.report.source := by
    intro action v h
    obtain ⟨_, _, hmodify, h⟩ := Run.bind_eq_ok.1 h
    cases hmodify
    obtain ⟨_, _, hscan, h⟩ := Run.bind_eq_ok.1 h
    cases h
    have hq := scan_records hscan
    exact hq
  cases request with
  | next =>
    obtain ⟨_, _, hget, h⟩ := Run.bind_eq_ok.1 h
    cases hget
    obtain ⟨_, _, hscan, h⟩ := Run.bind_eq_ok.1 h
    cases h
    have hq := scan_records hscan
    exact hq
  | peek =>
    change peek p = _ at h
    unfold peek at h
    split at h <;> cases h
    exact ⟨rfl, rfl⟩
  | rescan => exact hrescan h
  | rescanRegex => exact hrescan h
  | setMode mode => exact scan_records (show scan (Scan.setMode mode) p = _ from h)
  | tolerate finder fault site =>
    change tolerate _ _ p = _ at h
    unfold tolerate Report.tolerate at h
    split at h <;> rename_i heq <;> cases h
    split at heq <;> cases heq
    exact ⟨rfl, rfl⟩
  | look | lastEnd | pending | setPending | span | finish | fail => cases h <;> exact ⟨rfl, rfl⟩

end Parser

/-- A run records the same all the way, and labels errors alike. -/
theorem Parse.run_records {α : Type} {action : Parse α} {p q : Parser} {v : α}
    (h : action.run p = .ok v q) :
    q.records = p.records ∧ q.report.source = p.report.source := by
  induction action generalizing p q with
  | done => cases h; exact ⟨rfl, rfl⟩
  | ask request => exact Parser.answer_records h
  | andThen first resume ih ih' =>
    change (first >>= resume).run p = _ at h
    rw [run_bind] at h
    split at h
    · rename_i u p₁ hfirst
      exact ⟨(ih' u h).1.trans (ih hfirst).1, (ih' u h).2.trans (ih hfirst).2⟩
    · cases h

/-! ## Steps -/

/-- A mode in which trivia stands in front of tokens, which is any but that of text in markup. -/
class Mode.Spaced (mode : Mode) : Prop where
  /-- It is not that of text. -/
  ne_text : mode ≠ .text

instance : Mode.Spaced .normal := ⟨by decide⟩

instance : Mode.Spaced .tag := ⟨by decide⟩

/-- The mode that may hold behind a token, by the mode in which the token was scanned. -/
inductive Shift : Mode → Token → Mode → Prop where
  /-- The mode stays, which that of text does behind a text only. -/
  | stay {mode : Mode} {t : Token} (h : mode = .text → t.kind = .markupText) : Shift mode t mode
  /-- Code ends with a closing brace. -/
  | close {t : Token} {after : Mode} (h : t.isPunctuator "\x7d" = true) : Shift .normal t after
  /-- A tag ends with its angle bracket. -/
  | finish {t : Token} {after : Mode} (h : t.isPunctuator ">" = true) : Shift .tag t after
  /-- Code begins behind a brace. -/
  | enter {mode : Mode} {t : Token} (h : t.isPunctuator "\x7b" = true) : Shift mode t .normal
  /-- A tag begins behind a text. -/
  | tag {t : Token} (h : t.isPunctuator "<" = true) : Shift .text t .tag

/-- The mode may stay as it is where tokens are spaced. -/
theorem Shift.spaced {mode : Mode} [h : mode.Spaced] {t : Token} : Shift mode t mode :=
  .stay fun hm => absurd hm h.ne_text

/-- A token is scanned and taken, and the scanner goes on in the given mode. -/
inductive Step : Scanner → Token → Mode → Scanner → Prop where
  /-- The token that comes next. No tag has a closing brace of its own. -/
  | plain {s s₀ : Scanner} {t : Token} {after : Mode} (scanned : Scan.next s = .ok t s₀)
      (notEof : t.isEof = false) (shift : Shift s.mode t after)
      (inTag : s.mode = .tag → t.isPunctuator "\x7d" = false) :
      Step s t after { s₀ with mode := after }
  /-- A regular expression, where a slash comes next. -/
  | regex {s s₀ s₁ : Scanner} {slash t : Token} (mode : s.mode = .normal)
      (seen : Scan.next s = .ok slash s₀) (isSlash : slash.isOneOf ["/", "/="] = true)
      (scanned : Scan.nextRegex s = .ok t s₁) : Step s t .normal s₁
  /-- The beginning of markup, where an angle bracket comes next. -/
  | markup {s s₀ s₁ : Scanner} {angle t : Token} (mode : s.mode = .normal)
      (seen : Scan.next s = .ok angle s₀) (isAngle : angle.isPunctuator "<" = true)
      (scanned : Scan.next { s with mode := .tag } = .ok t s₁) : Step s t .tag s₁

/-- A step takes characters. -/
theorem Step.shorter {s s₁ : Scanner} {t : Token} {after : Mode} (h : Step s t after s₁) :
    s₁.cursor.rest.length < s.cursor.rest.length := by
  cases h with
  | plain scanned notEof =>
    have hlt := Scan.next_shorter scanned notEof
    exact hlt
  | regex _ _ _ scanned => exact Scan.nextRegex_shorter scanned
  | markup mode seen isAngle scanned =>
    have ht := Scan.next_tag_of_angle mode seen isAngle scanned
    have hlt := Scan.next_shorter scanned (by simp_all [Token.isPunctuator, Token.isEof])
    exact hlt

/-- Tokens are scanned and taken one after the other. -/
def Walk : Scanner → List (Token × Mode) → Scanner → Prop
  | s, [], r => s = r
  | s, (t, after) :: rest, r => ∃ s₁, Step s t after s₁ ∧ Walk s₁ rest r

theorem Walk.append {s s₁ r : Scanner} {l l' : List (Token × Mode)} (h : Walk s l s₁)
    (h' : Walk s₁ l' r) : Walk s (l ++ l') r := by
  induction l generalizing s with
  | nil =>
    obtain rfl : s = s₁ := h
    exact h'
  | cons x rest ih =>
    obtain ⟨s₂, hs, hw⟩ := h
    exact ⟨s₂, hs, ih hw⟩

/-! ## Standing in front of a token -/

/-- The lookahead of a parser was scanned at the place of the given scanner. The mode of the parser
may have been changed since. -/
structure Stands (s : Scanner) (q : Parser) : Prop where
  /-- The scanner keeps no comments. -/
  quiet : s.quiet = s
  /-- It stands in front of the lookahead. -/
  cursor : q.before.cursor = s.cursor
  /-- The open braces are those in front of the lookahead. -/
  braces : q.before.braces = s.braces
  /-- The lookahead is the token that comes next. -/
  scanned : Scan.next s = .ok q.lookahead { q.scanner.quiet with mode := s.mode }
  /-- Everything is recorded. -/
  complete : q.records = {}

theorem Stands.isModule {s : Scanner} {q : Parser} (h : Stands s q) :
    q.scanner.isModule = s.isModule := by
  have hi := Scan.next_isModule h.scanned
  exact hi

/-- If the mode was not changed, the scanner is the one that scanning the lookahead left. -/
theorem Stands.settled {s : Scanner} {q : Parser} (h : Stands s q)
    (hm : q.scanner.mode = s.mode) : Scan.next s = .ok q.lookahead q.scanner.quiet := by
  have hs := h.scanned
  rw [← hm] at hs
  exact hs

/-- A parser stands at one place only. -/
theorem Stands.unique {s s' : Scanner} {q : Parser} (h : Stands s q) (h' : Stands s' q)
    (hm : s.mode = s'.mode) : s = s' := by
  have hi := h.isModule.symm.trans h'.isModule
  have hc := h.cursor.symm.trans h'.cursor
  have hb := h.braces.symm.trans h'.braces
  rw [← h.quiet, ← h'.quiet]
  cases s
  cases s'
  simp_all [Scanner.quiet]

/-! ## Traces -/

/-- A token that was taken, the mode behind it, and whether it is a template piece that is not the
first of its template. -/
structure Taken where
  /-- The token. -/
  token : Token
  /-- The mode of the token behind it. -/
  after : Mode
  /-- Whether it is a template piece that is not the first of its template. -/
  isLater : Bool

namespace Taken

/-- How a taken token is printed: a private name by its decoded name, and a later template piece
with the brace that closes a substitution. -/
def spelling (x : Taken) : String :=
  match x.token.kind with
  | .privateName => "#" ++ x.token.text
  | .template =>
    if x.isLater then "\x7d" ++ String.ofList (x.token.raw.toList.drop 1) else x.token.raw
  | _ => x.token.raw

/-- A taken token as it is printed, with its trivia. -/
def print (x : Taken) : String := x.token.lead ++ x.spelling

/-- Whether a template piece ends its template. -/
def isTail (x : Taken) : Bool :=
  match x.token.value with
  | .template _ _ isTail => isTail
  | _ => true

/-- What a taken token does to the open braces, if each later piece of a template closes the
substitution in front of it. There is no result if the innermost open brace is of the wrong kind, or
if the first piece of a template does not begin one. -/
def nest (x : Taken) (braces : List Brace) : Option (List Brace) :=
  match x.token.kind with
  | .punctuator =>
    if x.token.raw = "\x7b" then some (.plain :: braces)
    else if x.token.raw = "\x7d" then
      match braces with
      | .plain :: outer => some outer
      | _ => none
    else some braces
  | .template =>
    match x.isLater, braces with
    | false, _ =>
      if x.token.isTemplateHead then some (if x.isTail then braces else .substitution :: braces)
      else none
    | true, .substitution :: outer => some (if x.isTail then outer else .substitution :: outer)
    | true, _ => none
  | _ => some braces

end Taken

/-- What a list of tokens spells, what it does to the open braces, and how long it is. -/
structure Trace where
  /-- The text. -/
  text : String
  /-- The effect on the open braces. -/
  nest : List Brace → Option (List Brace)
  /-- The number of tokens. -/
  count : Nat

namespace Trace

/-- The trace of no tokens. -/
def empty : Trace := ⟨"", some, 0⟩

instance : Append Trace where
  append a b := ⟨a.text ++ b.text, fun braces => (a.nest braces).bind b.nest, a.count + b.count⟩

/-- The trace of a word or punctuator with its trivia. -/
def mark (lead spelling : String) : Trace where
  text := lead ++ spelling
  nest braces :=
    if spelling = "\x7b" then some (.plain :: braces)
    else if spelling = "\x7d" then
      match braces with
      | .plain :: outer => some outer
      | _ => none
    else some braces
  count := 1

/-- The trace of a token that opens and closes no brace. -/
def word (lead spelling : String) : Trace := ⟨lead ++ spelling, some, 1⟩

/-- The trace of a word or mark that may be missing. -/
def perhaps (lead : Option String) (spelling : String) : Trace :=
  lead.elim empty fun lead => word lead spelling

/-- The trace of one token. -/
def single (x : Taken) : Trace := ⟨x.print, x.nest, 1⟩

/-- The trace of a list of tokens. -/
def of : List Taken → Trace
  | [] => empty
  | x :: rest => single x ++ of rest

section

variable (a b c : Trace) (braces : List Brace) (lead spelling : String)

@[simp]
theorem text_empty : empty.text = "" := rfl

@[simp]
theorem nest_empty : empty.nest braces = some braces := rfl

@[simp]
theorem count_empty : empty.count = 0 := rfl

@[simp]
theorem text_append : (a ++ b).text = a.text ++ b.text := rfl

@[simp]
theorem nest_append : (a ++ b).nest braces = (a.nest braces).bind b.nest := rfl

@[simp]
theorem count_append : (a ++ b).count = a.count + b.count := rfl

@[simp]
theorem text_mark : (mark lead spelling).text = lead ++ spelling := rfl

@[simp]
theorem nest_mark_open : (mark lead "\x7b").nest braces = some (.plain :: braces) := rfl

@[simp]
theorem nest_mark_close : (mark lead "\x7d").nest (.plain :: braces) = some braces := rfl

@[simp]
theorem nest_mark (h : spelling ≠ "\x7b") (h' : spelling ≠ "\x7d") :
    (mark lead spelling).nest braces = some braces := by
  simp [mark, h, h']

@[simp]
theorem count_mark : (mark lead spelling).count = 1 := rfl

@[simp]
theorem text_word : (word lead spelling).text = lead ++ spelling := rfl

@[simp]
theorem nest_word : (word lead spelling).nest braces = some braces := rfl

@[simp]
theorem count_word : (word lead spelling).count = 1 := rfl

@[simp]
theorem text_perhaps (lead : Option String) :
    (perhaps lead spelling).text = printMark lead spelling := by
  cases lead <;> rfl

@[simp]
theorem nest_perhaps (lead : Option String) :
    (perhaps lead spelling).nest braces = some braces := by
  cases lead <;> rfl

@[simp]
theorem perhaps_none : perhaps none spelling = empty := rfl

@[simp]
theorem perhaps_some : perhaps (some lead) spelling = word lead spelling := rfl

/-- A mark that is no brace is as good as a word. -/
theorem mark_eq_word (h : spelling ≠ "\x7b") (h' : spelling ≠ "\x7d") :
    mark lead spelling = word lead spelling := by
  simp [mark, word, h, h']

/-- A trace that begins with tokens has tokens. -/
theorem append_pos {a b : Trace} (h : 0 < a.count) : 0 < (a ++ b).count :=
  Nat.add_pos_left h _

theorem append_pos_right {a b : Trace} (h : 0 < b.count) : 0 < (a ++ b).count :=
  Nat.add_pos_right _ h

theorem ext {a b : Trace} (ht : a.text = b.text) (hn : ∀ braces, a.nest braces = b.nest braces)
    (hc : a.count = b.count) : a = b := by
  cases a
  cases b
  simp_all [funext_iff]

@[simp]
theorem empty_append : empty ++ a = a := by
  refine ext ?_ ?_ ?_ <;> simp

@[simp]
theorem append_empty : a ++ empty = a := by
  refine ext (by simp) (fun braces => ?_) (by simp)
  rw [nest_append]
  cases a.nest braces <;> rfl

theorem append_assoc : a ++ b ++ c = a ++ (b ++ c) := by
  refine ext (by simp [String.append_assoc]) (fun braces => ?_) (by simp [Nat.add_assoc])
  rw [nest_append, nest_append, nest_append, Option.bind_assoc]
  cases a.nest braces <;> rfl

end

theorem of_append (l l' : List Taken) : of (l ++ l') = of l ++ of l' := by
  induction l with
  | nil => exact (empty_append _).symm
  | cons x rest ih =>
    change single x ++ of (rest ++ l') = single x ++ of rest ++ of l'
    rw [ih, append_assoc]

theorem text_of (l : List Taken) : (of l).text = concat (l.map Taken.print) := by
  induction l with
  | nil => rfl
  | cons x rest ih => exact congrArg (x.print ++ ·) ih

theorem count_of (l : List Taken) : (of l).count = l.length := by
  induction l with
  | nil => rfl
  | cons x rest ih =>
    change 1 + (of rest).count = _
    rw [ih, List.length_cons, Nat.add_comm]

end Trace

/-- A trace has the given text and leaves the open braces as it found them. -/
structure Spells (text : String) (tr : Trace) : Prop where
  /-- The text. -/
  text_eq : tr.text = text
  /-- What is opened is closed. -/
  nest_eq : ∀ braces, tr.nest braces = some braces

/-- A trace has the text that is added to the end of a given one, and leaves the open braces as it
found them. -/
structure Adds (old new : String) (tr : Trace) : Prop where
  /-- The text. -/
  text_eq : new = old ++ tr.text
  /-- What is opened is closed. -/
  nest_eq : ∀ braces, tr.nest braces = some braces

namespace Adds

theorem refl (text : String) : Adds text text .empty := ⟨by simp, fun _ => rfl⟩

theorem trans {a b c : String} {tr tr' : Trace} (h : Adds a b tr) (h' : Adds b c tr') :
    Adds a c (tr ++ tr') := by
  refine ⟨?_, fun braces => ?_⟩
  · rw [h'.text_eq, h.text_eq, Trace.text_append, String.append_assoc]
  · rw [Trace.nest_append, h.nest_eq, Option.bind_some, h'.nest_eq]

/-- What is added to a text that was spelled is spelled with it. -/
theorem spells {a b : String} {tr tr' : Trace} (h : Spells a tr) (h' : Adds a b tr') :
    Spells b (tr ++ tr') := by
  refine ⟨?_, fun braces => ?_⟩
  · rw [Trace.text_append, h.text_eq, h'.text_eq]
  · rw [Trace.nest_append, h.nest_eq, Option.bind_some, h'.nest_eq]

/-- What is added behind a text that was spelled is added with it. -/
theorem behind {a b c : String} {tr tr' : Trace} (h : Spells b tr) (h' : Adds (a ++ b) c tr') :
    Adds a c (tr ++ tr') := by
  refine ⟨?_, fun braces => ?_⟩
  · rw [h'.text_eq, Trace.text_append, h.text_eq, String.append_assoc]
  · rw [Trace.nest_append, h.nest_eq, Option.bind_some, h'.nest_eq]

end Adds

end Verbatim
