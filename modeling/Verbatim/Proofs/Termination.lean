import Verbatim.Proofs.Progress.Statement

/-!
# Parsing terminates

A production has a bound on the depth of its calls, each loop one on its rounds, and each loop of
the scanner one on its steps. None of them has a say in what is read: with any two bounds beyond the
number of the characters that remain, the same is read, and the fault of a bound that was too small
does not come up. So the characters that remain, together with the place within a production, are a
measure on which parsing is a recursion.

## Main definitions

* `Verbatim.Productions.Looping` — loops whose rounds take tokens.

## Main results

* `Verbatim.parse_terminates` — the bounds of productions, loops and readers make no difference,
  every call of a production and every round of a loop takes a token, and tokens are spelled by
  something.
-/

namespace Verbatim

open Parse Parse.Concur

/-! ## Loops -/

/-- The loops of two families of productions concur as long as fewer than `n` characters remain, and
each of their rounds takes a token. -/
structure Productions.Looping (n : Nat) (p p' : Productions) : Prop where
  /-- Statements of a list. -/
  item (ctx : Context) : (p.item ctx).Advances n (p'.item ctx)
  /-- Statements of a module. -/
  moduleItem (ctx : Context) :
    (Grammar.moduleItem p ctx).Advances n (Grammar.moduleItem p' ctx)
  /-- Elements of an array pattern. -/
  arrayBindingRound {restricted : Fault} (h : restricted ≠ .stalled) (ctx : Context) :
    (Grammar.arrayBindingRound p restricted ctx).Advances n
      (Grammar.arrayBindingRound p' restricted ctx)
  /-- Members of an object pattern. -/
  objectBindingRound {restricted : Fault} (h : restricted ≠ .stalled) (ctx : Context) :
    (Grammar.objectBindingRound p restricted ctx).Advances n
      (Grammar.objectBindingRound p' restricted ctx)
  /-- Parameters. -/
  parameterRound (ctx : Context) :
    (Grammar.parameterRound p ctx).Advances n (Grammar.parameterRound p' ctx)
  /-- Elements of an array literal. -/
  arrayRound (ctx : Context) : (Grammar.arrayRound p ctx).Advances n (Grammar.arrayRound p' ctx)
  /-- Members of an object literal. -/
  objectMember (ctx : Context) :
    (Grammar.objectMember p ctx).Advances n (Grammar.objectMember p' ctx)
  /-- Arguments. -/
  argument (ctx : Context) :
    (Grammar.spreadOr (p.assignment ctx)).Advances n (Grammar.spreadOr (p'.assignment ctx))
  /-- Items of a group. -/
  groupItem (ctx : Context) : (Grammar.groupItem p ctx).Advances n (Grammar.groupItem p' ctx)
  /-- Expressions behind commas. -/
  assignment (ctx : Context) : (p.assignment ctx).Advances n (p'.assignment ctx)
  /-- Variables of a declaration. -/
  declarator (ctx : Context) (inLoopHead : Bool) (kind : VariableKind) :
    (Grammar.declarator p ctx inLoopHead kind).Advances n
      (Grammar.declarator p' ctx inLoopHead kind)
  /-- Entries of an import list. -/
  importSpecifier (ctx : Context) :
    (Grammar.importSpecifier ctx).Advances n (Grammar.importSpecifier ctx)
  /-- Entries of an export list. -/
  exportSpecifier (ctx : Context) :
    (Grammar.exportSpecifier ctx).Advances n (Grammar.exportSpecifier ctx)
  /-- Attributes. -/
  tagAttribute (ctx : Context) :
    (Grammar.tagAttribute p ctx).Advances n (Grammar.tagAttribute p' ctx)
  /-- Links of a chain. -/
  chainLink (ctx : Context) (start : Position) :
    Continues n (Grammar.chainLink p ctx start) (Grammar.chainLink p' ctx start)
  /-- Links behind `new`. -/
  calleeLink (ctx : Context) (start : Position) :
    Continues n (Grammar.calleeLink p ctx start) (Grammar.calleeLink p' ctx start)
  /-- Links behind a call of `async`. -/
  plainLink (ctx : Context) (start : Position) :
    Continues n (Grammar.plainLink p ctx start) (Grammar.plainLink p' ctx start)
  /-- Binary operators with their right sides. -/
  binaryStep (ctx : Context) (start : Position) (least : Nat) :
    Continues n (Grammar.binaryStep p ctx start least) (Grammar.binaryStep p' ctx start least)
  /-- Members of the name of an element. -/
  tagMember (ctx : Context) (start : Position) :
    Continues n (Grammar.tagMember ctx start) (Grammar.tagMember ctx start)
  /-- Pieces of a template, with any rounds. -/
  templateParts (ctx : Context) (tagged : Bool) {rounds rounds' : Nat} (h : n < rounds)
    (h' : n < rounds') (t : Token) :
    Concur n false t (Grammar.templateParts p ctx tagged rounds)
      (Grammar.templateParts p' ctx tagged rounds') Took
  /-- Directives, with any rounds. -/
  prologueFrom (ctx : Context) (octal : Option Token) {rounds rounds' : Nat} (h : n ≤ rounds)
    (h' : n ≤ rounds') (t : Token) :
    Concur n true t (Grammar.prologueFrom p ctx octal rounds)
      (Grammar.prologueFrom p' ctx octal rounds') Took
  /-- Members of a class, with any rounds. -/
  classMembers (ctx : Context) (hasConstructor : Bool) {rounds rounds' : Nat} (h : n ≤ rounds)
    (h' : n ≤ rounds') (t : Token) :
    Concur n true t (Grammar.classMembers p ctx hasConstructor rounds)
      (Grammar.classMembers p' ctx hasConstructor rounds') Took
  /-- Clauses of a switch, with any rounds. -/
  switchCases (ctx : Context) (hasDefault : Bool) {rounds rounds' : Nat} (h : n ≤ rounds)
    (h' : n ≤ rounds') (t : Token) :
    Concur n true t (Grammar.switchCases p ctx hasDefault rounds)
      (Grammar.switchCases p' ctx hasDefault rounds') Took
  /-- Children of an element, with any rounds. -/
  children (ctx : Context) (name : String) {rounds rounds' : Nat} (h : n ≤ rounds)
    (h' : n ≤ rounds') (t : Token) :
    Concur n true t (Grammar.children p ctx name rounds)
      (Grammar.children p' ctx name rounds') Took

/-- Where the productions are ready, so are the loops. -/
theorem Productions.Ready.looping {n : Nat} {p p' : Productions} (hp : Ready n p p') :
    Looping n p p' where
  item := hp.item
  moduleItem _ := hp.moduleItem
  arrayBindingRound h _ := hp.arrayBindingRound h
  objectBindingRound h _ := hp.objectBindingRound h
  parameterRound _ := hp.parameterRound
  arrayRound _ := hp.arrayRound
  objectMember _ := hp.objectMember
  argument _ := spreadOr (hp.assignment _)
  groupItem _ := hp.groupItem
  assignment := hp.assignment
  declarator _ _ _ := hp.declarator
  importSpecifier _ := importSpecifier
  exportSpecifier _ := exportSpecifier
  tagAttribute _ := hp.tagAttribute
  chainLink _ _ _ hm _ _ := (hp.below hm).chainLink
  calleeLink _ _ _ hm _ _ := (hp.below hm).calleeLink
  plainLink _ _ _ hm _ _ := (hp.below hm).plainLink
  binaryStep _ _ _ _ hm _ _ := (hp.below hm).binaryStep
  tagMember _ _ _ _ _ _ := tagMember
  templateParts _ _ _ _ h h' _ := hp.templateParts h h'
  prologueFrom _ _ _ _ h h' _ := hp.prologueFrom h h'
  classMembers _ _ _ _ h h' _ := hp.classMembers h h'
  switchCases _ _ _ _ h h' _ := hp.switchCases h h'
  children _ _ _ _ h h' _ := hp.children h h'

/-! ## Tokens -/

namespace Scan

variable {s s' : Scanner} {t : Token}

/-- Unless it is the end of the source, a token is spelled by something, and less remains. -/
theorem nonempty_of_scanned (h : next s = .ok t s' ∨ nextRegex s = .ok t s') (ht : t.kind ≠ .eof) :
    t.raw ≠ "" ∧ s'.cursor.rest.length < s.cursor.rest.length := by
  have hraw : ∀ {l : List Char}, l ≠ [] → String.ofList l ≠ "" := fun hl h =>
    hl (by simpa using congrArg String.toList h)
  rcases h with h | h
  · refine ⟨?_, next_shorter h (Token.isEof_of_kind ht)⟩
    obtain ⟨f, hf, rfl, -⟩ := next_eq_ok.1 h
    exact hraw (hf.raw_ne_nil ht)
  · refine ⟨?_, nextRegex_shorter h⟩
    obtain ⟨f, hf, rfl, -⟩ := nextRegex_eq_ok.1 h
    exact hraw hf.raw_ne_nil

end Scan

/-- More steps than characters make no difference to trivia. -/
theorem Trivia.readFrom_fuel {html fresh : Bool} {n k : Nat} {l : List Char} (hn : l.length ≤ n)
    (hk : l.length ≤ k) : Trivia.readFrom html n fresh l = Trivia.readFrom html k fresh l := by
  induction n generalizing k l fresh with
  | zero =>
    obtain rfl := List.length_eq_zero_iff.1 (Nat.le_zero.1 hn)
    cases k <;> rfl
  | succ n ih =>
    cases k with
    | zero =>
      obtain rfl := List.length_eq_zero_iff.1 (Nat.le_zero.1 hk)
      rfl
    | succ k =>
      unfold Trivia.readFrom
      cases hf : Front.of html fresh l with
      | token => rfl
      | unclosed => rfl
      | piece piece rest =>
        obtain ⟨rfl, hb⟩ := Front.of_eq_piece hf
        have hpos := List.length_pos_iff.2 hb.chars_ne_nil
        rw [List.length_append] at hn hk
        have hn' : rest.length ≤ n := by omega
        have hk' : rest.length ≤ k := by omega
        exact congrArg (·.push piece) (ih hn' hk')

/-! ## Whole sources -/

section

variable {α : Type} {source : String} {isModule tolerant : Bool} {records : Records}
  {a a' : Parse α}

/-- The first parser of a source has all of its characters in front of it. -/
theorem Parser.within_start {q : Parser} (h : start source isModule tolerant records = .ok q) :
    q.Within source.length false q.lookahead where
  found := found_start h
  lookahead := rfl
  bounded := by
    unfold start at h
    dsimp only at h
    split at h
    · cases h
      exact Nat.le_of_eq String.length_toList
    · cases h
  fewer := nofun

/-- Actions that concur leave the same of a source, and do not run out of rounds. -/
theorem Parse.Concur.onSource {post : α → Bool → Token → Prop}
    (h : ∀ t, Concur (source.length + 1) true t a a' post) :
    a'.onSource source isModule tolerant records = a.onSource source isModule tolerant records ∧
      ∀ e, (a.onSource source isModule tolerant records).result = .error e →
        e.fault ≠ .stalled := by
  unfold Parse.onSource
  cases hstart : Parser.start source isModule tolerant records with
  | error e =>
    refine ⟨rfl, ?_⟩
    rintro _ ⟨⟩
    unfold Parser.start at hstart
    dsimp only at hstart
    split at hstart
    · cases hstart
    · rename_i hscan
      cases hstart
      exact label_ne_stalled (Scan.Spares.next.error hscan)
  | ok q =>
    have hq := Parser.within_start hstart
    obtain ⟨heq, hend⟩ := h _ q ⟨hq.found, hq.lookahead, Nat.le_succ_of_le hq.bounded, fun _ =>
      Nat.lt_succ_of_le hq.bounded⟩
    dsimp only
    rw [heq]
    refine ⟨rfl, fun e he => ?_⟩
    cases hrun : a.run q with
    | ok v r =>
      rw [hrun] at he
      cases he
    | error e' r =>
      rw [hrun] at he hend
      cases he
      exact hend

end

/-- With any depth beyond the number of characters, a source leaves the same, and no bound is the
fault of its failure. -/
theorem onSource_ofDepth {goal : Goal} {tolerant allowsMarkup : Bool} {source : String}
    {records : Records} {depth : Nat} (h : source.length + 2 ≤ depth) :
    (Grammar.program (.ofDepth depth) goal allowsMarkup).onSource source (goal = .module) tolerant
        records = outcomeOf goal tolerant allowsMarkup source records ∧
      ∀ e, (outcomeOf goal tolerant allowsMarkup source records).result = .error e →
        e.fault ≠ .stalled :=
  have hready : (Productions.forSource source).Ready (source.length + 1) (.ofDepth depth) :=
    Productions.ready_ofDepth (by omega) h
  Concur.onSource fun _ => hready.program

/-- Parsing terminates.

The first two parts say of whole sources that any bound on the depth beyond the number of characters
gives the outcome of the parse, and that the parse does not end because of its bound. The next parts
say that of every production and every loop, at any place from which fewer characters remain than
the bounds allow, and that each call and each round takes a token; a parse starts at such a place,
and stays at one. The others say that tokens are spelled by something, and that the bounds of the
loops of the scanner make no difference either. -/
theorem parse_terminates :
    (∀ (goal : Goal) (tolerant allowsMarkup : Bool) (source : String) (records : Records)
      (depth : Nat), source.length + 2 ≤ depth →
        (Grammar.program (.ofDepth depth) goal allowsMarkup).onSource source
        (goal = .module) tolerant
          records = outcomeOf goal tolerant allowsMarkup source records) ∧
    (∀ (o : Options) (source : String) (e : SyntaxError),
      parse o source = .error e → e.fault ≠ .stalled) ∧
    (∀ n depth depth' : Nat, n < depth → n < depth' →
      (Productions.ofDepth depth).Ready n (.ofDepth depth') ∧
        (Productions.ofDepth depth).Looping n (.ofDepth depth')) ∧
    (∀ (source : String) (isModule tolerant : Bool) (records : Records) (q : Parser),
      Parser.start source isModule tolerant records = .ok q →
        q.Within source.length false q.lookahead) ∧
    (∀ (s s' : Scanner) (t : Token), Scan.next s = .ok t s' ∨ Scan.nextRegex s = .ok t s' →
      t.kind ≠ .eof → t.raw ≠ "" ∧ s'.cursor.rest.length < s.cursor.rest.length) ∧
    (∀ (l : List Char) (n k : Nat), l.length < n → l.length < k →
      (∀ html fresh, Trivia.readFrom html n fresh l = Trivia.readFrom html k fresh l) ∧
      (∀ taken escaped, Read.nameFrom n taken escaped l = Read.nameFrom k taken escaped l) ∧
      (∀ quote taken octal,
        Read.stringFrom quote n taken octal l = Read.stringFrom quote k taken octal l) ∧
      (∀ piece, Read.pieceFrom n piece l = Read.pieceFrom k piece l) ∧
      ∀ inClass, Read.regexBody n inClass l = Read.regexBody k inClass l) := by
  refine ⟨fun _ _ _ _ _ _ h => (onSource_ofDepth h).1, fun o source e he => ?_,
    fun n depth depth' h h' => ?_, fun _ _ _ _ _ => Parser.within_start,
      fun _ _ _ => Scan.nonempty_of_scanned, fun l n k hn hk => ?_⟩
  · unfold parse Outcome.parsed at he
    cases hresult : (outcomeOf o.goal o.tolerant o.jsx source o.records).result with
    | ok v =>
      rw [hresult] at he
      cases he
    | error e' =>
      rw [hresult] at he
      obtain rfl := Except.error.inj he
      exact (onSource_ofDepth (Nat.le_refl _)).2 e' hresult
  · have hready := Productions.ready_ofDepth h h'
    exact ⟨hready, hready.looping⟩
  · have hn' := Nat.le_of_lt hn
    have hk' := Nat.le_of_lt hk
    exact ⟨fun _ _ => Trivia.readFrom_fuel hn' hk', fun _ _ => Read.nameFrom_fuel hn' hk',
      fun _ _ _ => Read.stringFrom_fuel hn hk, fun _ => Read.pieceFrom_fuel hn hk,
      fun _ => Read.regexBody_fuel hn hk⟩

/-- A loop with a comment, a list, a call and a group without end is given up for a reason of its
own, and at any greater depth with the same outcome. -/
theorem parse_terminates_nested :
    (∃ e, parse {} "while (a) /**/ [f(b), (c" = .error e ∧ e.fault ≠ .stalled) ∧
    (Grammar.program (.ofDepth 40) .script false).onSource "while (a) /**/ [f(b), (c"
      (Goal.script = .module) false = outcomeOf .script false false "while (a) /**/ [f(b), (c" ∧
    ((Productions.ofDepth 25).Ready 24 (.ofDepth 40) ∧
      (Productions.ofDepth 25).Looping 24 (.ofDepth 40)) ∧
    (∃ q, Parser.start "while (a) /**/ [f(b), (c" false false = .ok q ∧
      q.Within 24 false q.lookahead) ∧
    (∃ t s, Scan.next (.start "while (a) /**/ [f(b), (c" false true) = .ok t s ∧ t.raw ≠ "" ∧
      s.cursor.rest.length < 24) ∧
    Trivia.readFrom false 16 false " /**/ [f(b), (c".toList =
      Trivia.readFrom false 40 false " /**/ [f(b), (c".toList := by
  obtain ⟨depths, stalls, productions, starts, tokens, loops⟩ := parse_terminates
  refine ⟨?_, depths .script false false _ {} 40 (by decide),
    productions 24 25 40 (by decide) (by decide), ?_, ?_,
    (loops _ 16 40 (by decide) (by decide)).1 false false⟩
  · have hfails : (parse {} "while (a) /**/ [f(b), (c").toOption = none := by decide +kernel
    cases h : parse {} "while (a) /**/ [f(b), (c" with
    | ok out =>
      rw [h] at hfails
      cases hfails
    | error e => exact ⟨e, rfl, stalls {} _ e h⟩
  · exact ⟨_, rfl, starts "while (a) /**/ [f(b), (c" false false {} _ rfl⟩
  · exact ⟨_, _, rfl, tokens (.start "while (a) /**/ [f(b), (c" false true) _ _ (.inl rfl)
      (by decide)⟩

end Verbatim
