import Verbatim.Proofs.Comments
import Verbatim.Proofs.Course.Source
import Verbatim.Proofs.Layout.Parts
import Verbatim.Proofs.Partition

/-!
# The extents of a parsed program

An expression or statement prints the trivia in front of its first token, and then what the source
is in its extent, which reaches from the start of that token to the end of the last one.
Every extent lies in the source, and within that of the construct around it. Only the extent of a
program without tokens is none, since it ends where no token was read yet.

## Main definitions

* `Verbatim.Program.Has`, `Verbatim.Program.HasSpan`, `Verbatim.Program.Encloses` — what occurs in a
  program.
* `Verbatim.Occupies` — a text is that of a range, behind the trivia in front of it.
* `Verbatim.Span.Fills` — the selected extent between two points of a source.

## Main results

* `Verbatim.parse_extents` — expressions and statements print what the source is in their extents.
* `Verbatim.parse_spans` — the extents of a program lie in the source, one within the other.
-/

namespace Verbatim

open Verbatim.Layout Verbatim.Text

/-! ## What occurs in a program -/

namespace Program

/-- The layout of the body. -/
def layout (p : Program) : Layout := .part .standalone (Tree.ofList p.body)

/-- A tree in its setting occurs in a program. -/
def Has {c : Category} (p : Program) (s : Setting) (x : Tree c) : Prop :=
    Within (.part s x) p.layout

/-- An extent occurs in the body of a program. -/
def HasSpan (p : Program) (span : Span) : Prop := p.layout.HasSpan span

/-- An extent occurs in a program within another one. -/
def Encloses (p : Program) (outer inner : Span) : Prop :=
  ∃ body, Within (.node outer body) p.layout ∧ body.HasSpan inner

@[simp]
theorem print_layout (p : Program) : p.layout.print = concat (p.body.map (·.print)) :=
  congrArg concat (Tree.texts_ofList p.body .standalone)

theorem layout_mapSpans (f : Span → Span) (p : Program) :
    (p.mapSpans f).layout = p.layout.visit (m := Id) (.ofSpan f) := by
  rw [layout, mapSpans_eq]
  change Layout.part .standalone (Tree.ofList (p.body.map (·.mapSpans f))) =
    .part .standalone ((Tree.ofList p.body).mapSpans f)
  rw [Tree.mapSpans_ofList]

end Program

section

variable {o : Options} {source : String} {r : Reading o source}

/-- The tokens that a parse consumes divide its source. -/
theorem Reading.divided (r : Reading o source) :
    Divided 0 source.toList ((consumed o source).map (·.1)) r.behind.cursor.position.offset
      r.behind.cursor.rest := r.walk.divided

/-- The selected program is laid out over the tokens that the parse consumes. -/
theorem Reading.Along.laid {c c' : Course source} (hc : r.Along c c') :
    (r.program.mapSpans (·.select o)).layout.Laid (·.select o) ((consumed o source).map (·.1)) := by
  obtain ⟨us, hmoves, hlaid⟩ := hc.body
  have htaken := hmoves.taken
  rw [hc.taken, List.nil_append, hc.all_taken] at htaken
  rw [htaken, Program.layout_mapSpans]
  exact hlaid.mapSpans (·.select o)

/-- If a program prints its source, then its body prints what the tokens spell. -/
theorem Reading.print_layout (r : Reading o source) {p : Program} (ht : p.tail = r.program.tail)
    (hp : p.print = source) : p.layout.print = textOf ((consumed o source).map (·.1)) := by
  have hsource := r.divided.text_eq
  rw [String.ofList_toList, ← r.tail_spec.1, ← ht] at hsource
  rw [Program.print_layout]
  exact (String.append_left_inj _).1 (hp.trans hsource)

end

/-! ## Texts in their extents -/

/-- The end of the last range that does not reach behind an offset. -/
def lastStop (ranges : List (Nat × Nat)) (offset : Nat) : Nat :=
  ((ranges.filter (·.2 ≤ offset)).getLast?.map (·.2)).getD 0

/-- In a source with tokens in the given ranges, a text is what lies in a range, behind the trivia
in front of it. -/
structure Occupies (source : String) (tokens : List (Nat × Nat)) (range : Nat × Nat)
    (lead body : String) : Prop where
  /-- The trivia is what lies between the token before and the range. -/
  lead : ∃ rest, IsSlice source.toList (lastStop tokens range.1, range.1) lead.toList rest ∧
    IsTriviaAt (lastStop tokens range.1) lead.toList rest
  /-- The text is what lies in the range. -/
  body : ∃ rest, IsSlice source.toList range body.toList rest

namespace Divided

variable {offset offset' : Nat} {text rest : List Char} {ts us : List Token}

/-- A text is divided at each of its tokens. -/
theorem append_inv (h : Divided offset text (ts ++ us) offset' rest) :
    ∃ mid between, Divided offset text ts mid between ∧ Divided mid between us offset' rest := by
  induction ts generalizing offset text with
  | nil => exact ⟨offset, text, .nil, h⟩
  | cons t ts ih =>
    cases h with
    | cons trivia notEmpty lead_eq raw_eq start stop behind =>
      obtain ⟨mid, between, hts, hus⟩ := ih behind
      exact ⟨mid, between, .cons trivia notEmpty lead_eq raw_eq start stop hts, hus⟩

/-- The text behind some tokens begins where the last of them ends. -/
theorem stop_eq (h : Divided offset text ts offset' rest) :
    (ts.getLast?.map (·.stop.offset)).getD offset = offset' := by
  induction h with
  | nil => rfl
  | @cons _ _ _ _ _ _ t tokens _ _ _ _ _ _ _ ih =>
    rw [List.getLast?_cons]
    cases hl : tokens.getLast? with
    | none => rw [hl] at ih; exact ih
    | some last => rw [hl] at ih; exact ih

/-- The characters of a divided text. -/
theorem chars_eq (h : Divided offset text ts offset' rest) :
    text = (textOf ts).toList ++ rest := by
  have htext := congrArg String.toList h.text_eq
  rwa [String.toList_ofList, String.toList_append, String.toList_ofList] at htext

/-- No token in front of the given one reaches behind its start, and all others do. -/
theorem lastStop_eq {front back : List Token} {t : Token}
    (h : Divided 0 text (front ++ t :: back) offset' rest) :
    lastStop ((front ++ t :: back).map Token.range) t.start.offset =
      (front.getLast?.map (·.stop.offset)).getD 0 := by
  have hfront : ∀ u ∈ front, u.stop.offset ≤ t.start.offset := fun u hu =>
    (List.pairwise_append.1 h.pairwise).2.2 u hu t List.mem_cons_self
  have hback : ∀ u ∈ t :: back, ¬ u.stop.offset ≤ t.start.offset := by
    intro u hu hle
    have hlt := h.start_lt_stop u (List.mem_append_right _ hu)
    rcases List.mem_cons.1 hu with rfl | hu
    · omega
    · have := (List.pairwise_cons.1 (List.pairwise_append.1 h.pairwise).2.1).1 u hu
      have := h.start_lt_stop t (List.mem_append_right _ List.mem_cons_self)
      omega
  have hfilter : ((front ++ t :: back).map Token.range).filter (·.2 ≤ t.start.offset) =
      front.map Token.range := by
    rw [List.map_append, List.filter_append, List.filter_eq_self.2, List.filter_eq_nil_iff.2,
      List.append_nil]
    · intro range hr
      obtain ⟨u, hu, rfl⟩ := List.mem_map.1 hr
      exact fun hd => hback u hu (of_decide_eq_true hd)
    · intro range hr
      obtain ⟨u, hu, rfl⟩ := List.mem_map.1 hr
      exact decide_eq_true (hfront u hu)
  rw [lastStop, hfilter, List.getLast?_map, Option.map_map]
  rfl

/-- What some tokens spell, one behind the other, is what lies in their range. -/
theorem occupies {source : String} {front mid back : List Token} {first last : Token}
    (h : Divided 0 source.toList (front ++ mid ++ back) offset' rest)
    (hf : mid.head? = some first) (hl : mid.getLast? = some last) :
    ∃ lead body, textOf mid = lead ++ body ∧ Occupies source
      ((front ++ mid ++ back).map Token.range) (first.start.offset, last.stop.offset)
      lead body := by
  obtain ⟨tokens, rfl⟩ : ∃ tokens, mid = first :: tokens := by
    cases mid with
    | nil => cases hf
    | cons t tokens => exact ⟨tokens, by rw [Option.some.inj hf]⟩
  have hstop := h
  rw [List.append_assoc, List.cons_append] at hstop ⊢
  have hbefore := hstop.lastStop_eq
  obtain ⟨start, between, hfront, hrest⟩ := hstop.append_inv
  rw [← List.cons_append] at hrest
  obtain ⟨stop, after, hmid, -⟩ := hrest.append_inv
  rw [hfront.stop_eq] at hbefore
  have hsource := hfront.chars_eq
  have hoffset := hfront.offset_eq
  have hlast := hmid.stop_eq
  rw [hl] at hlast
  cases hmid with
  | @cons _ _ lead raw rest₁ _ _ _ trivia notEmpty lead_eq raw_eq start_eq stop_eq behind =>
    have htokens := behind.chars_eq
    have hend := behind.offset_eq
    have hlast : last.stop.offset = stop := hlast
    have hbody : (first.raw ++ textOf tokens).toList = raw ++ (textOf tokens).toList := by
      rw [String.toList_append, raw_eq, String.toList_ofList]
    have hstart : start = byteLength (textOf front).toList := by
      rw [hsource, byteLength_append] at hoffset
      omega
    refine ⟨first.lead, first.raw ++ textOf tokens, ?_, ⟨raw ++ rest₁, ?_, ?_⟩, after, ?_⟩
    · change textOf ([first] ++ tokens) = _
      rw [textOf_append, textOf_singleton, String.append_assoc]
    · rw [hbefore, lead_eq, String.toList_ofList]
      exact ⟨(textOf front).toList, by rw [hsource]; simp only [List.append_assoc], hstart,
        by rw [start_eq, hstart]⟩
    · rw [hbefore, lead_eq, String.toList_ofList]
      exact trivia
    · refine ⟨(textOf front).toList ++ lead, ?_, ?_, ?_⟩
      · rw [hbody, hsource, htokens]
        simp only [List.append_assoc]
      · rw [byteLength_append, ← hstart, ← start_eq]
      · rw [hbody, byteLength_append, byteLength_append, ← hstart, ← start_eq]
        rw [htokens, byteLength_append] at hend
        omega

end Divided

/-- Each expression and statement prints the trivia that lies between the token before it and its
first token, and then what the source is in its range. Only functions stand in the setting of a
method. -/
theorem parse_extents (o : Options) (source : String) (out : Parsed) (hr : o.range = true)
    (h : parse o source = .ok out) (hp : out.program.print = source) {c : Category}
    (hc : c = .expr ∨ c = .stmt) (s : Setting) (x : Tree c) (hx : out.program.Has s x) :
    x.fits s = true ∧ (∃ span, (Layout.part s x).HasExtent span) ∧
      ∀ span, (Layout.part s x).HasExtent span → ∃ range lead body, span.range = some range ∧
        x.printIn s = lead ++ body ∧
        Occupies source ((consumed o source).map (·.1.range)) range lead body := by
  obtain ⟨r, rfl⟩ := Reading.of_parse h
  obtain ⟨first, last, hcourse⟩ := r.along
  obtain ⟨front, mid, back, htokens, hmid, hprint⟩ := hcourse.laid.within hx
  have hfits : x.fits s = true := by
    cases hmid with
    | part _ fits => exact fits
  refine ⟨hfits, exists_hasExtent hc s x, fun span hspan => ?_⟩
  obtain ⟨t, u, ht, hu, rfl⟩ := hmid.covers hspan
  have hdivided := r.divided
  rw [htokens] at hdivided
  obtain ⟨lead, body, htext, hoccupies⟩ := hdivided.occupies ht hu
  have hranges : (consumed o source).map (·.1.range) =
      ((consumed o source).map (·.1)).map Token.range := by
    rw [List.map_map]
    rfl
  refine ⟨_, lead, body, if_pos hr, ?_, ?_⟩
  · rw [← htext]
    exact hprint (r.print_layout rfl hp)
  · rw [hranges, htokens]
    exact hoccupies

/-- The first statement of a program occurs in it. -/
theorem Program.Has.head {p : Program} {stmt : Stmt} {rest : List Stmt}
    (h : p.body = stmt :: rest) : p.Has .standalone stmt := by
  rw [Has, layout, h]
  exact .part (.first .refl)

/-- A statement behind a comment and in front of another one. -/
theorem parse_extents_group : ∃ out value ending lead body,
    parse { range := true } "/*a*/ (b) ; c" = .ok out ∧ out.program.print = "/*a*/ (b) ; c" ∧
      out.program.Has .standalone (.exprStmt value none ending { range := some (6, 11) }) ∧
      (Tree.exprStmt value none ending { range := some (6, 11) }).print = lead ++ body ∧
      Occupies "/*a*/ (b) ; c" ((consumed { range := true } "/*a*/ (b) ; c").map
        (·.1.range)) (6, 11)
        lead body := by
  obtain ⟨out, h⟩ : ∃ out, parse { range := true } "/*a*/ (b) ; c" = .ok out :=
    exists_of_isOk (by decide +kernel)
  have hfirst : (parse { range := true } "/*a*/ (b) ; c").toOption.map (fun out =>
      (out.program.print, out.program.body)) = some ("/*a*/ (b) ; c",
        [.exprStmt (.parenthesized "/*a*/ "
            (.identifier { name := "b", raw := "b", span := { range := some (7, 8) } }) ""
            { range := some (6, 9) }) none { lead := " " } { range := some (6, 11) },
          .exprStmt (.identifier
            { lead := " ", name := "c", raw := "c", span := { range := some (12, 13) } })
            none .inserted { range := some (12, 13) }]) := by decide +kernel
  rw [h] at hfirst
  obtain ⟨hprint, hbody⟩ := Prod.mk.inj (Option.some.inj hfirst)
  have hhas := Program.Has.head hbody
  obtain ⟨-, -, hall⟩ := parse_extents { range := true } _ out rfl h hprint (.inr rfl) _ _ hhas
  obtain ⟨range, lead, body, hrange, htext, hoccupies⟩ := hall _ (.part .node)
  obtain rfl : (6, 11) = range := Option.some.inj hrange
  exact ⟨out, _, _, lead, body, h, hprint, hhas, htext, hoccupies⟩

/-! ## Extents in the source -/

/-- The selected extent between two points of a source. -/
def Span.Fills (o : Options) (source : String) (span : Span) : Prop :=
  ∃ start stop : Position, span = (Span.between start stop).select o ∧ start.IsOf source ∧
    stop.IsOf source ∧ start.offset ≤ stop.offset

/-- The range of an extent lies within that of another one. -/
def Span.LiesIn (outer inner : Span) : Prop :=
  ∃ range range', outer.range = some range ∧ inner.range = some range' ∧ range.1 ≤ range'.1 ∧
    range'.2 ≤ range.2

theorem Span.Lies.fills {o : Options} {source : String} {low high : Nat} {span : Span}
    (h : span.Lies source low high) : (span.select o).Fills o source := by
  obtain ⟨start, stop, rfl, hstart, hstop, -, hle, -⟩ := h
  exact ⟨start, stop, rfl, hstart, hstop, hle⟩

theorem Span.Lies.liesIn {o : Options} {source : String} {start stop : Position} {span : Span}
    (h : span.Lies source start.offset stop.offset) (hr : o.range = true) :
    ((Span.between start stop).select o).LiesIn (span.select o) := by
  obtain ⟨start', stop', rfl, -, -, hlow, -, hhigh⟩ := h
  exact ⟨_, _, if_pos hr, if_pos hr, hlow, hhigh⟩

/-- Tokens in a source, each behind those before it. -/
structure InSource (source : String) (tokens : List Token) : Prop where
  /-- They stand in the source. -/
  lies : ∀ t ∈ tokens, t.Lies source
  /-- Each of them stands behind those before it. -/
  ordered : tokens.Pairwise fun t u => t.stop.offset ≤ u.start.offset

namespace InSource

variable {source : String} {front mid back tokens : List Token} {first last : Token}

theorem infix_of (h : InSource source (front ++ mid ++ back)) : InSource source mid := by
  have hmid := (List.pairwise_append.1 h.ordered).1
  exact ⟨fun t ht => h.lies t (List.mem_append_left _ (List.mem_append_right _ ht)),
    (List.pairwise_append.1 hmid).2.1⟩

/-- All tokens lie between the start of the first and the end of the last. -/
theorem bounds (h : InSource source tokens) (hf : tokens.head? = some first)
    (hl : tokens.getLast? = some last) :
    ∀ t ∈ tokens, first.start.offset ≤ t.start.offset ∧ t.stop.offset ≤ last.stop.offset := by
  intro t ht
  obtain ⟨before, behind, rfl⟩ := List.append_of_mem ht
  have hfront := List.pairwise_append.1 h.ordered
  constructor
  · cases before with
    | nil =>
      cases hf
      exact Nat.le_refl _
    | cons u before =>
      cases hf
      have := (h.lies first (by simp)).forward
      have := hfront.2.2 first List.mem_cons_self t List.mem_cons_self
      omega
  · cases hb : behind.getLast? with
    | none =>
      obtain rfl := List.getLast?_eq_none_iff.1 hb
      rw [List.getLast?_concat] at hl
      cases hl
      exact Nat.le_refl _
    | some u =>
      rw [List.getLast?_append, List.getLast?_cons, hb] at hl
      cases hl
      have hmem := List.mem_of_getLast? hb
      have := (h.lies u (by simp [hmem])).forward
      have := (List.pairwise_cons.1 hfront.2.1).1 u hmem
      change t.stop.offset ≤ u.stop.offset
      omega

end InSource

/-- An extent in a layout is that of some of its tokens, or none. -/
theorem Layout.Laid.span_lies {g : Span → Span} {source : String} {l : Layout} {span : Span}
    {low high : Nat} {tokens : List Token} (h : l.Laid g tokens) (hs : l.HasSpan span)
    (ht : InSource source tokens)
    (hb : ∀ t ∈ tokens, low ≤ t.start.offset ∧ t.stop.offset ≤ high) :
    span = g {} ∨ ∃ inner : Span, span = g inner ∧ inner.Lies source low high := by
  have hleaf : ∀ {t : Token} {span : Span}, t.Lies source →
      low ≤ t.start.offset ∧ t.stop.offset ≤ high → span = g (.between t.start t.stop) →
      span = g {} ∨ ∃ inner : Span, span = g inner ∧ inner.Lies source low high :=
    fun hl hb hs => .inr ⟨_, hs, _, _, rfl, hl.start, hl.stop, hb.1, hl.forward, hb.2⟩
  have hpair : ∀ {ts us : List Token}, InSource source (ts ++ us) →
      InSource source ts ∧ InSource source us := fun {ts us} h =>
    ⟨InSource.infix_of (show InSource source ([] ++ ts ++ us) from h),
      InSource.infix_of (show InSource source (ts ++ us ++ []) by simpa using h)⟩
  induction h with
  | token => cases hs
  | loose => cases hs
  | hidden =>
    cases hs with
    | hidden inner => cases inner
  | ident lead raw span_eq =>
    cases hs with
    | ident h => exact hleaf (ht.lies _ (by simp)) (hb _ (by simp)) (h ▸ span_eq)
  | literal lead raw span_eq =>
    cases hs with
    | literal h => exact hleaf (ht.lies _ (by simp)) (hb _ (by simp)) (h ▸ span_eq)
  | markup kind lead raw span_eq =>
    cases hs with
    | markup h => exact hleaf (ht.lies _ (by simp)) (hb _ (by simp)) (h ▸ span_eq)
  | part _ _ ih =>
    cases hs with
    | part inner => exact ih inner ht hb
  | seq _ _ ih ih' =>
    obtain ⟨hts, hus⟩ := hpair ht
    cases hs with
    | first inner => exact ih inner hts fun t h => hb t (List.mem_append_left _ h)
    | rest inner => exact ih' inner hus fun t h => hb t (List.mem_append_right _ h)
  | list _ ih =>
    cases hs with
    | list inner => exact ih inner ht hb
  | node _ covers ih =>
    cases hs with
    | inside inner => exact ih inner ht hb
    | node =>
      obtain ⟨first, last, hfirst, hlast, hspan⟩ := covers
      have hf := List.mem_of_mem_head? hfirst
      have hl := List.mem_of_getLast? hlast
      exact .inr ⟨_, hspan, _, _, rfl, (ht.lies _ hf).start, (ht.lies _ hl).stop, (hb _ hf).1,
        start_le_stop ht.lies ht.ordered hfirst hlast, (hb _ hl).2⟩
  | @gap _ _ _ ts us t u _ _ last head span_eq ih ih' =>
    obtain ⟨hts, hus⟩ := hpair ht
    have hl := List.mem_of_getLast? last
    have hf := List.mem_of_mem_head? head
    cases hs with
    | gapFirst inner => exact ih inner hts fun t h => hb t (List.mem_append_left _ h)
    | gapRest inner => exact ih' inner hus fun t h => hb t (List.mem_append_right _ h)
    | gap =>
      have hlow := hb t (List.mem_append_left _ hl)
      have hhigh := hb u (List.mem_append_right _ hf)
      have hforward := (hts.lies t hl).forward
      have hforward' := (hus.lies u hf).forward
      exact .inr ⟨_, span_eq, _, _, rfl, (hts.lies t hl).stop, (hus.lies u hf).start, by omega,
        (List.pairwise_append.1 ht.ordered).2.2 t hl u hf, by omega⟩
  | shorthand _ head span_eq ih =>
    cases hs with
    | shorthand inner => exact ih inner ht hb
    | key inner =>
      cases inner with
      | ident h =>
        have hmem := List.mem_of_mem_head? head
        rcases span_eq with span_eq | span_eq
        · exact hleaf (ht.lies _ hmem) (hb _ hmem) (h ▸ span_eq)
        · exact .inl (h ▸ span_eq)

/-- An extent within that of a node is within its range, or none. -/
theorem Layout.Laid.encloses {o : Options} {source : String} {l body : Layout} {outer inner : Span}
    {tokens : List Token} (h : l.Laid (·.select o) tokens) (hn : Within (.node outer body) l)
    (hs : body.HasSpan inner) (ht : InSource source tokens) (hr : o.range = true) :
    inner = {} ∨ outer.LiesIn inner := by
  obtain ⟨front, mid, back, rfl, hmid, -⟩ := h.within hn
  cases hmid with
  | node hbody covers =>
    obtain ⟨first, last, hfirst, hlast, rfl⟩ := covers
    have hsource := ht.infix_of
    rcases hbody.span_lies hs hsource (hsource.bounds hfirst hlast) with hnone | ⟨span, rfl, hspan⟩
    · refine .inl (hnone.trans ?_)
      simp [Span.select]
    · exact .inr (hspan.liesIn hr)

/-- The tokens of a course stand in the source. -/
theorem Course.inSource {source : String} (c : Course source) : InSource source c.taken :=
  ⟨fun t ht => c.lies t (List.mem_append_left _ ht), (List.pairwise_append.1 c.ordered).1⟩

/-- The extents of a parse, of which the options select the ranges. -/
structure Spanned (o : Options) (source : String) (out : Parsed) : Prop where
  /-- Each extent in the body lies in the source, unless it is none. -/
  fills : ∀ span, out.program.HasSpan span → span = {} ∨ span.Fills o source
  /-- It lies within that of each node around it. -/
  encloses : ∀ outer inner, out.program.Encloses outer inner → inner = {} ∨ outer.LiesIn inner
  /-- The extent of a program with tokens lies in the source, around all others. -/
  program : consumed o source ≠ [] → out.program.span.Fills o source ∧
    ∀ span, out.program.HasSpan span → span = {} ∨ out.program.span.LiesIn span
  /-- The extent of a program without tokens starts at the end of the source, and ends at no point
  of it. -/
  empty : consumed o source = [] →
    out.program.span = (Span.between (pointAt source (byteLength source.toList)) {}).select o
  /-- The extents of the nodes that are finished in front of the program lie in the source. -/
  nodes : ∀ node ∈ (parseNodes o source).1, node.kind ≠ .program → node.span.Fills o source

/-- The extents of a parse lie in its source, one within the other. Only that of a program without
tokens ends where no token was read. -/
theorem parse_spans (o : Options) (source : String) (out : Parsed) (hr : o.range = true)
    (h : parse o source = .ok out) : Spanned o source out := by
  obtain ⟨r, rfl⟩ := Reading.of_parse h
  obtain ⟨c, c', hcourse⟩ := r.along
  have hsource := c'.inSource
  rw [hcourse.all_taken] at hsource
  obtain ⟨us, hmoves, -⟩ := hcourse.body
  have hus := hmoves.taken
  rw [hcourse.taken, List.nil_append, hcourse.all_taken] at hus
  subst hus
  have hprogram : (Parsed.select o r.program r.last).program.span =
      (Span.between c.ahead.start c'.lastEnd).select o := by
    rw [← hcourse.span]
    rfl
  have hnone : ({} : Span).select o = {} := by simp [Span.select]
  refine ⟨fun span hs => ?_, fun outer inner ⟨body, hn, hs⟩ =>
    hcourse.laid.encloses hn hs hsource hr, fun hne => ?_, fun hnil => ?_, fun node hn hk => ?_⟩
  · rcases hcourse.laid.span_lies hs hsource fun t ht =>
      ⟨Nat.zero_le _, (hsource.lies t ht).stop.boundary.le⟩ with hspan | ⟨inner, rfl, hinner⟩
    · exact .inl (hspan.trans hnone)
    · exact .inr hinner.fills
  · have hne : (consumed o source).map (·.1) ≠ [] := by simpa using hne
    obtain ⟨first, last, hfirst, hlast, hcovers⟩ := hmoves.covers hne
    have hbounds := hsource.bounds hfirst hlast
    rw [hprogram, hcovers]
    have hf := List.mem_of_mem_head? hfirst
    have hl := List.mem_of_getLast? hlast
    refine ⟨⟨_, _, rfl, (hsource.lies _ hf).start, (hsource.lies _ hl).stop,
      start_le_stop hsource.lies hsource.ordered hfirst hlast⟩, fun span hs => ?_⟩
    rcases hcourse.laid.span_lies hs hsource hbounds with hspan | ⟨inner, rfl, hinner⟩
    · exact .inl (hspan.trans hnone)
    · exact .inr (hinner.liesIn hr)
  · have hidle := hmoves.idle (by rw [hnil]; rfl)
    have hlast : c'.lastEnd = {} := by
      rw [Course.lastEnd, hcourse.all_taken, hnil]
      rfl
    have hstart := c'.ahead_lies.start.eq
    rw [← hcourse.ahead, r.eof_start, hcourse.ahead, hidle.2.start] at hstart
    rw [hprogram, hlast, hstart]
  · rw [parseNodes_eq_select] at hn
    obtain ⟨record, hrecord, rfl⟩ := List.mem_map.1 hn
    rw [outcomeOf_eq r.start_eq r.run_eq, hcourse.last] at hrecord
    rcases List.mem_append.1 hrecord with hrecord | hrecord
    · exact (c'.bounded record hrecord).fills
    · obtain rfl := List.mem_singleton.1 hrecord
      exact absurd rfl hk

/-- The extent of the program of an empty source ends on no line, as lines count from one. -/
theorem parse_spans_empty : ∃ out, parse { range := true, location := true } "" = .ok out ∧
    out.program.span.location = some { start := ⟨1, 0, 0⟩, stop := ⟨0, 0, 0⟩ } := by
  obtain ⟨out, h⟩ : ∃ out, parse { range := true, location := true } "" = .ok out :=
    exists_of_isOk (by decide +kernel)
  have hspan := (parse_spans { range := true, location := true } "" out rfl h).empty
    (by decide +kernel)
  refine ⟨out, h, ?_⟩
  rw [hspan]
  decide

end Verbatim
