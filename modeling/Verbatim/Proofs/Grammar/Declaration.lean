import Verbatim.Proofs.Grammar.Assignment

/-!
# Declarations of variables are tracked

## Main results

* `Verbatim.Tracks.variableList`, `Verbatim.Tracks.variableStatement`.
-/

namespace Verbatim

open Verbatim.Grammar

/-- The text of the parts of a declaration. -/
def Grammar.Variables.print (v : Variables) : String :=
  v.lead ++ (v.kind.text ++ joinList (v.items.map (·.print)) v.separators)

theorem Grammar.Variables.print_declare (v : Variables) (ending : Option Terminator) (span : Span) :
    (v.declare ending span).print = v.print ++ printTerminator ending := by
  simp [Variables.declare, Tree.print_eq, Variables.print, String.append_assoc]

/-- A token is a word that declares variables. -/
structure Declares (t : Token) : Prop where
  /-- It is a word. -/
  word : t.kind = .identifier ∨ t.kind = .keyword
  /-- It spells a kind of variables. -/
  spelling : (variableKind t.raw).text = t.raw

namespace Declares

variable {t : Token}

theorem keyword {spelling : String} (h : t.isKeyword spelling = true)
    (hs : (variableKind spelling).text = spelling) : Declares t := by
  obtain ⟨hk, rfl⟩ : t.kind = .keyword ∧ t.raw = spelling := by simpa [Token.isKeyword] using h
  exact ⟨.inr hk, hs⟩

theorem «let» (h : t.isWord "let" = true) : Declares t := by
  obtain ⟨⟨hk, -⟩, hr⟩ : (t.kind = .identifier ∧ t.escaped = false) ∧ t.raw = "let" := by
    simpa [Token.isWord] using h
  exact ⟨.inl hk, by rw [hr]; rfl⟩

theorem spells (h : Declares t) : t.Spells (.word t.lead (variableKind t.raw).text) := by
  rw [h.spelling]
  rcases h.word with hk | hk <;> exact .plain (by simp [hk])

theorem raw [Exchange] (h : Declares t) {t' : Token} (ht : Alike t t') : t'.raw = t.raw := by
  rcases h.word with hk | hk <;> exact ht.raw (by simp [hk])

end Declares

variable [Exchange]

namespace Alike

theorem missingValue {target target' : Pattern} (h : Alike target target') (kind : VariableKind) :
    missingValue? kind target' = missingValue? kind target := by
  unfold missingValue?
  rw [h.isNamePattern]

/-- The parts of alike declarations. -/
theorem declared {v v' : Variables} (h : Alike v v') :
    v'.lead = v.lead ∧ v'.kind = v.kind ∧ Alike v.items v'.items ∧
      v'.separators = v.separators := by
  obtain ⟨lead, kind, items, separators⟩ := v
  obtain ⟨lead', kind', items', separators'⟩ := v'
  obtain ⟨rfl, rfl, hitems, rfl⟩ := Variables.mk.inj h
  exact ⟨rfl, rfl, hitems, rfl⟩

theorem declare {v v' : Variables} (h : Alike v v') (ending : Option Terminator)
    (span span' : Span) : Alike (v.declare ending span) (v'.declare ending span') := by
  obtain ⟨hlead, hkind, hitems, hseps⟩ := h.declared
  refine .of_tree ?_
  simp [Variables.declare, hlead, hkind, hseps, hitems.trees]

end Alike

namespace Tracks

variable {β : Type} [Placed β] {owed : List Nat} {fuel k : Nat} {m m' : Mode} {t t' : Token}
  {ctx : Context} {p p' : Productions} {inLoopHead : Bool} {kind : VariableKind}

/-- The value of a variable, if it has one. -/
theorem variableValue (hp : Mirrors p p' k) {target target' : Pattern}
    (htarget : Alike target target') (ht : Alike t t') :
    Tracks [] k .normal .normal t t' (Grammar.variableValue p ctx inLoopHead kind target)
      (Grammar.variableValue p' ctx inLoopHead kind target') fun v tr _ => Spells v.print tr := by
  have habsent : Tracks [] k .normal .normal t t' (Pure.pure Tree.absent) (Pure.pure Tree.absent)
      fun v tr _ => Spells (v : Tree (.maybe .initializer)).print tr :=
    pure ⟨by simp [Tree.print_eq], fun _ => rfl⟩ (.refl _ rfl)
  unfold Grammar.variableValue
  refine look ht (ite (ht.isPunctuator _) (fun hs => ?_) fun _ => ?_)
  · refine lead notTag ht (.punctuator hs) fun u u' hu => bind (by omega) (hp.assignment _ hu) ?_
    rintro e e' tr v v' ⟨he, -, -⟩ ha hv
    refine pure ⟨?_, ?_⟩ (.of_tree (by simp [ha.tree]))
    · simp [Tree.print_eq, he.text_eq, String.append_assoc]
    · simp [he.nest_eq]
  · rw [htarget.missingValue]
    refine ite rfl (fun _ => ?_) fun _ => habsent
    cases missingValue? kind target with
    | some fault => exact stuck (by simp)
    | none => exact habsent

/-- A single variable. -/
theorem declarator (hp : Mirrors p p' k) :
    Follows k (Grammar.declarator p ctx inLoopHead kind)
      (Grammar.declarator p' ctx inLoopHead kind) Prints := by
  intro t t' ht
  unfold Grammar.declarator
  refine here ht (bind (by omega) (hp.binding _ _ ht) ?_)
  rintro q q' tr u u' ⟨hq, hc⟩ ha hu
  have hany : ∀ q : Pattern, q.boundNames.any (·.name == "let") =
      (q.boundNames.map (·.name)).any (· == "let") := by
    simp [List.any_map, Function.comp_def]
  refine checked hu (by rw [hany, hany, ha.names]) (bind (by omega) (variableValue hp ha hu) ?_)
  rintro v v' tr' w w' hv hvv hw
  refine finish (by decide) hw fun span span' => pure ⟨⟨?_, ?_⟩, Trace.append_pos hc⟩ ?_
  · simp [Tree.print_eq, hq.text_eq, hv.text_eq]
  · simp [hq.nest_eq, hv.nest_eq]
  · exact .of_tree (by simp [ha.tree, hvv.tree])

/-- The parts of a declaration. -/
theorem variableList (hp : Mirrors p p' k) (ht : Alike t t') (hd : Declares t) :
    Tracks [] (k + 1) .normal .normal t t' (Grammar.variableList p ctx inLoopHead)
      (Grammar.variableList p' ctx inLoopHead) fun v tr _ => Spells v.print tr ∧ 0 < tr.count := by
  have hr := hp.rounds
  have hitem : ∀ kind, Follows k (Grammar.declarator p ctx inLoopHead kind)
      (Grammar.declarator p' ctx inLoopHead kind) fun v tr _ => Spells v.print tr :=
    fun kind _ _ hu => imp (declarator hp hu) fun v tr u h => h.1
  unfold Grammar.variableList
  dsimp only
  refine next notTag ht hd.spells fun u u' hu => ?_
  rw [hd.raw ht]
  refine bind (by omega) (hitem _ hu) ?_
  rintro v v' tr w w' hv hvv hw
  refine seq (afterCommas (by omega) (by omega) (hitem _) _ hw) ?_
  rintro ⟨vs, seps⟩ ⟨vs', seps'⟩ tr' x x' hvs ha hx
  obtain ⟨has, hseps⟩ := alike_prod.1 ha
  obtain rfl := alike_list_string.1 hseps
  refine pure ⟨⟨?_, ?_⟩, Trace.append_pos Nat.one_pos⟩ ?_
  · simp [Variables.print, hv.text_eq, (hvs _).text_eq, String.append_assoc]
  · simp [hv.nest_eq, (hvs "").nest_eq]
  · change Variables.mk _ _ (expected (v :: vs)) _ = Variables.mk _ _ (unplace (v' :: vs')) _
    rw [ht.lead, (alike_cons.2 ⟨hvv, has⟩).eq]

/-- A declaration as a statement. -/
theorem variableStatement (hp : Mirrors p p' k) (ht : Alike t t') (hd : Declares t) :
    Tracks [] (k + 1) .normal .normal t t' (Grammar.variableStatement p ctx)
      (Grammar.variableStatement p' ctx) Prints := by
  unfold Grammar.variableStatement
  refine here ht (bind (by omega) (variableList hp ht hd) ?_)
  rintro v v' tr u u' ⟨hv, hc⟩ ha hu
  refine seq (terminator hu) ?_
  rintro e e' tr' w w' he hee hw
  obtain rfl := alike_terminator.1 hee
  refine finish (by decide) hw fun span span' => pure ⟨⟨?_, ?_⟩, Trace.append_pos hc⟩ ?_
  · rw [Tree.print_eq, Tree.texts_declarationStmt, ← Tree.print_eq, Variables.print_declare]
    simp [hv.text_eq, he.text_eq, printTerminator]
  · simp [hv.nest_eq, he.nest_eq]
  · refine .of_tree ?_
    rw [Tree.retouch_declarationStmt, Tree.retouch_declarationStmt,
      (ha.declare _ span span').tree]

/-- Whether the word `let` begins a declaration. -/
theorem isLexicalDeclaration {f f' : Bool → Parse β} {post : β → Trace → Token → Prop}
    (ht : Alike t t') (hw : t.kind = .identifier ∨ t.kind = .keyword)
    (h : ∀ b, Tracks owed fuel m m' t t' (f b) (f' b) post) :
    Tracks owed fuel m m' t t' (Grammar.isLexicalDeclaration >>= f)
      (Grammar.isLexicalDeclaration >>= f') post := by
  refine assoc (peek ht hw fun u u' hu => pureThen ?_)
  rw [hu.isName, hu.isPunctuator, hu.isPunctuator]
  exact h _

/-- Whether the word `async` begins a function. -/
theorem isAsyncFunction {f f' : Bool → Parse β} {post : β → Trace → Token → Prop}
    (ht : Alike t t') (hw : t.kind = .identifier ∨ t.kind = .keyword)
    (h : ∀ b, Tracks owed fuel m m' t t' (f b) (f' b) post) :
    Tracks owed fuel m m' t t' (Grammar.isAsyncFunction >>= f)
      (Grammar.isAsyncFunction >>= f') post := by
  refine assoc (peek ht hw fun u u' hu => pureThen ?_)
  rw [hu.isKeyword, hu.newlineBefore]
  exact h _

end Tracks

end Verbatim
