import Verbatim.Proofs.Grammar.Statement

/-!
# Imports and exports are tracked

## Main results

* `Verbatim.Tracks.importDeclaration`, `Verbatim.Tracks.exportDeclaration`,
  `Verbatim.Tracks.moduleItem`.
-/

namespace Verbatim

open Verbatim.Grammar

/-! ## Parts of module lists -/

variable [Exchange]

namespace Alike

theorem importSpecifier {i i' : ExportName} {a a' : Option ImportAlias} (hi : Alike i i')
    (ha : Alike a a') (span span' : Span) :
    Alike (ImportSpecifier.mk i a span) (ImportSpecifier.mk i' a' span') := by
  change ImportSpecifier.mk (expected i) (expected a) {} = ImportSpecifier.mk (unplace i')
    (unplace a') {}
  rw [hi.eq, ha.eq]

theorem namedImports {openLead closeLead : String} {specs specs' : List ImportSpecifier}
    {separators : List String} (h : Alike specs specs') :
    Alike (NamedImports.mk openLead specs separators closeLead)
      (NamedImports.mk openLead specs' separators closeLead) := by
  change NamedImports.mk openLead (expected specs) (separators.map id) closeLead =
    NamedImports.mk openLead (unplace specs') (separators.map id) closeLead
  rw [h.eq]

theorem importClause {main main' : Option Ident} {space space' : Option NamespaceImport}
    {named named' : Option NamedImports} (hm : Alike main main') (hs : Alike space space')
    (hn : Alike named named') (commaLead : String) :
    Alike (ImportClause.mk main commaLead space named)
      (ImportClause.mk main' commaLead space' named') := by
  change ImportClause.mk (expected main) commaLead (expected space) (expected named) =
    ImportClause.mk (unplace main') commaLead (unplace space') (unplace named')
  rw [hm.eq, hs.eq, hn.eq]

theorem importDeclaration {clause clause' : Option ImportClause} {source source' : Literal}
    (hc : Alike clause clause') (hs : Alike source source') (lead fromLead : String)
    (ending : Terminator) (span span' : Span) :
    Alike (Tree.importStmt (.mk lead clause fromLead source ending span))
      (Tree.importStmt (.mk lead clause' fromLead source' ending span')) := by
  refine congrArg Tree.importStmt ?_
  change ImportDeclaration.mk lead (expected clause) fromLead (expected source) ending {} =
    ImportDeclaration.mk lead (unplace clause') fromLead (unplace source') ending {}
  rw [hc.eq, hs.eq]

theorem exportSpecifier {b b' : ExportName} {a a' : Option ExportAlias} (hb : Alike b b')
    (ha : Alike a a') (span span' : Span) :
    Alike (ExportSpecifier.mk b a span) (ExportSpecifier.mk b' a' span') := by
  change ExportSpecifier.mk (expected b) (expected a) {} = ExportSpecifier.mk (unplace b')
    (unplace a') {}
  rw [hb.eq, ha.eq]

theorem exportAll {a a' : Option ExportAlias} {source source' : Literal} (ha : Alike a a')
    (hs : Alike source source') (lead starLead fromLead : String) (ending : Terminator)
    (span span' : Span) :
    Alike (Tree.exportAll (.mk lead starLead a ⟨fromLead, source⟩ ending span))
      (Tree.exportAll (.mk lead starLead a' ⟨fromLead, source'⟩ ending span')) := by
  refine congrArg Tree.exportAll ?_
  change ExportAll.mk lead starLead (expected a) ⟨fromLead, expected source⟩ ending {} =
    ExportAll.mk lead starLead (unplace a') ⟨fromLead, unplace source'⟩ ending {}
  rw [ha.eq, hs.eq]

/-- Exports of alike names from alike sources are alike. -/
theorem exportNamed {specs specs' : List ExportSpecifier} {o o' : Option FromClause}
    (hs : Alike specs specs') (ho : Alike o o') (lead openLead closeLead : String)
    (separators : List String) (ending : Terminator) (span span' : Span) :
    Alike
      (Tree.exportNamed lead .absent (some ⟨openLead, specs, separators, closeLead⟩) o (some ending)
        span)
      (Tree.exportNamed lead .absent (some ⟨openLead, specs', separators, closeLead⟩) o'
        (some ending) span') := by
  refine .of_tree ?_
  change Tree.exportNamed lead .absent
      (some ⟨openLead, expected specs, separators.map id, closeLead⟩) (expected o)
      (some ending) {} =
    Tree.exportNamed lead .absent
      (some ⟨openLead, unplace specs', separators.map id, closeLead⟩) (unplace o') (some ending) {}
  rw [hs.eq, ho.eq]

theorem fromClause {source source' : Literal} (h : Alike source source') (fromLead : String) :
    Alike (FromClause.mk fromLead source) (FromClause.mk fromLead source') :=
  congrArg (FromClause.mk fromLead) h

end Alike

namespace Tracks

variable {fuel k : Nat} {t t' : Token} {ctx : Context} {p p' : Productions}

/-! ## Parts -/

/-- The other module. -/
theorem moduleSource (ht : Alike t t') :
    Tracks [] fuel .normal .normal t t' (Grammar.moduleSource ctx) (Grammar.moduleSource ctx)
      fun lit tr _ => Spells lit.print tr := by
  unfold Grammar.moduleSource
  refine look ht (ite ht.isString (fun hs => ?_) fun _ => stuck (by simp))
  have hk : t.kind = .string := by simpa [Token.isString] using hs
  exact imp (literal ht (by simp [hk])) fun lit tr u h => h.1

/-- A name on either side of `as`. -/
theorem exportName (ht : Alike t t') :
    Tracks [] fuel .normal .normal t t' (Grammar.exportName ctx) (Grammar.exportName ctx)
      fun v tr _ => Spells v.print tr ∧ 0 < tr.count := by
  unfold Grammar.exportName
  refine look ht (ite ht.isString (fun hs => ?_) fun _ => ite ht.isAnyName (fun hn => ?_) fun _ =>
    stuck (by simp))
  · have hk : t.kind = .string := by simpa [Token.isString] using hs
    exact wrap (Nat.le_refl _) (literal ht (by simp [hk])) (fun lit tr u h => ⟨h.1, by omega⟩)
      fun _ _ h =>
      congrArg ExportName.string h
  · exact wrap (Nat.le_refl _) (anyName ht hn) (fun id tr u h => ⟨h.1, by omega⟩) fun _ _ h =>
      congrArg ExportName.ident h

/-- The word `from`. -/
theorem expectFrom (ht : Alike t t') :
    Tracks [] fuel .normal .normal t t' Grammar.expectFrom Grammar.expectFrom fun l tr _ =>
      Spells (l ++ "from") tr := by
  unfold Grammar.expectFrom
  refine look ht (guard (by simp) (by rw [ht.isWord]) fun hs => ?_)
  have hfrom : t.isWord "from" = true := by simpa using hs
  refine congr .bindPure .bindPure (lead notTag ht (.word hfrom) fun u u' hu => ?_)
  exact pure ⟨by simp, fun _ => rfl⟩ (.refl _ rfl)

/-- The exported name behind `as`. -/
theorem exportAlias (ht : Alike t t') :
    Tracks [] fuel .normal .normal t t' (Grammar.exportAlias ctx) (Grammar.exportAlias ctx)
      fun v tr _ => Spells (ExportAlias.printOption v) tr := by
  unfold Grammar.exportAlias
  refine seesWord ht (ite rfl (fun hs => ?_) fun _ => pure ⟨rfl, fun _ => rfl⟩ alike_none)
  refine lead notTag ht (.word hs) fun u u' hu => seq (exportName hu) ?_
  rintro n n' tr v v' ⟨hn, -⟩ ha hv
  refine pure ⟨?_, ?_⟩ (alike_some.2 (congrArg (ExportAlias.mk t.lead) ha))
  · simp [ExportAlias.printOption, hn.text_eq, String.append_assoc]
  · simp [hn.nest_eq]

/-! ## Imports -/

/-- The text of the local name behind `as`. -/
def printImportAlias : Option ImportAlias → String
  | some a => a.asLead ++ ("as" ++ a.binding.print)
  | none => ""

/-- The local name behind `as`. -/
theorem importAlias {first first' : Token} (hf : Alike first first') (ht : Alike t t') :
    Tracks [] fuel .normal .normal t t' (Grammar.importAlias ctx first)
      (Grammar.importAlias ctx first') fun v tr _ => Spells (printImportAlias v) tr := by
  unfold Grammar.importAlias
  refine seesWord ht (ite rfl (fun hs => ?_) fun _ => guard (by simp) (by rw [hf.isName])
    fun hn => ?_)
  · refine lead notTag ht (.word hs) fun u u' hu => seq (bindingName hu) ?_
    rintro id id' tr v v' ⟨hid, -⟩ ha hv
    refine pure ⟨?_, ?_⟩ (alike_some.2 (congrArg (ImportAlias.mk t.lead) ha))
    · simp [printImportAlias, hid.text_eq, String.append_assoc]
    · simp [hid.nest_eq]
  · have hk : first.kind = .identifier := by simpa [Token.isName] using hn
    refine check (checkReference hf (by simp [hk])) fun _ _ u' _ _ hu => ?_
    exact pure ⟨rfl, fun _ => rfl⟩ alike_none

/-- One entry of an import list. -/
theorem importSpecifier (ht : Alike t t') :
    Tracks [] fuel .normal .normal t t' (Grammar.importSpecifier ctx) (Grammar.importSpecifier ctx)
      fun v tr _ => Spells v.print tr ∧ 0 < tr.count := by
  unfold Grammar.importSpecifier
  refine look ht (seq (exportName ht) ?_)
  rintro n n' tr u u' ⟨hn, hc⟩ hna hu
  refine seq (importAlias ht hu) ?_
  rintro a a' tr' v v' ha haa hv
  refine finish (by decide) hv fun span span' => pure ⟨⟨?_, ?_⟩, Trace.append_pos hc⟩ ?_
  · have htext := ha.text_eq
    cases a <;>
      simp_all [ImportSpecifier.print, printImportAlias, hn.text_eq, String.append_assoc]
  · simp [hn.nest_eq, ha.nest_eq]
  · exact hna.importSpecifier haa span span'

/-- An import list in braces. -/
theorem namedImports {n n' : Nat} (ht : Alike t t') (hn : fuel ≤ n') :
    Tracks [] fuel .normal .normal t t' (Grammar.namedImports ctx n) (Grammar.namedImports ctx n')
      fun v tr _ => Spells v.print tr := by
  have hround : ∀ {t t' : Token}, Alike t t' → Tracks [] fuel .normal .normal t t'
      (Parse.Round.item <$> Grammar.importSpecifier ctx)
      (Parse.Round.item <$> Grammar.importSpecifier ctx)
      (Parse.Round.Spells (·.print) fun _ => True) :=
    fun ht => map (by omega) (importSpecifier ht) (fun v tr u h => ⟨h.1, h.2, trivial⟩) fun _ _ h =>
      congrArg Parse.Round.item h
  unfold Grammar.namedImports
  refine expect (by simp) ht fun _ u u' hu => seq (listed (by omega) (by omega) hround _ hu) ?_
  rintro ⟨vs, seps⟩ ⟨vs', seps'⟩ tr v v' ⟨hvs, -⟩ ha hv
  obtain ⟨hva, hseps⟩ := alike_prod.1 ha
  obtain rfl := alike_list_string.1 hseps
  refine expect (by simp) hv fun _ w w' hw => pure ⟨?_, ?_⟩ hva.namedImports
  · simp [NamedImports.print, hvs.text_eq, String.append_assoc]
  · simp [hvs.nest_eq]

/-- The import of a module as one object. -/
theorem namespaceImport (ht : Alike t t') (hs : t.isPunctuator "*" = true) :
    Tracks [] fuel .normal .normal t t' (Grammar.namespaceImport ctx) (Grammar.namespaceImport ctx)
      fun v tr _ => Spells v.print tr := by
  unfold Grammar.namespaceImport
  refine here ht (lead notTag ht (.punctuator hs) fun u u' hu => expectWord hu fun _ v v' hv => ?_)
  refine seq (bindingName hv) ?_
  rintro id id' tr w w' ⟨hid, -⟩ ha hw
  refine finish (by decide) hw fun span span' => pure ⟨?_, ?_⟩ ?_
  · simp [NamespaceImport.print, hid.text_eq, String.append_assoc]
  · simp [hid.nest_eq]
  · exact congrArg (NamespaceImport.mk t.lead u.lead · {}) ha

/-- What is imported besides the default export. -/
theorem importParts {n n' : Nat} {main main' : Option Ident} {commaLead : String}
    (hm : Alike main main') (ht : Alike t t') (hn : fuel ≤ n') :
    Tracks [] fuel .normal .normal t t' (Grammar.importParts ctx n main commaLead)
      (Grammar.importParts ctx n' main' commaLead) fun v tr _ =>
        Adds (printName main ++ (if main.isSome then commaLead ++ "," else "")) v.print tr := by
  unfold Grammar.importParts
  refine sees ht (ite rfl (fun hs => ?_) fun _ => sees ht (ite rfl (fun _ => ?_) fun _ =>
    stuck (by simp)))
  · refine bind (by omega) (namespaceImport ht hs) ?_
    rintro v v' tr u u' hv ha hu
    refine pure ⟨?_, ?_⟩ (hm.importClause (alike_some.2 ha) alike_none _)
    · simp [ImportClause.print, hv.text_eq, String.append_assoc]
    · simp [hv.nest_eq]
  · refine bind (by omega) (namedImports ht hn) ?_
    rintro v v' tr u u' hv ha hu
    refine pure ⟨?_, ?_⟩ (hm.importClause alike_none (alike_some.2 ha) _)
    · simp [ImportClause.print, hv.text_eq, String.append_assoc]
    · simp [hv.nest_eq]

/-- What an import declaration binds. -/
theorem importClause {n n' : Nat} (ht : Alike t t') (hn : fuel ≤ n') :
    Tracks [] fuel .normal .normal t t' (Grammar.importClause ctx n) (Grammar.importClause ctx n')
      fun v tr _ => Spells v.print tr := by
  unfold Grammar.importClause
  refine look ht (ite ht.isName (fun _ => ?_) fun _ => ?_)
  · refine bind (by omega) (bindingName ht) ?_
    rintro id id' tr u u' ⟨hid, -⟩ ha hu
    refine accept (by simp) hu (fun _ v v' hv => ?_) fun _ => ?_
    · refine imp (importParts (alike_some.2 ha) hv (by omega)) fun c tr' w hc => ?_
      have hmain : Spells (printName (some id) ++ (u.lead ++ ",")) (tr ++ .mark u.lead ",") := by
        refine ⟨?_, ?_⟩
        · simp [printName, hid.text_eq]
        · simp [hid.nest_eq]
      rw [← Trace.append_assoc]
      exact Adds.spells hmain (by simpa using hc)
    · refine pure ⟨?_, ?_⟩ ((alike_some.2 ha).importClause alike_none alike_none _)
      · simp [ImportClause.print, printName, hid.text_eq]
      · simp [hid.nest_eq]
  · refine imp (importParts alike_none ht hn) fun c tr w hc => ⟨?_, hc.nest_eq⟩
    simpa [printName] using hc.text_eq.symm

/-- The text of what an import declaration binds, and of the word behind it. -/
def printImported : Option ImportClause × String → String
  | (some clause, fromLead) => clause.print ++ (fromLead ++ "from")
  | (none, _) => ""

/-- An import declaration. -/
theorem importDeclaration {n n' : Nat} (ht : Alike t t') (hs : t.isKeyword "import" = true)
    (hn : fuel ≤ n' + 1) :
    Tracks [] fuel .normal .normal t t' (Grammar.importDeclaration ctx n)
      (Grammar.importDeclaration ctx n') Prints := by
  unfold Grammar.importDeclaration
  refine next notTag ht (.keyword hs) fun u u' hu => ?_
  extract_lets rest rest'
  have hrest : ∀ {c c' : Option ImportClause} {fromLead : String} {tr : Trace} {v v' : Token}
      {fuel : Nat}, Spells (printImported (c, fromLead)) tr → Alike c c' → Alike v v' →
      Tracks [] fuel .normal .normal v v' (rest (c, fromLead)) (rest' (c', fromLead))
        fun s tr' x => Prints s (.word t.lead "import" ++ (tr ++ tr')) x := by
    intro c c' fromLead tr v v' fuel hc ha hv
    refine seq (moduleSource hv) ?_
    rintro lit lit' tr₁ w w' hlit hla hw
    refine seq (terminator hw) ?_
    rintro e e' tr₂ x x' he hee hx
    obtain rfl := alike_terminator.1 hee
    refine finish (by decide) hx fun span span' => pure ⟨⟨?_, ?_⟩, Trace.append_pos Nat.one_pos⟩ ?_
    · have htext := hc.text_eq
      cases c <;> simp_all [Tree.print_eq, ImportDeclaration.print, printImported, hlit.text_eq,
        he.text_eq, String.append_assoc]
    · simp [hc.nest_eq, hlit.nest_eq, he.nest_eq]
    · rw [ht.lead]
      exact ha.importDeclaration hla _ _ _ span span'
  refine look hu (ite hu.isString (fun _ => ?_) fun _ => ?_)
  · have hnone : Spells (printImported (none, "")) .empty := ⟨rfl, fun _ => rfl⟩
    refine pureThen (imp (hrest hnone alike_none hu) fun s tr x h => ?_)
    rwa [Trace.empty_append] at h
  · refine seq (importClause hu (by omega)) ?_
    rintro c c' tr v v' hc ha hv
    refine seq (expectFrom hv) ?_
    rintro l l' tr' w w' hl hla hw
    obtain rfl := alike_string.1 hla
    have hboth : Spells (printImported (some c, l)) (tr ++ tr') := by
      refine ⟨?_, ?_⟩
      · simp [printImported, hc.text_eq, hl.text_eq]
      · simp [hc.nest_eq, hl.nest_eq]
    refine pureThen (imp (hrest hboth (alike_some.2 ha) hw) fun s tr₁ x h => ?_)
    rwa [Trace.append_assoc] at h

/-! ## Exports -/

/-- What a module exports by default. -/
theorem exportValue (hp : Mirrors p p' k) :
    Follows k (Grammar.exportValue p ctx) (Grammar.exportValue p' ctx) fun v tr _ =>
      Spells v.print tr := by
  intro t t' ht
  unfold Grammar.exportValue
  refine look ht ?_
  extract_lets rest rest'
  have hrest : ∀ b, Tracks [] k .normal .normal t t' (rest b) (rest' b) fun v tr _ =>
      Spells v.print tr := by
    intro b
    refine ite rfl (fun _ => ?_) fun _ => ite (ht.isKeyword _) (fun _ => ?_) fun _ => ?_
    · exact map (by omega) (function hp ht) (fun v tr u h => h.1) fun _ _ h =>
        congrArg Tree.exportFunction h
    · exact map (by omega) (classDefinition hp ht) (fun v tr u h => h.1) fun _ _ h =>
        congrArg Tree.exportClass h
    · refine bind (by omega) (hp.assignment _ ht) ?_
      rintro v v' tr u u' ⟨hv, -, -⟩ ha hu
      refine seq (terminator hu) ?_
      rintro e e' tr' w w' he hee hw
      obtain rfl := alike_terminator.1 hee
      refine pure ⟨?_, ?_⟩ (.of_tree (by simp [ha.tree]))
      · simp [Tree.print_eq, hv.text_eq, he.text_eq]
      · simp [hv.nest_eq, he.nest_eq]
  refine ite (ht.isKeyword _) (fun _ => pureThen (hrest _)) fun _ => ite (ht.isWord _)
    (fun hs => ?_) fun _ => pureThen (hrest _)
  have hk : t.kind = .identifier := by simp_all [Token.isWord]
  exact isAsyncFunction ht (.inl hk) hrest

/-- The default export. -/
theorem exportDefault (hp : Mirrors p p' k) {x x' : Token} (hx : Alike x x') (ht : Alike t t')
    (hs : t.isKeyword "default" = true) :
    Tracks [] k .normal .normal t t' (Grammar.exportDefault p ctx x)
      (Grammar.exportDefault p' ctx x') (AddsStmt (x.lead ++ "export")) := by
  unfold Grammar.exportDefault
  refine lead notTag ht (.keyword hs) fun u u' hu => bind (by omega) (exportValue hp hu) ?_
  rintro v v' tr w w' hv ha hw
  refine finish (by decide) hw fun span span' => pure ⟨?_, ?_⟩
    (.of_tree (by simp [hx.lead, ha.tree]))
  · simp [Tree.print_eq, hv.text_eq, String.append_assoc]
  · simp [hv.nest_eq]

/-- The export of everything another module exports. -/
theorem exportAll {x x' : Token} (hx : Alike x x') (ht : Alike t t')
    (hs : t.isPunctuator "*" = true) :
    Tracks [] fuel .normal .normal t t' (Grammar.exportAll ctx x) (Grammar.exportAll ctx x')
      (AddsStmt (x.lead ++ "export")) := by
  unfold Grammar.exportAll
  refine lead notTag ht (.punctuator hs) fun u u' hu => seq (exportAlias hu) ?_
  rintro a a' tr v v' ha haa hv
  refine seq (expectFrom hv) ?_
  rintro l l' tr₁ w w' hl hla hw
  obtain rfl := alike_string.1 hla
  refine seq (moduleSource hw) ?_
  rintro lit lit' tr₂ y y' hlit hlita hy
  refine seq (terminator hy) ?_
  rintro e e' tr₃ z z' he hee hz
  obtain rfl := alike_terminator.1 hee
  refine finish (by decide) hz fun span span' => pure ⟨?_, ?_⟩ ?_
  · have hl := hl.text_eq
    simp [Tree.print_eq, ExportAll.print, FromClause.print, ha.text_eq, ← hl, hlit.text_eq,
      he.text_eq, String.append_assoc]
  · simp [ha.nest_eq, hl.nest_eq, hlit.nest_eq, he.nest_eq]
  · rw [hx.lead]
    exact haa.exportAll hlita _ _ _ _ span span'

/-- One entry of an export list. -/
theorem exportSpecifier (ht : Alike t t') :
    Tracks [] fuel .normal .normal t t' (Grammar.exportSpecifier ctx) (Grammar.exportSpecifier ctx)
      fun v tr _ => Spells v.1.print tr ∧ 0 < tr.count := by
  unfold Grammar.exportSpecifier
  refine look ht (seq (exportName ht) ?_)
  rintro n n' tr u u' ⟨hn, hc⟩ hna hu
  refine seq (exportAlias hu) ?_
  rintro a a' tr' v v' ha haa hv
  refine finish (by decide) hv fun span span' => pure ⟨⟨?_, ?_⟩, Trace.append_pos hc⟩ ?_
  · simp [ExportSpecifier.print, hn.text_eq, ha.text_eq]
  · simp [hn.nest_eq, ha.nest_eq]
  · exact alike_prod.2 ⟨hna.exportSpecifier haa span span', ht⟩

/-- The names of an export list without a source are checked. -/
theorem checkLocalNames {xs xs' : List Token} (h : Alike xs xs') :
    Tracks [] fuel .normal .normal t t' (Grammar.checkLocalNames ctx xs)
      (Grammar.checkLocalNames ctx xs') (Still (fun _ => True) t) := by
  induction xs generalizing xs' with
  | nil =>
    cases xs' with
    | nil => exact pure ⟨trivial, rfl, rfl⟩ (.refl _ rfl)
    | cons => exact absurd h not_alike_nil_cons
  | cons x xs ih =>
    cases xs' with
    | nil => exact absurd h not_alike_cons_nil
    | cons x' xs' =>
      obtain ⟨hx, hxs⟩ := alike_cons.1 h
      exact guard (by simp) (by rw [hx.isName]) fun _ => ih hxs

/-- The module that a list of names is exported from. -/
theorem exportOrigin {xs xs' : List Token} (h : Alike xs xs') (ht : Alike t t') :
    Tracks [] fuel .normal .normal t t' (Grammar.exportOrigin ctx xs)
      (Grammar.exportOrigin ctx xs') fun v tr _ => Spells ((v.map (·.print)).getD "") tr := by
  unfold Grammar.exportOrigin
  refine seesWord ht (ite rfl (fun hs => ?_) fun _ => ?_)
  · refine lead notTag ht (.word hs) fun u u' hu => seq (moduleSource hu) ?_
    rintro lit lit' tr v v' hlit ha hv
    refine pure ⟨?_, ?_⟩ (alike_some.2 (ha.fromClause _))
    · simp [FromClause.print, hlit.text_eq, String.append_assoc]
    · simp [hlit.nest_eq]
  · exact check (checkLocalNames h) fun _ _ u' _ _ hu => pure ⟨rfl, fun _ => rfl⟩ alike_none

/-- The export of a list of names. -/
theorem exportNames {n n' : Nat} {x x' : Token} (hx : Alike x x') (ht : Alike t t')
    (hn : fuel ≤ n') :
    Tracks [] fuel .normal .normal t t' (Grammar.exportNames ctx n x)
      (Grammar.exportNames ctx n' x') (AddsStmt (x.lead ++ "export")) := by
  have hround : ∀ {t t' : Token}, Alike t t' → Tracks [] fuel .normal .normal t t'
      (Parse.Round.item <$> Grammar.exportSpecifier ctx)
      (Parse.Round.item <$> Grammar.exportSpecifier ctx)
      (Parse.Round.Spells (·.1.print) fun _ => True) :=
    fun ht => map (by omega) (exportSpecifier ht) (fun v tr u h => ⟨h.1, h.2, trivial⟩) fun _ _ h =>
      congrArg Parse.Round.item h
  unfold Grammar.exportNames
  refine expect (by simp) ht fun _ u u' hu => seq (listed (by omega) (by omega) hround _ hu) ?_
  rintro ⟨vs, seps⟩ ⟨vs', seps'⟩ tr v v' ⟨hvs, -⟩ ha hv
  obtain ⟨hva, hseps⟩ := alike_prod.1 ha
  obtain rfl := alike_list_string.1 hseps
  refine expect (by simp) hv fun _ w w' hw => ?_
  have hfirsts : Alike (vs.map (·.2)) (vs'.map (·.2)) :=
    hva.map fun a a' h => (alike_prod.1 h).2
  have hspecs : Alike (vs.map (·.1)) (vs'.map (·.1)) := hva.map fun a a' h => (alike_prod.1 h).1
  refine seq (exportOrigin hfirsts hw) ?_
  rintro o o' tr₁ y y' ho hoa hy
  refine seq (terminator hy) ?_
  rintro e e' tr₂ z z' he hee hz
  obtain rfl := alike_terminator.1 hee
  refine finish (by decide) hz fun span span' => pure ⟨?_, ?_⟩ ?_
  · simp [Tree.print_eq, NamedExports.print, Function.comp_def, printTerminator, hvs.text_eq,
      ho.text_eq, he.text_eq, String.append_assoc]
  · simp [hvs.nest_eq, ho.nest_eq, he.nest_eq]
  · rw [hx.lead]
    exact hspecs.exportNamed hoa _ _ _ _ _ span span'

/-- Whether the lookahead begins a declaration that may be exported. -/
theorem seesDeclaration {β : Type} [Placed β] {f f' : Bool → Parse β}
    {post : β → Trace → Token → Prop} (ht : Alike t t')
    (h : ∀ b, Tracks [] fuel .normal .normal t t' (f b) (f' b) post) :
    Tracks [] fuel .normal .normal t t' (Grammar.seesDeclaration >>= f)
      (Grammar.seesDeclaration >>= f') post := by
  unfold Grammar.seesDeclaration
  refine assoc (look ht ?_)
  by_cases hk : t.kind = .keyword
  · rw [if_pos hk, if_pos (ht.kind.trans hk), ht.raw (by simp [hk])]
    exact pureThen (h _)
  rw [if_neg hk, if_neg fun hk' => hk (ht.kind.symm.trans hk')]
  refine iteThen (ht.isWord _) (fun _ => pureThen (h _)) fun _ => iteThen (ht.isWord _)
    (fun hs => ?_) fun _ => pureThen (h _)
  have hkind : t.kind = .identifier := by simp_all [Token.isWord]
  exact isAsyncFunction ht (.inl hkind) h

/-- The export of a declaration. -/
theorem exportedDeclaration (hp : Mirrors p p' k) {x x' : Token} (hx : Alike x x')
    (ht : Alike t t') :
    Tracks [] k .normal .normal t t' (Grammar.exportedDeclaration p ctx x)
      (Grammar.exportedDeclaration p' ctx x') (AddsStmt (x.lead ++ "export")) := by
  unfold Grammar.exportedDeclaration
  refine seesDeclaration ht fun b => guard (by simp) rfl fun _ => bind (by omega) (hp.item _ ht) ?_
  rintro s s' tr u u' ⟨hs, -⟩ ha hu
  refine finish (by decide) hu fun span span' => pure ⟨?_, ?_⟩
    (.of_tree (by simp [hx.lead, ha.tree]))
  · simp [Tree.print_eq, printTerminator, hs.text_eq, String.append_assoc]
  · simp [hs.nest_eq]

/-- An export declaration. -/
theorem exportDeclaration (hp : Mirrors p p' k) (ht : Alike t t')
    (hs : t.isKeyword "export" = true) :
    Tracks [] (k + 1) .normal .normal t t' (Grammar.exportDeclaration p ctx)
      (Grammar.exportDeclaration p' ctx) Prints := by
  have hr := hp.rounds
  have hword : Spells (t.lead ++ "export") (.word t.lead "export") := ⟨by simp, fun _ => rfl⟩
  have hadds : ∀ (s : Stmt) (tr : Trace) (u : Token), AddsStmt (t.lead ++ "export") s tr u →
      Prints s (.word t.lead "export" ++ tr) u :=
    fun s tr u h => ⟨Adds.spells hword h, Trace.append_pos Nat.one_pos⟩
  unfold Grammar.exportDeclaration
  refine next notTag ht (.keyword hs) fun u u' hu => seesKeyword hu
    (ite rfl (fun hs => ?_) fun _ => ?_)
  · exact imp (exportDefault hp ht hu hs) hadds
  refine sees hu (ite rfl (fun hs => imp (exportAll ht hu hs) hadds) fun _ => ?_)
  refine sees hu (ite rfl (fun _ => imp (exportNames ht hu (by omega)) hadds) fun _ => ?_)
  exact imp (exportedDeclaration hp ht hu) hadds

/-- What stands at the top of a module. -/
theorem moduleItem (hp : Mirrors p p' k) :
    Follows k (Grammar.moduleItem p ctx) (Grammar.moduleItem p' ctx) Prints := by
  intro t t' ht
  have hr := hp.rounds
  unfold Grammar.moduleItem
  refine look ht (ite (ht.isKeyword _) (fun hs => ?_) fun _ => ite (ht.isKeyword _) (fun hs => ?_)
    fun _ => hp.item _ ht)
  · have hk : t.kind = .keyword := by simp_all [Token.isKeyword]
    exact isImportExpression ht (.inr hk) fun b =>
      ite rfl (fun _ => hp.item _ ht) fun _ => importDeclaration ht hs (by omega)
  · exact weaken (exportDeclaration hp ht hs) (fun s tr u h => h) (by omega)

end Tracks

end Verbatim
