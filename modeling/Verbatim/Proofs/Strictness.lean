import Verbatim.Proofs.Legality

/-!
# Strict code

Code is strict in modules and in classes, and behind a directive. The directive of a function stands
behind its name and its parameters, which are read before it is known. It counts for them all the
same, and for the strings in front of it.

An entry of an import list without an alias binds its name as well, but that name is not looked at,
and neither is a name in parentheses that is assigned to.

## Main definitions

* `Verbatim.Signature` — the name and the parameters of a function, method or arrow function.
* `Verbatim.Program.Declares` — the signatures in a program.
* `Verbatim.Signature.Legal` — what the language demands of them.
* `Verbatim.Tree.affectedNames` — the names that a construct binds or assigns to.
* `Verbatim.Tree.spelledLiterals` — the literals that a construct consists of.

## Main results

* `Verbatim.parse_signatures` — in a parse without faults, all signatures are legal.
* `Verbatim.parse_protects` — in a parse without faults, strict code leaves `eval` and `arguments`
  alone.
* `Verbatim.parse_import_restricted`, `Verbatim.parse_assign_restricted` — where it does not.
* `Verbatim.parse_spelling` — in a parse without faults, strict code has no octal spellings.
-/

namespace Verbatim

open Text Grammar

variable {o : Options} {source : String} {out : Parsed}

/-! ## Signatures -/

/-- The name and the parameters of a function, method or arrow function. -/
structure Signature where
  /-- The name of the function. -/
  name : Option Ident
  /-- The parameters. -/
  parameters : List Pattern
  /-- The body has a directive that makes the code strict. -/
  hasDirective : Bool
  /-- The code is strict. -/
  isStrict : Bool
  /-- It is a method or an arrow function. -/
  isModern : Bool

/-- The signature of a function, which may be that of a method. -/
def Tree.signature (ctx : Context) (isMethod : Bool) : Tree .function → Signature
  | .function head params body _ =>
    ⟨head.name, params.parameters, hasUseStrict body, ctx.strict || hasUseStrict body, isMethod⟩

/-- The signatures of the functions in a program. -/
inductive Program.Declares (program : Program) (o : Options) : Signature → Prop where
  /-- A function. -/
  | function {ctx : Context} {f : Tree .function} (occurs : program.Contains o ctx f) :
    Declares program o (f.signature ctx false)
  /-- A method or accessor of an object. -/
  | property {ctx : Context} {mods : Modifiers} {key : Tree .key} {f : Tree .function}
    {kind : PropertyKind} {isMethod isShorthand : Bool} {colonLead : String} {span : Span}
    (occurs : program.Contains o ctx
      (.property mods key (.functionExpr f) kind isMethod isShorthand colonLead span))
    (modern : (isMethod || kind != .plain) = true) : Declares program o (f.signature ctx true)
  /-- A method or accessor of a class. -/
  | method {ctx : Context} {mods : Modifiers} {kind : MethodKind} {key : Tree .key}
    {f : Tree .function} {span : Span}
    (occurs : program.Contains o ctx (.method mods kind key f span)) :
    Declares program o (f.signature ctx true)
  /-- An arrow function. -/
  | arrow {ctx : Context} {isAsync : Bool} {asyncLead : String} {params : Tree .arrowParams}
    {arrowLead : String} {body : Tree .arrowBody} {span : Span}
    (occurs : program.Contains o ctx (.arrow isAsync asyncLead params arrowLead body span)) :
    Declares program o ⟨none, arrowPatterns params, arrowHasUseStrict body,
      ctx.strict || arrowHasUseStrict body, true⟩

/-- What the language demands of the name and the parameters of a function. -/
structure Signature.Legal (s : Signature) : Prop where
  /-- A function with a directive of its own has plain parameters. -/
  plain : s.hasDirective = true → ∀ p ∈ s.parameters, p.isName = true
  /-- The parameters of strict code have names that it may bind. -/
  parameterNames : s.isStrict = true → ∀ name ∈ Tree.parameterNames s.parameters, IsStrictName name
  /-- So has the function. -/
  ownName : s.isStrict = true → ∀ id ∈ s.name, IsStrictName id.name
  /-- No two parameters have the same name, but for plain ones of functions that are neither strict
  nor methods. -/
  distinct : s.isStrict = true ∨ s.isModern = true ∨ (∃ p ∈ s.parameters, p.isName = false) →
    (Tree.parameterNames s.parameters).Nodup

namespace Signature.Legal

/-- A signature is legal if its parameters obey their rules, and its name does. -/
theorem of_parametersAllowed {s : Signature} {unique : Bool}
    (h : Tree.ParametersAllowed true s.isStrict s.hasDirective unique s.parameters)
    (hname : s.isStrict = true → ∀ id ∈ s.name, IsStrictName id.name)
    (hmodern : s.isModern = true → (Tree.parameterNames s.parameters).Nodup)
    (hplain : s.parameters.all (·.isName) = false → unique = true) : s.Legal where
  plain hd := List.all_eq_true.1 (h.plain hd)
  parameterNames := h.strictNames rfl
  ownName := hname
  distinct := by
    rintro (hs | hm | ⟨p, hp, hno⟩)
    · exact h.distinct rfl (by rw [hs, Bool.true_or])
    · exact hmodern hm
    · have hunique := hplain (List.all_eq_false.2 ⟨p, hp, Bool.eq_false_iff.1 hno⟩)
      exact h.distinct rfl (by rw [hunique, Bool.or_true])

/-- The signature of a function is legal if the function obeys the rules. -/
theorem of_function {ctx : Context} {f : Tree .function} {isMethod : Bool} (h : f.Allowed true ctx)
    (hmethod : isMethod = true → (Tree.parameterNames f.functionParameters).Nodup) :
    (f.signature ctx isMethod).Legal := by
  cases f with
  | function head params body span =>
    obtain ⟨hparams, hname⟩ := h
    refine of_parametersAllowed hparams (fun hs id hid => ?_) hmethod fun hplain => ?_
    · exact hname rfl hs _ (List.mem_map.2 ⟨id, Option.mem_toList.2 hid, rfl⟩)
    · exact congrArg (!·) hplain

end Signature.Legal

/-- In a parse without faults, the names and the parameters of all functions are legal. -/
theorem parse_signatures (h : parse o source = .ok out) (clean : out.errors = []) {s : Signature}
    (hs : out.program.Declares o s) : s.Legal := by
  cases hs with
  | function hf =>
    exact .of_function (parse_allowed_of_clean h clean hf) fun hm => by cases hm
  | @property ctx _ key f _ _ isShorthand _ _ hx hmodern =>
    have hvalue : Part.mk ctx (.functionExpr f) ∈
        Tree.valueParts ctx isShorthand (.functionExpr f) := by
      cases isShorthand <;> exact List.mem_singleton_self _
    have hexpr : out.program.Contains o ctx (.functionExpr f) :=
      hx.part (List.mem_cons_of_mem _ hvalue)
    have hf : out.program.Contains o ctx f := hexpr.part (List.mem_singleton_self _)
    have hdistinct := parse_allowed_of_clean h clean hx rfl hmodern
    exact .of_function (parse_allowed_of_clean h clean hf) fun _ => hdistinct
  | @method ctx _ _ key f _ hx =>
    have hf : out.program.Contains o ctx f :=
      hx.part (List.mem_cons_of_mem _ (List.mem_singleton_self _))
    have hdistinct := parse_allowed_of_clean h clean hx rfl
    exact .of_function (parse_allowed_of_clean h clean hf) fun _ => hdistinct
  | arrow hx =>
    have hparams : Tree.ParametersAllowed _ _ _ _ _ := parse_allowed_of_clean h clean hx
    exact .of_parametersAllowed hparams (fun _ _ hid => by cases hid)
      (fun _ => hparams.distinct rfl (Bool.or_true _)) fun _ => rfl

/-- A function whose directive counts for its name and its parameter. -/
theorem parse_signatures_directive :
    ∃ out s, parse {} "function f(a)\x7b\x27use strict\x27\x7d" = .ok out ∧ out.errors = [] ∧
      out.program.Declares {} s ∧ s.hasDirective = true ∧ s.parameters.length = 1 ∧ s.Legal := by
  have hparse : (parse {} "function f(a)\x7b\x27use strict\x27\x7d").toOption.map
      (fun out => (out.program.body, out.errors)) =
        some ([.functionStmt (.function { name := some { lead := " ", name := "f", raw := "f" } }
          (.paramList "" (.cons (.namePattern { name := "a", raw := "a" }) .nil) [] "")
          (.bodyBlock "" (.cons (.exprStmt
            (.literal { value := .string "use strict", raw := "\x27use strict\x27" })
            (some "use strict") .inserted {}) .nil) "" {}) {})], []) := by
    decide +kernel
  obtain ⟨out, h, hout⟩ := Except.exists_ok_of_map hparse
  obtain ⟨hbody, clean⟩ := Prod.mk.inj hout
  have hf : out.program.Contains {} _ _ :=
    .of_body hbody (List.mem_singleton_self _) (.inPart _ (List.mem_singleton_self _) .whole)
  have hs := Program.Declares.function hf
  exact ⟨out, _, h, clean, hs, rfl, rfl, parse_signatures h clean hs⟩

/-! ## Protected names -/

namespace Tree

/-- The names that a construct binds or assigns to. -/
def affectedNames : {c : Category} → Tree c → List String
  | _, .function head params _ _ =>
    head.name.toList.map (·.name) ++ parameterNames params.parameters
  | _, .arrow _ _ params _ _ _ => parameterNames (arrowPatterns params)
  | _, .classDef _ name _ _ _ _ _ => name.toList.map (·.name)
  | _, .importStmt d => d.aliases
  | _, .declarator target _ _ => target.names
  | _, .catchParam _ target _ => target.names
  | _, .targetPattern p => p.names
  | _, .assignment target _ _ _ _ => target.names
  | _, .update _ _ _ operand _ => operand.ident?.toList.map (·.name)
  | _, _ => []

/-- Whether those names are in strict code. -/
def isStrictAt (ctx : Context) : {c : Category} → Tree c → Bool
  | _, .function _ _ body _ => ctx.strict || hasUseStrict body
  | _, .arrow _ _ _ _ body _ => ctx.strict || arrowHasUseStrict body
  | _, .classDef .. => true
  | _, _ => ctx.strict

/-- Strict code that is allowed affects no restricted name. -/
theorem Allowed.protects {ctx : Context} {c : Category} {x : Tree c} (h : x.Allowed true ctx)
    (hs : x.isStrictAt ctx = true) : ∀ name ∈ x.affectedNames, isRestricted name = false := by
  cases x
  case function head params body span =>
    obtain ⟨hparams, hname⟩ := h
    exact List.forall_mem_append.2 ⟨(hname rfl).mayAssign hs,
      fun name hmem => (hparams.strictNames rfl hs name hmem).1⟩
  case arrow isAsync asyncLead params arrowLead body span =>
    have hparams : ParametersAllowed _ _ _ _ _ := h
    exact fun name hmem => (hparams.strictNames rfl hs name hmem).1
  case classDef lead name base openLead members closeLead span =>
    exact (h rfl).mayAssign rfl
  case importStmt d => exact (h rfl).2.mayAssign hs
  case declarator target init span => exact (h rfl).mayAssign hs
  case catchParam openLead target closeLead => exact (h rfl).mayAssign hs
  case targetPattern p => exact h rfl hs
  case assignment target opLead op value span => exact h.2 rfl hs
  case update op isBefore opLead operand span => exact (h rfl).2 hs
  all_goals exact List.forall_mem_nil _

end Tree

/-- In a parse without faults, strict code neither binds nor assigns to `eval` and `arguments`, but
for entries of import lists without alias, and names in parentheses that are assigned to. -/
theorem parse_protects (h : parse o source = .ok out) (clean : out.errors = []) {c : Category}
    {ctx : Context} {x : Tree c} (hx : out.program.Contains o ctx x)
    (hs : x.isStrictAt ctx = true) :
    ∀ name ∈ x.affectedNames, isRestricted name = false :=
  (parse_allowed_of_clean h clean hx).protects hs

/-- Nobody looks at a name that a module imports without an alias. -/
theorem parse_import_restricted :
    (parse { goal := .module } "import\x7beval\x7dfrom\x27m\x27").toOption.map
        (fun out => (out.program.body, out.errors)) =
      some ([.importStmt
        { lead := ""
          clause := some
            { main := none
              commaLead := ""
              space := none
              named := some
                { openLead := ""
                  specifiers :=
                    [{ imported := .ident { name := "eval", raw := "eval" }, alias? := none }]
                  separators := []
                  closeLead := "" } }
          fromLead := ""
          source := { value := .string "m", raw := "\x27m\x27" }
          terminator := .inserted }], []) := by
  decide +kernel

/-- Nobody looks at a name in parentheses that is assigned to. -/
theorem parse_assign_restricted :
    (parse {} "\x27use strict\x27;(eval)=a").toOption.map
        (fun out => (out.program.body, out.errors)) =
      some ([
        .exprStmt (.literal { value := .string "use strict", raw := "\x27use strict\x27" })
          (some "use strict") .explicit {},
        .exprStmt (.assignment (.exprPattern (.parenthesized ""
            (.identifier { name := "eval", raw := "eval" }) "" {})) "" .assign
            (.identifier { name := "a", raw := "a" }) {}) none .inserted {}], []) := by
  decide +kernel

/-! ## Spellings -/

/-- The literals that a construct consists of. Strings in markup have no escapes, and are none. -/
def Tree.spelledLiterals : {c : Category} → Tree c → List Literal
  | _, .literal lit => [lit]
  | _, .literalKey lit => [lit]
  | _, .importStmt d => d.strings
  | _, .exportNamed _ _ specifiers origin _ _ =>
    NamedExports.strings specifiers ++ FromClause.strings origin
  | _, .exportAll d => d.strings
  | _, _ => []

/-- In a parse without faults, no literal in strict code has an octal spelling. -/
theorem parse_spelling (h : parse o source = .ok out) (clean : out.errors = []) {c : Category}
    {ctx : Context} {x : Tree c} (hx : out.program.Contains o ctx x) (hs : ctx.strict = true) :
    ∀ lit ∈ x.spelledLiterals, lit.isLegacyOctal = false := by
  have hallowed := parse_allowed_of_clean h clean hx
  cases x
  case literal lit => exact hallowed rfl hs
  case literalKey lit => exact hallowed rfl hs
  case importStmt d => exact (hallowed rfl).1 hs
  case exportNamed lead stmt specifiers origin terminator span => exact hallowed rfl hs
  case exportAll d => exact hallowed rfl hs
  all_goals exact List.forall_mem_nil _

/-- Strict code may escape a zero that no digit follows. -/
theorem parse_spelling_zero :
    ∃ out ctx lit, parse {} "\x27use strict\x27;\x27\\0\x27" = .ok out ∧ out.errors = [] ∧
      out.program.Contains {} ctx (.literal lit) ∧ ctx.strict = true ∧ lit.raw = "\x27\\0\x27" ∧
      lit.isLegacyOctal = false := by
  have hparse : (parse {} "\x27use strict\x27;\x27\\0\x27").toOption.map
      (fun out => (out.program.body, out.errors)) =
        some ([
          .exprStmt (.literal { value := .string "use strict", raw := "\x27use strict\x27" })
            (some "use strict") .explicit {},
          .exprStmt (.literal { value := .string "\x00", raw := "\x27\\0\x27" }) (some "\\0")
            .inserted {}], []) := by
    decide +kernel
  obtain ⟨out, h, hout⟩ := Except.exists_ok_of_map hparse
  obtain ⟨hbody, clean⟩ := Prod.mk.inj hout
  have hlit : out.program.Contains {} _ _ :=
    .of_body hbody (List.mem_cons_of_mem _ (List.mem_singleton_self _))
      (.inPart _ (List.mem_singleton_self _) .whole)
  exact ⟨out, _, _, h, clean, hlit, rfl, rfl,
    parse_spelling h clean hlit rfl _ (List.mem_singleton_self _)⟩

end Verbatim
