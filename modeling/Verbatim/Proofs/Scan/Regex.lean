import Verbatim.Proofs.Scan.Read
import Verbatim.Scan.Regex

/-!
# Regular expressions are read alike where texts part

## Main results

* `Verbatim.Read.Local.regex` — regular expressions are read alike.
* `Verbatim.Read.regex_spelled` — a regular expression is spelled by its body and flags.
-/

namespace Verbatim.Read

open Verbatim.Text

variable {guard : Char → Bool}

namespace Local

/-- The body of a regular expression ends with a slash of its own. -/
theorem regexBody (n : Nat) (inClass : Bool) : Local guard (Read.regexBody n inClass) := by
  induction n generalizing inClass with
  | zero => exact throw _
  | succ n ih =>
    unfold Read.regexBody
    refine peek (fun c => ?_) fun _ {l l' v} h => ?_
    · split
      · exact throw _
      · refine ite (throw _) ((skip 1).bind fun _ => ite ?_ (ite (ih _) (ite (ih _) ?_)))
        · refine peek (fun d => ite (throw _) ((skip 1).bind fun _ => ih _)) fun _ {l l' v} h => ?_
          have hlen := (ih inClass).takes_zero (show Read.regexBody n inClass l = _ from h)
          simp only [List.length_cons] at hlen
          omega
        · exact ite (pure _) (ih _)
    · have hlen := (ih inClass).takes_zero (show Read.regexBody n inClass l = _ from h)
      simp only [List.length_cons] at hlen
      omega

end Local

/-- How the body of a regular expression goes on, by its first character. -/
theorem regexBody_cons {n : Nat} {inClass : Bool} {c : Char} {l : List Char} :
    regexBody (n + 1) inClass (c :: l) =
      if isLineTerminator c then .error .unterminatedRegex (c :: l)
      else if c = '\\' then
        if l.head?.all isLineTerminator then .error .unterminatedRegex l
        else regexBody n inClass (l.drop 1)
      else if c = '[' then regexBody n true l
      else if c = ']' then regexBody n false l
      else if c = '/' && !inClass then .ok () l
      else regexBody n inClass l := by
  change (if isLineTerminator c then MonadExcept.throw .unterminatedRegex else Read.skip 1
    >>= fun _ =>
    if c = '\\' then Read.peek >>= fun d => if d.all isLineTerminator then _ else _
    else if c = '[' then _ else if c = ']' then _ else if c = '/' && !inClass then _ else _ :
      Read Unit) (c :: l) = _
  rw [run_ite, Read.skip_bind, run_ite, peek_bind, run_ite, run_ite, run_ite, run_ite]
  rfl

/-- More steps than characters make no difference to a regular expression. -/
theorem regexBody_fuel {n k : Nat} {inClass : Bool} {l : List Char} (hn : l.length < n)
    (hk : l.length < k) : regexBody n inClass l = regexBody k inClass l := by
  induction n generalizing k l inClass with
  | zero => exact absurd hn (Nat.not_lt_zero _)
  | succ n ih =>
    obtain ⟨k, rfl⟩ := Nat.exists_eq_succ_of_ne_zero (Nat.ne_zero_of_lt hk)
    rcases l with _ | ⟨c, l⟩
    · rfl
    simp only [List.length_cons] at hn hk
    have hl : ∀ inClass, regexBody n inClass l = regexBody k inClass l := fun _ =>
      ih (by omega) (by omega)
    have hd : regexBody n inClass (l.drop 1) = regexBody k inClass (l.drop 1) := by
      apply ih <;> (rw [List.length_drop]; omega)
    rw [regexBody_cons, regexBody_cons, hl, hl, hl, hd]

/-- A regular expression behind its first slash. -/
theorem Local.regexTail : Local guard (do
    let ((), body) ← Read.spelled (do Read.regexBody ((← get).length + 1) false)
    let flags ← Read.takeWhile isNamePart
    if (← Read.peekIs (· == '\\')) || !validFlags flags then MonadExcept.throw .invalidRegexFlags
    return { kind := .regex
             value := .regex (String.ofList body.dropLast) (String.ofList flags) : Lexeme }) := by
  have h : Local guard _ := bounded 1 (r := fun n => Read.regexBody n false)
    (fun n => Local.regexBody n _) fun {n l} hn => regexBody_fuel hn (Nat.lt_succ_self _)
  refine (spelled h).bind fun (_, body) => (takeWhile fun _ => ?_).bind fun flags => ?_
  · rfl
  · exact (peekIs fun _ => rfl).bind fun _ => ite (throw _) (pure _)

theorem Local.regex : Local guard Read.regex :=
  (peekIs fun _ => rfl).bind fun _ => ite (throw _) ((skip 1).bind fun _ => regexTail)

/-- The body of a regular expression takes its closing slash. -/
theorem takes_regexBody (n : Nat) (inClass : Bool) : Takes 1 (regexBody n inClass) := by
  induction n generalizing inClass with
  | zero => exact fun _ _ _ h => by cases h
  | succ n ih =>
    intro l m v h
    rcases l with _ | ⟨c, l⟩
    · cases h
    rw [regexBody_cons] at h
    have hl : ∀ {inClass}, regexBody n inClass l = .ok v m → m.length + 1 ≤ (c :: l).length :=
      fun h => Nat.le_succ_of_le (ih _ h)
    split at h
    · cases h
    split at h
    · split at h
      · cases h
      · have hlen := ih _ h
        rw [List.length_drop] at hlen
        simp only [List.length_cons]
        omega
    split at h
    · exact hl h
    split at h
    · exact hl h
    split at h
    · cases h
      exact Nat.le_refl _
    · exact hl h

/-- A regular expression takes its first slash and more. -/
theorem regex_takes {l m : List Char} {v : Lexeme} (h : regex l = .ok v m) :
    ∃ l', l = '/' :: l' ∧ m <:+ l' ∧ m.length < l'.length := by
  cases l with
  | nil => cases h
  | cons c l =>
    by_cases hc : c = '/'
    · subst hc
      refine ⟨l, rfl, (Local.regexTail : Local (fun _ => true) _).suffix (l := l) h, ?_⟩
      obtain ⟨u, m₁, hbody, htail⟩ := Run.bind_eq_ok.1
        (show (Read.spelled (do Read.regexBody ((← get).length + 1) false) >>= fun _ => _ :
          Read Lexeme) l = _ from h)
      have hlen : m₁.length < l.length := takes_regexBody _ _ (spelled_eq_ok.1 hbody).1
      have hflags : m <:+ m₁ := by
        refine bind_suffix htail (fun {u m} h => ?_) fun flags =>
          (Local.peekIs fun _ => rfl).bind fun _ => .ite (.throw _) (.pure _)
        exact (Local.takeWhile (fun _ => rfl) : Local (fun _ => true)
          (Read.takeWhile isNamePart)).suffix h
      exact Nat.lt_of_le_of_lt hflags.length_le hlen
    · change (if !(c == '/') then MonadExcept.throw .illegalToken else _ : Read Lexeme)
        (c :: l) = _ at h
      rw [run_ite, if_pos (by simpa using hc)] at h
      cases h

/-! ## Spellings -/

/-- The body of a regular expression ends with its closing slash. -/
theorem regexBody_spelled {n : Nat} {inClass : Bool} {l m : List Char} {v : Unit}
    (h : regexBody n inClass l = .ok v m) : ∃ body, l = body ++ '/' :: m := by
  induction n generalizing inClass l with
  | zero => cases h
  | succ n ih =>
    rcases l with _ | ⟨c, l⟩
    · cases h
    rw [regexBody_cons] at h
    have hrest : ∀ {inClass}, regexBody n inClass l = .ok v m → ∃ body,
      c :: l = body ++ '/' :: m := by
      intro inClass h
      obtain ⟨body, rfl⟩ := ih h
      exact ⟨c :: body, rfl⟩
    split at h
    · cases h
    split at h
    · split at h
      · cases h
      · rename_i hescaped
        cases l with
        | nil => exact absurd rfl hescaped
        | cons d l =>
          obtain ⟨body, hbody⟩ := ih h
          exact ⟨c :: d :: body, congrArg (c :: d :: ·) hbody⟩
    split at h
    · exact hrest h
    split at h
    · exact hrest h
    split at h
    · rename_i hslash
      cases h
      exact ⟨[], congrArg (· :: _) (of_decide_eq_true (Bool.and_eq_true_iff.1 hslash).1)⟩
    · exact hrest h

/-- A regular expression is spelled by its body between slashes and its flags. -/
theorem regex_spelled {l m : List Char} {v : Lexeme} (h : regex l = .ok v m) :
    ∃ body flags, l = '/' :: (body ++ '/' :: (flags ++ m)) ∧
      v = { kind := .regex, value := .regex (String.ofList body) (String.ofList flags) } := by
  obtain ⟨l, rfl, -, -⟩ := regex_takes h
  obtain ⟨u, m₁, hbody, htail⟩ := Run.bind_eq_ok.1
    (show (Read.spelled (do Read.regexBody ((← get).length + 1) false) >>= fun _ => _ :
      Read Lexeme) l = _ from h)
  obtain ⟨hread, htext⟩ := spelled_eq_ok.1 hbody
  obtain ⟨body, rfl⟩ := regexBody_spelled hread
  obtain ⟨flags, m₂, hflags, hend⟩ := Run.bind_eq_ok.1 htail
  obtain ⟨rfl, rfl⟩ : flags = m₁.takeWhile Text.isNamePart ∧ m₂ = m₁.dropWhile Text.isNamePart := by
    cases hflags
    exact ⟨rfl, rfl⟩
  obtain ⟨escaped, m₃, hpeek, hcheck⟩ := Run.bind_eq_ok.1 hend
  rw [run_ite] at hcheck
  split at hcheck
  · cases hcheck
  · cases hpeek
    cases hcheck
    have htaken : u.2 = body ++ ['/'] := by
      have hlength : (body ++ '/' :: m₁).length - m₁.length = (body ++ ['/']).length := by
        simp only [List.length_append, List.length_cons, List.length_nil]
        omega
      rw [htext, hlength, List.append_cons body '/' m₁, List.take_left]
    refine ⟨body, m₁.takeWhile Text.isNamePart, ?_, ?_⟩
    · rw [List.takeWhile_append_dropWhile]
    · rw [htaken, List.dropLast_concat]

end Verbatim.Read
