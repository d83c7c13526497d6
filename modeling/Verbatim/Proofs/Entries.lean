import Verbatim.Command.Shell
import Verbatim.Proofs.Projection.Source

/-!
# The entries of a shell

The shell keeps the lines of the entry that is pending in one text, and an empty text stands for
none. That is no confusion: an empty text is a whole source, so no entry that is still pending is
empty. The lines that are read therefore fall into commands and entries, one after the other, and
into the lines of the entry that is still pending at the end. Nothing is lost, and nothing is read
twice.

## Main definitions

* `Verbatim.Shell.afterAll` — the shell behind some lines.
* `Verbatim.Shell.Event` — a command or a complete entry, with its lines.
* `Verbatim.Session.following` — a session whose options have followed the commands of events.
* `Verbatim.Shell.Awaits`, `Verbatim.Shell.Splits` — lines of which no entry is complete, and how
  lines fall into events.

## Main results

* `Verbatim.Shell.enter_session` — a line of an entry leaves the options as they are.
* `Verbatim.Shell.step_from` — what one line does to what is pending.
* `Verbatim.Shell.run_entries` — how all lines that are read fall into commands and entries.
-/

namespace Verbatim

/-! ## Commands and options -/

/-- Options after a command. -/
def Options.obey (o : Options) (command : String) : Options :=
  match command with
  | ".module" => { o with goal := .module }
  | ".script" => { o with goal := .script }
  | ".jsx" => { o with jsx := !o.jsx }
  | _ => o

namespace Shell

/-- A line that is a command if no entry is pending: behind white space, it starts with a dot. -/
def IsCommand (line : String) : Prop := (Text.trim line).toList.head? = some '.'

instance (line : String) : Decidable (IsCommand line) := by
  unfold IsCommand
  infer_instance

/-- What happens while lines are read. -/
inductive Event where
  /-- A command, on a line of its own. -/
  | command (line : String)
  /-- An entry that is complete, with its lines. -/
  | entry (lines : List String)
deriving DecidableEq, Repr

/-- Lines as they are joined to the text of an entry. -/
def text (lines : List String) : String := "\n".intercalate lines

namespace Event

/-- The lines of an event. -/
def lines : Event → List String
  | .command line => [line]
  | .entry lines => lines

/-- The lines of an event that are lines of an entry. -/
def source : Event → List String
  | .command _ => []
  | .entry lines => lines

/-- The text of an event, if it is an entry. -/
def entry? : Event → Option String
  | .command _ => none
  | .entry lines => some (text lines)

/-- The session behind an event: only commands change its options. -/
def follow (session : Session) : Event → Session
  | .command line => { session with options := session.options.obey (Text.trim line) }
  | .entry _ => session

end Event

end Shell

/-- A session whose options have followed the commands among some events. -/
def Session.following (session : Session) (events : List Shell.Event) : Session :=
  events.foldl Shell.Event.follow session

theorem Session.following_cons (session : Session) (event : Shell.Event)
    (events : List Shell.Event) :
    session.following (event :: events) = (event.follow session).following events := rfl

namespace Shell

/-! ## How lines fall into events -/

/-- Lines that are those of one entry, which is not complete behind any of them. -/
structure Awaits (session : Session) (lines : List String) : Prop where
  /-- The first one is no command. -/
  opens : ∀ first ∈ lines.head?, ¬ IsCommand first
  /-- The entry is not complete. -/
  incomplete : ∀ count, 0 < count → count ≤ lines.length →
    evaluate session (text (lines.take count)) = .incomplete

/-- An event may happen in a session: a command that does not leave the shell, or an entry that is
complete behind its last line and behind none in front of it. -/
def Event.Occurs (session : Session) : Event → Prop
  | .command line => IsCommand line ∧ Text.trim line ≠ ".exit"
  | .entry lines =>
    lines ≠ [] ∧ Awaits session lines.dropLast ∧ (∀ first ∈ lines.head?, ¬ IsCommand first) ∧
      evaluate session (text lines) ≠ .incomplete

/-- Lines fall into events and into lines of an entry that is still pending. Each event happens with
the options that follow from the commands in front of it. -/
structure Splits (session : Session) (lines : List String) (events : List Event)
    (pending : List String) : Prop where
  /-- The lines are those of the events and those that are pending, in order. -/
  lines_eq : lines = events.flatMap Event.lines ++ pending
  /-- The events happen. -/
  occurs : ∀ before event later, events = before ++ event :: later →
    event.Occurs (session.following before)
  /-- The entry that is pending is not complete. -/
  awaits : Awaits (session.following events) pending

/-! ## What is written -/

/-- The prompt for a line behind some lines that are pending. -/
def promptBehind (pending : List String) : Output :=
  .out (if pending = [] then "> " else "... ")

/-- The prompts for the lines of an entry. -/
def prompts : List String → List Output
  | [] => []
  | line :: more => promptBehind [] :: more.map fun _ => promptBehind [line]

/-- What is written about an entry. -/
def Entry.written : Entry → List Output
  | .output text => [.out (withoutLineFeeds text ++ "\n")]
  | .incomplete => []
  | .failed failure => [.err (failure.message ++ "\n")]

/-- What is written while an event happens in a session. -/
def Event.written (session : Session) : Event → List Output
  | .command line => promptBehind [] :: (({ session } : Shell).command (Text.trim line)).2
  | .entry lines => prompts lines ++ (evaluate session (text lines)).written

/-- What is written while events happen, one after the other. -/
def writtenFor (session : Session) : List Event → List Output
  | [] => []
  | event :: events => event.written session ++ writtenFor (event.follow session) events

/-! ## An empty text is a whole source -/

/-- The empty source can be parsed, whatever the options. -/
theorem parse_empty (o : Options) : ∃ out, parse o "" = .ok out := by
  have hok : ∀ (goal : Goal) (tolerant jsx : Bool),
      (outcomeOf goal tolerant jsx "").result.isOk = true := by
    intro goal tolerant jsx
    cases goal <;> cases tolerant <;> cases jsx <;> decide +kernel
  have h := hok o.goal o.tolerant o.jsx
  rw [parse_eq_select, Outcome.select]
  cases hresult : (outcomeOf o.goal o.tolerant o.jsx "").result with
  | ok r => exact ⟨_, rfl⟩
  | error e =>
    rw [hresult] at h
    cases h

/-- So an empty entry is complete. -/
theorem evaluate_empty (session : Session) : evaluate session "" ≠ .incomplete := by
  obtain ⟨out, hout⟩ := parse_empty session.options
  unfold evaluate Session.process
  rw [hout]
  dsimp only
  cases hr : out.render session.printMode "" with
  | ok text => nofun
  | error failure =>
    have hfailure : ∃ offset, failure = .difference offset := by
      revert hr
      unfold Parsed.render
      cases session.printMode with
      | check =>
        dsimp only
        split
        · rintro ⟨⟩
          exact ⟨_, rfl⟩
        · nofun
      | _ => nofun
    obtain ⟨offset, rfl⟩ := hfailure
    nofun

theorem text_append {lines more : List String} (hl : lines ≠ []) (hm : more ≠ []) :
    text (lines ++ more) = text lines ++ "\n" ++ text more :=
  String.intercalate_append_of_ne_nil hl hm

/-- The text that is pending is empty exactly if no line is. -/
theorem Awaits.isEmpty_text {session : Session} {pending : List String}
    (h : Awaits session pending) : (text pending).isEmpty = pending.isEmpty := by
  match pending, h with
  | [], _ => rfl
  | [line], h =>
    have hline := h.incomplete 1 Nat.one_pos (Nat.le_refl _)
    rw [List.take_succ_cons, List.take_nil, text, String.intercalate_singleton] at hline
    rw [text, String.intercalate_singleton]
    refine Bool.eq_false_iff.2 fun he => ?_
    rw [String.isEmpty_iff.1 he] at hline
    exact evaluate_empty session hline
  | first :: second :: more, _ =>
    refine Bool.eq_false_iff.2 fun he => ?_
    have hempty := congrArg String.toList (String.isEmpty_iff.1 he)
    rw [text, String.intercalate_cons_cons] at hempty
    simp at hempty

/-- One more line. -/
theorem Awaits.text_entry {session : Session} {pending : List String} (h : Awaits session pending)
    (line : String) :
    (if (text pending).isEmpty then line else text pending ++ "\n" ++ line) =
      text (pending ++ [line]) := by
  rw [h.isEmpty_text]
  cases pending with
  | nil => exact String.intercalate_singleton.symm
  | cons first more =>
    rw [text_append (List.cons_ne_nil _ _) (List.cons_ne_nil _ _)]
    exact congrArg (text (first :: more) ++ "\n" ++ ·) String.intercalate_singleton.symm

/-- Behind one more line, the entry may still be incomplete. -/
theorem Awaits.append {session : Session} {pending : List String} {line : String}
    (h : Awaits session pending) (hopens : pending = [] → ¬ IsCommand line)
    (hincomplete : evaluate session (text (pending ++ [line])) = .incomplete) :
    Awaits session (pending ++ [line]) := by
  refine ⟨?_, fun count hpos hle => ?_⟩
  · cases pending with
    | nil =>
      rintro _ ⟨⟩
      exact hopens rfl
    | cons first more => exact h.opens
  · rcases Nat.lt_or_ge pending.length count with hlt | hge
    · rw [List.take_of_length_le (by simp; omega)]
      exact hincomplete
    · rw [List.take_append_of_le_length hge]
      exact h.incomplete count hpos hge

theorem Awaits.nil (session : Session) : Awaits session [] :=
  ⟨nofun, fun _ hpos hle => absurd hpos (Nat.not_lt.2 hle)⟩

/-- Behind its last line, an entry is complete. -/
theorem Awaits.occurs {session : Session} {pending : List String} {line : String}
    (h : Awaits session pending) (hopens : pending = [] → ¬ IsCommand line)
    (hcomplete : evaluate session (text (pending ++ [line])) ≠ .incomplete) :
    (Event.entry (pending ++ [line])).Occurs session := by
  refine ⟨by simp, ?_, ?_, hcomplete⟩
  · rw [List.dropLast_concat]
    exact h
  · cases pending with
    | nil =>
      rintro _ ⟨⟩
      exact hopens rfl
    | cons first more => exact h.opens

/-! ## Steps -/

/-- A line of an entry leaves the session as it is. -/
theorem enter_session (s : Shell) (line : String) : (s.enter line).1.session = s.session := by
  unfold enter
  dsimp only
  split <;> rfl

/-- A command that does not leave the shell changes nothing but the options. -/
theorem command_fst (s : Shell) {name : String} (h : name ≠ ".exit") : (s.command name).1 =
    { s with session := { s.session with options := s.session.options.obey name } } := by
  unfold command Options.obey
  split <;> first | rfl | exact absurd rfl h | skip
  split <;> first | rfl | contradiction

/-- A shell that was left stays so. -/
theorem step_isDone {s : Shell} (h : s.isDone = true) (line : String) :
    (s.step line).1.isDone = true := by
  have henter : (s.enter line).1.isDone = true := by
    unfold enter
    dsimp only
    split <;> exact h
  have hcommand : ∀ name, (s.command name).1.isDone = true := by
    intro name
    by_cases hexit : name = ".exit"
    · rw [hexit]
      rfl
    · rw [command_fst s hexit]
      exact h
  unfold step
  dsimp only
  split
  · exact hcommand _
  · exact henter

/-- The shell behind some lines. -/
def afterAll (s : Shell) (lines : List String) : Shell :=
  lines.foldl (fun s line => (s.step line).1) s

theorem afterAll_isDone {s : Shell} (h : s.isDone = true) (lines : List String) :
    (s.afterAll lines).isDone = true := by
  induction lines generalizing s with
  | nil => exact h
  | cons line rest ih => exact ih (step_isDone h line)

/-- The shell of a session in which some lines of an entry are pending. -/
def waiting (session : Session) (pending : List String) : Shell :=
  { session, buffer := text pending }

/-- What one line does: it may be a command, if no line is pending; otherwise it is one more line of
the entry, which may then be complete. -/
inductive Step (session : Session) (pending : List String)
    (line : String) : Shell × List Output → Prop
  /-- A command. -/
  | command (hp : pending = []) (hc : IsCommand line) (hexit : Text.trim line ≠ ".exit") :
    Step session pending line (waiting ((Event.command line).follow session) [],
      (({ session } : Shell).command (Text.trim line)).2)
  /-- The command that leaves the shell. -/
  | exit {s : Shell} {written : List Output} (hdone : s.isDone = true) :
    Step session pending line (s, written)
  /-- A line behind which the entry is not complete. -/
  | more (h : Awaits session (pending ++ [line])) :
    Step session pending line (waiting session (pending ++ [line]), [])
  /-- A line behind which the entry is complete. -/
  | complete (h : (Event.entry (pending ++ [line])).Occurs session) :
    Step session pending line
      (waiting session [], (evaluate session (text (pending ++ [line]))).written)

/-- Where a session awaits a line, each line is a command or one more line of the entry. -/
theorem step_from {session : Session} {pending : List String} (h : Awaits session pending)
    (line : String) : Step session pending line ((waiting session pending).step line) := by
  unfold step
  dsimp only
  have hbuffer : (waiting session pending).buffer.isEmpty = pending.isEmpty := h.isEmpty_text
  rw [hbuffer]
  split
  · rename_i hif
    obtain ⟨hp, hc⟩ := Bool.and_eq_true_iff.1 hif
    obtain rfl := List.isEmpty_iff.1 hp
    by_cases hexit : Text.trim line = ".exit"
    · rw [hexit]
      exact .exit rfl
    · have heq : (waiting session []).command (Text.trim line) =
          (waiting ((Event.command line).follow session) [],
            (({ session } : Shell).command (Text.trim line)).2) :=
        Prod.ext (command_fst _ hexit) rfl
      rw [heq]
      have hdot : (Text.trim line).toList.head? = some '.' := of_decide_eq_true hc
      exact .command rfl hdot hexit
  · rename_i hif
    have hopens : pending = [] → ¬ IsCommand line := by
      rintro rfl hc
      exact hif (by simp [show _ = _ from hc])
    unfold enter
    dsimp only
    rw [show (waiting session pending).buffer = text pending from rfl, h.text_entry line,
      show (waiting session pending).session = session from rfl]
    cases he : evaluate session (text (pending ++ [line])) with
    | incomplete => exact .more (h.append hopens he)
    | output _ =>
      have hstep := Step.complete (h.occurs hopens (by rw [he]; nofun))
      rw [he] at hstep
      exact hstep
    | failed _ =>
      have hstep := Step.complete (h.occurs hopens (by rw [he]; nofun))
      rw [he] at hstep
      exact hstep

/-! ## Runs -/

/-- An event in front of others. -/
theorem Splits.cons {session : Session} {lines pending : List String} {event : Event}
    {events : List Event} (hevent : event.Occurs session)
    (h : Splits (event.follow session) lines events pending) :
    Splits session (event.lines ++ lines) (event :: events) pending where
  lines_eq := by rw [h.lines_eq, List.flatMap_cons, List.append_assoc]
  occurs := by
    intro before e later heq
    cases before with
    | nil =>
      obtain ⟨rfl, -⟩ := List.cons.inj heq
      exact hevent
    | cons first before =>
      obtain ⟨rfl, hrest⟩ := List.cons.inj heq
      exact h.occurs before e later hrest
  awaits := h.awaits

/-- The prompt in front of one more line of an entry. -/
theorem prompts_append (pending : List String) (line : String) :
    prompts (pending ++ [line]) = prompts pending ++ [promptBehind pending] := by
  cases pending with
  | nil => rfl
  | cons first more => simp [prompts, promptBehind]

theorem Awaits.prompt_waiting {session : Session} {pending : List String}
    (h : Awaits session pending) : .out (waiting session pending).prompt = promptBehind
    pending := by
  unfold prompt promptBehind
  rw [show (waiting session pending).buffer.isEmpty = pending.isEmpty from h.isEmpty_text]
  cases pending <;> rfl

/-- What the shell writes for lines behind those that are pending, and where it stops. -/
theorem run_from {session : Session} {pending : List String} (h : Awaits session pending)
    (lines : List String) (hdone : ((waiting session pending).afterAll lines).isDone = false) :
    ∃ events rest, Splits session (pending ++ lines) events rest ∧
      (waiting session pending).afterAll lines = waiting (session.following events) rest ∧
      prompts pending ++ (waiting session pending).run lines =
        writtenFor session events ++ prompts rest ++ [promptBehind rest] := by
  induction lines generalizing session pending with
  | nil =>
    have hnone : ∀ before (event : Event) later, [] ≠ before ++ event :: later := by simp
    refine ⟨[], pending, ⟨by simp, fun before e later he => absurd he (hnone _ _ _), h⟩, rfl, ?_⟩
    rw [run, h.prompt_waiting]
    rfl
  | cons line lines ih =>
    have hafter : (waiting session pending).afterAll (line :: lines) =
        ((waiting session pending).step line).1.afterAll lines := rfl
    have hstep := step_from h line
    rw [hafter] at hdone ⊢
    rw [run, h.prompt_waiting]
    dsimp only
    generalize (waiting session pending).step line = r at hstep hdone ⊢
    cases hstep with
    | command hp hc hexit =>
      obtain ⟨events, rest, hsplits, hlast, hwritten⟩ := ih (.nil _) hdone
      refine ⟨.command line :: events, rest, ?_, ?_, ?_⟩
      · rw [hp]
        exact Splits.cons (show (Event.command line).Occurs session from ⟨hc, hexit⟩) hsplits
      · rw [Session.following_cons]
        exact hlast
      · rw [hp, writtenFor, List.append_assoc, List.append_assoc,
          ← List.append_assoc (writtenFor _ _),
          ← hwritten]
        rfl
    | exit hleft =>
      rw [afterAll_isDone hleft lines] at hdone
      cases hdone
    | more hmore =>
      obtain ⟨events, rest, hsplits, hlast, hwritten⟩ := ih hmore hdone
      refine ⟨events, rest, ?_, hlast, ?_⟩
      · rwa [List.append_assoc] at hsplits
      · rw [prompts_append, List.append_assoc] at hwritten
        exact hwritten
    | complete hcomplete =>
      obtain ⟨events, rest, hsplits, hlast, hwritten⟩ := ih (.nil _) hdone
      refine ⟨.entry (pending ++ [line]) :: events, rest, ?_, hlast, ?_⟩
      · have hcons := Splits.cons hcomplete hsplits
        rwa [Event.lines, List.append_assoc] at hcons
      · have hfollow : writtenFor session (.entry (pending ++ [line]) :: events) =
            (Event.entry (pending ++ [line])).written session ++ writtenFor session events := rfl
        rw [hfollow, List.append_assoc, List.append_assoc, ← List.append_assoc (writtenFor _ _),
          ← hwritten, Event.written, prompts_append]
        simp only [List.append_assoc, List.cons_append, List.nil_append]
        rfl

/-- There are lines of entries exactly if there are entries. -/
theorem flatMap_source_eq_nil {events : List Event}
    (h : ∀ lines, Event.entry lines ∈ events → lines ≠ []) :
    events.flatMap Event.source = [] ↔ events.filterMap Event.entry? = [] := by
  rw [List.flatMap_eq_nil_iff, List.filterMap_eq_nil_iff]
  refine forall₂_congr fun event hm => ?_
  cases event with
  | command line => exact iff_of_true rfl rfl
  | entry lines => exact iff_of_false (h lines hm) nofun

/-- The lines of entries, joined by line feeds, are the texts of the entries, joined in the same
way. -/
theorem text_source {events : List Event} (pending : List String)
    (h : ∀ lines, Event.entry lines ∈ events → lines ≠ []) :
    text (events.flatMap Event.source ++ pending) =
      text (events.filterMap Event.entry? ++ if pending = [] then [] else [text pending]) := by
  induction events with
  | nil =>
    rw [List.flatMap_nil, List.nil_append, List.filterMap_nil, List.nil_append]
    split
    · rename_i hp
      rw [hp]
    · exact String.intercalate_singleton.symm
  | cons event events ih =>
    have htail : ∀ lines, Event.entry lines ∈ events → lines ≠ [] :=
      fun lines hm => h lines (List.mem_cons_of_mem _ hm)
    cases event with
    | command line => exact ih htail
    | entry lines =>
      have hsource : (Event.entry lines :: events).flatMap Event.source ++ pending =
          lines ++ (events.flatMap Event.source ++ pending) := by
        rw [List.flatMap_cons, List.append_assoc]
        rfl
      have hentries : (Event.entry lines :: events).filterMap Event.entry? =
          text lines :: events.filterMap Event.entry? := rfl
      have hnil : events.flatMap Event.source ++ pending = [] ↔
          events.filterMap Event.entry? ++ (if pending = [] then [] else [text pending]) = [] := by
        rw [List.append_eq_nil_iff, List.append_eq_nil_iff, flatMap_source_eq_nil htail]
        simp
      rw [hsource, hentries, List.cons_append]
      by_cases hmore : events.flatMap Event.source ++ pending = []
      · rw [hmore, hnil.1 hmore, List.append_nil]
        exact String.intercalate_singleton.symm
      · rw [text_append (h lines List.mem_cons_self) hmore, ih htail]
        exact (String.intercalate_cons_of_ne_nil (mt hnil.2 hmore)).symm

/-! ## Whole inputs -/

/-- A shell neither loses nor repeats what is read. As long as it is not left, the lines fall into
commands, complete entries and the lines of the entry that is still pending, in order. The lines of
entries, joined by line feeds, are the texts of the complete entries followed by the text that is
pending. An entry is complete behind its last line and behind none in front of it, where it is read
with the options that follow from the commands in front of it; a line of an entry changes no
options. What is written are the prompts for the lines, what the commands say, and what became of
each entry. -/
theorem run_entries (session : Session) (lines : List String)
    (h : (({ session } : Shell).afterAll lines).isDone = false) :
    ∃ events pending, Splits session lines events pending ∧
      text (events.flatMap Event.source ++ pending) =
        text (events.filterMap Event.entry? ++
          if pending = [] then [] else [(({ session } : Shell).afterAll lines).buffer]) ∧
      ({ session } : Shell).afterAll lines =
        { session := session.following events, buffer := text pending } ∧
      ({ session } : Shell).run lines =
        writtenFor session events ++ prompts pending ++ [promptBehind pending] ∧
      ∀ (s : Shell) (line : String), (s.enter line).1.session = s.session := by
  obtain ⟨events, pending, hsplits, hlast, hwritten⟩ := run_from (.nil session) lines h
  have hlast : ({ session } : Shell).afterAll lines = waiting (session.following events) pending :=
    hlast
  have hentries : ∀ lines, Event.entry lines ∈ events → lines ≠ [] := by
    intro lines hm
    obtain ⟨before, later, heq⟩ := List.append_of_mem hm
    exact (hsplits.occurs before _ later heq).1
  refine ⟨events, pending, hsplits, ?_, hlast, hwritten, enter_session⟩
  rw [hlast]
  exact text_source pending hentries

/-- A command, an entry of two lines of which the second one starts with a dot, and an entry that is
still pending. -/
theorem run_entries_call :
    (({ session := { options := {} } } : Shell).afterAll
      [".module", "a(", "...b)", "\x7b"]).isDone =
        false ∧
      ∃ events pending, Splits { options := {} } [".module", "a(", "...b)", "\x7b"] events pending ∧
        text pending = "\x7b" ∧ (Session.following { options := {} } events).options.goal =
          .module := by
  have hdone : (({ session := { options := {} } } : Shell).afterAll
      [".module", "a(", "...b)", "\x7b"]).isDone = false := by decide +kernel
  have hbuffer : (({ session := { options := {} } } : Shell).afterAll
      [".module", "a(", "...b)", "\x7b"]).buffer = "\x7b" := by decide +kernel
  have hgoal : (({ session := { options := {} } } : Shell).afterAll
      [".module", "a(", "...b)", "\x7b"]).session.options.goal = .module := by decide +kernel
  obtain ⟨events, pending, hsplits, -, hlast, -⟩ := run_entries { options := {} } _ hdone
  rw [hlast] at hbuffer hgoal
  exact ⟨hdone, events, pending, hsplits, hbuffer, hgoal⟩

end Shell

end Verbatim
