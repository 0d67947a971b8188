import LexicalScript.Proofs.Batches
import LexicalScript.Proofs.EncodedLines
import LexicalScript.Proofs.TrimmedLines

/-!
What a prompt leaves on its console.

A prompt is a sequence of runs: every line in front of the farewell that is not blank is run as a
text of its own, and the console shows the prompt and the errors of the run.  The prompt adds
notes of its own to the journal, which no run looks at, so the runs are those of the texts alone.
-/

set_option autoImplicit false

namespace LexicalScript

/-! ### Runs on machines that differ in their journals -/

theorem Machine.alike_iff_renumber {machine later : Machine} :
    machine.EqExceptJournal later ↔ later.renumber id = machine.renumber id := by
  constructor
  · intro sameRest
    exact Machine.renumber_eqExceptJournal sameRest id
  · intro same
    rw [Machine.renumber_id, Machine.renumber_id] at same
    unfold Machine.EqExceptJournal
    cases machine
    cases later
    cases same
    rfl

theorem Machine.EqExceptJournal.globalNames {machine later : Machine}
    (sameRest : machine.EqExceptJournal later) :
    later.globalNames = machine.globalNames := by
  rw [sameRest]
  rfl

theorem Machine.EqExceptJournal.journals {machine later : Machine}
    (sameRest : machine.EqExceptJournal later) (first second : Journal) :
    Machine.EqExceptJournal { machine with journal := first } { later with journal := second } := by
  rw [sameRest]
  rfl

/-- Two runs are cut off, or both end with one status on machines that differ in their journals at
most. -/
def SameEnd : Option (Status × Machine) → Option (Status × Machine) → Prop :=
  Option.Rel fun ended other => other.1 = ended.1 ∧ ended.2.EqExceptJournal other.2

/-- Outcomes that are the same but for the journals are concluded in the same way. -/
theorem conclude_alike (static : List Diagnostic) {outcome other : Outcome Fault Machine Unit}
    (same : other.renumber id id = outcome.renumber id id) :
    SameEnd (conclude static outcome) (conclude static other) := by
  cases outcome with
  | exhausted =>
    cases other with
    | exhausted => exact .none
    | value _ _ | failure _ _ => cases same
  | value _ ended =>
    cases other with
    | exhausted | failure _ _ => cases same
    | value _ last =>
      injection same with _ machines
      have sameRest : ended.EqExceptJournal last := Machine.alike_iff_renumber.mpr machines
      have sink : last.sink = ended.sink := by rw [sameRest]
      simp only [conclude, sink]
      cases ended.sink.flush with
      | none | some error => exact .some ⟨rfl, sameRest.journals _ _⟩
  | failure fault ended =>
    cases other with
    | exhausted | value _ _ => cases same
    | failure cause last =>
      injection same with faults machines
      rw [Fault.renumber_id, Fault.renumber_id] at faults
      have sameRest : ended.EqExceptJournal last := Machine.alike_iff_renumber.mpr machines
      have sink : last.sink = ended.sink := by rw [sameRest]
      simp only [conclude, sink, faults]
      cases ended.sink.flush with
      | none | some error => exact .some ⟨rfl, sameRest.journals _ _⟩

theorem runStatements_alike (fuel : Nat) (static : List Diagnostic) (statements : List Stmt)
    {machine other : Machine} (sameRest : machine.EqExceptJournal other) :
    SameEnd (runStatements fuel static statements machine)
      (runStatements fuel static statements other) := by
  cases refused : ((Resolver.ofGlobals machine.globalNames).resolve statements).error with
  | some error =>
    have again := refused
    rw [← sameRest.globalNames] at again
    simp only [runStatements, refused, again]
    exact .some ⟨rfl, sameRest.journals _ _⟩
  | none =>
    have again := refused
    rw [← sameRest.globalNames] at again
    rw [runStatements_accepted rfl refused, runStatements_accepted rfl again, sameRest.globalNames]
    apply conclude_alike
    rw [← executeEach_silent, ← executeEach_silent]
    exact congrArg (executeEach fuel _) (Machine.renumber_eqExceptJournal sameRest id)

/-- The journal takes no part in a run. -/
theorem runSource_alike (fuel : Nat) (source : String) {machine other : Machine}
    (sameRest : machine.EqExceptJournal other) :
    SameEnd (runSource fuel source machine) (runSource fuel source other) := by
  unfold runSource
  cases tokens? source with
  | error error => exact .some ⟨rfl, sameRest.journals _ _⟩
  | ok tokens =>
    dsimp only
    split
    · exact .some ⟨rfl, sameRest.journals _ _⟩
    · exact runStatements_alike fuel _ _ (sameRest.journals _ _)

/-! ### The texts of a prompt -/

/-- Runs texts one after the other, and gives the status of each. -/
def runTexts (fuel : Nat) : List String → Machine → Option (List Status × Machine)
  | [], machine => some ([], machine)
  | text :: rest, machine => do
      let (status, later) ← runSource fuel text machine
      let (statuses, last) ← runTexts fuel rest later
      return (status :: statuses, last)

/-- The lines in front of the farewell. -/
def heardLines (lines : List (List Char)) : List (List Char) :=
  lines.takeWhile fun line => line ∉ farewells

/-- The texts of the lines that are not blank. -/
def lineTexts (lines : List (List Char)) : List String :=
  (lines.filter fun line => !line.isEmpty).map String.ofList

/-- The errors of a run, each on a line of its own: the static ones, and then the one that ended
it. -/
def errorLines (status : Status) : String :=
  String.join (status.static.map fun diagnostic => diagnostic.text ++ "\n") ++
    match status.fault with
    | none => ""
    | some (.runtime error) => (Diagnostic.runtime error).text ++ "\n"
    | some (.output error) => (Diagnostic.transfer error).text ++ "\n"

/-- What a console shows for lines, given the statuses of those that are not blank. -/
def exchanges : List (List Char) → List Status → String
  | [], _ => ""
  | line :: rest, statuses =>
      if line.isEmpty then "> " ++ exchanges rest statuses
      else "> " ++ (statuses.head?.elim "" errorLines ++ exchanges rest statuses.tail)

/-- What a console shows at the end of a prompt. -/
def closingText (lines : List (List Char)) : String :=
  if lines.any (· ∈ farewells) then "> " else "> \n"

/-- What a console shows of a prompt. -/
def transcript (lines : List (List Char)) (statuses : List Status) : String :=
  exchanges (heardLines lines) statuses ++ closingText lines

section

variable (line : List Char) (lines : List (List Char)) (status : Status) (statuses : List Status)

theorem join_diagnostics :
    String.join (status.diagnostics.map fun diagnostic => diagnostic.text ++ "\n") =
      errorLines status := by
  obtain ⟨static, fault⟩ := status
  rcases fault with _ | ⟨error⟩ | ⟨error⟩ <;>
    simp [Status.diagnostics, errorLines, Fault.diagnostic, String.join_append]

theorem heardLines_farewell {line : List Char} (farewell : line ∈ farewells) :
    heardLines (line :: lines) = [] := by
  simp [heardLines, farewell]

theorem heardLines_text {line : List Char} (stays : line ∉ farewells) :
    heardLines (line :: lines) = line :: heardLines lines := by
  simp [heardLines, stays]

theorem heardLines_blank : heardLines ([] :: lines) = [] :: heardLines lines :=
  heardLines_text lines (by decide)

theorem lineTexts_text {line : List Char} (full : line.isEmpty = false) :
    lineTexts (line :: lines) = String.ofList line :: lineTexts lines := by
  simp [lineTexts, full]

theorem transcript_blank :
    transcript ([] :: lines) statuses = "> " ++ transcript lines statuses := by
  simp only [transcript, heardLines_blank, exchanges, List.isEmpty_nil, if_true,
    String.append_assoc]
  rfl

theorem transcript_farewell {line : List Char} (farewell : line ∈ farewells) :
    transcript (line :: lines) statuses = "> " := by
  simp [transcript, heardLines_farewell lines farewell, exchanges, closingText, farewell]

theorem transcript_text {line : List Char} (full : line.isEmpty = false)
    (stays : line ∉ farewells) :
    transcript (line :: lines) (status :: statuses) =
      "> " ++ (errorLines status ++ transcript lines statuses) := by
  have closes : closingText (line :: lines) = closingText lines := by simp [closingText, stays]
  simp only [transcript, heardLines_text lines stays, exchanges, full, closes,
    Bool.false_eq_true, if_false, String.append_assoc]
  rfl

end

/-! ### The steps of a prompt -/

namespace Prompting

section

variable (machine : Machine) (written : String)

theorem tell_shown (diagnostics : List Diagnostic) :
    tell diagnostics ⟨machine, some written⟩ =
      .value () ⟨machine, some (written ++
        String.join (diagnostics.map fun diagnostic => diagnostic.text ++ "\n"))⟩ := by
  induction diagnostics generalizing written with
  | nil =>
    rw [List.map_nil, String.join_nil, String.append_empty]
    rfl
  | cons diagnostic rest ih =>
    change tell rest ⟨machine, some (written ++ (diagnostic.text ++ "\n"))⟩ = _
    rw [ih, List.map_cons, String.join_cons, String.append_assoc]

variable (fuel : Nat) {line : List Char}

theorem hear_blank (blank : Text.trim line = []) (terminal : Terminal) :
    hear fuel (some (utf8 line)) terminal = .value true terminal := by
  simp only [hear, Text.Utf8.decode_utf8, blank]
  rfl

theorem hear_farewell (full : (Text.trim line).isEmpty = false)
    (farewell : Text.trim line ∈ farewells) (terminal : Terminal) :
    hear fuel (some (utf8 line)) terminal = .value false terminal := by
  simp only [hear, Text.Utf8.decode_utf8, full, isFarewell_iff.mpr farewell]
  rfl

theorem hear_text (full : (Text.trim line).isEmpty = false)
    (stays : Text.trim line ∉ farewells) :
    hear fuel (some (utf8 line)) ⟨machine, some written⟩ =
      match runSource fuel (String.ofList (Text.trim line)) machine with
      | none => .exhausted
      | some (status, later) => .value true ⟨later, some (written ++ errorLines status)⟩ := by
  have goes : isFarewell (Text.trim line) = false := by
    rw [← Bool.not_eq_true, isFarewell_iff]
    exact stays
  simp only [hear, Text.Utf8.decode_utf8, full, goes]
  change (runLine fuel _).andThen _ _ = _
  simp only [Attempt.andThen, runLine]
  cases runSource fuel (String.ofList (Text.trim line)) machine with
  | none => rfl
  | some ended =>
    obtain ⟨status, later⟩ := ended
    change (tell status.diagnostics).andThen _ _ = _
    simp only [Attempt.andThen, tell_shown, join_diagnostics]
    rfl

end

end Prompting

/-- A prompt over lines ends, after what its console has shown before, as the runs of its texts
do. -/
def Transcribes (fuel : Nat) (lines : List (List Char)) (machine : Machine) (written : String)
    (outcome : Outcome IoError Terminal Unit) : Prop :=
  match runTexts fuel (lineTexts (heardLines lines)) machine with
  | none => outcome = .exhausted
  | some (statuses, later) => ∃ final, later.EqExceptJournal final ∧
      outcome = .value () ⟨final, some (written ++ transcript lines statuses)⟩

namespace Transcribes

variable {fuel : Nat} {lines : List (List Char)} {machine : Machine} {written : String}
  {outcome : Outcome IoError Terminal Unit}

theorem blank (rest : Transcribes fuel lines machine (written ++ "> ") outcome) :
    Transcribes fuel ([] :: lines) machine written outcome := by
  unfold Transcribes at rest ⊢
  rw [heardLines_blank, show lineTexts ([] :: heardLines lines) = lineTexts (heardLines lines) from
    rfl]
  cases runs : runTexts fuel (lineTexts (heardLines lines)) machine with
  | none =>
    rw [runs] at rest
    exact rest
  | some ended =>
    rw [runs] at rest
    obtain ⟨final, sameRest, ends⟩ := rest
    refine ⟨final, sameRest, ?_⟩
    rw [ends, transcript_blank, String.append_assoc]

theorem farewell {line : List Char} (leaves : line ∈ farewells) {begun : Machine}
    (sameRest : machine.EqExceptJournal begun) :
    Transcribes fuel (line :: lines) machine written
      (.value () ⟨begun, some (written ++ "> ")⟩) := by
  unfold Transcribes
  rw [heardLines_farewell lines leaves]
  refine ⟨begun, sameRest, ?_⟩
  rw [transcript_farewell lines [] leaves]

theorem cut {line : List Char} (full : line.isEmpty = false)
    (stays : line ∉ farewells)
    (exhausts : runSource fuel (String.ofList line) machine = none) :
    Transcribes fuel (line :: lines) machine written .exhausted := by
  unfold Transcribes
  rw [heardLines_text lines stays, lineTexts_text _ full]
  simp only [runTexts, exhausts, Option.bind_eq_bind, Option.bind_none]

theorem text {line : List Char} (full : line.isEmpty = false)
    (stays : line ∉ farewells) {status : Status} {later : Machine}
    (ran : runSource fuel (String.ofList line) machine = some (status, later))
    (rest : Transcribes fuel lines later (written ++ "> " ++ errorLines status) outcome) :
    Transcribes fuel (line :: lines) machine written outcome := by
  unfold Transcribes at rest ⊢
  rw [heardLines_text lines stays, lineTexts_text _ full]
  simp only [runTexts, ran, Option.bind_eq_bind, Option.bind_some]
  cases runs : runTexts fuel (lineTexts (heardLines lines)) later with
  | none =>
    rw [runs] at rest
    exact rest
  | some ended =>
    rw [runs] at rest
    obtain ⟨final, sameRest, ends⟩ := rest
    refine ⟨final, sameRest, ?_⟩
    rw [ends, transcript_text lines status ended.1 full stays, String.append_assoc,
      String.append_assoc]

end Transcribes

/-- The lines of a prompt are heard one after the other. -/
theorem converse_transcribes (fuel : Nat) (lines : List (List Char)) {machine begun : Machine}
    (sameRest : machine.EqExceptJournal begun) (written : String) :
    Transcribes fuel (lines.map Text.trim) machine written
      (Prompting.converse fuel (lines.map utf8) ⟨begun, some written⟩) := by
  induction lines generalizing machine begun written with
  | nil =>
    refine ⟨begun, sameRest, ?_⟩
    change Outcome.value () (Terminal.mk begun (some (written ++ "> " ++ "\n"))) = _
    rw [String.append_assoc]
    rfl
  | cons line rest ih =>
    have asked : Prompting.converse fuel ((line :: rest).map utf8) ⟨begun, some written⟩ =
        (Prompting.hear fuel (some (utf8 line))).andThen
          (fun goes => if goes then Prompting.converse fuel (rest.map utf8) else Attempt.value ())
          ⟨begun, some (written ++ "> ")⟩ := rfl
    rw [asked, List.map_cons]
    unfold Attempt.andThen
    cases full : (Text.trim line).isEmpty with
    | true =>
      have blank := List.isEmpty_iff.mp full
      rw [Prompting.hear_blank fuel blank, blank]
      exact (ih sameRest _).blank
    | false =>
      by_cases leaves : Text.trim line ∈ farewells
      · rw [Prompting.hear_farewell fuel full leaves]
        exact .farewell leaves sameRest
      · rw [Prompting.hear_text _ _ fuel full leaves]
        have same := runSource_alike fuel (String.ofList (Text.trim line)) sameRest
        generalize runSource fuel (String.ofList (Text.trim line)) begun = again at same
        cases ran : runSource fuel (String.ofList (Text.trim line)) machine with
        | none =>
          rw [ran] at same
          cases same
          exact .cut full leaves ran
        | some ended =>
          obtain ⟨status, later⟩ := ended
          rw [ran] at same
          cases same with
          | some reached =>
            obtain ⟨rfl, sameRest⟩ := reached
            exact .text full leaves ran (ih sameRest _)

/-- The lines of a text without the white space at their ends are determined.  A prompt over the
text runs those in front of the farewell that are not blank, one after the other, and leaves the
machine as those runs do, up to its journal.  Its console takes a prompt and the errors of the run
for each line, and a last prompt, which stays open after a farewell and is ended by a line feed at
the end of the text.  It is cut off just if one of the runs is. -/
theorem prompt_transcript (fuel : Nat) (text : String) (machine : Machine) (written : String) :
    (∃ lines, List.Forall₂ Trims (textLines text.toList) lines) ∧
    ∀ lines, List.Forall₂ Trims (textLines text.toList) lines →
      match runTexts fuel (lineTexts (heardLines lines)) machine with
      | none =>
          holdPrompt fuel text.toByteArray.data.toList ⟨machine, some written⟩ = .exhausted
      | some (statuses, later) =>
          ∃ final, later.EqExceptJournal final ∧
            holdPrompt fuel text.toByteArray.data.toList ⟨machine, some written⟩ =
              .value () ⟨final, some (written ++ transcript lines statuses)⟩ := by
  refine ⟨⟨_, forall₂_trims_iff.mpr rfl⟩, fun lines trimmed => ?_⟩
  rw [forall₂_trims_iff.mp trimmed]
  have begins : machine.EqExceptJournal (machine.note .promptStarted) := rfl
  have heard := converse_transcribes fuel (textLines text.toList) begins written
  have held : holdPrompt fuel text.toByteArray.data.toList ⟨machine, some written⟩ =
      (Prompting.converse fuel ((textLines text.toList).map utf8)).andThen
        (fun _ => Prompting.note .promptClosed) ⟨machine.note .promptStarted, some written⟩ := by
    rw [← lines_bytes]
    rfl
  rw [held]
  unfold Attempt.andThen
  unfold Transcribes at heard
  split
  · next cut =>
    rw [cut] at heard
    rw [heard]
  · next statuses later runs =>
    rw [runs] at heard
    obtain ⟨final, sameRest, ends⟩ := heard
    rw [ends]
    exact ⟨final.note .promptClosed, sameRest.journals later.journal _, rfl⟩

/-- A statement, a blank line, an error, a farewell, and a line behind it. -/
def conversation : String := "print \"a\";\n\u00a0\r\n var\n\tQuIt\u2003\nprint \"b\";\n"

/-- Its lines without the white space at their ends. -/
def conversationLines : List (List Char) :=
  ["print \"a\";".toList, [], "var".toList, "QuIt".toList, "print \"b\";".toList]

theorem prompt_transcript_farewell :
    ∃ final,
      holdPrompt 20 conversation.toByteArray.data.toList
          ⟨Machine.new .unbounded (fun _ => .ok 0) .silent, some ""⟩ =
        .value () ⟨final, some "> > > [line 1] Error at end: Expect variable name.\n> "⟩ ∧
      final.sink.accepted = "a\n" := by
  have trimmed : List.Forall₂ Trims (textLines conversation.toList) conversationLines :=
    forall₂_trims_iff.mpr (by decide +kernel)
  have checked : (runTexts 20 (lineTexts (heardLines conversationLines))
      (Machine.new .unbounded (fun _ => .ok 0) .silent)).any (fun ran =>
        decide (transcript conversationLines ran.1 =
            "> > > [line 1] Error at end: Expect variable name.\n> " ∧
          ran.2.sink.accepted = "a\n")) = true := by
    decide +kernel
  obtain ⟨⟨statuses, later⟩, ran, holds⟩ := (Option.any_eq_true _ _).mp checked
  obtain ⟨shown, printed⟩ := of_decide_eq_true holds
  -- The theorem's statement would run its lines if they were known.
  generalize conversationLines = lines at trimmed ran shown
  have held := (prompt_transcript 20 conversation
    (Machine.new .unbounded (fun _ => .ok 0) .silent) "").2 lines trimmed
  rw [ran] at held
  obtain ⟨final, sameRest, ends⟩ := held
  rw [shown, String.empty_append] at ends
  have sink : final.sink = later.sink := by rw [sameRest]
  refine ⟨final, ends, ?_⟩
  rw [sink]
  exact printed

end LexicalScript
