import LexicalScript.Proofs.Erasure
import LexicalScript.Proofs.JoinedPrograms
import LexicalScript.Proofs.RenumberedRuns
import LexicalScript.Proofs.RenumberedWalks
import LexicalScript.Proofs.Sessions

/-!
Running two texts one after the other, and running both as one text.

The statements of the joined text are those of the two texts, and the resolver and the machine come
to the second ones in the state that a run of the first text leaves, up to lines.  To tell which
lines move, the second text is executed once more with its lines numbered apart from all others;
both runs are renumberings of that one.
-/

set_option autoImplicit false

namespace LexicalScript

/-! ### What is seen of a run -/

/-- The global names with the texts of their values, in order of first binding. -/
def Machine.globalTexts (machine : Machine) : List (String × Option String) :=
  machine.globalNames.map fun name =>
    (name, (machine.store.local? machine.globals name).map Value.text)

/-- How a run ended: its errors, the text printed so far, and the globals. -/
structure Ending where
  static : List Diagnostic
  fault : Option Fault
  printed : String
  globals : List (String × Option String)

/-- How a run ended, if it did. -/
def ending (run : Option (Status × Machine)) : Option Ending :=
  run.map fun (status, machine) =>
    ⟨status.static, status.fault, machine.sink.accepted, machine.globalTexts⟩

def Ending.renumber (lines : Nat → Nat) (ending : Ending) : Ending :=
  { ending with fault := ending.fault.map (Fault.renumber lines) }

/-- How a run ends whose statements were executed, with or without a fault: a failure to flush the
sink replaces the fault. -/
def Machine.closing (machine : Machine) (fault : Option Fault) : Ending :=
  ⟨[], (machine.sink.flush.map .output).or fault, machine.sink.accepted, machine.globalTexts⟩

/-- How a run ends whose statements are executed with the given outcome. -/
def Outcome.ending : Outcome Fault Machine Unit → Option Ending
  | .value _ machine => some (machine.closing none)
  | .failure fault machine => some (machine.closing (some fault))
  | .exhausted => none

theorem Machine.globalNames_renumber (lines : Nat → Nat) (machine : Machine) :
    (machine.renumber lines).globalNames = machine.globalNames :=
  Store.names_renumber lines machine.store machine.globals

theorem Machine.globalTexts_renumber (lines : Nat → Nat) (machine : Machine) :
    (machine.renumber lines).globalTexts = machine.globalTexts := by
  unfold Machine.globalTexts
  rw [Machine.globalNames_renumber]
  apply List.map_congr_left
  intro name _
  have found := Store.local?_renumber lines machine.store machine.globals name
  change (name, ((machine.store.renumber lines).local? machine.globals name).map Value.text) = _
  rw [found, Option.map_map]
  congr 2
  funext value
  exact Value.text_renumber lines value

theorem Machine.closing_renumber (lines : Nat → Nat) (machine : Machine) (fault : Option Fault) :
    (machine.renumber lines).closing (fault.map (Fault.renumber lines)) =
      (machine.closing fault).renumber lines := by
  have sink : (machine.renumber lines).sink = machine.sink := rfl
  simp only [Machine.closing, Machine.globalTexts_renumber, Ending.renumber, sink]
  cases machine.sink.flush <;> rfl

theorem Outcome.ending_renumber (lines : Nat → Nat) (outcome : Outcome Fault Machine Unit) :
    (outcome.renumber lines id).ending = outcome.ending.map (Ending.renumber lines) := by
  cases outcome with
  | exhausted => rfl
  | value result machine => exact congrArg some (machine.closing_renumber lines none)
  | failure fault machine => exact congrArg some (machine.closing_renumber lines (some fault))

/-! ### Lines that move and lines that stay -/

/-- Lines told apart: even numbers stand for lines that stay, odd ones for lines that move. -/
def apart (moves : Bool) (line : Nat) : Nat := if moves then 2 * line + 1 else 2 * line

/-- The line that a number stands for once the moving ones have moved. -/
def together (shift number : Nat) : Nat :=
  number / 2 + if number % 2 = 1 then shift else 0

theorem together_apart (moves : Bool) (shift line : Nat) :
    together shift (apart moves line) = line + if moves then shift else 0 := by
  unfold together apart
  cases moves with
  | false =>
      have even : 2 * line % 2 ≠ 1 := by omega
      have half : 2 * line / 2 = line := by omega
      simp only [Bool.false_eq_true, if_false, if_neg even, half]
  | true =>
      have odd : (2 * line + 1) % 2 = 1 := by omega
      have half : (2 * line + 1) / 2 = line := by omega
      simp only [if_true, if_pos odd, half]

/-- The ending with the line of its fault moved. -/
def Ending.moved (shift : Nat) (ending : Ending) : Ending := ending.renumber (· + shift)

/-- Whether the line of a fault is one of those that move does not depend on how far they move. -/
theorem Ending.together (ending : Ending) :
    ∃ moves : Bool, ∀ shift, ending.renumber (LexicalScript.together shift) =
      (ending.renumber (LexicalScript.together 0)).moved (if moves then shift else 0) := by
  obtain ⟨static, fault, printed, globals⟩ := ending
  cases fault with
  | none => exact ⟨false, fun _ => rfl⟩
  | some fault =>
      cases fault with
      | output error => exact ⟨false, fun _ => rfl⟩
      | runtime error =>
          refine ⟨decide (error.line % 2 = 1), fun shift => ?_⟩
          simp only [Ending.moved, Ending.renumber, Option.map_some, Fault.renumber,
            RuntimeError.renumber, LexicalScript.together, ite_self, Nat.add_zero,
            decide_eq_true_eq]

/-- Executing statements further down ends in the same way, up to the line of the fault, and that
one moves with the statements or stays wherever they stand. -/
theorem executeEach_moved (fuel : Nat) (statements : List Stmt) (machine : Machine) :
    ∃ moves : Bool, ∀ shift,
      (executeEach fuel (Stmt.retouchAll (.lines (· + shift)) statements)
        (machine.renumber id)).ending =
      (executeEach fuel statements (machine.renumber id)).ending.map
        (Ending.moved (if moves then shift else 0)) := by
  have separate : ∀ shift, (executeEach fuel (Stmt.retouchAll (.lines (· + shift)) statements)
      (machine.renumber id)).ending =
      (executeEach fuel (Stmt.retouchAll (.lines (apart true)) statements)
        (machine.renumber (apart false))).ending.map (Ending.renumber (together shift)) := by
    intro shift
    have program : together shift ∘ apart true = (· + shift) :=
      funext fun line => together_apart true shift line
    have rest : together shift ∘ apart false = id :=
      funext fun line => together_apart false shift line
    rw [← Outcome.ending_renumber, ← executeEach_renumber, Stmt.renumberAll_renumberAll,
      Machine.renumber_renumber, program, rest]
  have still := separate 0
  rw [show Stmt.retouchAll (.lines (· + 0)) statements = statements from
    Stmt.renumberAll_id statements] at still
  cases ended : (executeEach fuel (Stmt.retouchAll (.lines (apart true)) statements)
    (machine.renumber (apart false))).ending with
  | none =>
      refine ⟨false, fun shift => ?_⟩
      rw [separate, still, ended]
      rfl
  | some ending =>
      obtain ⟨moves, same⟩ := ending.together
      refine ⟨moves, fun shift => ?_⟩
      rw [separate, still, ended, Option.map_some, same]
      rfl

/-! ### Runs of accepted texts -/

theorem Machine.renumber_eqExceptJournal {machine later : Machine}
    (sameRest : machine.EqExceptJournal later) (lines : Nat → Nat) :
    later.renumber lines = machine.renumber lines := by
  rw [sameRest]
  rfl

/-- The journal takes no part in an execution. -/
theorem executeEach_silent (fuel : Nat) (statements : List Stmt) (machine : Machine) :
    executeEach fuel statements (machine.renumber id) =
      (executeEach fuel statements machine).renumber id id := by
  have follows := executeEach_renumber id fuel statements machine
  rw [Stmt.renumberAll_id] at follows
  exact follows

theorem Outcome.ending_silent (outcome : Outcome Fault Machine Unit) :
    (outcome.renumber id id).ending = outcome.ending := by
  have same : ∀ ending : Ending, ending.renumber id = ending := by
    rintro ⟨static, fault, printed, globals⟩
    cases fault with
    | none => rfl
    | some fault => cases fault <;> rfl
  rw [Outcome.ending_renumber]
  cases outcome.ending with
  | none => rfl
  | some ending => exact congrArg some (same ending)

theorem ending_runStatements (fuel : Nat) {statements : List Stmt} (machine : Machine)
    (accepted : ((Resolver.ofGlobals machine.globalNames).resolve statements).error = none) :
    ending (runStatements fuel [] statements machine) =
      (executeEach fuel ((Resolver.ofGlobals machine.globalNames).resolve statements).statements
        (machine.renumber id)).ending := by
  rw [runStatements_accepted rfl accepted]
  generalize begins : (machine.noteAll _).note _ = begun
  have sameRest : machine.EqExceptJournal begun := by
    rw [← begins]
    rfl
  rw [← Machine.renumber_eqExceptJournal sameRest, executeEach_silent, Outcome.ending_silent]
  generalize executeEach fuel _ begun = outcome
  cases outcome with
  | exhausted => rfl
  | value _ ended | failure fault ended =>
      simp only [Outcome.ending, conclude, Machine.closing]
      cases ended.sink.flush <;> rfl

/-- How a run of an accepted text ends is how the execution of its statements does. -/
theorem ending_runSource (fuel : Nat) {source : String} {tokens : List Token} {machine : Machine}
    (scanned : tokens? source = .ok tokens) (clean : (Parser.program tokens).errors = [])
    (accepted : (machine.resolved tokens).error = none) (flushes : machine.sink.flush = none) :
    ending (runSource fuel source machine) =
      (executeEach fuel (machine.resolved tokens).statements (machine.renumber id)).ending := by
  unfold runSource
  rw [scanned]
  dsimp only
  rw [clean]
  cases empty : (Parser.program tokens).statements.isEmpty with
  | true =>
      have nothing : (machine.resolved tokens).statements = [] := by
        unfold Machine.resolved
        rw [List.isEmpty_iff.mp empty]
        rfl
      rw [if_pos rfl, nothing]
      change some _ = some (Machine.closing (machine.renumber id) none)
      have silent := machine.closing_renumber id none
      rw [show (none : Option Fault).map (Fault.renumber id) = none from rfl] at silent
      rw [silent]
      simp only [Machine.closing, flushes, Ending.renumber]
      rfl
  | false =>
      rw [if_neg Bool.false_ne_true]
      generalize begins : (machine.noteAll _).noteAll _ = begun
      have sameRest : machine.EqExceptJournal begun := by
        rw [← begins]
        rfl
      have names : begun.globalNames = machine.globalNames := by
        rw [sameRest]
        rfl
      unfold Machine.resolved at accepted ⊢
      rw [← names] at accepted ⊢
      rw [← Machine.renumber_eqExceptJournal sameRest]
      exact ending_runStatements fuel begun accepted

/-- A run without errors has executed all statements of its text. -/
theorem runSource_ok {fuel : Nat} {source : String} {machine later : Machine} {status : Status}
    (ran : runSource fuel source machine = some (status, later)) (ok : status.isOk = true)
    (flushes : machine.sink.flush = none) :
    ∃ tokens, tokens? source = .ok tokens ∧ (Parser.program tokens).errors = [] ∧
      (machine.resolved tokens).error = none ∧ later.sink.flush = none ∧
      executeEach fuel (machine.resolved tokens).statements (machine.renumber id) =
        .value () (later.renumber id) := by
  obtain ⟨noStatic, noFault⟩ := Bool.and_eq_true_iff.mp ok
  cases runSource_ran ran with
  | unscanned _ _ => cases noStatic
  | refused _ _ _ => cases (List.append_eq_nil_iff.mp (List.isEmpty_iff.mp noStatic)).2
  | @idle tokens _ scanned empty sameRest =>
      have nothing : machine.resolved tokens =
          (Resolver.ofGlobals machine.globalNames).resolve [] := by
        unfold Machine.resolved
        rw [empty]
      refine ⟨tokens, scanned, List.map_eq_nil_iff.mp (List.isEmpty_iff.mp noStatic), ?_⟩
      rw [nothing, Machine.renumber_eqExceptJournal sameRest, sameRest]
      exact ⟨rfl, flushes, rfl⟩
  | @executed tokens begun ended _ fault scanned accepted _ sameRest ends sameRest' =>
      obtain ⟨flushed, rfl⟩ := Option.or_eq_none_iff.mp (Option.isNone_iff_eq_none.mp noFault)
      refine ⟨tokens, scanned, List.map_eq_nil_iff.mp (List.isEmpty_iff.mp noStatic), accepted,
        ?_, ?_⟩
      · rw [sameRest']
        exact Option.map_eq_none_iff.mp flushed
      · rw [← Machine.renumber_eqExceptJournal sameRest, executeEach_silent,
          show executeEach fuel _ begun = _ from ends, Machine.renumber_eqExceptJournal sameRest']
        rfl

/-! ### Known globals -/

theorem Stmt.declaredNames_erase (statements : List Stmt) :
    Stmt.declaredNames (Stmt.retouchAll .erasing statements) = Stmt.declaredNames statements := by
  induction statements with
  | nil => rfl
  | cons stmt rest ih =>
      rw [Stmt.retouchAll, Stmt.declaredNames_cons, ih, Stmt.declaredNames_cons stmt]
      congr 1
      cases stmt <;> rfl

theorem Stmt.declaredNames_resolve (resolver : Resolver) (statements : List Stmt) :
    Stmt.declaredNames (resolver.resolve statements).statements =
      Stmt.declaredNames statements := by
  rw [← Stmt.declaredNames_erase, Resolver.erase_resolve, Stmt.declaredNames_erase]

/-- After a run without errors the machine binds the globals that the resolver knows then. -/
theorem globalNames_after {fuel : Nat} {machine later : Machine} {tokens : List Token}
    (ready : machine.Ready machine.globals [])
    (accepted : (machine.resolved tokens).error = none)
    (executed : executeEach fuel (machine.resolved tokens).statements (machine.renumber id) =
      .value () (later.renumber id)) (name : String) :
    name ∈ later.globalNames ↔ name ∈ (machine.resolved tokens).resolver.known := by
  have silent : machine.EqExceptJournal (machine.renumber id) := machine.renumber_id
  have ready' := (ready.eqExceptJournal silent).own
  obtain ⟨placed, resolver⟩ := Resolver.resolve_accepted machine.globalNames
    (Parser.program tokens).statements (Parser.program_shaped tokens).proper accepted
  have evolves := ((executeEach_keeps fuel ready' placed).of_value executed).1
  unfold Machine.resolved
  rw [resolver, Resolver.ofGlobals, mem_foldl_learn, ← Machine.globalNames_renumber id later,
    ← Machine.globalNames_renumber id machine]
  unfold Machine.globalNames
  rw [Store.mem_names_iff, Store.mem_names_iff, evolves.globals]
  constructor
  · intro binds
    rcases evolves.spares.frugal _ name ready'.sound.rooted binds with before | listed
    · exact Or.inl before
    · obtain ⟨other, declared, same⟩ := List.mem_map.mp listed
      rw [Stmt.declaredNames_resolve, (Prod.mk.inj same).2] at declared
      exact Or.inr declared
  · rintro (before | declared)
    · exact evolves.grown.binds _ _ before
    · rw [← ready'.atTop]
      apply executeEach_binds ready' placed executed
      rw [Stmt.declaredNames_resolve]
      exact declared

/-! ### Joined texts -/

theorem executeEach_append (fuel : Nat) (first second : List Stmt) :
    executeEach fuel (first ++ second) = (do
      executeEach fuel first
      executeEach fuel second) := by
  induction first with
  | nil => rfl
  | cons stmt rest ih =>
      rw [List.cons_append, executeEach, executeEach, ih, bind_assoc]

section

variable {fuel : Nat} {first second : String} {machine later : Machine}
  {tokens tokens' : List Token}

/-- Behind a text that was executed, the resolver and the machine come to the joined one's further
statements as they do in a run of their own, up to lines. -/
theorem run_joined (ready : machine.Ready machine.globals []) (flushes : machine.sink.flush = none)
    (scanned : tokens? first = .ok tokens) (clean : (Parser.program tokens).errors = [])
    (accepted : (machine.resolved tokens).error = none)
    (executed : executeEach fuel (machine.resolved tokens).statements (machine.renumber id) =
      .value () (later.renumber id))
    (scanned' : tokens? second = .ok tokens') (clean' : (Parser.program tokens').errors = []) :
    ∃ joined, tokens? (first ++ "\n" ++ second) = .ok joined ∧
      (Parser.program joined).errors = [] ∧
      ((machine.resolved joined).error = none ↔ (later.resolved tokens').error = none) ∧
      ((later.resolved tokens').error = none →
        ending (runSource fuel (first ++ "\n" ++ second) machine) =
          (executeEach fuel (Stmt.retouchAll (.lines (· + (first.toList.count '\n' + 1)))
            (later.resolved tokens').statements) (later.renumber id)).ending) := by
  obtain ⟨joined, scannedAll, cleanAll, statements⟩ := program_joined scanned clean scanned' clean'
  have alongside : (Resolver.ofGlobals later.globalNames).Alongside
      (machine.resolved tokens).resolver := by
    have resolver := (Resolver.resolve_accepted machine.globalNames
      (Parser.program tokens).statements (Parser.program_shaped tokens).proper accepted).2
    have known := globalNames_after ready accepted executed
    unfold Machine.resolved at known ⊢
    rw [resolver] at known ⊢
    exact ⟨rfl, rfl, rfl, fun name => (known name).symm⟩
  have joins : (machine.resolved joined).error = (later.resolved tokens').error.map
        (ResolveError.renumber (· + (first.toList.count '\n' + 1))) ∧
      (machine.resolved joined).statements = (machine.resolved tokens).statements ++
        Stmt.retouchAll (.lines (· + (first.toList.count '\n' + 1)))
          (later.resolved tokens').statements := by
    unfold Machine.resolved
    rw [statements]
    exact Resolver.resolve_append _ _ accepted alongside
  have both : (machine.resolved joined).error = none ↔ (later.resolved tokens').error = none := by
    rw [joins.1, Option.map_eq_none_iff]
  refine ⟨joined, scannedAll, cleanAll, both, ?_⟩
  intro accepted'
  rw [ending_runSource fuel scannedAll cleanAll (both.mpr accepted') flushes, joins.2,
    executeEach_append, Attempt.bind_apply, executed]

end

/-! ### Texts further down -/

/-- A text of line feeds only. -/
def blankLines (count : Nat) : String := String.ofList (List.replicate count '\n')

theorem blankLines_succ (count : Nat) : blankLines (count + 1) = blankLines count ++ "\n" := by
  unfold blankLines
  rw [List.replicate_succ', String.ofList_append]

theorem count_blankLines (count : Nat) : (blankLines count).toList.count '\n' = count := by
  unfold blankLines
  rw [String.toList_ofList, List.count_replicate_self]

theorem tokens?_blankLines (count : Nat) :
    ∃ line, tokens? (blankLines count) = .ok ([] ++ [Token.endOfInput line]) := by
  induction count with
  | zero => exact ⟨1, rfl⟩
  | succ count ih =>
      obtain ⟨line, scanned⟩ := ih
      have empty : tokens? "" = .ok [Token.endOfInput 1] := rfl
      have joined := tokens?_joined scanned empty
      rw [String.append_empty, ← blankLines_succ] at joined
      exact ⟨_, joined⟩

/-- A text may be pushed down by blank lines. -/
theorem ending_pushed_down (fuel : Nat) {source : String} {tokens : List Token} {machine : Machine}
    (ready : machine.Ready machine.globals []) (flushes : machine.sink.flush = none)
    (scanned : tokens? source = .ok tokens) (clean : (Parser.program tokens).errors = [])
    (accepted : (machine.resolved tokens).error = none) (count : Nat) :
    ending (runSource fuel (blankLines count ++ source) machine) =
      (executeEach fuel (Stmt.retouchAll (.lines (· + count)) (machine.resolved tokens).statements)
        (machine.renumber id)).ending := by
  cases count with
  | zero =>
      rw [show blankLines 0 ++ source = source from String.empty_append,
        show Stmt.retouchAll (.lines (· + 0)) _ = _ from Stmt.renumberAll_id _]
      exact ending_runSource fuel scanned clean accepted flushes
  | succ count =>
      obtain ⟨line, blank⟩ := tokens?_blankLines count
      have nothing := Parser.program_complete (show (Token.endOfInput line).is _ = true from rfl)
        (Grammar.Declarations.nil)
      have resolved : machine.resolved ([] ++ [Token.endOfInput line]) =
          (Resolver.ofGlobals machine.globalNames).resolve [] := by
        unfold Machine.resolved
        rw [nothing.2]
      have passed : (machine.resolved ([] ++ [Token.endOfInput line])).error = none := by
        rw [resolved]
        rfl
      have executed : executeEach fuel (machine.resolved ([] ++ [Token.endOfInput line])).statements
          (machine.renumber id) = .value () (machine.renumber id) := by
        rw [resolved]
        rfl
      obtain ⟨_, _, _, _, runs⟩ :=
        run_joined ready flushes blank nothing.1 passed executed scanned clean
      have pushed := runs accepted
      rw [count_blankLines] at pushed
      rw [blankLines_succ]
      exact pushed

/-- Running one text after another and running both as one come to the same.  The resolver accepts
the second text after the first one exactly if it accepts the joined text; then both ways end with
the same errors, the same text printed and the same globals.  Only the line of a fault may differ:
if it is a line of the second text, one that moves with that text when it is pushed down, then it
is counted from the start of the joined one. -/
theorem one_run_ends_as_two {fuel : Nat} {first second : String} {machine later : Machine}
    {status : Status} {tokens : List Token} (session : Session machine)
    (flushes : machine.sink.flushFails = false)
    (ran : runSource fuel first machine = some (status, later)) (ok : status.isOk = true)
    (scanned : tokens? second = .ok tokens) (clean : (Parser.program tokens).errors = []) :
    ∃ joined, tokens? (first ++ "\n" ++ second) = .ok joined ∧
      (Parser.program joined).errors = [] ∧
      ((later.resolved tokens).error = none ↔ (machine.resolved joined).error = none) ∧
      ((later.resolved tokens).error = none → ∃ moves : Bool,
        (∀ count, ending (runSource fuel (blankLines count ++ second) later) =
          (ending (runSource fuel second later)).map
            (Ending.moved (if moves then count else 0))) ∧
        ending (runSource fuel (first ++ "\n" ++ second) machine) =
          (ending (runSource fuel second later)).map
            (Ending.moved (if moves then first.toList.count '\n' + 1 else 0))) := by
  have flush : machine.sink.flush = none := by
    unfold Sink.flush
    rw [flushes]
    rfl
  obtain ⟨earlier, scanned', clean', accepted', flush', executed⟩ := runSource_ok ran ok flush
  obtain ⟨joined, scannedAll, cleanAll, both, runs⟩ :=
    run_joined session.ready flush scanned' clean' accepted' executed scanned clean
  refine ⟨joined, scannedAll, cleanAll, both.symm, ?_⟩
  intro accepted
  obtain ⟨moves, same⟩ := executeEach_moved fuel (later.resolved tokens).statements later
  rw [ending_runSource fuel scanned clean accepted flush']
  refine ⟨moves, ?_, ?_⟩
  · intro count
    rw [← same count]
    exact ending_pushed_down fuel (session.run ran).ready flush' scanned clean accepted count
  · rw [← same]
    exact runs accepted

/-- A text of two lines. -/
def declaring : String := "var a = \"x\";\nprint a;"

/-- A text whose second line reads a variable that is not there. -/
def reading : String := "print a + a;\nprint b;"

/-- The fault on the second line of the second text is on the fourth line of the joined one. -/
theorem one_run_ends_as_two_undefined :
    ∃ status later,
      runSource 20 declaring (Machine.new .unbounded (fun _ => .ok 0) .silent) =
        some (status, later) ∧
      status.isOk = true ∧
      ending (runSource 20 (declaring ++ "\n" ++ reading)
        (Machine.new .unbounded (fun _ => .ok 0) .silent)) =
        (ending (runSource 20 reading later)).map (Ending.moved 2) ∧
      (ending (runSource 20 reading later)).any (fun ended =>
        ended.fault = some (.runtime ⟨.undefinedVariable "b" none, 2⟩) ∧
          ended.printed = "x\nxx\n") = true := by
  have checked : (runSource 20 declaring (Machine.new .unbounded (fun _ => .ok 0) .silent)).any
      (fun ran => (tokens? reading).toOption.any fun tokens =>
        ran.1.isOk && (Parser.program tokens).errors.isEmpty &&
          (ran.2.resolved tokens).error.isNone &&
          (ending (runSource 20 reading ran.2)).any (fun ended =>
            ended.fault = some (.runtime ⟨.undefinedVariable "b" none, 2⟩) ∧
              ended.printed = "x\nxx\n")) = true := by
    decide +kernel
  have line : (ending (runSource 20 (declaring ++ "\n" ++ reading)
      (Machine.new .unbounded (fun _ => .ok 0) .silent))).any (fun ended =>
        ended.fault = some (.runtime ⟨.undefinedVariable "b" none, 4⟩)) = true := by
    decide +kernel
  obtain ⟨⟨status, later⟩, ran, checked⟩ := (Option.any_eq_true _ _).mp checked
  cases scanned : tokens? reading with
  | error diagnostic =>
    rw [scanned] at checked
    cases checked
  | ok tokens =>
    rw [scanned] at checked
    simp only [Except.toOption, Option.any_some, Bool.and_eq_true] at checked
    obtain ⟨⟨⟨ok, clean⟩, accepted⟩, ended⟩ := checked
    obtain ⟨joined, _, _, _, runs⟩ := one_run_ends_as_two (.new _ _ _) rfl ran ok scanned
      (List.isEmpty_iff.mp clean)
    obtain ⟨moves, _, whole⟩ := runs (Option.isNone_iff_eq_none.mp accepted)
    refine ⟨status, later, ran, ok, ?_, ended⟩
    cases moves with
    | true => exact whole
    | false =>
        -- the line would have stayed the second one
        rw [whole] at line
        cases shown : ending (runSource 20 reading later) with
        | none =>
            rw [shown] at ended
            cases ended
        | some shown' =>
            rw [shown] at ended line
            simp only [Option.any_some, decide_eq_true_eq] at ended
            simp [Ending.moved, Ending.renumber, ended.1, Fault.renumber,
              RuntimeError.renumber] at line

end LexicalScript
