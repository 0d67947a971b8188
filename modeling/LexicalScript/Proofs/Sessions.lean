import LexicalScript.Proofs.Resolution
import LexicalScript.Proofs.ScopedRuns
import LexicalScript.Session

/-!
Machines between the runs of a session.

A session starts from a new machine and runs texts one after the other; the host may also supply
native functions between them.  Whatever the texts were and however their runs ended, the machine
between two runs is sound and has the global frame active.
-/

set_option autoImplicit false

namespace LexicalScript

/-! ### What a run executes -/

/-- The statements that running a text executes, and the machine that their execution starts on;
nothing if the text is not executed. -/
def begin? (source : String) (machine : Machine) : Option (List Stmt × Machine) :=
  match tokens? source with
  | .error _ => none
  | .ok tokens =>
      let parsed := Parser.program tokens
      let machine := (machine.noteAll fun _ => scanEvents source).noteAll
        fun _ => parsed.notes.map .parser
      let resolved := (Resolver.ofGlobals machine.globalNames).resolve parsed.statements
      if parsed.statements.isEmpty || resolved.error.isSome then none
      else some (resolved.statements, (machine.noteAll fun _ =>
        resolved.notes.map .resolver).note (.interpreting resolved.statements.length))

/-- What the resolver makes of the statements parsed from tokens. -/
def Machine.resolved (machine : Machine) (tokens : List Token) : Resolved :=
  (Resolver.ofGlobals machine.globalNames).resolve (Parser.program tokens).statements

/-- The machines differ in their journals at most. -/
def Machine.EqExceptJournal (machine later : Machine) : Prop :=
  later = { machine with journal := later.journal }

/-- The execution of statements ends on a machine, with a fault or without. -/
def Ends (fuel : Nat) (statements : List Stmt) (begun : Machine) (fault : Option Fault)
    (ended : Machine) : Prop :=
  match fault with
  | none => executeEach fuel statements begun = .value () ended
  | some cause => executeEach fuel statements begun = .failure cause ended

theorem Ends.state? {fuel : Nat} {statements : List Stmt} {begun ended : Machine}
    {fault : Option Fault} (ends : Ends fuel statements begun fault ended) :
    (executeEach fuel statements begun).state? = some ended := by
  cases fault with
  | none | some cause =>
      rw [show executeEach fuel statements begun = _ from ends]
      rfl

/-- How a run ends whose statements were executed with that outcome. -/
def conclude (static : List Diagnostic) :
    Outcome Fault Machine Unit → Option (Status × Machine)
  | .exhausted => none
  | .value _ ended =>
      match ended.sink.flush with
      | some error => some (⟨static, some (.output error)⟩, ended.note (.runFailed (.output error)))
      | none => some (⟨static, none⟩, ended.note .interpreted)
  | .failure fault ended =>
      match ended.sink.flush with
      | some error => some (⟨static, some (.output error)⟩, ended.note (.runFailed (.output error)))
      | none => some (⟨static, some fault⟩, ended.note (.runFailed fault))

theorem Ends.of_conclude {fuel : Nat} {statements : List Stmt} {begun later : Machine}
    {static : List Diagnostic} {status : Status}
    (ran : conclude static (executeEach fuel statements begun) = some (status, later)) :
    ∃ fault ended, Ends fuel statements begun fault ended ∧ ended.EqExceptJournal later ∧
      status = ⟨static, (ended.sink.flush.map .output).or fault⟩ := by
  cases executing : executeEach fuel statements begun with
  | exhausted =>
      rw [executing] at ran
      cases ran
  | value result ended =>
      rw [executing] at ran
      refine ⟨none, ended, executing, ?_⟩
      dsimp only [conclude] at ran
      cases flushed : ended.sink.flush with
      | none | some error =>
          rw [flushed] at ran
          cases ran
          exact ⟨rfl, rfl⟩
  | failure cause ended =>
      rw [executing] at ran
      refine ⟨some cause, ended, executing, ?_⟩
      dsimp only [conclude] at ran
      cases flushed : ended.sink.flush with
      | none | some error =>
          rw [flushed] at ran
          cases ran
          exact ⟨rfl, rfl⟩

theorem runStatements_refused {fuel : Nat} {static : List Diagnostic} {statements : List Stmt}
    {machine : Machine} {resolved : Resolved} {error : ResolveError}
    (walked : (Resolver.ofGlobals machine.globalNames).resolve statements = resolved)
    (refused : resolved.error = some error) :
    runStatements fuel static statements machine =
      some (⟨static ++ [.resolve error], none⟩,
        machine.noteAll fun _ => resolved.notes.map .resolver) := by
  unfold runStatements
  dsimp only
  rw [walked, refused]

theorem runStatements_accepted {fuel : Nat} {static : List Diagnostic} {statements : List Stmt}
    {machine : Machine} {resolved : Resolved}
    (walked : (Resolver.ofGlobals machine.globalNames).resolve statements = resolved)
    (accepted : resolved.error = none) :
    runStatements fuel static statements machine =
      conclude static (executeEach fuel resolved.statements
        ((machine.noteAll fun _ => resolved.notes.map .resolver).note
          (.interpreting resolved.statements.length))) := by
  unfold runStatements
  dsimp only
  rw [walked, accepted]
  dsimp only [interpret]
  generalize executeEach fuel _ _ = outcome
  cases outcome with
  | exhausted => rfl
  | value _ ended | failure fault ended =>
      dsimp only [conclude]
      cases ended.sink.flush <;> rfl

/-- What a run did that ended with a status on a machine: the text does not scan, has no statements,
is refused by the resolver, or is executed.  After an execution a sink that cannot be flushed hides
the fault. -/
inductive Ran (fuel : Nat) (source : String) (machine : Machine) : Status → Machine → Prop
  | unscanned {error : LexicalError} {later : Machine} : tokens? source = .error error →
      machine.EqExceptJournal later → Ran fuel source machine ⟨[.lexical error], none⟩ later
  | idle {tokens : List Token} {later : Machine} : tokens? source = .ok tokens →
      (Parser.program tokens).statements = [] → machine.EqExceptJournal later →
      Ran fuel source machine ⟨(Parser.program tokens).errors.map .parse, none⟩ later
  | refused {tokens : List Token} {error : ResolveError} {later : Machine} :
      tokens? source = .ok tokens → (machine.resolved tokens).error = some error →
      machine.EqExceptJournal later → Ran fuel source machine
        ⟨(Parser.program tokens).errors.map .parse ++ [.resolve error], none⟩ later
  | executed {tokens : List Token} {begun ended later : Machine} {fault : Option Fault} :
      tokens? source = .ok tokens → (machine.resolved tokens).error = none →
      begin? source machine = some ((machine.resolved tokens).statements, begun) →
      machine.EqExceptJournal begun →
      Ends fuel (machine.resolved tokens).statements begun fault ended →
      ended.EqExceptJournal later → Ran fuel source machine
        ⟨(Parser.program tokens).errors.map .parse, (ended.sink.flush.map .output).or fault⟩ later

theorem runSource_ran {fuel : Nat} {source : String} {machine later : Machine} {status : Status}
    (ran : runSource fuel source machine = some (status, later)) :
    Ran fuel source machine status later := by
  unfold runSource at ran
  cases scanned : tokens? source with
  | error error =>
      rw [scanned] at ran
      cases ran
      exact .unscanned scanned rfl
  | ok tokens =>
      rw [scanned] at ran
      dsimp only at ran
      cases empty : (Parser.program tokens).statements.isEmpty with
      | true =>
          rw [empty, if_pos rfl] at ran
          cases ran
          exact .idle scanned (List.isEmpty_iff.mp empty) rfl
      | false =>
          rw [empty, if_neg Bool.false_ne_true] at ran
          have walked : (Resolver.ofGlobals ((machine.noteAll fun _ => scanEvents source).noteAll
              fun _ => (Parser.program tokens).notes.map .parser).globalNames).resolve
                (Parser.program tokens).statements = machine.resolved tokens := rfl
          cases stopped : (machine.resolved tokens).error with
          | some error =>
              unfold runStatements at ran
              dsimp only at ran
              rw [walked, stopped] at ran
              cases ran
              exact .refused scanned stopped rfl
          | none =>
              rw [runStatements_accepted walked stopped] at ran
              generalize begins : Machine.note _ (.interpreting _) = begun at ran
              have starts : begin? source machine =
                  some ((machine.resolved tokens).statements, begun) := by
                unfold begin?
                rw [scanned, ← begins]
                change (if _ || (machine.resolved tokens).error.isSome then none else _) = _
                rw [empty, stopped]
                rfl
              have sameRest : machine.EqExceptJournal begun := by
                rw [← begins]
                rfl
              obtain ⟨fault, ended, ends, sameRest', rfl⟩ := Ends.of_conclude ran
              exact .executed scanned stopped starts sameRest ends sameRest'

theorem begin?_resolved {source : String} {machine begun : Machine} {statements : List Stmt}
    (begins : begin? source machine = some (statements, begun)) :
    ∃ tokens, statements = (machine.resolved tokens).statements ∧
      (machine.resolved tokens).error = none ∧ machine.EqExceptJournal begun := by
  unfold begin? at begins
  cases scanned : tokens? source with
  | error error =>
      rw [scanned] at begins
      cases begins
  | ok tokens =>
      rw [scanned] at begins
      dsimp only at begins
      split at begins
      · cases begins
      · rename_i accepted
        cases begins
        rw [Bool.or_eq_true, not_or, Bool.not_eq_true, Bool.not_eq_true] at accepted
        have passed : (machine.resolved tokens).error = none :=
          Option.isSome_eq_false_iff.mp accepted.2 |> Option.isNone_iff_eq_none.mp
        exact ⟨tokens, rfl, passed, rfl⟩

theorem begin?_scoped {source : String} {machine begun : Machine} {statements : List Stmt}
    (begins : begin? source machine = some (statements, begun)) :
    Stmt.ScopedAll [] statements ∧ machine.EqExceptJournal begun := by
  obtain ⟨tokens, rfl, passed, sameRest⟩ := begin?_resolved begins
  exact ⟨(Resolver.resolve_accepted _ _ (Parser.program_shaped tokens).proper passed).1, sameRest⟩

/-- A run of a text that is executed ends where its statements do. -/
theorem begin?_ends {fuel : Nat} {source : String} {machine begun later : Machine}
    {statements : List Stmt} {status : Status}
    (begins : begin? source machine = some (statements, begun))
    (ran : runSource fuel source machine = some (status, later)) :
    ∃ ended, (executeEach fuel statements begun).state? = some ended ∧
      ended.EqExceptJournal later := by
  cases runSource_ran ran with
  | unscanned scanned _ =>
      unfold begin? at begins
      rw [scanned] at begins
      cases begins
  | idle scanned none _ =>
      unfold begin? at begins
      rw [scanned] at begins
      dsimp only at begins
      rw [none] at begins
      cases begins
  | @refused tokens error _ scanned stopped _ =>
      unfold begin? at begins
      rw [scanned] at begins
      change (if _ || (machine.resolved tokens).error.isSome then none else _) = _ at begins
      rw [stopped, Option.isSome_some, Bool.or_true, if_pos rfl] at begins
      cases begins
  | executed _ _ begins' _ ends sameRest =>
      cases begins.symm.trans begins'
      exact ⟨_, ends.state?, sameRest⟩

/-! ### Sessions -/

/-- A machine on which texts have been run, in any number and with any outcome. -/
inductive Session : Machine → Prop
  | new (sink : Sink) (readings : Readings) (journal : Journal) :
      Session (Machine.new sink readings journal)
  | supply {machine : Machine} (name : String) (native : Native) : Session machine →
      Session ({ machine with store := (machine.store.makeNative native).2 }.defineGlobal name
        (machine.store.makeNative native).1)
  | run {machine later : Machine} {fuel : Nat} {source : String} {status : Status} :
      Session machine → runSource fuel source machine = some (status, later) → Session later

theorem Machine.Ready.eqExceptJournal {machine later : Machine} {globals : FrameId}
    {scopes : Scopes} (sameRest : machine.EqExceptJournal later)
    (ready : machine.Ready globals scopes) : later.Ready globals scopes := by
  rw [sameRest]
  exact ⟨⟨ready.sound.rooted, ready.sound.present, ready.sound.top, ready.sound.values⟩, ready.top,
    ready.chain⟩

theorem Machine.Ready.own {machine : Machine} {globals : FrameId} {scopes : Scopes}
    (ready : machine.Ready globals scopes) : machine.Ready machine.globals scopes := by
  obtain ⟨sound, rfl, chain⟩ := ready
  exact ⟨sound, rfl, chain⟩

theorem Machine.Ready.atTop {machine : Machine} {globals : FrameId}
    (ready : machine.Ready globals []) : machine.active = machine.globals := by
  rw [ready.top]
  cases ready.chain
  rfl

/-- A value without functions may be bound in the global frame between runs. -/
theorem Machine.Ready.defineGlobal {machine : Machine} {globals : FrameId} {value : Value}
    (ready : machine.Ready globals []) (name : String) (plain : value.closures = []) :
    (machine.defineGlobal name value).Ready globals [] := by
  have defined : machine.Evolves [(machine.globals, name)] (machine.defineGlobal name value) :=
    ready.sound.define ready.sound.rooted (.of_closures_eq_nil plain)
      (Or.inr (List.mem_singleton.mpr rfl))
  exact ready.evolve defined

theorem Machine.new_ready (sink : Sink) (readings : Readings) (journal : Journal) :
    (Machine.new sink readings journal).Ready (Machine.new sink readings journal).globals [] := by
  let bare : Machine :=
    { Machine.new sink readings journal with store := ⟨#[⟨[], none⟩], 1⟩ }
  have sound : bare.Sound := by
    refine ⟨Nat.zero_lt_one, Nat.zero_lt_one, rfl, fun frame name value found => ?_⟩
    cases frame with
    | zero => cases found
    | succ frame => cases found
  have ready : bare.Ready bare.globals [] := ⟨sound, rfl, .top⟩
  exact ready.defineGlobal Native.clock.name rfl

/-- Between two runs the machine is sound and the global frame is active. -/
theorem Session.ready {machine : Machine} (session : Session machine) :
    machine.Ready machine.globals [] := by
  induction session with
  | new sink readings journal => exact Machine.new_ready sink readings journal
  | @supply machine name native _ ih =>
      have identified : machine.Evolves []
          { machine with store := (machine.store.makeNative native).2 } :=
        .of_same_frames ih.sound rfl rfl rfl
      exact (ih.evolve identified).defineGlobal name rfl
  | @run machine later fuel source status _ ran ih =>
      cases runSource_ran ran with
      | unscanned _ sameRest | idle _ _ sameRest | refused _ _ sameRest =>
          exact (ih.eqExceptJournal sameRest).own
      | @executed tokens begun ended _ fault _ accepted _ sameRest ends sameRest' =>
          have placed := (Resolver.resolve_accepted _ _ (Parser.program_shaped tokens).proper
            accepted).1
          have ready := (ih.eqExceptJournal sameRest).own
          have evolves := (executeEach_keeps fuel ready placed).of_state ends.state?
          exact ((ready.evolve evolves).eqExceptJournal sameRest').own

/-! ### Known globals -/

theorem Store.mem_names_iff {store : Store} {frame : FrameId} {name : String} :
    name ∈ store.names frame ↔ store.Binds frame name := by
  unfold Store.names Store.Binds Store.local?
  cases store.frames[frame]? with
  | none => simp
  | some found =>
      change _ ↔ (found.bindings.lookup name).isSome
      rw [lookup_isSome_eq_contains, List.contains_iff_mem]

theorem mem_foldl_learn {statements : List Stmt} {known : List String} {name : String} :
    name ∈ statements.foldl (fun known stmt => Scopes.learn [] stmt.declared? known) known ↔
      name ∈ known ∨ name ∈ Stmt.declaredNames statements := by
  induction statements generalizing known with
  | nil => simp [Stmt.declaredNames]
  | cons stmt rest ih =>
      rw [List.foldl_cons, ih, Stmt.declaredNames_cons, List.mem_append, ← or_assoc]
      apply or_congr_left
      rw [Stmt.mem_declaredNames_singleton]
      cases stmt.declared? with
      | none => simp [Scopes.learn]
      | some token =>
          simp only [Scopes.learn]
          split
          · rename_i already
            have known := List.contains_iff_mem.mp already
            grind
          · simp [eq_comm]

end LexicalScript
