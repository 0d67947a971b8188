import LexicalScript.Proofs.Erasure
import LexicalScript.Proofs.LexicalScoping
import LexicalScript.Proofs.Sessions

/-!
Runs of programs beside runs of the reference.

A machine and a state of the reference that start alike and run the same programs, one after the
other, stay matched: every program prints the same on both sides and ends in the same way.
-/

set_option autoImplicit false

namespace LexicalScript

open Reference (Datum Location State)

/-- At the top level nothing but the globals is in sight. -/
theorem PairedState.Matches.stands {pair : PairedState} (matched : pair.Matches)
    (atTop : pair.machine.active = pair.machine.globals) : pair.Stands [] .top where
  reads := by
    refine ⟨matched, ?_⟩
    rw [atTop]
    exact .top
  level := ⟨fun _ => rfl, fun _ => rfl⟩
  own name location placed := absurd atTop (matched.inner _ _ _ placed).1

theorem executeEach_mirrors (fuel : Nat) {pair : PairedState} {statements : List Stmt}
    (stands : pair.Stands [] .top) (placed : Stmt.ScopedAll [] statements) :
    (executeEach fuel statements).Mirrors
      (Reference.executeEach fuel (Stmt.retouchAll .erasing statements)) pair
      (Stmt.declaredNames statements) (fun _ _ _ => True) := by
  induction statements generalizing pair with
  | nil => exact .pure stands.reads.matched trivial
  | cons stmt rest ih =>
      rw [Stmt.declaredNames_cons]
      have outside : stmt.extend [] = [] := Stmt.extend_eq_nil_iff.mpr rfl
      have executed := (mirrored fuel).execute stmt stands placed.1
      rw [outside] at executed
      have first : (execute fuel stmt).Mirrors
          (Reference.execute fuel .top (stmt.retouch .erasing)) pair
          (Stmt.declaredNames [stmt] ++ Stmt.declaredNames rest)
          (fun later _ result => later.Stands [] result.2) :=
        PairedState.Ends.mono executed (fun name member => List.mem_append_left _ member)
          fun _ _ _ _ agree => agree.2
      refine first.bind fun later _ result advances stands' => ?_
      rw [stands'.level.mp rfl] at stands'
      have others := placed.2
      rw [outside] at others
      refine PairedState.Ends.mono (ih stands' others) ?_ fun _ _ _ _ holds => holds
      exact fun name member => List.mem_append_right _ member

/-! ### Histories -/

/-- A machine and a state of the reference that have had the same programs.  A text that is refused
leaves at most a note in the journal. -/
inductive SharedHistory : Machine → State → Prop
  | new (sink : Sink) (readings : Readings) (journal : Journal) :
      SharedHistory (Machine.new sink readings journal) (State.new sink readings)
  | supply {machine : Machine} {state : State} (name : String) (native : Native) :
      SharedHistory machine state →
      SharedHistory ({ machine with store := (machine.store.makeNative native).2 }.defineGlobal name
        (machine.store.makeNative native).1) (state.supply name native)
  | note {machine later : Machine} {state : State} : SharedHistory machine state →
      machine.EqExceptJournal later → SharedHistory later state
  | run {machine later : Machine} {state last : State} {fuel : Nat} {errors : List Diagnostic}
      {tokens : List Token} {status : Status} {fault : Option Fault} : SharedHistory machine state →
      ((Resolver.ofGlobals machine.globalNames).resolve
        (Parser.program tokens).statements).error = none →
      runStatements fuel errors (Parser.program tokens).statements machine =
        some (status, later) →
      Reference.run fuel (Parser.program tokens).statements state = some (fault, last) →
      SharedHistory later last

/-- The two match with the global frame active. -/
def Paired (machine : Machine) (state : State) : Prop :=
  ∃ places, PairedState.Matches ⟨places, machine, state⟩ ∧ machine.active = machine.globals

theorem PairedState.Advances.paired {pair later : PairedState} {fresh : List String}
    (advances : pair.Advances fresh later)
    (atTop : pair.machine.active = pair.machine.globals) :
    Paired later.machine later.state :=
  ⟨later.places, advances.matched, advances.active.trans (atTop.trans advances.globals.symm)⟩

namespace Paired

variable {machine later : Machine} {state : State}

theorem defineNative (paired : Paired machine state) (name : String) (identity : Identity)
    (native : Native) :
    Paired (machine.defineGlobal name (.native identity native))
      { state with globals := (name, .native identity native) :: state.globals } := by
  obtain ⟨places, matched, atTop⟩ := paired
  have agrees : (Value.native identity native).Agrees (PairedState.closing ⟨places, machine, state⟩)
      (.native identity native) := .native
  have defined : PairedState.Advances ⟨places, machine, state⟩ []
      (PairedState.storeGlobal _ _ _ _) :=
    matched.storeGlobal name agrees
  exact ⟨places, defined.matched, atTop⟩

theorem new (sink : Sink) (readings : Readings) (journal : Journal) :
    Paired (Machine.new sink readings journal) (State.new sink readings) := by
  let bare : PairedState :=
    { places := fun _ _ => none
      machine := { Machine.new sink readings journal with store := ⟨#[⟨[], none⟩], 1⟩ }
      state := { State.new sink readings with globals := [] } }
  have empty : ∀ frame name, bare.machine.store.local? frame name = none := by
    intro frame name
    cases frame with
    | zero => rfl
    | succ frame => rfl
  have matched : bare.Matches :=
    { fresh := rfl
      sink := rfl
      clock := rfl
      rooted := Nat.zero_lt_one
      top := rfl
      table := fun name => by
        rw [empty]
        exact .empty
      cells := fun _ _ _ placed => nomatch placed
      inner := fun _ _ _ placed => nomatch placed
      apart := fun _ _ _ _ _ placed => nomatch placed
      covered := fun frame name _ _ => empty frame name }
  have paired : Paired bare.machine bare.state := ⟨bare.places, matched, rfl⟩
  exact paired.defineNative Native.clock.name 0 .clock

theorem note (paired : Paired machine state) (sameRest : machine.EqExceptJournal later) :
    Paired later state := by
  obtain ⟨places, matched, atTop⟩ := paired
  rw [sameRest]
  have noted : PairedState.Advances ⟨places, machine, state⟩ []
      ⟨places, { machine with journal := later.journal }, state⟩ :=
    matched.rest rfl rfl rfl rfl rfl matched.fresh matched.sink matched.clock
  exact ⟨places, noted.matched, atTop⟩

theorem supply (paired : Paired machine state) (name : String) (native : Native) :
    Paired ({ machine with store := (machine.store.makeNative native).2 }.defineGlobal name
      (machine.store.makeNative native).1) (state.supply name native) := by
  obtain ⟨places, matched, atTop⟩ := paired
  have identified : Paired { machine with store := (machine.store.makeNative native).2 }
      { state with fresh := machine.store.fresh + 1 } :=
    ⟨places, (matched.identify [] _).matched, atTop⟩
  have defined := identified.defineNative name machine.store.fresh native
  unfold State.supply
  rw [show state.fresh = machine.store.fresh from matched.fresh]
  exact defined

end Paired

/-- A run of a program and its run in the reference printed the same and ended in the same way. -/
def SameRun (ran : Status × Machine) (ran' : Option Fault × State) : Prop :=
  ran.2.sink.accepted = ran'.2.sink.accepted ∧ Option.Rel Fault.Same ran.1.fault ran'.1

theorem Paired.run {machine : Machine} {state : State} (paired : Paired machine state)
    (fuel : Nat) (errors : List Diagnostic) (tokens : List Token)
    (accepted : ((Resolver.ofGlobals machine.globalNames).resolve
      (Parser.program tokens).statements).error = none) :
    Option.Rel (fun ran ran' => Paired ran.2 ran'.2 ∧ SameRun ran ran')
      (runStatements fuel errors (Parser.program tokens).statements machine)
      (Reference.run fuel (Parser.program tokens).statements state) := by
  have shaped := Parser.program_shaped tokens
  have placed := (Resolver.resolve_accepted _ _ shaped.proper accepted).1
  have erased := Resolver.erase_resolve (Resolver.ofGlobals machine.globalNames)
    (Parser.program tokens).statements
  rw [shaped.unresolved] at erased
  unfold runStatements
  dsimp only
  rw [accepted]
  dsimp only [interpret, Reference.run]
  generalize (Resolver.ofGlobals machine.globalNames).resolve
    (Parser.program tokens).statements = resolved at placed erased ⊢
  have begun : Paired ((machine.noteAll fun _ => resolved.notes.map Event.resolver).note
      (.interpreting resolved.statements.length)) state := paired.note rfl
  obtain ⟨places, matched, atTop⟩ := begun
  have ends := executeEach_mirrors fuel (matched.stands atTop) placed
  unfold Exec.Mirrors at ends
  rw [erased] at ends
  dsimp only at ends
  generalize executeEach fuel resolved.statements _ = outcome,
    Reference.executeEach fuel (Parser.program tokens).statements state = outcome' at ends ⊢
  cases ends with
  | exhausted => exact .none
  | @value later _ _ advances _ =>
      have paired' := advances.paired atTop
      have sink := advances.matched.sink
      dsimp only
      rw [sink]
      cases later.machine.sink.flush with
      | none => exact .some ⟨paired'.note rfl, congrArg Sink.accepted sink.symm, .none⟩
      | some error => exact .some ⟨paired'.note rfl, congrArg Sink.accepted sink.symm, .some rfl⟩
  | @failure later fault fault' advances same =>
      have paired' := advances.paired atTop
      have sink := advances.matched.sink
      dsimp only
      rw [sink]
      cases later.machine.sink.flush with
      | none => exact .some ⟨paired'.note rfl, congrArg Sink.accepted sink.symm, .some same⟩
      | some error => exact .some ⟨paired'.note rfl, congrArg Sink.accepted sink.symm, .some rfl⟩

theorem SharedHistory.paired {machine : Machine} {state : State}
    (history : SharedHistory machine state) : Paired machine state := by
  induction history with
  | new sink readings journal => exact .new sink readings journal
  | supply name native _ ih => exact ih.supply name native
  | note _ sameRest ih => exact ih.note sameRest
  | @run machine later state last fuel errors tokens status fault _ accepted ran ran' ih =>
      have ends := ih.run fuel errors tokens accepted
      rw [ran, ran'] at ends
      cases ends with
      | some holds => exact holds.1

/-- A program that the resolver accepts runs on frames with its depths as it does in the reference:
with the same fuel it ends on both sides or on neither, and if it ends it has printed the same text
and ended normally or with an error of the same message at the same line. -/
theorem depths_implement_lexical_scoping {machine : Machine} {state : State}
    (history : SharedHistory machine state) (fuel : Nat) (errors : List Diagnostic)
    (tokens : List Token)
    (accepted : ((Resolver.ofGlobals machine.globalNames).resolve
      (Parser.program tokens).statements).error = none) :
    Option.Rel SameRun (runStatements fuel errors (Parser.program tokens).statements machine)
      (Reference.run fuel (Parser.program tokens).statements state) := by
  have ends := history.paired.run fuel errors tokens accepted
  generalize runStatements _ _ _ _ = ran, Reference.run _ _ _ = ran' at ends ⊢
  cases ends with
  | none => exact .none
  | some holds => exact .some holds.2

/-- A block that declares a variable after a function has used a global of the same name. -/
def shadowing : List Token :=
  (tokens? ("var a = \"global\"; \x7b fun show() \x7b print a; \x7d show(); " ++
    "var a = \"block\"; show(); \x7d")).toOption.getD []

/-- The function keeps showing the global, although a variable of that name is declared in the block
after it. -/
theorem depths_implement_lexical_scoping_shadowing :
    ∃ ran last,
      runStatements 20 [] (Parser.program shadowing).statements
        (Machine.new ⟨"", none, false⟩ (fun _ => .ok 0) .silent) = some ran ∧
      Reference.run 20 (Parser.program shadowing).statements
        (State.new ⟨"", none, false⟩ fun _ => .ok 0) = some (none, last) ∧
      SameRun ran (none, last) ∧ last.sink.accepted = "global\nglobal\n" := by
  have history : SharedHistory (Machine.new ⟨"", none, false⟩ (fun _ => .ok 0) .silent)
      (State.new ⟨"", none, false⟩ fun _ => .ok 0) := .new _ _ _
  have accepted : ((Resolver.ofGlobals
      (Machine.new ⟨"", none, false⟩ (fun _ => .ok 0) .silent).globalNames).resolve
        (Parser.program shadowing).statements).error = none := by
    apply Option.isNone_iff_eq_none.mp
    decide +kernel
  have checked : (Reference.run 20 (Parser.program shadowing).statements
      (State.new ⟨"", none, false⟩ fun _ => .ok 0)).any (fun ran =>
        ran.1.isNone && ran.2.sink.accepted == "global\nglobal\n") = true := by
    decide +kernel
  obtain ⟨⟨fault, last⟩, shown, holds⟩ := (Option.any_eq_true _ _).mp checked
  obtain ⟨fine, printed⟩ := Bool.and_eq_true_iff.mp holds
  cases Option.isNone_iff_eq_none.mp fine
  have ends := depths_implement_lexical_scoping history 20 [] shadowing accepted
  rw [shown] at ends
  generalize runStatements _ _ _ _ = ran at ends ⊢
  cases ends with
  | @some ran _ same => exact ⟨ran, last, rfl, shown, same, eq_of_beq printed⟩

end LexicalScript
