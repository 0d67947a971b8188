import LexicalScript.Proofs.ActiveFrame

/-!
Runs with a record.

A body is run with a record of the statements and of the loop tests that it starts, in the order in
which it starts them.  Keeping the record changes nothing in the run.  In the record of a run a
return can only be the last entry, and then the run ends as that return does.
-/

set_option autoImplicit false

namespace LexicalScript

/-- The later machine with the active frame of the earlier one. -/
def Machine.resume (machine later : Machine) : Machine := { later with active := machine.active }

theorem Exec.within_apply {α : Type} (frame : FrameId) (body : Exec α) (machine : Machine) :
    Exec.within frame body machine =
      (body { machine with active := frame }).mapState machine.resume := by
  unfold Exec.within
  dsimp only
  cases body { machine with active := frame } <;> rfl

/-- Something that a body starts: a statement, with the fuel for its parts, or a test of a loop. -/
inductive Visit where
  | statement (fuel : Nat) (stmt : Stmt) (machine : Machine)
  | test (condition : Expr) (machine : Machine)

def Visit.isReturn : Visit → Bool
  | .statement _ (.returnValue _ _) _ => true
  | _ => false

/-- A run that keeps a record, also when it fails or is cut off. -/
abbrev Recorded (α : Type) : Type := Machine → List Visit × Outcome Fault Machine α

namespace Recorded

variable {α β : Type}

/-- A step that records nothing. -/
def lift (action : Exec α) : Recorded α := fun machine => ([], action machine)

def visit (entry : Machine → Visit) : Recorded Unit := fun machine =>
  ([entry machine], .value () machine)

def andThen (first : Recorded α) (next : α → Recorded β) : Recorded β := fun machine =>
  match first machine with
  | (record, .value result later) =>
      let (others, outcome) := next result later
      (record ++ others, outcome)
  | (record, .failure fault later) => (record, .failure fault later)
  | (record, .exhausted) => (record, .exhausted)

instance : Monad Recorded where
  pure result := lift (pure result)
  bind := andThen

def within (frame : FrameId) (body : Recorded α) : Recorded α := fun machine =>
  let (record, outcome) := body { machine with active := frame }
  (record, outcome.mapState machine.resume)

/-- Goes on with the rest unless the first part returns. -/
def orReturn (first rest : Recorded Flow) : Recorded Flow := do
  match ← first with
  | .returned value => return .returned value
  | .normal => rest

/-- The run without its record. -/
def plain (action : Recorded α) : Exec α := fun machine => (action machine).2

theorem plain_bind (first : Recorded α) (next : α → Recorded β) :
    (first >>= next).plain = first.plain >>= fun result => (next result).plain := by
  funext machine
  change (first.andThen next machine).2 = _
  rw [Attempt.bind_apply]
  unfold andThen plain
  split <;> simp_all

theorem plain_visit (entry : Machine → Visit) (next : Unit → Recorded α) :
    (visit entry >>= next).plain = (next ()).plain := rfl

theorem plain_ite (condition : Bool) (first second : Recorded α) :
    (if condition then first else second).plain =
      if condition then first.plain else second.plain := by
  cases condition <;> rfl

theorem plain_within (frame : FrameId) (body : Recorded α) :
    (within frame body).plain = Exec.within frame body.plain := by
  funext machine
  rw [Exec.within_apply]
  rfl

theorem plain_orReturn (first rest : Recorded Flow) :
    (first.orReturn rest).plain = (do
      match ← first.plain with
      | .returned value => return .returned value
      | .normal => rest.plain) := by
  unfold orReturn
  rw [plain_bind]
  apply congrArg (first.plain >>= ·)
  funext flow
  cases flow <;> rfl

theorem orReturn_apply (first rest : Recorded Flow) (machine : Machine) :
    first.orReturn rest machine =
      match (first machine).2 with
      | .value .normal later => ((first machine).1 ++ (rest later).1, (rest later).2)
      | outcome => ((first machine).1, outcome) := by
  change andThen first _ machine = _
  unfold andThen
  generalize first machine = ran
  obtain ⟨record, outcome⟩ := ran
  cases outcome with
  | value flow later =>
      cases flow with
      | normal => rfl
      | returned value => exact congrArg (·, _) (List.append_nil record)
  | failure fault later => rfl
  | exhausted => rfl

end Recorded

mutual

/-- Executes a statement and records what it starts. -/
def record : Nat → Stmt → Recorded Flow
  | 0, _ => .lift .exhausted
  | fuel + 1, stmt => do
      Recorded.visit (.statement fuel stmt)
      match stmt with
      | .block body => do
          let frame ← Recorded.lift Exec.nestedFrame
          Recorded.within frame (recordAll fuel body)
      | .conditional condition thenBranch elseBranch => do
          let condition ← Recorded.lift (evaluate fuel condition)
          if condition.isTruthy then record fuel thenBranch
          else match elseBranch with
            | some stmt => record fuel stmt
            | none => return .normal
      | .loop condition body => recordLoop fuel condition body
      | stmt => Recorded.lift (execute (fuel + 1) stmt)

/-- Executes a loop and records what it starts, also each of its tests. -/
def recordLoop : Nat → Expr → Stmt → Recorded Flow
  | 0, _, _ => .lift .exhausted
  | fuel + 1, condition, body => do
      Recorded.visit (.test condition)
      let test ← Recorded.lift (evaluate fuel condition)
      if test.isTruthy then (record fuel body).orReturn (recordLoop fuel condition body)
      else return .normal

def recordAll : Nat → List Stmt → Recorded Flow
  | 0, _ => .lift .exhausted
  | _ + 1, [] => return .normal
  | fuel + 1, stmt :: rest => (record fuel stmt).orReturn (recordAll fuel rest)

end

/-! ### The record changes nothing -/

/-- With that much fuel, a run with a record is the run without it. -/
structure Faithful (fuel : Nat) : Prop where
  record : ∀ stmt, (record fuel stmt).plain = execute fuel stmt
  recordLoop : ∀ condition body,
    (recordLoop fuel condition body).plain = executeLoop fuel condition body
  recordAll : ∀ statements, (recordAll fuel statements).plain = executeAll fuel statements

namespace Faithful

variable {fuel : Nat}

theorem record_succ (ih : Faithful fuel) (stmt : Stmt) :
    (LexicalScript.record (fuel + 1) stmt).plain = execute (fuel + 1) stmt := by
  cases stmt with
  | block body =>
      rw [LexicalScript.record, Recorded.plain_visit, Recorded.plain_bind]
      simp only [Recorded.plain_within, ih.recordAll]
      rfl
  | conditional condition thenBranch elseBranch =>
      cases elseBranch with
      | none | some branch =>
          rw [LexicalScript.record, Recorded.plain_visit, Recorded.plain_bind]
          simp only [Recorded.plain_ite, ih.record]
          rfl
  | loop condition body => exact ih.recordLoop condition body
  | _ => rfl

theorem recordLoop_succ (ih : Faithful fuel) (condition : Expr) (body : Stmt) :
    (LexicalScript.recordLoop (fuel + 1) condition body).plain =
      executeLoop (fuel + 1) condition body := by
  rw [LexicalScript.recordLoop, Recorded.plain_visit, Recorded.plain_bind]
  simp only [Recorded.plain_ite, Recorded.plain_orReturn, ih.record, ih.recordLoop]
  rfl

theorem recordAll_succ (ih : Faithful fuel) (statements : List Stmt) :
    (LexicalScript.recordAll (fuel + 1) statements).plain = executeAll (fuel + 1) statements := by
  cases statements with
  | nil => rfl
  | cons stmt rest =>
      rw [LexicalScript.recordAll, Recorded.plain_orReturn, ih.record, ih.recordAll]
      rfl

end Faithful

theorem faithful (fuel : Nat) : Faithful fuel := by
  induction fuel with
  | zero => exact ⟨fun _ => rfl, fun _ _ => rfl, fun _ => rfl⟩
  | succ fuel ih => exact ⟨ih.record_succ, ih.recordLoop_succ, ih.recordAll_succ⟩

/-! ### A return comes last -/

theorem Machine.Resumes.resume {machine later : Machine} (resumes : machine.Resumes later) :
    machine.resume later = later := by
  rw [Machine.resume, ← resumes.active]

/-- How a run from the machine ends.  Either it starts no return and gives no value back.  Or the
last thing that it starts is a return, the only one, and it ends as this return does, with the frame
active again that was so before. -/
inductive ReturnsLast (machine : Machine) : List Visit → Outcome Fault Machine Flow → Prop
  | unreturned {record outcome} (none : ∀ visit ∈ record, visit.isReturn = false)
      (normal : ∀ value later, outcome ≠ .value (.returned value) later) :
      ReturnsLast machine record outcome
  | returned {front fuel keyword value start} (none : ∀ visit ∈ front, visit.isReturn = false) :
      ReturnsLast machine (front ++ [.statement fuel (.returnValue keyword value) start])
        ((execute (fuel + 1) (.returnValue keyword value) start).mapState machine.resume)

theorem execute_return_ne_normal {fuel : Nat} {keyword : Token} {value : Option Expr}
    {machine later : Machine} :
    execute fuel (.returnValue keyword value) machine ≠ .value .normal later := by
  intro ended
  cases fuel with
  | zero => cases ended
  | succ fuel =>
      cases value with
      | none => cases ended
      | some expr =>
          obtain ⟨result, middle, -, returned⟩ := Attempt.returns_of_bind ended
          cases returned

namespace ReturnsLast

variable {machine middle : Machine} {record : List Visit} {outcome : Outcome Fault Machine Flow}

/-- What is started before makes no difference if no return is among it. -/
theorem behind {front : List Visit} (ends : ReturnsLast middle record outcome)
    (none : ∀ visit ∈ front, visit.isReturn = false) (active : middle.active = machine.active) :
    ReturnsLast machine (front ++ record) outcome := by
  have joined : ∀ {others : List Visit}, (∀ visit ∈ others, visit.isReturn = false) →
      ∀ visit ∈ front ++ others, visit.isReturn = false := by
    intro others none' visit member
    exact (List.mem_append.mp member).elim (none visit) (none' visit)
  cases ends with
  | unreturned none' normal => exact .unreturned (joined none') normal
  | returned none' =>
      have same : middle.resume = machine.resume := by
        funext later
        rw [Machine.resume, active]
        rfl
      rw [same, ← List.append_assoc]
      exact .returned (joined none')

theorem within {frame : FrameId}
    (ends : ReturnsLast { machine with active := frame } record outcome) :
    ReturnsLast machine record (outcome.mapState machine.resume) := by
  cases ends with
  | unreturned none normal =>
      refine .unreturned none fun value later ended => ?_
      cases outcome with
      | value flow last =>
          cases ended
          exact normal value last rfl
      | failure fault last => cases ended
      | exhausted => cases ended
  | @returned front fuel keyword value start none =>
      -- the frame that is made active last counts
      have twice : ∀ inner : Outcome Fault Machine Flow,
          (inner.mapState (Machine.resume { machine with active := frame })).mapState
            machine.resume = inner.mapState machine.resume := by
        intro inner
        cases inner <;> rfl
      rw [twice]
      exact .returned none

/-- A run that ends in the normal way starts no return. -/
theorem none_of_normal {later : Machine} (ends : ReturnsLast machine record outcome)
    (normal : outcome = .value .normal later) : ∀ visit ∈ record, visit.isReturn = false := by
  cases ends with
  | unreturned none _ => exact none
  | @returned front fuel keyword value start none =>
      cases ended : execute (fuel + 1) (.returnValue keyword value) start with
      | value flow last =>
          rw [ended] at normal
          cases normal
          exact absurd ended execute_return_ne_normal
      | failure fault last =>
          rw [ended] at normal
          cases normal
      | exhausted =>
          rw [ended] at normal
          cases normal

/-- A return in a record is its last entry, and the run ends as this return does. -/
theorem of_return {front back : List Visit} {fuel : Nat} {keyword : Token} {value : Option Expr}
    {start : Machine} (ends : ReturnsLast machine record outcome)
    (started : record = front ++ .statement fuel (.returnValue keyword value) start :: back) :
    back = [] ∧ outcome =
      (execute (fuel + 1) (.returnValue keyword value) start).mapState machine.resume := by
  cases ends with
  | unreturned none _ =>
      have member : .statement fuel (.returnValue keyword value) start ∈ record := by
        rw [started]
        simp
      cases none _ member
  | returned none =>
      rcases List.eq_nil_or_concat back with rfl | ⟨others, last, rfl⟩
      · have parts := List.append_inj_right' started rfl
        cases parts
        exact ⟨rfl, rfl⟩
      · -- something behind it would make it one of the entries in front of the last
        rw [List.concat_eq_append, ← List.cons_append, ← List.append_assoc] at started
        have parts := List.append_inj_left' started rfl
        cases none (.statement fuel (.returnValue keyword value) start) (by rw [parts]; simp)

/-- Without a return in the record, no value is given back. -/
theorem not_returned (ends : ReturnsLast machine record outcome)
    (none : ∀ visit ∈ record, visit.isReturn = false) (value : Value) (later : Machine) :
    outcome ≠ .value (.returned value) later := by
  cases ends with
  | unreturned _ normal => exact normal value later
  | @returned _ fuel keyword expr start _ =>
      cases none (.statement fuel (.returnValue keyword expr) start) (by simp)

theorem orReturn {first rest : Recorded Flow} (ends : ReturnsLast machine (first machine).1
      (first machine).2)
    (next : ∀ later, (first machine).2 = .value .normal later →
      later.active = machine.active ∧ ReturnsLast later (rest later).1 (rest later).2) :
    ReturnsLast machine (first.orReturn rest machine).1 (first.orReturn rest machine).2 := by
  rw [Recorded.orReturn_apply]
  split
  · rename_i later ended
    obtain ⟨active, ends'⟩ := next later ended
    exact ends'.behind (ends.none_of_normal ended) active
  · exact ends

theorem visit {entry : Machine → Visit} {next : Recorded Flow}
    (other : (entry machine).isReturn = false)
    (ends : ReturnsLast machine (next machine).1 (next machine).2) :
    ReturnsLast machine ((Recorded.visit entry >>= fun _ => next) machine).1
      ((Recorded.visit entry >>= fun _ => next) machine).2 := by
  have none : ∀ visit ∈ [entry machine], visit.isReturn = false := by
    simpa using other
  exact ends.behind none rfl

theorem lift {α : Type} {action : Exec α} {next : α → Recorded Flow} (restores : action.Restores)
    (after : ∀ result later, ReturnsLast later (next result later).1 (next result later).2) :
    ReturnsLast machine ((Recorded.lift action >>= next) machine).1
      ((Recorded.lift action >>= next) machine).2 := by
  have resumes := restores machine
  change ReturnsLast machine (Recorded.andThen (Recorded.lift action) next machine).1
    (Recorded.andThen (Recorded.lift action) next machine).2
  unfold Recorded.andThen Recorded.lift
  cases ended : action machine with
  | value result later =>
      rw [ended] at resumes
      exact (after result later).behind (fun _ => nofun) resumes.active
  | failure fault later => exact .unreturned (fun _ => nofun) (fun _ _ => nofun)
  | exhausted => exact .unreturned (fun _ => nofun) (fun _ _ => nofun)

end ReturnsLast

/-- With that much fuel, in the record of a run a return comes last. -/
structure ReturningLast (fuel : Nat) : Prop where
  record : ∀ stmt machine,
    ReturnsLast machine (record fuel stmt machine).1 (record fuel stmt machine).2
  recordLoop : ∀ condition body machine,
    ReturnsLast machine (recordLoop fuel condition body machine).1
      (recordLoop fuel condition body machine).2
  recordAll : ∀ statements machine,
    ReturnsLast machine (recordAll fuel statements machine).1
      (recordAll fuel statements machine).2

/-- A statement without parts that is no return ends in the normal way. -/
theorem execute_yields_normal {fuel : Nat} {stmt : Stmt}
    (simple : match stmt with
      | .expression _ | .print _ | .var _ _ | .function _ _ _ => True
      | _ => False) :
    (execute fuel stmt).Yields (· = .normal) := by
  cases fuel with
  | zero => exact .exhausted
  | succ fuel =>
      cases stmt with
      | expression expr => exact .after fun _ => .pure rfl
      | print expr => exact .after fun _ => .after fun _ => .pure rfl
      | var name initializer =>
          cases initializer <;>
            exact .after fun _ => .after fun _ => .after fun _ => .pure rfl
      | function name parameters body =>
          exact .after fun _ => .after fun _ => .after fun _ => .pure rfl
      | _ => exact simple.elim

theorem Exec.Restores.active {α : Type} {action : Exec α} (restores : action.Restores)
    {machine later : Machine} {result : α} (ended : action machine = .value result later) :
    later.active = machine.active :=
  ((restores machine).of_value ended).active

theorem Exec.Restores.mapState_resume {α : Type} {action : Exec α} (restores : action.Restores)
    (machine : Machine) : (action machine).mapState machine.resume = action machine := by
  have resumes := restores machine
  cases ended : action machine with
  | value result later =>
      rw [ended] at resumes
      exact congrArg (Outcome.value result) (Machine.Resumes.resume resumes)
  | failure fault later =>
      rw [ended] at resumes
      exact congrArg (Outcome.failure fault) (Machine.Resumes.resume resumes)
  | exhausted => rfl

namespace ReturningLast

variable {fuel : Nat}

theorem normal (machine : Machine) : ReturnsLast machine [] (.value .normal machine) :=
  .unreturned (fun _ => nofun) (fun _ _ => nofun)

theorem record_succ (ih : ReturningLast fuel) (stmt : Stmt) (machine : Machine) :
    ReturnsLast machine (LexicalScript.record (fuel + 1) stmt machine).1
      (LexicalScript.record (fuel + 1) stmt machine).2 := by
  have simple : (execute (fuel + 1) stmt).Yields (· = .normal) →
      ReturnsLast machine [] (execute (fuel + 1) stmt machine) := by
    intro yields
    refine .unreturned (fun _ => nofun) fun value later ended => ?_
    cases (yields machine).of_value ended
  cases stmt with
  | block body =>
      apply ReturnsLast.visit rfl
      have restores : Exec.nestedFrame.Restores := fun _ => ⟨rfl, rfl⟩
      apply ReturnsLast.lift restores
      intro frame later
      exact (ih.recordAll body _).within
  | conditional condition thenBranch elseBranch =>
      apply ReturnsLast.visit rfl
      apply ReturnsLast.lift (evaluate_restores fuel condition)
      intro test later
      split
      · exact ih.record thenBranch later
      · cases elseBranch with
        | none => exact normal later
        | some branch => exact ih.record branch later
  | loop condition body =>
      apply ReturnsLast.visit rfl
      exact ih.recordLoop condition body machine
  | returnValue keyword value =>
      have ends : ReturnsLast machine
          ([] ++ [.statement fuel (.returnValue keyword value) machine]) _ :=
        .returned (fun _ => nofun)
      rw [(execute_restores (fuel + 1) (.returnValue keyword value)).mapState_resume] at ends
      exact ends
  | expression expr | print expr | var name initializer | function name parameters body =>
      apply ReturnsLast.visit rfl
      exact simple (execute_yields_normal trivial)

theorem recordLoop_succ (ih : ReturningLast fuel) (condition : Expr) (body : Stmt)
    (machine : Machine) :
    ReturnsLast machine (LexicalScript.recordLoop (fuel + 1) condition body machine).1
      (LexicalScript.recordLoop (fuel + 1) condition body machine).2 := by
  apply ReturnsLast.visit rfl
  apply ReturnsLast.lift (evaluate_restores fuel condition)
  intro test later
  split
  · apply (ih.record body later).orReturn
    intro last ended
    have ended' : execute fuel body later = .value .normal last := by
      rw [← (faithful fuel).record]
      exact ended
    exact ⟨(execute_restores fuel body).active ended', ih.recordLoop condition body last⟩
  · exact normal later

theorem recordAll_succ (ih : ReturningLast fuel) (statements : List Stmt) (machine : Machine) :
    ReturnsLast machine (LexicalScript.recordAll (fuel + 1) statements machine).1
      (LexicalScript.recordAll (fuel + 1) statements machine).2 := by
  cases statements with
  | nil => exact normal machine
  | cons stmt rest =>
      apply (ih.record stmt machine).orReturn
      intro later ended
      have ended' : execute fuel stmt machine = .value .normal later := by
        rw [← (faithful fuel).record]
        exact ended
      exact ⟨(execute_restores fuel stmt).active ended', ih.recordAll rest later⟩

end ReturningLast

theorem returningLast (fuel : Nat) : ReturningLast fuel := by
  induction fuel with
  | zero =>
      constructor
      all_goals
        intros
        exact .unreturned (fun _ => nofun) (fun _ _ => nofun)
  | succ fuel ih => exact ⟨ih.record_succ, ih.recordLoop_succ, ih.recordAll_succ⟩

end LexicalScript
