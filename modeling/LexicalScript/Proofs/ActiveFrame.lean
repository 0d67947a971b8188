import LexicalScript.Proofs.RunRules
import LexicalScript.Proofs.Sessions

/-!
The active frame is restored.

Blocks and calls run with a frame of their own active.  Whatever is run, on any machine and with any
depths, and however it ends, the frame that was active before is active again and the global frame
is the same one.  Nothing is assumed of the machine: its store need not hold the frames it names.
-/

set_option autoImplicit false

namespace LexicalScript

/-- The later machine has the frames of the earlier one as its active and its global frame. -/
structure Machine.Resumes (machine later : Machine) : Prop where
  active : later.active = machine.active
  globals : later.globals = machine.globals

/-- Wherever it starts, the step ends with the same frames active and global, also if it fails. -/
def Exec.Restores {α : Type} (action : Exec α) : Prop :=
  ∀ machine : Machine, (action machine).Meets
    (fun _ later => machine.Resumes later) (fun _ later => machine.Resumes later)

/-! ### Steps -/

theorem Machine.Resumes.trans {machine middle later : Machine} (first : machine.Resumes middle)
    (second : middle.Resumes later) : machine.Resumes later where
  active := second.active.trans first.active
  globals := second.globals.trans first.globals

theorem Machine.EqExceptJournal.resumes {machine later : Machine}
    (sameRest : machine.EqExceptJournal later) :
    machine.Resumes later := by
  rw [sameRest]
  constructor <;> rfl

theorem Exec.within_eq {α : Type} (frame : FrameId) (body : Exec α) (machine : Machine) :
    Exec.within frame body machine =
      (body { machine with active := frame }).mapState
        fun final => { final with active := machine.active } := by
  unfold Exec.within
  dsimp only
  cases body { machine with active := frame } <;> rfl

/-- Of a body only the global frame matters: the active one is put back whatever it did. -/
theorem Exec.Restores.within {α : Type} (frame : FrameId) {body : Exec α}
    (restores : body.Restores) : (Exec.within frame body).Restores := by
  intro machine
  have inside := restores { machine with active := frame }
  rw [Exec.within_eq]
  cases ended : body { machine with active := frame } with
  | value result later | failure fault later =>
      rw [ended] at inside
      exact ⟨rfl, inside.globals⟩
  | exhausted => trivial

/-- The laws of runs that ask for nothing but the active and the global frame. -/
def restoration : RunLaws where
  fit _ := True
  grows := Machine.Resumes
  passes _ _ := True
  value _ _ := True
  callable _ _ := True
  expr _ := True
  stmt _ := True
  exprParts _ _ _ := trivial
  stmtExprs _ _ _ := trivial
  stmtParts _ _ _ := trivial
  refl _ := ⟨rfl, rfl⟩
  trans := .trans
  kept _ := trivial
  passing _ := trivial
  passingOn _ _ := trivial
  quiet _ globals active _ := ⟨active, globals⟩
  define _ _ _ _ := ⟨rfl, rfl⟩
  enterBlock _ := ⟨trivial, trivial, fun _ resumes => ⟨rfl, resumes.globals⟩⟩
  enterCall _ _ _ := ⟨trivial, trivial, fun _ resumes => ⟨rfl, resumes.globals⟩⟩
  older _ _ := trivial
  outside _ _ := trivial
  plain _ := trivial
  list _ _ := trivial
  element _ _ := trivial
  function _ _ _ := trivial
  stored _ _ _ := trivial
  called _ _ := trivial
  body _ _ _ := trivial

theorem Exec.Restores.of_keeps {α : Type} {action : Exec α} {condition : α → Machine → Prop}
    (keeps : ∀ machine, restoration.Keeps machine action condition) : action.Restores :=
  fun machine => (keeps machine).mono (fun _ _ both => both.1) fun _ _ resumes => resumes

theorem Task.run_restores (fuel : Nat) (task : Task) : (task.run fuel).Restores := by
  have keeps (machine : Machine) :
      restoration.Keeps machine (task.run fuel) (restoration.given task.Gives) := by
    have admits : restoration.Admits ⟨fuel, task, machine, []⟩ :=
      ⟨trivial, RunLaws.code_of_all (fun _ => trivial) (fun _ => trivial) task,
        task.supplied_of_all⟩
    exact admits.keeps
  exact .of_keeps keeps

theorem evaluate_restores (fuel : Nat) (expr : Expr) : (evaluate fuel expr).Restores :=
  Task.run_restores fuel (.evaluate expr)

theorem execute_restores (fuel : Nat) (stmt : Stmt) : (execute fuel stmt).Restores :=
  Task.run_restores fuel (.execute stmt)

/-! ### Whole runs -/

theorem runSource_resumes {fuel : Nat} {source : String} {machine later : Machine}
    {status : Status} (ran : runSource fuel source machine = some (status, later)) :
    machine.Resumes later := by
  cases runSource_ran ran with
  | unscanned _ sameRest | idle _ _ sameRest | refused _ _ sameRest => exact sameRest.resumes
  | @executed tokens begun ended _ fault _ _ _ sameRest ends sameRest' =>
      have resumed : begun.Resumes ended :=
        (restoration.executeEach fuel (fun _ _ => trivial) trivial).grows ends.state?
      exact (sameRest.resumes.trans resumed).trans sameRest'.resumes

theorem Session.active_eq_globals {machine : Machine} (session : Session machine) :
    machine.active = machine.globals := by
  induction session with
  | new sink readings journal => rfl
  | supply name native _ ih => exact ih
  | run _ ran ih =>
      have resumed := runSource_resumes ran
      rw [resumed.active, resumed.globals]
      exact ih

/-- An expression, a statement, statements run inside a frame, a value that is called and a callable
that is called directly all leave the active and the global frame as they were, whatever they return
and whatever error ends them.  Between two runs of a session the global frame is therefore the
active one. -/
theorem active_frame_is_restored (fuel : Nat) :
    (∀ expr, (evaluate fuel expr).Restores) ∧
    (∀ stmt, (execute fuel stmt).Restores) ∧
    (∀ frame statements, (Exec.within frame (executeAll fuel statements)).Restores) ∧
    (∀ callee arguments paren, (callCounted fuel callee arguments paren).Restores) ∧
    (∀ callable arguments paren, (invoke fuel callable arguments paren).Restores) ∧
    ∀ machine, Session machine → machine.active = machine.globals := by
  have restores := Task.run_restores fuel
  exact ⟨evaluate_restores fuel, execute_restores fuel,
    fun frame statements => .within frame (restores (.executeAll statements)),
    fun callee arguments paren => restores (.call callee arguments paren),
    fun callable arguments paren => restores (.invoke callable arguments paren),
    fun _ session => session.active_eq_globals⟩

/-- A text that prints from a block inside a function. -/
def printing : String := "fun show(text) \x7b \x7b print text; \x7d \x7d\nshow(\"a\");"

/-- The sink refuses what the text prints two frames deep; the global frame is active again. -/
theorem active_frame_is_restored_unprinted :
    ∃ status later,
      runSource 20 printing (Machine.new ⟨"", some 0, false⟩ (fun _ => .ok 0) .silent) =
        some (status, later) ∧
      status.fault = some (.output .sinkFull) ∧ later.store.frames.size = 3 ∧
      later.active = later.globals := by
  have checked : (runSource 20 printing
      (Machine.new ⟨"", some 0, false⟩ (fun _ => .ok 0) .silent)).any (fun ran =>
        decide (ran.1.fault = some (.output .sinkFull) ∧ ran.2.store.frames.size = 3)) = true := by
    decide +kernel
  obtain ⟨⟨status, later⟩, ran, holds⟩ := (Option.any_eq_true _ _).mp checked
  obtain ⟨fault, frames⟩ := of_decide_eq_true holds
  have session : Session later := .run (.new _ _ _) ran
  exact ⟨status, later, ran, fault, frames,
    (active_frame_is_restored 20).2.2.2.2.2 later session⟩

end LexicalScript
