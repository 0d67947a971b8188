import Mathlib.Logic.Relation
import LexicalScript.Machine.Evaluate
import LexicalScript.Proofs.Frames
import LexicalScript.Proofs.Outcome

/-!
The points of a run.

A run is given a task, and doing it leads to further tasks, which are done one after the other as
long as those before them end with a result.  A point is a task together with the machine that it
starts on.  Points are there also in runs that never end.
-/

set_option autoImplicit false

namespace LexicalScript

/-- The machine with a new frame for a block active. -/
def Machine.enterBlock (machine : Machine) : Machine :=
  { machine with
    store := (machine.store.create (some machine.active)).2
    active := machine.store.frames.size }

/-- The machine with a new frame for a call active, in which the parameters are bound. -/
def Machine.enterCall (machine : Machine) (declaration : Declaration) (closure : FrameId)
    (arguments : List Value) : Machine :=
  { machine with
    store := (machine.store.create (some closure)).2.bindArguments machine.store.frames.size
      declaration.parameters arguments
    active := machine.store.frames.size }

/-- What a run may be asked to do. -/
inductive Task where
  | evaluate (expr : Expr)
  | evaluateAll (exprs : List Expr)
  | assign (name : Token) (depth : Option Nat) (value : Value)
  | call (callee : Value) (arguments : List Value) (paren : Token)
  | invoke (callable : Callable) (arguments : List Value) (paren : Token)
  | execute (stmt : Stmt)
  | cycle (condition : Expr) (body : Stmt)
  | executeAll (statements : List Stmt)

/-- What a task gives if it is done. -/
abbrev Task.Result : Task → Type
  | .evaluate _ | .call _ _ _ | .invoke _ _ _ => Value
  | .evaluateAll _ => List Value
  | .assign _ _ _ => Unit
  | .execute _ | .cycle _ _ | .executeAll _ => Flow

/-- The rule that does the task. -/
def Task.run (fuel : Nat) : (task : Task) → Exec task.Result
  | .evaluate expr => LexicalScript.evaluate fuel expr
  | .evaluateAll exprs => LexicalScript.evaluateAll fuel exprs
  | .assign name depth value => Exec.assignVariable name depth value
  | .call callee arguments paren => callCounted fuel callee arguments paren
  | .invoke callable arguments paren => LexicalScript.invoke fuel callable arguments paren
  | .execute stmt => LexicalScript.execute fuel stmt
  | .cycle condition body => executeLoop fuel condition body
  | .executeAll statements => LexicalScript.executeAll fuel statements

/-- A task that a run comes to, with the fuel and the machine for it, and with the variables whose
initializers are being evaluated meanwhile, each with the frame it is to be bound in. -/
structure Point where
  fuel : Nat
  task : Task
  machine : Machine
  initializing : List (FrameId × String)

/-- Doing the task of the first point leads to the second one as an immediate part of it. -/
inductive Point.Enters : Point → Point → Prop
  | grouping {fuel machine initializing inner} :
      Enters ⟨fuel + 1, .evaluate (.grouping inner), machine, initializing⟩
        ⟨fuel, .evaluate inner, machine, initializing⟩
  | unary {fuel machine initializing operator operand} :
      Enters ⟨fuel + 1, .evaluate (.unary operator operand), machine, initializing⟩
        ⟨fuel, .evaluate operand, machine, initializing⟩
  | binaryLeft {fuel machine initializing left operator right} :
      Enters ⟨fuel + 1, .evaluate (.binary left operator right), machine, initializing⟩
        ⟨fuel, .evaluate left, machine, initializing⟩
  | binaryRight {fuel machine initializing left operator right first later} :
      LexicalScript.evaluate fuel left machine = .value first later →
      Enters ⟨fuel + 1, .evaluate (.binary left operator right), machine, initializing⟩
        ⟨fuel, .evaluate right, later, initializing⟩
  | logicalLeft {fuel machine initializing left operator right} :
      Enters ⟨fuel + 1, .evaluate (.logical left operator right), machine, initializing⟩
        ⟨fuel, .evaluate left, machine, initializing⟩
  | logicalRight {fuel machine initializing left operator right first later} :
      LexicalScript.evaluate fuel left machine = .value first later →
      settles operator first = false →
      Enters ⟨fuel + 1, .evaluate (.logical left operator right), machine, initializing⟩
        ⟨fuel, .evaluate right, later, initializing⟩
  | assigned {fuel machine initializing name value depth} :
      Enters ⟨fuel + 1, .evaluate (.assign name value depth), machine, initializing⟩
        ⟨fuel, .evaluate value, machine, initializing⟩
  | assign {fuel machine initializing name value depth result later} :
      LexicalScript.evaluate fuel value machine = .value result later →
      Enters ⟨fuel + 1, .evaluate (.assign name value depth), machine, initializing⟩
        ⟨fuel, .assign name depth result, later, initializing⟩
  | callee {fuel machine initializing callee paren arguments} :
      Enters ⟨fuel + 1, .evaluate (.call callee paren arguments), machine, initializing⟩
        ⟨fuel, .evaluate callee, machine, initializing⟩
  | arguments {fuel machine initializing callee paren arguments function later} :
      LexicalScript.evaluate fuel callee machine = .value function later →
      Enters ⟨fuel + 1, .evaluate (.call callee paren arguments), machine, initializing⟩
        ⟨fuel, .evaluateAll arguments, later, initializing⟩
  | call {fuel machine initializing callee paren arguments function later values last} :
      LexicalScript.evaluate fuel callee machine = .value function later →
      LexicalScript.evaluateAll fuel arguments later = .value values last →
      Enters ⟨fuel + 1, .evaluate (.call callee paren arguments), machine, initializing⟩
        ⟨fuel, .call function values paren, last, initializing⟩
  | elements {fuel machine initializing bracket elements} :
      Enters ⟨fuel + 1, .evaluate (.list bracket elements), machine, initializing⟩
        ⟨fuel, .evaluateAll elements, machine, initializing⟩
  | object {fuel machine initializing object bracket position} :
      Enters ⟨fuel + 1, .evaluate (.index object bracket position), machine, initializing⟩
        ⟨fuel, .evaluate object, machine, initializing⟩
  | position {fuel machine initializing object bracket position list later} :
      LexicalScript.evaluate fuel object machine = .value list later →
      Enters ⟨fuel + 1, .evaluate (.index object bracket position), machine, initializing⟩
        ⟨fuel, .evaluate position, later, initializing⟩
  | firstValue {fuel machine initializing expr rest} :
      Enters ⟨fuel + 1, .evaluateAll (expr :: rest), machine, initializing⟩
        ⟨fuel, .evaluate expr, machine, initializing⟩
  | otherValues {fuel machine initializing expr rest value later} :
      LexicalScript.evaluate fuel expr machine = .value value later →
      Enters ⟨fuel + 1, .evaluateAll (expr :: rest), machine, initializing⟩
        ⟨fuel, .evaluateAll rest, later, initializing⟩
  | invoke {fuel machine initializing callee arguments paren callable} :
      callee.callable? = some callable → arguments.length = callable.arity →
      Enters ⟨fuel + 1, .call callee arguments paren, machine, initializing⟩
        ⟨fuel, .invoke callable arguments paren, machine, initializing⟩
  | body {fuel machine initializing declaration closure arguments paren} :
      Enters ⟨fuel + 1, .invoke (.function declaration closure) arguments paren, machine,
          initializing⟩
        ⟨fuel, .executeAll declaration.body,
          (machine.note (.functionCalled declaration.name.lexeme)).enterCall declaration closure
            arguments, initializing⟩
  | expression {fuel machine initializing expr} :
      Enters ⟨fuel + 1, .execute (.expression expr), machine, initializing⟩
        ⟨fuel, .evaluate expr, machine, initializing⟩
  | print {fuel machine initializing expr} :
      Enters ⟨fuel + 1, .execute (.print expr), machine, initializing⟩
        ⟨fuel, .evaluate expr, machine, initializing⟩
  | initializer {fuel machine initializing name expr} :
      Enters ⟨fuel + 1, .execute (.var name (some expr)), machine, initializing⟩
        ⟨fuel, .evaluate expr, machine, (machine.active, name.lexeme) :: initializing⟩
  | block {fuel machine initializing body} :
      Enters ⟨fuel + 1, .execute (.block body), machine, initializing⟩
        ⟨fuel, .executeAll body, machine.enterBlock, initializing⟩
  | test {fuel machine initializing condition thenBranch elseBranch} :
      Enters ⟨fuel + 1, .execute (.conditional condition thenBranch elseBranch), machine,
          initializing⟩
        ⟨fuel, .evaluate condition, machine, initializing⟩
  | thenBranch {fuel machine initializing condition thenBranch elseBranch value later} :
      LexicalScript.evaluate fuel condition machine = .value value later →
      value.isTruthy = true →
      Enters ⟨fuel + 1, .execute (.conditional condition thenBranch elseBranch), machine,
          initializing⟩
        ⟨fuel, .execute thenBranch, later, initializing⟩
  | elseBranch {fuel machine initializing condition thenBranch elseBranch value later} :
      LexicalScript.evaluate fuel condition machine = .value value later →
      value.isTruthy = false →
      Enters ⟨fuel + 1, .execute (.conditional condition thenBranch (some elseBranch)), machine,
          initializing⟩
        ⟨fuel, .execute elseBranch, later, initializing⟩
  | loop {fuel machine initializing condition body} :
      Enters ⟨fuel + 1, .execute (.loop condition body), machine, initializing⟩
        ⟨fuel, .cycle condition body, machine, initializing⟩
  | returned {fuel machine initializing keyword expr} :
      Enters ⟨fuel + 1, .execute (.returnValue keyword (some expr)), machine, initializing⟩
        ⟨fuel, .evaluate expr, machine, initializing⟩
  | cycleTest {fuel machine initializing condition body} :
      Enters ⟨fuel + 1, .cycle condition body, machine, initializing⟩
        ⟨fuel, .evaluate condition, machine, initializing⟩
  | cycleBody {fuel machine initializing condition body value later} :
      LexicalScript.evaluate fuel condition machine = .value value later →
      value.isTruthy = true →
      Enters ⟨fuel + 1, .cycle condition body, machine, initializing⟩
        ⟨fuel, .execute body, later, initializing⟩
  | cycleAgain {fuel machine initializing condition body value later last} :
      LexicalScript.evaluate fuel condition machine = .value value later →
      value.isTruthy = true → LexicalScript.execute fuel body later = .value .normal last →
      Enters ⟨fuel + 1, .cycle condition body, machine, initializing⟩
        ⟨fuel, .cycle condition body, last, initializing⟩
  | firstStatement {fuel machine initializing stmt rest} :
      Enters ⟨fuel + 1, .executeAll (stmt :: rest), machine, initializing⟩
        ⟨fuel, .execute stmt, machine, initializing⟩
  | otherStatements {fuel machine initializing stmt rest later} :
      LexicalScript.execute fuel stmt machine = .value .normal later →
      Enters ⟨fuel + 1, .executeAll (stmt :: rest), machine, initializing⟩
        ⟨fuel, .executeAll rest, later, initializing⟩

/-- What follows for a point from the points that it enters holds of all points. -/
theorem Point.induction {motive : Point → Prop}
    (enter : ∀ point, (∀ part, Point.Enters point part → motive part) → motive point)
    (point : Point) : motive point := by
  obtain ⟨fuel, task, machine, initializing⟩ := point
  induction fuel generalizing task machine initializing with
  | zero => exact enter _ fun part enters => nomatch enters
  | succ fuel ih =>
      refine enter _ fun part enters => ?_
      have less : part.fuel = fuel := by
        cases enters <;> rfl
      subst less
      exact ih part.task part.machine part.initializing

/-- The second point is the first one or a part of it, however far inside. -/
abbrev Point.Reaches : Point → Point → Prop := Relation.ReflTransGen Point.Enters

/-- The error that an outcome ends with. -/
def Outcome.error? {ε σ α : Type} : Outcome ε σ α → Option ε
  | .failure error _ => some error
  | _ => none

theorem Outcome.error?_bind {ε σ α β : Type} {first : Attempt ε σ α} {next : α → Attempt ε σ β}
    {state : σ} {error : ε} (failed : ((first >>= next) state).error? = some error) :
    (first state).error? = some error ∨
      ∃ result later, first state = .value result later ∧
        (next result later).error? = some error := by
  rw [Attempt.bind_apply] at failed
  cases ended : first state with
  | value result later =>
      rw [ended] at failed
      exact Or.inr ⟨result, later, rfl, failed⟩
  | failure other later =>
      rw [ended] at failed
      exact Or.inl failed
  | exhausted =>
      rw [ended] at failed
      cases failed

/-- The error that doing the task of a point ends with. -/
def Point.error? (point : Point) : Option Fault :=
  (point.task.run point.fuel point.machine).error?

/-! ### Programs -/

/-- The points at which the statements of a program are started. -/
inductive Starts (fuel : Nat) : Machine → List Stmt → Point → Prop
  | first {machine : Machine} {stmt : Stmt} {rest : List Stmt} :
      Starts fuel machine (stmt :: rest) ⟨fuel, .execute stmt, machine, []⟩
  | next {machine later : Machine} {stmt : Stmt} {rest : List Stmt} {flow : Flow} {point : Point} :
      execute fuel stmt machine = .value flow later → Starts fuel later rest point →
      Starts fuel machine (stmt :: rest) point

theorem starts_of_failure {fuel : Nat} {machine : Machine} {statements : List Stmt} {fault : Fault}
    (failed : (executeEach fuel statements machine).error? = some fault) :
    ∃ start, Starts fuel machine statements start ∧ start.error? = some fault := by
  induction statements generalizing machine with
  | nil => cases failed
  | cons stmt rest ih =>
      rcases Outcome.error?_bind failed with first | ⟨flow, later, executed, others⟩
      · exact ⟨_, .first, first⟩
      · obtain ⟨start, starts, found⟩ := ih others
        exact ⟨start, .next executed starts, found⟩

end LexicalScript
