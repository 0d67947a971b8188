import LexicalScript.Parser.Statement
import LexicalScript.Proofs.OpenRules
import LexicalScript.Proofs.Shape

/-!
Counting loops, run directly.

The parser has no node for a `for`; it builds one from a block and a `while`.  Here a `for` keeps
its clauses, and the rules of the reference run it from them: the first clause once, then the
condition, the body and the increment in turn.  Runs of programs end in the same way with these
rules and with those of the reference, whichever of the trees that stand for a `for` are run
directly.
-/

set_option autoImplicit false

namespace LexicalScript

/-- What may stand in front of the first semicolon of a `for`. -/
inductive Stmt.StartsLoop : Stmt → Prop
  | var (name : Token) (value : Option Expr) : StartsLoop (.var name value)
  | expression (expr : Expr) : StartsLoop (.expression expr)

namespace Reference

/-- A `for`: three clauses, each of which may be missing, and a body, which is no declaration. -/
structure CountingLoop where
  initializer : Option Stmt
  condition : Option Expr
  increment : Option Expr
  body : Stmt
  starts : ∀ stmt, initializer = some stmt → stmt.StartsLoop
  alone : body.declared? = none
  proper : body.Proper

namespace CountingLoop

/-- The tree that the parser builds for the loop. -/
def tree (loop : CountingLoop) : Stmt :=
  Parser.counting loop.initializer loop.condition loop.increment loop.body

/-! ### Running a loop from its clauses -/

section Run

variable (loop : CountingLoop) (rules : Rules)

/-- Whether the loop goes on; without a condition it does. -/
def test (environment : Environment) : Run Bool :=
  match loop.condition with
  | none => return true
  | some condition => do
      let datum ← rules.evaluate environment condition
      return datum.face.isTruthy

def advance (environment : Environment) : Run Unit :=
  match loop.increment with
  | none => return ()
  | some increment => do
      let _ ← rules.evaluate environment increment
      return ()

/-- The body, and the increment behind a body that ended in the normal way.  The increment stands in
the scope of the loop. -/
def turn (scope : Place) : Run Flow := do
  match ← rules.execute scope loop.body with
  | (.returned datum, _) => return .returned datum
  | (.normal, _) => do
      loop.advance rules scope.environment
      return .normal

/-- At most so many turns, while the condition holds and nothing is returned. -/
def cycle (scope : Place) : Nat → Run Flow
  | 0 => .exhausted
  | turns + 1 => do
      if ← loop.test rules scope.environment then
        match ← loop.turn rules scope with
        | .returned datum => return .returned datum
        | .normal => cycle scope turns
      else return .normal

/-- The scope of the loop, in which its first clause has been executed.  Without one it is the scope
that the loop stands in. -/
def enter (place : Place) : Run Place :=
  match loop.initializer with
  | none => return place
  | some initializer => do
      let result ← rules.execute (.inside place.environment) initializer
      return result.2

/-- Behind the loop its scope is left. -/
def run (turns : Nat) (place : Place) : Run (Flow × Place) := do
  let scope ← loop.enter rules place
  let flow ← loop.cycle rules scope turns
  return (flow, place)

end Run

end CountingLoop

/-- A choice of trees that are run as loops. -/
structure LoopView where
  loop? : Stmt → Option CountingLoop
  tree_eq : ∀ {stmt loop}, loop? stmt = some loop → loop.tree = stmt

namespace LoopView

/-- Rules that run the chosen trees as loops, and all others as the given ones do. -/
def step (view : LoopView) (inner : Rules) (turns : Nat) : Rules :=
  { inner.next with
    execute := fun place stmt =>
      match view.loop? stmt with
      | some loop => loop.run inner turns place
      | none => inner.next.execute place stmt }

/-- The rules of the reference, but for the chosen trees, which are run as loops wherever they
stand. -/
def rules (view : LoopView) : Nat → Rules
  | 0 => .spent
  | fuel + 1 => view.step (view.rules fuel) fuel

/-- Runs a program. -/
def run (view : LoopView) (fuel : Nat) (statements : List Stmt) (state : State) :
    Option (Option Fault × State) :=
  (view.rules fuel).run statements state

end LoopView

/-! ### Statements that stay at their place -/

/-- With that much fuel, a statement that is no declaration depends on its place only by the
environment there, and stays at it. -/
structure Still (fuel : Nat) : Prop where
  execute : ∀ {stmt : Stmt} {place other : Place}, stmt.declared? = none → stmt.Proper →
    other.environment = place.environment →
    execute fuel place stmt = (do
      let result ← execute fuel other stmt
      return (result.1, place))
  executeLoop : ∀ {condition : Expr} {body : Stmt} {place other : Place}, body.declared? = none →
    body.Proper → other.environment = place.environment →
    executeLoop fuel place condition body = executeLoop fuel other condition body

namespace Still

variable {fuel : Nat} {place other : Place}

theorem execute_succ (ih : Still fuel) {stmt : Stmt} (alone : stmt.declared? = none)
    (proper : stmt.Proper) (same : other.environment = place.environment) :
    Reference.execute (fuel + 1) place stmt = (do
      let result ← Reference.execute (fuel + 1) other stmt
      return (result.1, place)) := by
  cases stmt with
  | var name initializer => cases alone
  | function name parameters body => cases alone
  | expression expr | print expr | block body | returnValue keyword value =>
      simp only [Reference.execute, same, bind_assoc, pure_bind]
  | loop condition body =>
      simp only [Reference.execute, bind_assoc, pure_bind]
      rw [ih.executeLoop proper.1 proper.2 same]
  | conditional condition thenBranch elseBranch =>
      obtain ⟨⟨thenAlone, thenProper⟩, elseProper⟩ := proper
      simp only [Reference.execute, same, bind_assoc]
      congr 1
      funext test
      cases test.face.isTruthy with
      | true => exact ih.execute thenAlone thenProper same
      | false =>
          cases elseBranch with
          | none => rfl
          | some branch => exact ih.execute elseProper.1 elseProper.2 same

theorem executeLoop_succ (ih : Still fuel) {condition : Expr} {body : Stmt}
    (alone : body.declared? = none) (proper : body.Proper)
    (same : other.environment = place.environment) :
    Reference.executeLoop (fuel + 1) place condition body =
      Reference.executeLoop (fuel + 1) other condition body := by
  simp only [Reference.executeLoop, same]
  congr 1
  funext test
  cases test.face.isTruthy with
  | false => rfl
  | true =>
      rw [if_pos rfl, if_pos rfl, ih.execute alone proper same, bind_assoc]
      congr 1
      funext result
      obtain ⟨flow, after⟩ := result
      rw [pure_bind]
      cases flow with
      | returned datum => rfl
      | normal => exact ih.executeLoop alone proper same

end Still

theorem still (fuel : Nat) : Still fuel := by
  induction fuel with
  | zero => exact ⟨fun _ _ _ => rfl, fun _ _ _ => rfl⟩
  | succ fuel ih => exact ⟨ih.execute_succ, ih.executeLoop_succ⟩

/-! ### Blocks and loops with the fuel spelled out -/

theorem execute_loop (fuel : Nat) (place : Place) (condition : Expr) (body : Stmt) :
    execute fuel place (.loop condition body) = (do
      let flow ← executeLoop (fuel - 1) place condition body
      return (flow, place)) := by
  cases fuel <;> rfl

theorem execute_expression (fuel : Nat) (place : Place) (expr : Expr) :
    execute fuel place (.expression expr) = (do
      let _ ← evaluate (fuel - 1) place.environment expr
      return (.normal, place)) := by
  cases fuel <;> rfl

theorem executeAll_singleton (fuel : Nat) (environment : Environment) (stmt : Stmt) :
    executeAll fuel environment [stmt] = (do
      let result ← execute (fuel - 1) (.inside environment) stmt
      return result.1) := by
  cases fuel with
  | zero => rfl
  | succ fuel =>
      cases fuel with
      | zero => rfl
      | succ fuel =>
          change (execute (fuel + 1) _ stmt >>= _) = _
          congr 1
          funext result
          obtain ⟨flow, place⟩ := result
          cases flow <;> rfl

theorem execute_pair (fuel : Nat) (place : Place) (first second : Stmt) :
    execute fuel place (.block [first, second]) = (do
      match ← execute (fuel - 2) (.inside place.environment) first with
      | (.returned datum, _) => return (.returned datum, place)
      | (.normal, scope) => do
          let result ← execute (fuel - 3) (.inside scope.environment) second
          return (result.1, place)) := by
  cases fuel with
  | zero => rfl
  | succ fuel =>
      cases fuel with
      | zero => rfl
      | succ fuel =>
          change ((execute fuel _ first >>= _) >>= _) = _
          rw [bind_assoc]
          congr 1
          funext result
          obtain ⟨flow, scope⟩ := result
          cases flow with
          | returned datum => rfl
          | normal =>
              change (executeAll fuel scope.environment [second] >>= _) = _
              rw [executeAll_singleton, bind_assoc]
              rfl

namespace CountingLoop

variable (loop : CountingLoop)

/-- The body of the `while` that stands for the loop. -/
def repeated : Stmt :=
  match loop.increment with
  | none => loop.body
  | some increment => .block [loop.body, .expression increment]

/-- The condition of the `while` that stands for the loop. -/
def tested : Expr :=
  loop.condition.getD (.literal (.bool true))

theorem tree_eq :
    loop.tree =
      match loop.initializer with
      | none => .loop loop.tested loop.repeated
      | some initializer => .block [initializer, .loop loop.tested loop.repeated] := by
  unfold tree Parser.counting tested repeated
  cases loop.initializer <;> cases loop.increment <;> rfl

/-! ### More fuel for a loop -/

section Below

variable {less more : Rules} (below : less.Below more)

include below

theorem advance_below (environment : Environment) :
    Run.Below (loop.advance less environment) (loop.advance more environment) := by
  unfold advance
  cases loop.increment with
  | none => exact .refl _
  | some increment => exact (below.evaluate environment increment).bind fun _ => .refl _

theorem turn_below (scope : Place) :
    Run.Below (loop.turn less scope) (loop.turn more scope) := by
  refine (below.execute scope loop.body).bind fun result => ?_
  obtain ⟨flow, after⟩ := result
  cases flow with
  | returned datum => exact .refl _
  | normal => exact (loop.advance_below below scope.environment).bind fun _ => .refl _

end Below

/-! ### One turn -/

/-- The repeated statement takes one turn, with rules that have a little less fuel. -/
theorem execute_repeated (fuel : Nat) (scope : Place) :
    ∃ rules : Rules, (Rules.reference (fuel - 4)).Below rules ∧
      rules.Below (Rules.reference fuel) ∧
      execute fuel scope loop.repeated = (do
        let flow ← loop.turn rules scope
        return (flow, scope)) := by
  unfold repeated turn advance
  cases loop.increment with
  | none =>
      refine ⟨Rules.reference fuel, Rules.reference_below (Nat.sub_le fuel 4), .refl _, ?_⟩
      have stays : execute fuel scope loop.body = _ :=
        (still fuel).execute loop.alone loop.proper rfl
      dsimp only
      rw [stays, bind_assoc]
      congr 1
      funext result
      obtain ⟨flow, after⟩ := result
      cases flow <;> rfl
  | some increment =>
      -- The body has two units of fuel less than the block, and the increment four.
      have body := Rules.reference_below (show fuel - 4 ≤ fuel - 2 by omega)
      have block := Rules.reference_below (Nat.sub_le fuel 2)
      refine ⟨{ Rules.reference (fuel - 2) with
        evaluate := (Rules.reference (fuel - 4)).evaluate }, ?_, ?_, ?_⟩
      · exact { body with evaluate := fun _ _ => .refl _ }
      · exact { block with evaluate := (body.trans block).evaluate }
      · have stays : execute (fuel - 2) (.inside scope.environment) loop.body = (do
            let result ← execute (fuel - 2) scope loop.body
            return (result.1, .inside scope.environment)) :=
          (still (fuel - 2)).execute loop.alone loop.proper rfl
        dsimp only
        rw [execute_pair, stays, bind_assoc, bind_assoc]
        congr 1
        funext result
        obtain ⟨flow, after⟩ := result
        cases flow with
        | returned datum => rfl
        | normal =>
            simp only [pure_bind, bind_assoc, execute_expression]
            rfl

/-! ### The loop of the reference beside the direct one -/

theorem executeLoop_eq (fuel : Nat) (place : Place) (condition : Expr) (body : Stmt) :
    executeLoop (fuel + 1) place condition body = (do
      let holds ← (do
        let datum ← evaluate fuel place.environment condition
        pure datum.face.isTruthy)
      if holds then
        let result ← execute fuel place body
        match result.1 with
        | .returned datum => return .returned datum
        | .normal => executeLoop fuel place condition body
      else return .normal) := by
  rw [bind_assoc]
  change (evaluate fuel place.environment condition >>= _) = _
  congr 1
  funext test
  rw [pure_bind]
  cases test.face.isTruthy with
  | false => rfl
  | true =>
      rw [if_pos rfl, if_pos rfl]
      congr 1
      funext result
      obtain ⟨flow, after⟩ := result
      cases flow <;> rfl

theorem tested_below_test {fuel : Nat} {rules : Rules}
    (below : (Rules.reference fuel).Below rules) (environment : Environment) :
    Run.Below (do
      let datum ← evaluate fuel environment loop.tested
      pure datum.face.isTruthy) (loop.test rules environment) := by
  unfold test tested
  cases loop.condition with
  | some condition => exact (below.evaluate environment condition).bind fun _ => .refl _
  | none =>
      cases fuel with
      | zero => exact .exhausted
      | succ fuel => exact .refl _

theorem test_below_tested {fuel : Nat} {rules : Rules}
    (below : rules.Below (Rules.reference (fuel + 1))) (environment : Environment) :
    Run.Below (loop.test rules environment) (do
      let datum ← evaluate (fuel + 1) environment loop.tested
      pure datum.face.isTruthy) := by
  unfold test tested
  cases loop.condition with
  | some condition => exact (below.evaluate environment condition).bind fun _ => .refl _
  | none => exact .refl _

/-- Turns that the loop of the reference takes are taken directly. -/
theorem executeLoop_below_cycle {limit : Nat} {rules : Rules}
    (below : (Rules.reference limit).Below rules) (scope : Place) {fuel turns : Nat}
    (enough : fuel ≤ limit) (many : fuel ≤ turns) :
    Run.Below (executeLoop fuel scope loop.tested loop.repeated)
      (loop.cycle rules scope turns) := by
  induction fuel generalizing turns with
  | zero => exact .exhausted
  | succ fuel ih =>
      obtain ⟨turns, rfl⟩ : ∃ fewer, turns = fewer + 1 := ⟨turns - 1, by omega⟩
      have less := (Rules.reference_below (show fuel ≤ limit by omega)).trans below
      rw [executeLoop_eq]
      refine (loop.tested_below_test less scope.environment).bind fun holds => ?_
      cases holds with
      | false => exact .refl _
      | true =>
          obtain ⟨used, _, upper, same⟩ := loop.execute_repeated fuel scope
          rw [if_pos rfl, if_pos rfl, same, bind_assoc]
          refine (loop.turn_below (upper.trans less) scope).bind fun flow => ?_
          rw [pure_bind]
          cases flow with
          | returned datum => exact .refl _
          | normal => exact ih (by omega) (by omega)

/-- Turns that are taken directly are taken by the loop of the reference, which needs a unit of fuel
for each of them. -/
theorem cycle_below_executeLoop {limit : Nat} {rules : Rules}
    (below : rules.Below (Rules.reference limit)) (scope : Place) (turns : Nat) :
    Run.Below (loop.cycle rules scope turns)
      (executeLoop (limit + 4 + turns) scope loop.tested loop.repeated) := by
  induction turns with
  | zero => exact .exhausted
  | succ turns ih =>
      rw [← Nat.add_assoc, executeLoop_eq]
      obtain ⟨fuel, same⟩ : ∃ fuel, limit + 4 + turns = fuel + 1 := ⟨limit + 3 + turns, by omega⟩
      rw [same] at ih ⊢
      have more := below.trans (Rules.reference_below (show limit ≤ fuel + 1 by omega))
      refine (loop.test_below_tested more scope.environment).bind fun holds => ?_
      cases holds with
      | false => exact .refl _
      | true =>
          obtain ⟨used, lower, _, equal⟩ := loop.execute_repeated (fuel + 1) scope
          have least := Rules.reference_below (show limit ≤ fuel + 1 - 4 by omega)
          rw [if_pos rfl, if_pos rfl, equal, bind_assoc]
          refine (loop.turn_below (below.trans (least.trans lower)) scope).bind fun flow => ?_
          rw [pure_bind]
          cases flow with
          | returned datum => exact .refl _
          | normal => exact ih

/-- The first clause ends in the normal way, inside the scope of the loop. -/
def Entered (result : Flow × Place) : Prop :=
  ∃ environment, result = (.normal, .inside environment)

theorem execute_entered {stmt : Stmt} (starts : stmt.StartsLoop) (fuel : Nat)
    (environment : Environment) :
    Attempt.Yields (execute fuel (.inside environment) stmt) Entered := by
  cases fuel with
  | zero => exact Attempt.Yields.exhausted
  | succ fuel =>
      cases starts with
      | expression expr => exact .after fun _ => .pure ⟨environment, rfl⟩
      | var name value =>
          refine .after fun location => .after fun _ => .after fun _ => ?_
          exact .pure ⟨(name.lexeme, location) :: environment, rfl⟩

theorem execute_tree_below_run {limit : Nat} {rules : Rules}
    (below : (Rules.reference limit).Below rules) (place : Place) :
    Run.Below (execute (limit + 1) place loop.tree) (loop.run rules limit place) := by
  have starts := loop.starts
  rw [tree_eq]
  unfold run enter
  cases initial : loop.initializer with
  | none =>
      dsimp only
      rw [execute_loop, pure_bind]
      have cycled := loop.executeLoop_below_cycle below place
        (Nat.le_refl limit) (Nat.le_refl limit)
      exact cycled.bind fun _ => .refl _
  | some initializer =>
      dsimp only
      rw [execute_pair, bind_assoc]
      have first := (Rules.reference_below (show limit + 1 - 2 ≤ limit by omega)).trans below
      refine .bind_of_yields (execute_entered (starts initializer initial) _ _)
        (first.execute _ initializer) fun result entered => ?_
      obtain ⟨environment, rfl⟩ := entered
      rw [pure_bind]
      dsimp only
      rw [execute_loop, bind_assoc]
      have cycled := loop.executeLoop_below_cycle below (.inside environment)
        (show limit + 1 - 3 - 1 ≤ limit by omega) (show limit + 1 - 3 - 1 ≤ limit by omega)
      refine cycled.bind fun flow => ?_
      rw [pure_bind]
      exact .refl _

theorem run_below_execute_tree {limit : Nat} {rules : Rules}
    (below : rules.Below (Rules.reference limit)) (turns : Nat) (place : Place) :
    Run.Below (loop.run rules turns place) (execute (limit + turns + 8) place loop.tree) := by
  have starts := loop.starts
  rw [tree_eq]
  unfold run enter
  cases initial : loop.initializer with
  | none =>
      dsimp only
      rw [execute_loop, pure_bind]
      have cycled := (loop.cycle_below_executeLoop below place turns).trans
        ((Rules.reference_below (show limit + 4 + turns ≤ limit + turns + 8 - 1 by
          omega)).executeLoop _ _ _)
      exact cycled.bind fun _ => .refl _
  | some initializer =>
      dsimp only
      rw [execute_pair, bind_assoc]
      have first := (below.trans (Rules.reference_below
        (show limit ≤ limit + turns + 8 - 2 by omega))).execute (.inside place.environment)
          initializer
      refine .bind_of_yields (first.yields (execute_entered (starts initializer initial) _ _))
        first fun result entered => ?_
      obtain ⟨environment, rfl⟩ := entered
      rw [pure_bind]
      dsimp only
      rw [execute_loop, bind_assoc]
      have cycled := (loop.cycle_below_executeLoop below (.inside environment)
        turns).trans ((Rules.reference_below
          (show limit + 4 + turns ≤ limit + turns + 8 - 3 - 1 by omega)).executeLoop _ _ _)
      refine cycled.bind fun flow => ?_
      rw [pure_bind]
      exact .refl _

end CountingLoop

/-! ### Programs -/

namespace LoopView

variable (view : LoopView)

/-- What ends in the reference ends in the same way with loops run directly. -/
theorem reference_below_rules (fuel : Nat) : (Rules.reference fuel).Below (view.rules fuel) := by
  induction fuel with
  | zero => exact .spent _
  | succ fuel ih =>
      rw [Rules.reference_succ]
      refine { ih.next with execute := fun place stmt => ?_ }
      change Run.Below _ (match view.loop? stmt with
        | some loop => loop.run (view.rules fuel) fuel place
        | none => (view.rules fuel).next.execute place stmt)
      cases seen : view.loop? stmt with
      | none => exact ih.next.execute place stmt
      | some loop =>
          rw [← view.tree_eq seen, ← Rules.reference_succ]
          exact loop.execute_tree_below_run ih place

/-- What ends with loops run directly ends in the same way in the reference, with enough fuel. -/
theorem rules_below_reference (fuel : Nat) :
    ∃ more, (view.rules fuel).Below (Rules.reference more) := by
  induction fuel with
  | zero => exact ⟨0, .spent _⟩
  | succ fuel ih =>
      obtain ⟨limit, below⟩ := ih
      refine ⟨limit + fuel + 8, ?_⟩
      have next := below.next.trans (Rules.reference_succ limit ▸
        Rules.reference_below (show limit + 1 ≤ limit + fuel + 8 by omega))
      refine { next with execute := fun place stmt => ?_ }
      change Run.Below (match view.loop? stmt with
        | some loop => loop.run (view.rules fuel) fuel place
        | none => (view.rules fuel).next.execute place stmt) _
      cases seen : view.loop? stmt with
      | none => exact next.execute place stmt
      | some loop =>
          rw [← view.tree_eq seen]
          exact loop.run_below_execute_tree below fuel place

theorem run_of_reference {fuel : Nat} {statements : List Stmt} {state : State}
    {ran : Option Fault × State} (ended : Reference.run fuel statements state = some ran) :
    view.run fuel statements state = some ran := by
  rw [Rules.reference_run] at ended
  exact (view.reference_below_rules fuel).run ended

theorem reference_of_run {fuel : Nat} {statements : List Stmt} {state : State}
    {ran : Option Fault × State} (ended : view.run fuel statements state = some ran) :
    ∃ more, Reference.run more statements state = some ran := by
  obtain ⟨more, below⟩ := view.rules_below_reference fuel
  refine ⟨more, ?_⟩
  rw [Rules.reference_run]
  exact below.run ended

end LoopView

end Reference

end LexicalScript
