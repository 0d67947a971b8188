import LexicalScript.Proofs.RecordedRuns
import LexicalScript.Proofs.WalkSteps

/-!
Returns.

The resolver refuses a return outside of functions, and nothing else makes a statement return.  So
the statements of a program never return, on whatever machine they are executed.  In the body of a
function the first return that is reached ends the body, and it alone gives the call its value.
-/

set_option autoImplicit false

namespace LexicalScript

/-! ### Statements that cannot return -/

mutual

/-- Returns stand in functions only, which the statement declares. -/
def Stmt.returnFree : Stmt → Bool
  | .expression _ | .print _ | .var _ _ | .function _ _ _ => true
  | .block body => Stmt.returnFreeAll body
  | .conditional _ thenBranch elseBranch =>
      thenBranch.returnFree && Stmt.returnFreeOption elseBranch
  | .loop _ body => body.returnFree
  | .returnValue _ _ => false

def Stmt.returnFreeOption : Option Stmt → Bool
  | none => true
  | some stmt => stmt.returnFree

def Stmt.returnFreeAll : List Stmt → Bool
  | [] => true
  | stmt :: rest => stmt.returnFree && Stmt.returnFreeAll rest

end

theorem Stmt.returnFree_of_mem {statements : List Stmt} {stmt : Stmt}
    (free : Stmt.returnFreeAll statements = true) (member : stmt ∈ statements) :
    stmt.returnFree = true := by
  induction statements with
  | nil => cases member
  | cons first rest ih =>
      obtain ⟨head, tail⟩ := Bool.and_eq_true_iff.mp free
      rcases List.mem_cons.mp member with rfl | later
      · exact head
      · exact ih tail later

theorem Walking.Sticky.running {α : Type} {action : Walking α} (sticky : action.Sticky)
    {walk : Walk} (running : (action walk).2.stopped = none) : walk.stopped = none := by
  cases stopped : walk.stopped with
  | none => rfl
  | some error =>
      rw [sticky walk error stopped] at running
      cases running

mutual

/-- Outside of functions a walk over a statement that may return stops. -/
theorem Stmt.resolve_returnFree : (stmt : Stmt) → {walk : Walk} →
    walk.resolver.inFunction = false → walk.resolver.initializing = none →
    (stmt.resolve walk).2.stopped = none → (stmt.resolve walk).1.returnFree = true
  | .expression _, _, _, _, _ | .print _, _, _, _, _ | .var _ none, _, _, _, _
  | .var _ (some _), _, _, _, _ | .function _ _ _, _, _, _, _ => rfl
  | .block body, walk, outside, plain, running =>
      Stmt.resolveAll_returnFree body outside plain running
  | .conditional condition thenBranch elseBranch, walk, outside, plain, running => by
      have tested : walk.Covers (condition.steps none) _ _ := condition.resolve_covers walk plain
      have outside' := tested.inFunction.trans outside
      have plain' := tested.initializing.trans plain
      have chosen := thenBranch.resolve_covers _ outside' plain'
      have running' : (thenBranch.resolve (condition.resolve walk).2).2.stopped = none :=
        (Stmt.resolveOption_sticky elseBranch).running running
      exact Bool.and_eq_true_iff.mpr ⟨thenBranch.resolve_returnFree outside' plain' running',
        Stmt.resolveOption_returnFree elseBranch (chosen.inFunction.trans outside')
          (chosen.initializing.trans plain') running⟩
  | .loop condition body, walk, outside, plain, running =>
      have tested : walk.Covers (condition.steps none) _ _ := condition.resolve_covers walk plain
      body.resolve_returnFree (tested.inFunction.trans outside)
        (tested.initializing.trans plain) running
  | .returnValue keyword value, walk, outside, plain, running => by
      rw [Stmt.resolve, Walking.bind_apply, Walking.get_apply] at running
      dsimp only at running
      rw [outside, if_neg Bool.false_ne_true] at running
      exact absurd ((Expr.resolveOption_sticky value).running running)
        (Walking.stop_stopped _ _ walk)

theorem Stmt.resolveOption_returnFree : (branch : Option Stmt) → {walk : Walk} →
    walk.resolver.inFunction = false → walk.resolver.initializing = none →
    (Stmt.resolveOption branch walk).2.stopped = none →
    Stmt.returnFreeOption (Stmt.resolveOption branch walk).1 = true
  | none, _, _, _, _ => rfl
  | some stmt, _, outside, plain, running => stmt.resolve_returnFree outside plain running

theorem Stmt.resolveAll_returnFree : (statements : List Stmt) → {walk : Walk} →
    walk.resolver.inFunction = false → walk.resolver.initializing = none →
    (Stmt.resolveAll statements walk).2.stopped = none →
    Stmt.returnFreeAll (Stmt.resolveAll statements walk).1 = true
  | [], _, _, _, _ => rfl
  | stmt :: rest, walk, outside, plain, running => by
      have first := stmt.resolve_covers walk outside plain
      have running' : (stmt.resolve walk).2.stopped = none :=
        (Stmt.resolveAll_sticky rest).running running
      exact Bool.and_eq_true_iff.mpr ⟨stmt.resolve_returnFree outside plain running',
        Stmt.resolveAll_returnFree rest (first.inFunction.trans outside)
          (first.initializing.trans plain) running⟩

end

theorem Resolver.returnFree_of_accepted {known : List String} {statements : List Stmt}
    (accepted : ((Resolver.ofGlobals known).resolve statements).error = none) :
    Stmt.returnFreeAll ((Resolver.ofGlobals known).resolve statements).statements = true :=
  Stmt.resolveAll_returnFree statements rfl rfl accepted

/-- With that much fuel, what cannot return ends in the normal way. -/
structure Unreturning (fuel : Nat) : Prop where
  execute : ∀ stmt, stmt.returnFree = true → (execute fuel stmt).Yields (· = .normal)
  executeLoop : ∀ condition body, body.returnFree = true →
    (executeLoop fuel condition body).Yields (· = .normal)
  executeAll : ∀ statements, Stmt.returnFreeAll statements = true →
    (executeAll fuel statements).Yields (· = .normal)

theorem Exec.within_yields {α : Type} {property : α → Prop} {body : Exec α}
    (yields : body.Yields property) (frame : FrameId) :
    (Exec.within frame body).Yields property := by
  intro machine
  have inside := yields { machine with active := frame }
  unfold Exec.within
  dsimp only
  cases ended : body { machine with active := frame } with
  | value result later =>
      rw [ended] at inside
      exact inside
  | failure fault later => trivial
  | exhausted => trivial

namespace Unreturning

variable {fuel : Nat}

theorem execute_succ (ih : Unreturning fuel) (stmt : Stmt) (free : stmt.returnFree = true) :
    (LexicalScript.execute (fuel + 1) stmt).Yields (· = .normal) := by
  cases stmt with
  | block body => exact .after fun frame => Exec.within_yields (ih.executeAll body free) frame
  | conditional condition thenBranch elseBranch =>
      obtain ⟨free, free'⟩ := Bool.and_eq_true_iff.mp free
      apply Attempt.Yields.after
      intro test
      split
      · exact ih.execute thenBranch free
      · cases elseBranch with
        | none => exact .pure rfl
        | some branch => exact ih.execute branch free'
  | loop condition body => exact ih.executeLoop condition body free
  | returnValue keyword value => cases free
  | expression expr | print expr | var name initializer | function name parameters body =>
      exact execute_yields_normal trivial

theorem executeLoop_succ (ih : Unreturning fuel) (condition : Expr) (body : Stmt)
    (free : body.returnFree = true) :
    (LexicalScript.executeLoop (fuel + 1) condition body).Yields (· = .normal) := by
  apply Attempt.Yields.after
  intro test
  split
  · apply (ih.execute body free).bind
    rintro flow rfl
    exact ih.executeLoop condition body free
  · exact .pure rfl

theorem executeAll_succ (ih : Unreturning fuel) (statements : List Stmt)
    (free : Stmt.returnFreeAll statements = true) :
    (LexicalScript.executeAll (fuel + 1) statements).Yields (· = .normal) := by
  cases statements with
  | nil => exact .pure rfl
  | cons stmt rest =>
      obtain ⟨free, free'⟩ := Bool.and_eq_true_iff.mp free
      apply (ih.execute stmt free).bind
      rintro flow rfl
      exact ih.executeAll rest free'

end Unreturning

theorem unreturning (fuel : Nat) : Unreturning fuel := by
  induction fuel with
  | zero => exact ⟨fun _ _ => .exhausted, fun _ _ _ => .exhausted, fun _ _ => .exhausted⟩
  | succ fuel ih => exact ⟨ih.execute_succ, ih.executeLoop_succ, ih.executeAll_succ⟩

/-- Executes the statements of a program in order up to the first that returns. -/
def executeHeeding (fuel : Nat) : List Stmt → Exec Flow
  | [] => return .normal
  | stmt :: rest => do
      match ← execute fuel stmt with
      | .returned value => return .returned value
      | .normal => executeHeeding fuel rest

/-- Where no statement returns, nothing is lost if it is not heeded how they end. -/
theorem executeEach_eq_heeding {statements : List Stmt}
    (free : Stmt.returnFreeAll statements = true) (fuel : Nat) :
    executeEach fuel statements = (do
      let _ ← executeHeeding fuel statements
      return ()) := by
  induction statements with
  | nil => rfl
  | cons stmt rest ih =>
      obtain ⟨head, tail⟩ := Bool.and_eq_true_iff.mp free
      funext machine
      have normal := (unreturning fuel).execute stmt head machine
      rw [executeEach, executeHeeding, ih tail]
      simp only [Attempt.bind_apply]
      cases ended : execute fuel stmt machine with
      | value flow later =>
          rw [ended] at normal
          cases normal
          rfl
      | failure fault later => rfl
      | exhausted => rfl

/-! ### Calls -/

/-- The value that a return gives back. -/
def Exec.returned (fuel : Nat) : Option Expr → Exec Value
  | none => return .nil
  | some expr => evaluate fuel expr

theorem execute_return_eq (fuel : Nat) (keyword : Token) (value : Option Expr) :
    execute (fuel + 1) (.returnValue keyword value) = (do
      let result ← Exec.returned fuel value
      return .returned result) := by
  cases value with
  | none => rfl
  | some expr => rfl

theorem Exec.callFrame_within {α : Type} (declaration : Declaration) (closure : FrameId)
    (arguments : List Value) (body : Exec α) (machine : Machine) :
    (Exec.callFrame declaration closure arguments >>= fun frame => Exec.within frame body) machine =
      (body (machine.enterCall declaration closure arguments)).mapState machine.resume := by
  change Exec.within machine.store.frames.size body _ = _
  rw [Exec.within_apply]
  rfl

/-- The machine on which the body of a called function starts. -/
def Machine.call (machine : Machine) (declaration : Declaration) (closure : FrameId)
    (arguments : List Value) : Machine :=
  (machine.note (.functionCalled declaration.name.lexeme)).enterCall declaration closure arguments

section Call

variable (fuel : Nat) (declaration : Declaration) (closure : FrameId) (arguments : List Value)
  (paren : Token) (machine : Machine)

/-- A call of a function is a run of its body, after which the old frame is active again. -/
theorem invoke_function_eq :
    invoke (fuel + 1) (.function declaration closure) arguments paren machine =
      match executeAll fuel declaration.body (machine.call declaration closure arguments) with
      | .value (.returned value) later => .value value (machine.resume later)
      | .value .normal later => .value .nil (machine.resume later)
      | .failure fault later => .failure fault (machine.resume later)
      | .exhausted => .exhausted := by
  change ((do
    let frame ← Exec.callFrame declaration closure arguments
    Exec.within frame (executeAll fuel declaration.body)) >>= _)
      (machine.note (.functionCalled declaration.name.lexeme)) = _
  rw [Attempt.bind_apply, Exec.callFrame_within]
  unfold Machine.call
  cases executeAll fuel declaration.body
    ((machine.note (.functionCalled declaration.name.lexeme)).enterCall declaration closure
      arguments) with
  | value flow later => cases flow <;> rfl
  | failure fault later => rfl
  | exhausted => rfl

theorem recordAll_eq_executeAll :
    (recordAll fuel declaration.body (machine.call declaration closure arguments)).2 =
      executeAll fuel declaration.body (machine.call declaration closure arguments) :=
  congrFun ((faithful fuel).recordAll declaration.body) _

/-- A return that the body reaches is the last thing that it starts, and the call ends as the
evaluation of its value does. -/
theorem invoke_of_return {front back : List Visit} {parts : Nat} {keyword : Token}
    {value : Option Expr} {start : Machine}
    (started : (recordAll fuel declaration.body (machine.call declaration closure arguments)).1 =
      front ++ .statement parts (.returnValue keyword value) start :: back) :
    back = [] ∧ invoke (fuel + 1) (.function declaration closure) arguments paren machine =
      (Exec.returned parts value start).mapState machine.resume := by
  have ends := (returningLast fuel).recordAll declaration.body
    (machine.call declaration closure arguments)
  obtain ⟨last, ended⟩ := ends.of_return started
  refine ⟨last, ?_⟩
  rw [invoke_function_eq, ← recordAll_eq_executeAll, ended, execute_return_eq,
    Attempt.bind_apply]
  cases Exec.returned parts value start <;> rfl

/-- A call whose body reaches no return ends as the body does, with the value nil. -/
theorem invoke_of_no_return
    (none : ∀ visit ∈ (recordAll fuel declaration.body
      (machine.call declaration closure arguments)).1, visit.isReturn = false) :
    invoke (fuel + 1) (.function declaration closure) arguments paren machine =
      ((do
        let _ ← executeAll fuel declaration.body
        return .nil : Exec Value) (machine.call declaration closure arguments)).mapState
          machine.resume := by
  have ends := (returningLast fuel).recordAll declaration.body
    (machine.call declaration closure arguments)
  have unreturned := ends.not_returned none
  rw [recordAll_eq_executeAll] at unreturned
  rw [invoke_function_eq, Attempt.bind_apply]
  cases ended : executeAll fuel declaration.body (machine.call declaration closure arguments) with
  | value flow later =>
      cases flow with
      | normal => rfl
      | returned value => exact absurd ended (unreturned value later)
  | failure fault later => rfl
  | exhausted => rfl

end Call

/-- Returns stay within calls.  A statement of a program that the resolver accepts never returns, on
whatever machine and with however much fuel it is executed, so nothing is lost when a program is run
without regard to how its statements end.  In a call, a return that the body reaches is the last of
the statements and loop tests that the body starts, and the call ends as the evaluation of its value
does.  If the body reaches none, the call ends as the body does, with the value nil. -/
theorem returns_stay_within_calls (known : List String) (statements : List Stmt)
    (accepted : ((Resolver.ofGlobals known).resolve statements).error = none) :
    let program := ((Resolver.ofGlobals known).resolve statements).statements
    (∀ stmt ∈ program, ∀ fuel machine value later,
      execute fuel stmt machine ≠ .value (.returned value) later) ∧
    (∀ fuel, executeEach fuel program = (do
      let _ ← executeHeeding fuel program
      return ())) ∧
    ∀ fuel declaration closure arguments paren machine,
      let start := machine.call declaration closure arguments
      let body := recordAll fuel declaration.body start
      let outcome := invoke (fuel + 1) (.function declaration closure) arguments paren machine
      body.2 = executeAll fuel declaration.body start ∧
      (∀ front back parts keyword value reached,
        body.1 = front ++ .statement parts (.returnValue keyword value) reached :: back →
        back = [] ∧ outcome = (Exec.returned parts value reached).mapState machine.resume) ∧
      ((∀ visit ∈ body.1, visit.isReturn = false) →
        outcome = ((do
          let _ ← executeAll fuel declaration.body
          return .nil : Exec Value) start).mapState machine.resume) := by
  intro program
  have free := Resolver.returnFree_of_accepted accepted
  refine ⟨?_, executeEach_eq_heeding free, ?_⟩
  · intro stmt member fuel machine value later ended
    have normal := (unreturning fuel).execute stmt (Stmt.returnFree_of_mem free member) machine
    cases normal.of_value ended
  · intro fuel declaration closure arguments paren machine start body outcome
    refine ⟨recordAll_eq_executeAll fuel declaration closure arguments machine, ?_, ?_⟩
    · intro front back parts keyword value reached started
      exact invoke_of_return fuel declaration closure arguments paren machine started
    · exact invoke_of_no_return fuel declaration closure arguments paren machine

/-- A function that returns from a branch in a block in a loop, the second time round. -/
def loopReturning : String :=
  "fun f(x) \x7b while (true) \x7b \x7b if (x) return \"a\"; \x7d x = true; \x7d print x; \x7d" ++
    "print f;"

/-- A record from its end: ten steps and then the return of a text. -/
def endsInReturn : List Visit → Bool
  | .statement (_ + 1) (.returnValue _ (some (.literal (.string text)))) _ :: front =>
      text == "a" && front.length == 10
  | _ => false

/-- The body of the function the program begins with ends in the return. -/
def callEndsInReturn (machine : Machine) : List Stmt → Bool
  | .function name parameters body :: _ =>
      endsInReturn (recordAll 12 body
        (machine.call ⟨name, parameters, body⟩ machine.globals [.nil])).1.reverse
  | _ => false

/-- The body starts two tests of the loop and the statements in front of the return, but neither the
assignment a second time nor the statement behind the loop. -/
theorem returns_stay_within_calls_loop :
    let statements := (Parser.program ((tokens? loopReturning).toOption.getD [])).statements
    let program := ((Resolver.ofGlobals []).resolve statements).statements
    let machine := Machine.new ⟨"", none, false⟩ (fun _ => .ok 0) .silent
    ((Resolver.ofGlobals []).resolve statements).error = none ∧
    (∀ stmt ∈ program, ∀ fuel machine value later,
      execute fuel stmt machine ≠ .value (.returned value) later) ∧
    ∃ declaration later, (∃ others, program =
        .function declaration.name declaration.parameters declaration.body :: others) ∧
      (recordAll 12 declaration.body (machine.call declaration machine.globals [.nil])).1.length =
        11 ∧
      invoke 13 (.function declaration machine.globals) [.nil] declaration.name machine =
        .value (.string "a") later := by
  intro statements program machine
  have accepted : ((Resolver.ofGlobals []).resolve statements).error = none := by decide +kernel
  obtain ⟨normal, -, calls⟩ := returns_stay_within_calls [] statements accepted
  refine ⟨accepted, normal, ?_⟩
  have checked : callEndsInReturn machine program = true := by decide +kernel
  -- from here on only the shapes of the program and of the record matter
  clear_value program machine
  unfold callEndsInReturn at checked
  split at checked
  · rename_i name parameters body others
    unfold endsInReturn at checked
    split at checked
    · rename_i parts keyword text reached front started
      obtain ⟨same, length⟩ := Bool.and_eq_true_iff.mp checked
      rw [List.reverse_eq_iff, List.reverse_cons] at started
      obtain ⟨-, returned, -⟩ :=
        calls 12 ⟨name, parameters, body⟩ machine.globals [.nil] name machine
      obtain ⟨-, outcome⟩ := returned front.reverse [] _ _ _ _ started
      rw [eq_of_beq same] at outcome
      refine ⟨⟨name, parameters, body⟩, machine.resume reached, ⟨others, rfl⟩, ?_, outcome⟩
      rw [started, List.length_append, List.length_reverse, eq_of_beq length]
      rfl
    · cases checked
  · cases checked

end LexicalScript
