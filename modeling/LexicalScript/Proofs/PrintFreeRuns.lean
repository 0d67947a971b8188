import LexicalScript.Proofs.RunRules
import LexicalScript.Proofs.ScopedRuns

/-!
Runs that print nothing.

Of the steps of a run only the write of a print has to do with the sink.  So a run that comes to no
print ends alike on every sink, and leaves it as it is.  As long as no function of a program is
stored, evaluating an expression is such a run.
-/

set_option autoImplicit false

namespace LexicalScript

/-- The machine with another sink. -/
def Machine.printTo (machine : Machine) (sink : Sink) : Machine := { machine with sink := sink }

/-- On the machine with another sink, the step ends as it does on the machine itself. -/
def Exec.Mute {α : Type} (action : Exec α) (machine : Machine) : Prop :=
  ∀ sink, action (machine.printTo sink) = (action machine).mapState (·.printTo sink)

/-! ### Steps -/

namespace Exec.Mute

variable {α β : Type} {machine : Machine}

theorem sink_eq {action : Exec α} {later : Machine} (mute : action.Mute machine)
    (left : (action machine).state? = some later) : later.sink = machine.sink := by
  have kept := congrArg Outcome.state? (mute machine.sink)
  rw [Outcome.state?_mapState] at kept
  change (action machine).state? = _ at kept
  rw [left] at kept
  cases later
  cases kept
  rfl

theorem bind {first : Exec α} {next : α → Exec β} (mute : first.Mute machine)
    (after : ∀ result later, first machine = .value result later → (next result).Mute later) :
    (first >>= next).Mute machine := by
  intro sink
  rw [Attempt.bind_apply, Attempt.bind_apply, mute sink]
  cases ended : first machine with
  | value result later => exact after result later ended sink
  | failure fault later => rfl
  | exhausted => rfl

theorem within {frame : FrameId} {body : Exec α}
    (mute : body.Mute { machine with active := frame }) :
    (Exec.within frame body).Mute machine := by
  intro sink
  have inside : body { machine.printTo sink with active := frame } = _ := mute sink
  unfold Exec.within
  dsimp only
  rw [inside]
  cases body { machine with active := frame } <;> rfl

theorem ofExcept (result : Except RuntimeError α) : (Exec.ofExcept result).Mute machine := by
  intro sink
  cases result <;> rfl

theorem readVariable (name : Token) (depth : Option Nat) :
    (Exec.readVariable name depth).Mute machine := by
  intro sink
  cases depth with
  | none => exact ofExcept (machine.store.get machine.globals name) sink
  | some hops => exact ofExcept (machine.store.getAt machine.active hops name) sink

theorem assignVariable (name : Token) (depth : Option Nat) (value : Value) :
    (Exec.assignVariable name depth value).Mute machine := by
  intro sink
  have target : Exec.target? (machine.printTo sink) name depth =
      Exec.target? machine name depth := by
    cases depth <;> rfl
  unfold Exec.assignVariable
  rw [target]
  cases Exec.target? machine name depth <;> rfl

theorem readClock (line : Nat) (machine : Machine) : (Exec.readClock line).Mute machine := by
  intro sink
  have same : (machine.printTo sink).clock = machine.clock := rfl
  unfold Exec.readClock
  rw [same]
  obtain ⟨reading, clock⟩ := machine.clock.read
  cases reading <;> rfl

theorem callNative (native : Native) (arguments : List Value) (line : Nat) :
    (callNative native arguments line).Mute machine := by
  intro sink
  unfold LexicalScript.callNative
  rw [Attempt.bind_apply, Attempt.bind_apply]
  cases native.action with
  | readClock => exact readClock line (machine.note (.nativeCalled native.name)) sink
  | answer host =>
      dsimp only
      cases host (Value.viewAll arguments) <;> rfl

end Exec.Mute

section Steps

variable {α : Type} {point : Point} {held : Value → Prop} {machine : Machine} {action : Exec α}
  {gives : α → Value → Prop} {parts : Point → Prop}

/-- Of the steps that are not points, only the write of a print has to do with the sink. -/
theorem BasicStep.muteOrWrite {motive : {α : Type} → Exec α → Prop}
    (step : BasicStep point held machine action gives)
    (mute : ∀ {α : Type} {action : Exec α}, action.Mute machine → motive action)
    (write : ∀ {fuel : Nat} {expr : Expr} {start : Machine}
      {initializing : List (FrameId × String)} {value : Value},
      point = ⟨fuel + 1, .execute (.print expr), start, initializing⟩ →
      evaluate fuel expr start = .value value machine →
      motive (Exec.write (value.text ++ "\n"))) : motive action := by
  cases step with
  | quiet step =>
      cases step with
      | exhausted | pure | note | notCallable | miscounted | makeList =>
          exact mute fun _ => rfl
      | unary | binary | index => exact mute (.ofExcept _)
      | read => exact mute (.readVariable _ _)
      | native => exact mute (.callNative _ _ _)
      | write same ended => exact write same ended
  | assign => exact mute (.assignVariable _ _ _)
  | define | declare => exact mute fun _ => rfl

theorem RuleSteps.mute (steps : RuleSteps point held machine action gives parts)
    (other : ∀ expr, point.task ≠ .execute (.print expr))
    (inner : ∀ part, point.Enters part → (part.task.run part.fuel).Mute part.machine) :
    action.Mute machine := by
  induction steps with
  | basic step =>
      refine step.muteOrWrite (motive := fun action => action.Mute _) id fun same _ => ?_
      exact absurd (congrArg Point.task same) (other _)
  | part enters _ => exact inner _ enters
  | bind _ _ ih ih' => exact ih.bind ih'
  | block same =>
      subst same
      refine Exec.Mute.bind (fun _ => rfl) fun frame framed framing => ?_
      cases framing
      exact .within (inner _ .block)
  | body same _ =>
      subst same
      refine Exec.Mute.bind (fun _ => rfl) fun frame framed framing => ?_
      cases framing
      exact .within (inner _ .body)
  | fewer _ _ ih => exact ih

end Steps

/-- A point that leads to no print has nothing to do with the sink. -/
theorem Point.mute {point : Point}
    (printless : ∀ place, point.Reaches place → ∀ expr, place.task ≠ .execute (.print expr)) :
    (point.task.run point.fuel).Mute point.machine := by
  induction point using Point.induction with
  | enter point ih =>
      refine (point.ruleSteps point.task.supplied_of_all).mute (printless point .refl) ?_
      intro part enters
      exact ih part enters fun place reaches => printless place (.head enters reaches)

/-! ### Machines that store no function -/

/-- No function of a program is stored. -/
def Store.Functionless (store : Store) : Prop :=
  ∀ frame name value, store.local? frame name = some value → value.closures = []

theorem Value.closures_list {identity : Identity} {elements : List Value} :
    (Value.list identity elements).closures = [] ↔
      ∀ element, element ∈ elements → element.closures = [] := by
  simp only [List.eq_nil_iff_forall_not_mem]
  constructor
  · intro none element member closure inside
    exact none closure (Value.mem_closuresAll.mpr ⟨element, member, inside⟩)
  · intro none closure inside
    obtain ⟨element, member, inside⟩ := Value.mem_closuresAll.mp inside
    exact none element member closure inside

/-- The laws of runs without statements, in which no function is made or called. -/
def functionlessness : RunLaws where
  fit machine := machine.store.Functionless
  grows _ later := later.store.Functionless
  passes _ _ := True
  value value _ := value.closures = []
  callable callable _ := ∀ declaration closure, callable ≠ .function declaration closure
  expr _ := True
  stmt _ := False
  exprParts _ _ _ := trivial
  stmtExprs none := none.elim
  stmtParts none := none.elim
  refl fit := fit
  trans _ fit := fit
  kept fit := fit
  passing _ := trivial
  passingOn _ _ := trivial
  quiet := by
    intro machine later fit _ _ frames frame name value found
    unfold Store.local? at found
    rw [frames] at found
    exact fit frame name value found
  define name fit none _ := by
    intro frame other stored found
    rcases Store.local?_define_cases found with new | old
    · rw [new]
      exact none
    · exact fit frame other stored old
  enterBlock := by
    refine fun {machine} fit => ⟨fun frame name value found => ?_, trivial, fun _ fit' => fit'⟩
    unfold Machine.enterBlock at found
    rw [Store.local?_create] at found
    exact fit frame name value found
  enterCall _ callable := absurd rfl (callable _ _)
  older _ none := none
  outside _ none := none
  plain := by
    rintro machine value (plain | rfl)
    · exact plain.closures_eq_nil
    · rfl
  list _ := Value.closures_list.mpr
  element none := Value.closures_list.mp none _
  function _ _ none := none.elim
  stored fit _ found := fit _ _ _ found
  called := by
    intro machine value callable none found declaration closure same
    cases value with
    | function => cases none
    | native =>
        cases found
        cases same
    | _ => cases found
  body callable := absurd rfl (callable _ _)

/-- Where no function is stored, evaluating an expression ends alike on every sink. -/
theorem evaluate_printTo {machine : Machine} (functionless : machine.store.Functionless)
    (fuel : Nat) (expr : Expr) (sink : Sink) :
    evaluate fuel expr (machine.printTo sink) =
      (evaluate fuel expr machine).mapState (·.printTo sink) := by
  have admits : functionlessness.Admits ⟨fuel, .evaluate expr, machine, []⟩ :=
    ⟨functionless, trivial, trivial⟩
  have printless (place : Point) (reaches : Point.Reaches ⟨fuel, .evaluate expr, machine, []⟩ place)
      (other : Expr) : place.task ≠ .execute (.print other) := by
    intro same
    have code := (admits.reach reaches).1.code
    rw [same] at code
    exact code
  exact Point.mute printless sink

end LexicalScript
