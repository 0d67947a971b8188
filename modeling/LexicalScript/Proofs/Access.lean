import LexicalScript.Proofs.ScopedRuns
import LexicalScript.Proofs.Sessions

/-!
Depths lead to bound variables.

The invariant of a run is stated for its points: a task stands under scopes that the active frame
stands for, and a variable that is being initialized is on record.  Each point hands the invariant
to the points it enters, and every statement that is run after resolution starts with it, whatever
was run before on the same machine.
-/

set_option autoImplicit false

namespace LexicalScript

/-! ### Where undefined variables are noticed -/

/-- The fault for a name without a binding, looked for with the given depth. -/
def undefinedFault (name : String) (depth : Option Nat) (line : Nat) : Fault :=
  .runtime ⟨.undefinedVariable name depth, line⟩

/-- The point reads or assigns a variable of that depth. -/
def Point.Uses (point : Point) (depth : Option Nat) : Prop :=
  (∃ token, point.task = .evaluate (.reference token depth)) ∨
    ∃ token value, point.task = .assign token depth value

section Errors

variable {name : String} {depth : Option Nat} {line : Nat}

theorem applyUnary_defined {operator : Token} {operand : Value} :
    applyUnary operator operand ≠ .error ⟨.undefinedVariable name depth, line⟩ := by
  unfold applyUnary
  split
  · split <;> simp
  · simp
  · simp

theorem applyBinary_defined {operator : Token} {left right : Value} :
    applyBinary operator left right ≠ .error ⟨.undefinedVariable name depth, line⟩ := by
  unfold applyBinary
  split
  · unfold applyPlus
    split <;> simp
  · simp
  · simp
  · split
    · unfold applyArithmetic
      split
      case h_3 => split <;> simp
      all_goals simp
    · simp

theorem applyIndex_defined {bracket : Token} {object index : Value} :
    applyIndex bracket object index ≠ .error ⟨.undefinedVariable name depth, line⟩ := by
  unfold applyIndex
  split
  · split
    · split <;> simp
    · simp
  · simp

theorem ofExcept_defined {α : Type} {outcome : Except RuntimeError α} {machine : Machine}
    (defined : outcome ≠ .error ⟨.undefinedVariable name depth, line⟩) :
    (Exec.ofExcept outcome machine).error? ≠ some (undefinedFault name depth line) := by
  cases outcome with
  | ok result => exact fun failed => nomatch failed
  | error error =>
      intro failed
      cases failed
      exact defined rfl

theorem callNative_defined {native : Native} {arguments : List Value} {place : Nat}
    {machine : Machine} :
    (callNative native arguments place machine).error? ≠
      some (undefinedFault name depth line) := by
  intro failed
  obtain ⟨message, same, _⟩ := callNative_error? failed
  cases same

theorem write_defined {text : String} {machine : Machine} :
    (Exec.write text machine).error? ≠ some (undefinedFault name depth line) := by
  intro failed
  unfold Exec.write at failed
  split at failed
  · cases failed
  · cases failed

/-- Only reads and assignments find a variable undefined. -/
theorem Point.Raises.uses {place : Point} (raises : place.Raises (undefinedFault name depth line)) :
    place.Uses depth ∧ place.error? = some (undefinedFault name depth line) := by
  obtain ⟨α, held, machine, action, gives, step, failed⟩ := raises
  cases step with
  | quiet step =>
      cases step with
      | exhausted | pure | note | makeList | notCallable | miscounted => cases failed
      | unary => exact absurd failed (ofExcept_defined applyUnary_defined)
      | binary => exact absurd failed (ofExcept_defined applyBinary_defined)
      | index => exact absurd failed (ofExcept_defined applyIndex_defined)
      | write => exact absurd failed write_defined
      | native => exact absurd failed callNative_defined
      | read same =>
          subst same
          cases Exec.readVariable_error? failed
          exact ⟨Or.inl ⟨_, rfl⟩, failed⟩
  | assign same =>
      subst same
      cases Exec.assignVariable_error? failed
      exact ⟨Or.inr ⟨_, _, rfl⟩, failed⟩
  | define | declare => cases failed

end Errors

theorem Point.Sound.reach {point place : Point} (sound : point.Sound)
    (reaches : point.Reaches place) : place.Sound := by
  induction reaches with
  | refl => exact sound
  | tail _ enters ih => exact ih.enter enters

theorem Point.Sound.reads {fuel : Nat} {name : Token} {hops : Nat} {machine : Machine}
    {initializing : List (FrameId × String)}
    (sound : Point.Sound ⟨fuel, .evaluate (.reference name (some hops)), machine, initializing⟩) :
    ∃ owner, machine.store.ancestor? machine.active hops = some owner ∧
      machine.store.Binds owner name.lexeme := by
  obtain ⟨scopes, pending, placed, located, unawaited⟩ := sound.stands
  obtain ⟨owner, reached, bound | ⟨_, innermost, waits⟩⟩ :=
    placed.ready.chain.ancestor_of_locate_awaiting located.symm
  · exact ⟨owner, reached, bound⟩
  · exact absurd waits (unawaited (congrArg some innermost))

theorem Store.getAt_of_binds {store : Store} {frame owner : FrameId} {hops : Nat} {name : Token}
    (reached : store.ancestor? frame hops = some owner) (bound : store.Binds owner name.lexeme) :
    ∃ value, store.getAt frame hops name = .ok value := by
  obtain ⟨value, found⟩ := Option.isSome_iff_exists.mp bound
  refine ⟨value, ?_⟩
  unfold Store.getAt
  rw [reached, Option.bind_some, found]

/-- Nothing that is used with a depth is undefined. -/
theorem Point.Sound.defined {point : Point} {name : String} {hops line : Nat}
    (sound : point.Sound) (uses : point.Uses (some hops)) :
    point.error? ≠ some (undefinedFault name (some hops) line) := by
  obtain ⟨fuel, task, machine, initializing⟩ := point
  rcases uses with ⟨token, same⟩ | ⟨token, value, same⟩
  · change task = _ at same
    subst same
    obtain ⟨owner, reached, bound⟩ := sound.reads
    obtain ⟨value, read⟩ := Store.getAt_of_binds reached bound
    cases fuel with
    | zero => exact fun failed => nomatch failed
    | succ fuel =>
        change (Exec.ofExcept (machine.store.getAt machine.active hops token) machine).error? ≠ _
        rw [read]
        exact fun failed => nomatch failed
  · change task = _ at same
    subst same
    obtain ⟨owner, reached, _⟩ := sound.stands.assigns
    change (Exec.assignVariable token (some hops) value machine).error? ≠ _
    rw [Exec.assignVariable_some]
    unfold Store.assignAt
    rw [reached]
    exact fun failed => nomatch failed

/-! ### Runs of a session -/

/-- The point occurs while the text is run on the machine. -/
def Occurs (fuel : Nat) (source : String) (machine : Machine) (point : Point) : Prop :=
  ∃ statements begun start, begin? source machine = some (statements, begun) ∧
    Starts fuel begun statements start ∧ start.Reaches point

theorem Starts.sound {fuel : Nat} {machine : Machine} {statements : List Stmt} {point : Point}
    {scopes : Scopes} (starts : Starts fuel machine statements point)
    (ready : machine.Ready machine.globals scopes) (scope : Stmt.ScopedAll scopes statements) :
    point.Sound := by
  induction starts generalizing scopes with
  | first => exact ready.point scope.1 fuel
  | next ended _ ih => exact ih (ready.execute scope.1 ended) scope.2

theorem Session.occurring_sound {fuel : Nat} {source : String} {machine : Machine} {point : Point}
    (session : Session machine) (occurs : Occurs fuel source machine point) : point.Sound := by
  obtain ⟨statements, begun, start, begins, starts, reaches⟩ := occurs
  obtain ⟨scope, sameRest⟩ := begin?_scoped begins
  exact (starts.sound (session.ready.eqExceptJournal sameRest).own scope).reach reaches

/-- An undefined variable that ends a run is one that the run came to. -/
theorem occurs_of_undefined {fuel : Nat} {source : String} {machine later : Machine}
    {status : Status} {name : String} {depth : Option Nat} {line : Nat}
    (ran : runSource fuel source machine = some (status, later))
    (undefined : status.fault = some (undefinedFault name depth line)) :
    ∃ point, Occurs fuel source machine point ∧ point.Uses depth ∧
      point.error? = some (undefinedFault name depth line) := by
  cases runSource_ran ran with
  | unscanned | idle | refused => cases undefined
  | @executed tokens begun ended _ fault _ _ begins _ ends _ =>
      cases flushed : ended.sink.flush with
      | some error =>
          rw [flushed] at undefined
          cases undefined
      | none =>
          rw [flushed] at undefined
          subst undefined
          have failed : (executeEach fuel (machine.resolved tokens).statements begun).error? =
              some (undefinedFault name depth line) := by
            rw [show executeEach fuel _ begun = _ from ends]
            rfl
          obtain ⟨start, starts, found⟩ := starts_of_failure failed
          obtain ⟨place, reaches, raises⟩ := start.exists_raises found
          exact ⟨place, ⟨_, begun, start, begins, starts, reaches⟩, raises.uses⟩

/-- Whatever has been run before in a session, and wherever a run has come to: a variable that is
read with a depth is bound in the frame at that depth, and one that is assigned with a depth is
bound there or is being initialized there.  So only variables without a depth are ever undefined. -/
theorem depths_lead_to_bound_variables {machine : Machine} (session : Session machine)
    (fuel : Nat) (source : String) :
    (∀ point, Occurs fuel source machine point →
      (∀ name hops, point.task = .evaluate (.reference name (some hops)) →
        (∃ owner, point.machine.store.ancestor? point.machine.active hops = some owner ∧
          point.machine.store.Binds owner name.lexeme) ∧
        ∃ value, point.machine.store.getAt point.machine.active hops name = .ok value) ∧
      (∀ name hops value, point.task = .assign name (some hops) value →
        ∃ owner, point.machine.store.ancestor? point.machine.active hops = some owner ∧
          (point.machine.store.Binds owner name.lexeme ∨
            (owner, name.lexeme) ∈ point.initializing))) ∧
    (∀ status later, runSource fuel source machine = some (status, later) →
      ∀ name depth line, status.fault = some (undefinedFault name depth line) →
        depth = none ∧ ∃ point, Occurs fuel source machine point ∧ point.Uses none ∧
          point.error? = some (undefinedFault name none line)) := by
  refine ⟨fun point occurs => ?_, ?_⟩
  · have sound := session.occurring_sound occurs
    obtain ⟨depth, task, current, initializing⟩ := point
    refine ⟨?_, ?_⟩
    · rintro name hops rfl
      obtain ⟨owner, reached, bound⟩ := sound.reads
      exact ⟨⟨owner, reached, bound⟩, Store.getAt_of_binds reached bound⟩
    · rintro name hops value rfl
      exact sound.stands.assigns
  · intro status later ran name depth line undefined
    obtain ⟨point, occurs, uses, missing⟩ := occurs_of_undefined ran undefined
    cases depth with
    | none => exact ⟨rfl, point, occurs, uses, missing⟩
    | some hops => exact absurd missing ((session.occurring_sound occurs).defined uses)

/-- The program is a block that prints its own variable. -/
def printsOwn : List Stmt → Bool
  | [.block [.var _ none, .print (.reference _ (some 0))]] => true
  | _ => false

/-- The block reads its own variable: the point is there, and the variable is found. -/
theorem depths_lead_to_bound_variables_block :
    Session (Machine.new ⟨"", none, false⟩ (fun _ => .ok 0) .silent) ∧
    ∃ point name,
      Occurs 5 "{ var a; print a; }" (Machine.new ⟨"", none, false⟩ (fun _ => .ok 0) .silent)
        point ∧
      point.task = .evaluate (.reference name (some 0)) ∧
      ∃ value, point.machine.store.getAt point.machine.active 0 name = .ok value := by
  have session : Session (Machine.new ⟨"", none, false⟩ (fun _ => .ok 0) .silent) := .new _ _ _
  have checked : (begin? "{ var a; print a; }"
      (Machine.new ⟨"", none, false⟩ (fun _ => .ok 0) .silent)).any
        (fun start => printsOwn start.1) = true := by
    decide +kernel
  obtain ⟨⟨statements, begun⟩, begins, shape⟩ := (Option.any_eq_true _ _).mp checked
  unfold printsOwn at shape
  split at shape
  · rename_i declared name same
    cases same
    have occurs : Occurs 5 "{ var a; print a; }"
        (Machine.new ⟨"", none, false⟩ (fun _ => .ok 0) .silent) _ :=
      ⟨_, _, _, begins, .first, .head .block (.head (.otherStatements rfl)
        (.head .firstStatement (.single .print)))⟩
    refine ⟨session, _, name, occurs, rfl, ?_⟩
    exact (((depths_lead_to_bound_variables session 5 _).1 _ occurs).1 name 0 rfl).2
  · cases shape

end LexicalScript
