import LexicalScript.Proofs.Access
import LexicalScript.Proofs.Recovery

/-!
What an assignment does to the frames.

An assignment without a depth replaces a binding of the global frame or fails.  One with a depth
writes to the frame at that depth whether the name is bound there or not, so it creates a variable
exactly where that frame does not bind the name yet.  In accepted programs there is one such place:
the initializer of a local variable that assigns to the variable itself.
-/

set_option autoImplicit false

namespace LexicalScript

/-! ### The names of a frame that is written to -/

theorem Bindings.keys_insert (name : String) (value : Value) (bindings : Bindings) :
    (insert name value bindings).map Prod.fst =
      if (bindings.get? name).isSome then bindings.map Prod.fst
      else bindings.map Prod.fst ++ [name] := by
  induction bindings with
  | nil => rfl
  | cons entry rest ih =>
      obtain ⟨other, old⟩ := entry
      unfold insert
      split
      · rename_i same
        subst same
        simp [get?]
      · rename_i different
        have unequal : (name == other) = false := beq_false_of_ne (Ne.symm different)
        have found : Bindings.get? ((other, old) :: rest) name = Bindings.get? rest name := by
          simp [get?, List.lookup_cons, unequal]
        rw [List.map_cons, ih, found, List.map_cons]
        split
        · rfl
        · rfl

namespace Store

theorem names_define_of_ne (store : Store) {owner frame : FrameId} (different : frame ≠ owner)
    (name : String) (value : Value) :
    (store.define owner name value).names frame = store.names frame := by
  unfold names define
  rw [Array.getElem?_modify, if_neg (Ne.symm different)]

/-- Writing to a name that a frame binds leaves its names as they are, and any other name becomes
the last of them. -/
theorem names_define_self (store : Store) {owner : FrameId} (created : owner < store.frames.size)
    (name : String) (value : Value) :
    (store.define owner name value).names owner =
      if (store.local? owner name).isSome then store.names owner
      else store.names owner ++ [name] := by
  unfold names define local?
  rw [Array.getElem?_modify, if_pos rfl, Array.getElem?_eq_getElem created]
  exact Bindings.keys_insert name value _

end Store

/-- The later machine is the earlier one with a name of one frame bound to the value. -/
structure Machine.Writes (machine : Machine) (owner : FrameId) (name : String) (value : Value)
    (later : Machine) : Prop where
  others : later = { machine with store := later.store }
  frames : later.store.frames.size = machine.store.frames.size
  parents : ∀ frame, later.store.parent? frame = machine.store.parent? frame
  written : later.store.local? owner name = some value
  kept : ∀ frame other, frame ≠ owner ∨ other ≠ name →
    later.store.local? frame other = machine.store.local? frame other

theorem Machine.writes_define (machine : Machine) {owner : FrameId}
    (created : owner < machine.store.frames.size) (name : String) (value : Value) :
    machine.Writes owner name value
      { machine with store := machine.store.define owner name value } where
  others := rfl
  frames := Store.size_define _ _ _ _
  parents _ := Store.parent?_define _ _ _ _ _
  written := Store.local?_define_self _ created name value
  kept _ _ different := Store.local?_define_of_ne _ different value

/-! ### Assignments that create nothing -/

/-- The assignment replaces a binding and leaves the names of all frames as they are, or it fails
for want of a binding and leaves all frames as they are. -/
inductive Machine.Reassigns (machine : Machine) (name : Token) (depth : Option Nat)
    (value : Value) : Outcome Fault Machine Unit → Prop
  | replaced {owner : FrameId} {later : Machine} :
      Exec.target? machine name depth = some owner → machine.store.Binds owner name.lexeme →
      machine.Writes owner name.lexeme value later →
      (∀ frame, later.store.names frame = machine.store.names frame) →
      Reassigns machine name depth value (.value () later)
  | refused {later : Machine} :
      depth = none → ¬ machine.store.Binds machine.globals name.lexeme →
      machine.EqExceptJournal later →
      Reassigns machine name depth value
        (.failure (undefinedFault name.lexeme none name.line) later)

/-- The assignment binds a name that the active frame did not bind before. -/
inductive Machine.Creates (machine : Machine) (name : Token) (value : Value) :
    Outcome Fault Machine Unit → Prop
  | created {later : Machine} :
      machine.Writes machine.active name.lexeme value later →
      later.store.names machine.active = machine.store.names machine.active ++ [name.lexeme] →
      (∀ frame, frame ≠ machine.active →
        later.store.names frame = machine.store.names frame) →
      Creates machine name value (.value () later)

theorem Machine.Creates.not_reassigns {machine : Machine} {name : Token} {depth : Option Nat}
    {value : Value} {outcome : Outcome Fault Machine Unit}
    (creates : machine.Creates name value outcome) :
    ¬ machine.Reassigns name depth value outcome := by
  intro reassigns
  cases creates with
  | created _ longer _ =>
      cases reassigns with
      | replaced _ _ _ same =>
          rw [same] at longer
          exact absurd longer (by simp)

/-- An assignment replaces a binding in the frame that it leads to, if there is one. -/
theorem Machine.Reassigns.of_bound {machine : Machine} {name : Token} {depth : Option Nat}
    {owner : FrameId} (leads : Exec.target? machine name depth = some owner)
    (bound : machine.store.Binds owner name.lexeme) (value : Value) :
    machine.Reassigns name depth value (Exec.assignVariable name depth value machine) := by
  have created := Store.lt_size_of_binds bound
  have assigned : Exec.assignVariable name depth value machine =
      .value () { machine with store := machine.store.define owner name.lexeme value } := by
    unfold Exec.assignVariable
    rw [leads]
  rw [assigned]
  refine .replaced leads bound (machine.writes_define created name.lexeme value) ?_
  intro frame
  by_cases own : frame = owner
  · rw [own]
    exact (Store.names_define_self _ created _ _).trans (if_pos bound)
  · exact Store.names_define_of_ne _ own _ _

/-- The name is assigned in the initializer of the variable of that name that is to be bound in the
active frame, before anything has bound it there. -/
structure Point.Premature (point : Point) (name : Token) (depth : Option Nat) : Prop where
  innermost : depth = some 0
  initializing : (point.machine.active, name.lexeme) ∈ point.initializing
  unbound : ¬ point.machine.store.Binds point.machine.active name.lexeme

section Assigning

variable {fuel : Nat} {machine : Machine} {initializing : List (FrameId × String)} {name : Token}
  {value : Value}

theorem Point.Sound.reassigns_global
    (sound : Point.Sound ⟨fuel, .assign name none value, machine, initializing⟩) :
    machine.Reassigns name none value (Exec.assignVariable name none value machine) := by
  obtain ⟨scopes, pending, placed, _⟩ := sound.stands
  have owner := Store.owner?_of_root placed.ready.sound.top name.lexeme
  cases found : machine.store.local? machine.globals name.lexeme with
  | some old =>
      rw [found] at owner
      have leads : Exec.target? machine name none = some machine.globals := owner
      exact .of_bound leads (Store.binds_of_local? found) value
  | none =>
      rw [found] at owner
      have failed : Exec.assignVariable name none value machine =
          Exec.raise (Store.undefinedVariable name none) machine := by
        unfold Exec.assignVariable Exec.target?
        rw [owner]
        rfl
      rw [failed]
      refine .refused rfl ?_ rfl
      unfold Store.Binds
      rw [found]
      exact Bool.false_ne_true

theorem Point.Sound.reassigns_local {hops : Nat}
    (sound : Point.Sound ⟨fuel, .assign name (some hops) value, machine, initializing⟩)
    (mature : ¬ Point.Premature ⟨fuel, .assign name (some hops) value, machine, initializing⟩ name
      (some hops)) :
    machine.Reassigns name (some hops) value
      (Exec.assignVariable name (some hops) value machine) := by
  obtain ⟨scopes, pending, placed, located⟩ := sound.stands
  obtain ⟨owner, reached, bound | ⟨own, innermost, waits⟩⟩ :=
    placed.ready.chain.ancestor_of_locate_awaiting located.symm
  · have leads : Exec.target? machine name (some hops) = some owner := reached
    exact .of_bound leads bound value
  · subst own innermost
    have leads : Exec.target? machine name (some 0) = some machine.active := reached
    have bound : machine.store.Binds machine.active name.lexeme := by
      apply Classical.byContradiction
      intro unbound
      exact mature ⟨rfl, placed.awaited _ waits, unbound⟩
    exact .of_bound leads bound value

theorem Point.Sound.creates
    (sound : Point.Sound ⟨fuel, .assign name (some 0) value, machine, initializing⟩)
    (unbound : ¬ machine.store.Binds machine.active name.lexeme) :
    machine.Creates name value (Exec.assignVariable name (some 0) value machine) := by
  obtain ⟨scopes, pending, placed, _⟩ := sound.stands
  have created := placed.ready.sound.present
  refine .created (machine.writes_define created name.lexeme value) ?_ ?_
  · exact (Store.names_define_self _ created _ _).trans (if_neg unbound)
  · exact fun frame other => Store.names_define_of_ne _ other _ _

end Assigning

/-- Whatever has been run before in a session, and wherever the run of an accepted program has come
to: an assignment replaces an existing binding, or fails for want of one, and binds no new name,
with one exception.  A local variable that is assigned in its own initializer before it is bound is
created by the assignment. -/
theorem only_premature_assignments_create {machine begun : Machine} (session : Session machine)
    (sameRest : machine.EqExceptJournal begun) {known : List String} {tokens : List Token}
    (accepted : ((Resolver.ofGlobals known).resolve (Parser.program tokens).statements).error =
      none)
    {fuel : Nat} {start point : Point}
    (starts : Starts fuel begun
      ((Resolver.ofGlobals known).resolve (Parser.program tokens).statements).statements start)
    (reaches : start.Reaches point) {name : Token} {depth : Option Nat} {value : Value}
    (assigns : point.task = .assign name depth value) :
    let outcome := Exec.assignVariable name depth value point.machine
    (point.machine.Reassigns name depth value outcome ↔ ¬ point.Premature name depth) ∧
    (point.Premature name depth → point.machine.Creates name value outcome) := by
  intro outcome
  have placed := (Resolver.resolve_accepted known _ (Parser.program_shaped tokens).proper
    accepted).1
  have sound : point.Sound :=
    (starts.sound (session.ready.eqExceptJournal sameRest).own placed).reach reaches
  obtain ⟨amount, task, current, initializing⟩ := point
  change task = _ at assigns
  subst assigns
  have creates : Point.Premature ⟨amount, .assign name depth value, current, initializing⟩ name
      depth → current.Creates name value outcome := by
    rintro ⟨rfl, _, unbound⟩
    exact sound.creates unbound
  refine ⟨⟨fun reassigns premature => (creates premature).not_reassigns reassigns, ?_⟩, creates⟩
  intro mature
  cases depth with
  | none => exact sound.reassigns_global
  | some hops => exact sound.reassigns_local mature

/-- The program is a block that assigns its variable twice in the initializer. -/
def assignsTwice : List Stmt → Bool
  | [.block [.var declared (some (.assign outer (.assign inner (.literal (.bool true)) (some 0))
      (some 0)))]] => declared.lexeme == "a" && outer.lexeme == "a" && inner.lexeme == "a"
  | _ => false

/-- The variable is assigned twice in its own initializer.  The first assignment creates it, and the
second one replaces what the first one wrote. -/
theorem only_premature_assignments_create_twice :
    let machine := Machine.new ⟨"", none, false⟩ (fun _ => .ok 0) .silent
    let tokens := Parser.wordsOf "\x7b var a = a = a = true; \x7d" ++ [Token.endOfInput 1]
    let answer := (Resolver.ofGlobals []).resolve (Parser.program tokens).statements
    Session machine ∧ answer.error = none ∧
    ∃ start inner outer first second, Starts 9 machine answer.statements start ∧
      start.Reaches first ∧ first.task = .assign inner (some 0) (.bool true) ∧
      start.Reaches second ∧ second.task = .assign outer (some 0) (.bool true) ∧
      first.Premature inner (some 0) ∧
      first.machine.Creates inner (.bool true)
        (Exec.assignVariable inner (some 0) (.bool true) first.machine) ∧
      second.machine.Reassigns outer (some 0) (.bool true)
        (Exec.assignVariable outer (some 0) (.bool true) second.machine) := by
  intro machine tokens answer
  have session : Session machine := .new _ _ _
  have sameRest : machine.EqExceptJournal machine := rfl
  have accepted : answer.error = none := by decide +kernel
  have checked : assignsTwice answer.statements = true := by decide +kernel
  unfold assignsTwice at checked
  split at checked
  · rename_i declared outer inner parsed
    simp only [Bool.and_eq_true, beq_iff_eq] at checked
    obtain ⟨⟨isDeclared, isOuter⟩, isInner⟩ := checked
    let entered := machine.enterBlock
    let start : Point := ⟨9, .execute (.block [.var declared (some (.assign outer
      (.assign inner (.literal (.bool true)) (some 0)) (some 0)))]), machine, []⟩
    let first : Point := ⟨4, .assign inner (some 0) (.bool true), entered,
      [(entered.active, declared.lexeme)]⟩
    let second : Point := ⟨5, .assign outer (some 0) (.bool true),
      { entered with store := entered.store.define entered.active inner.lexeme (.bool true) },
      [(entered.active, declared.lexeme)]⟩
    have starts : Starts 9 machine answer.statements start := by
      rw [parsed]
      exact .first
    have literal : evaluate 4 (.literal (.bool true)) entered = .value (.bool true) entered := rfl
    have reachesFirst : start.Reaches first :=
      .head .block (.head .firstStatement (.head .initializer (.head .assigned (.single
        (.assign literal)))))
    have reachesSecond : start.Reaches second :=
      .head .block (.head .firstStatement (.head .initializer (.single (.assign rfl))))
    have premature : first.Premature inner (some 0) := by
      refine ⟨rfl, by simp [first, isDeclared, isInner], ?_⟩
      rw [isInner]
      exact Bool.false_ne_true
    have creates :=
      (only_premature_assignments_create session sameRest accepted starts reachesFirst rfl).2
    have reassigns :=
      (only_premature_assignments_create session sameRest accepted starts reachesSecond rfl).1.mpr
    refine ⟨session, accepted, start, inner, outer, first, second, starts, reachesFirst, rfl,
      reachesSecond, rfl, premature, creates premature, reassigns ?_⟩
    rintro ⟨_, _, unbound⟩
    apply unbound
    change (entered.store.define entered.active inner.lexeme (.bool true)).Binds _ _
    rw [isInner, isOuter]
    rfl
  · cases checked

/-- A block with a variable that is assigned in its own initializer and then printed. -/
def selfAssigning : String := "\x7b var a = a = true; print a; \x7d"

/-- The program is a block with such a variable, and the frame of the block does not bind it yet. -/
def assignsUnbound : List Stmt × Machine → Bool
  | ([.block [.var _ (some (.assign name (.literal (.bool true)) (some 0))), _]], begun) =>
      (begun.enterBlock.store.local? begun.enterBlock.active name.lexeme).isNone
  | _ => false

/-- The assignment creates the variable and nothing fails.  At the top level the same text fails,
because the global frame does not bind the name. -/
theorem initializer_assignment_creates :
    let machine := Machine.new ⟨"", none, false⟩ (fun _ => .ok 0) .silent
    (∃ point name, Occurs 9 selfAssigning machine point ∧
      point.task = .assign name (some 0) (.bool true) ∧
      ¬ point.machine.Reassigns name (some 0) (.bool true)
        (Exec.assignVariable name (some 0) (.bool true) point.machine)) ∧
    (runSource 9 selfAssigning machine).map (fun (status, later) =>
      (status.isOk, later.sink.accepted)) = some (true, "true\n") ∧
    (runSource 9 "var a = a = true; print a;" machine).map (fun (status, later) =>
      (status.fault, later.sink.accepted)) = some (some (undefinedFault "a" none 1), "") := by
  intro machine
  refine ⟨?_, by decide +kernel, by decide +kernel⟩
  have session : Session machine := .new _ _ _
  have checked : (begin? selfAssigning machine).any assignsUnbound = true := by decide +kernel
  obtain ⟨start, begins, absent⟩ := (Option.any_eq_true _ _).mp checked
  unfold assignsUnbound at absent
  split at absent
  · rename_i declared name rest begun
    have occurs : Occurs 9 selfAssigning machine
        ⟨5, .assign name (some 0) (.bool true), begun.enterBlock,
          [(begun.enterBlock.active, declared.lexeme)]⟩ :=
      ⟨_, begun, _, begins, .first, .head .block (.head .firstStatement (.head .initializer
        (.single (.assign rfl))))⟩
    refine ⟨_, name, occurs, rfl, ?_⟩
    have unbound : ¬ begun.enterBlock.store.Binds begun.enterBlock.active name.lexeme := by
      unfold Store.Binds
      rw [Option.isNone_iff_eq_none.mp absent]
      exact Bool.false_ne_true
    exact ((session.occurring_sound occurs).creates unbound).not_reassigns
  · cases absent

end LexicalScript
