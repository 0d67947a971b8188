import LexicalScript.Proofs.FrameHistory

/-!
Globals that are read in their own initializers.

The resolver lets a top-level variable be read in its own initializer only if it knows the name
already: from the global frame before the run, or from a declaration further up.  When the
declaration comes to be executed, everything further up has ended normally, so the name is bound in
the global frame, and it stays bound while the initializer is evaluated.
-/

set_option autoImplicit false

namespace LexicalScript

/-! ### Reads of an expression -/

mutual

/-- The occurrences of names that the expression itself reads, each with its depth. -/
def Expr.references : Expr → List (Token × Option Nat)
  | .literal _ => []
  | .unary _ operand => operand.references
  | .binary left _ right => left.references ++ right.references
  | .logical left _ right => left.references ++ right.references
  | .grouping inner => inner.references
  | .reference name depth => [(name, depth)]
  | .assign _ value _ => value.references
  | .call callee _ arguments => callee.references ++ Expr.referencesAll arguments
  | .list _ elements => Expr.referencesAll elements
  | .index object _ position => object.references ++ position.references

def Expr.referencesAll : List Expr → List (Token × Option Nat)
  | [] => []
  | expr :: rest => expr.references ++ Expr.referencesAll rest

end

/-- The expression itself reads the name. -/
def Expr.Reads (expr : Expr) (name : String) : Prop :=
  ∃ read, read ∈ expr.references ∧ read.1.lexeme = name

mutual

/-- At the top level no occurrence has a depth. -/
theorem Expr.depth_eq_none {pending : Option String} : (expr : Expr) → expr.Scoped [] pending →
    ∀ read ∈ expr.references, read.2 = none
  | .literal _, _ => List.forall_mem_nil _
  | .unary _ operand, placed => operand.depth_eq_none placed
  | .binary left _ right, placed =>
      List.forall_mem_append.mpr ⟨left.depth_eq_none placed.1, right.depth_eq_none placed.2⟩
  | .logical left _ right, placed =>
      List.forall_mem_append.mpr ⟨left.depth_eq_none placed.1, right.depth_eq_none placed.2⟩
  | .grouping inner, placed => inner.depth_eq_none placed
  | .reference _ _, placed => List.forall_mem_singleton.mpr placed.1
  | .assign _ value _, placed => value.depth_eq_none placed.1
  | .call callee _ arguments, placed =>
      List.forall_mem_append.mpr
        ⟨callee.depth_eq_none placed.1, Expr.all_depth_eq_none arguments placed.2⟩
  | .list _ elements, placed => Expr.all_depth_eq_none elements placed
  | .index object _ position, placed =>
      List.forall_mem_append.mpr ⟨object.depth_eq_none placed.1, position.depth_eq_none placed.2⟩

theorem Expr.all_depth_eq_none {pending : Option String} : (exprs : List Expr) →
    Expr.ScopedAll [] pending exprs → ∀ read ∈ Expr.referencesAll exprs, read.2 = none
  | [], _ => List.forall_mem_nil _
  | expr :: rest, placed =>
      List.forall_mem_append.mpr
        ⟨expr.depth_eq_none placed.1, Expr.all_depth_eq_none rest placed.2⟩

end

/-! ### What the resolver lets through -/

/-- The walk is at the top level, in the initializer of a global that is not known yet. -/
structure Walk.Initializes (walk : Walk) (name : String) : Prop where
  top : walk.resolver.scopes = []
  pending : walk.resolver.initializing = some name

/-- A walk that is not stopped has not passed a read of the global it initializes. -/
theorem Walking.read_other (name : Token) (old : Option Nat) {walk : Walk} {pending : String}
    (initializes : walk.Initializes pending)
    (running : (Walking.read name old walk).2.stopped = none) : name.lexeme ≠ pending := by
  intro same
  subst same
  have before := (Walking.read_still name old).unstopped walk running
  have depth : (Walking.locate name old walk).1 = none := by
    rw [Walking.locate_running name old walk before, Resolver.names, initializes.top]
    rfl
  unfold Walking.read at running
  rw [Walking.bind_apply, Walking.get_apply] at running
  dsimp only at running
  rw [initializes.top] at running
  change ((Walking.locate name old >>= fun depth => do
    if depth.isNone && walk.resolver.initializing == some name.lexeme then
      Walking.stop (.globalInOwnInitializer name.lexeme) name.line
    return depth : Walking (Option Nat)) walk).2.stopped = none at running
  rw [Walking.bind_apply, depth, initializes.pending, beq_self_eq_true] at running
  exact Walking.stop_stopped _ _ _ running

theorem Walk.Initializes.still {α : Type} {walk : Walk} {pending : String}
    (initializes : walk.Initializes pending) {action : Walking α} (still : action.Still) :
    (action walk).2.Initializes pending where
  top := by
    rw [still.resolver]
    exact initializes.top
  pending := by
    rw [still.resolver]
    exact initializes.pending

mutual

/-- No occurrence in the initializer of an unknown global is one of that global, unless the walk is
stopped. -/
theorem Expr.resolve_other {pending : String} : (expr : Expr) → ∀ {walk : Walk},
    walk.Initializes pending → (expr.resolve walk).2.stopped = none →
    ∀ read ∈ (expr.resolve walk).1.references, read.1.lexeme ≠ pending
  | .literal _, _, _, _ => List.forall_mem_nil _
  | .unary _ operand, _, initializes, running => operand.resolve_other initializes running
  | .binary left _ right, _, initializes, running =>
      have leftRunning := (left.resolve_still.split right.resolve_still running).1
      List.forall_mem_append.mpr ⟨left.resolve_other initializes leftRunning,
        right.resolve_other (initializes.still left.resolve_still) running⟩
  | .logical left _ right, _, initializes, running =>
      have leftRunning := (left.resolve_still.split right.resolve_still running).1
      List.forall_mem_append.mpr ⟨left.resolve_other initializes leftRunning,
        right.resolve_other (initializes.still left.resolve_still) running⟩
  | .grouping inner, _, initializes, running => inner.resolve_other initializes running
  | .reference name depth, _, initializes, running =>
      List.forall_mem_singleton.mpr (Walking.read_other name depth initializes running)
  | .assign name value depth, _, initializes, running =>
      have valueRunning :=
        (value.resolve_still.split (Walking.locate_still name depth) running).1
      value.resolve_other initializes valueRunning
  | .call callee _ arguments, _, initializes, running =>
      have calleeRunning :=
        (callee.resolve_still.split (Expr.resolveAll_still arguments) running).1
      List.forall_mem_append.mpr ⟨callee.resolve_other initializes calleeRunning,
        Expr.resolveAll_other arguments (initializes.still callee.resolve_still) running⟩
  | .list _ elements, _, initializes, running =>
      Expr.resolveAll_other elements initializes running
  | .index object _ position, _, initializes, running =>
      have objectRunning := (object.resolve_still.split position.resolve_still running).1
      List.forall_mem_append.mpr ⟨object.resolve_other initializes objectRunning,
        position.resolve_other (initializes.still object.resolve_still) running⟩

theorem Expr.resolveAll_other {pending : String} : (exprs : List Expr) → ∀ {walk : Walk},
    walk.Initializes pending → (Expr.resolveAll exprs walk).2.stopped = none →
    ∀ read ∈ Expr.referencesAll (Expr.resolveAll exprs walk).1, read.1.lexeme ≠ pending
  | [], _, _, _ => List.forall_mem_nil _
  | expr :: rest, _, initializes, running =>
      have exprRunning := (expr.resolve_still.split (Expr.resolveAll_still rest) running).1
      List.forall_mem_append.mpr ⟨expr.resolve_other initializes exprRunning,
        Expr.resolveAll_other rest (initializes.still expr.resolve_still) running⟩

end

/-- Whichever statement declares a variable and reads it in the initializer, the name is known
before it, from the start or from a statement above. -/
def Stmt.Grounded (known : List String) : List Stmt → Prop
  | [] => True
  | stmt :: rest =>
      (∀ name initializer, stmt = .var name (some initializer) →
        initializer.Reads name.lexeme → name.lexeme ∈ known) ∧
        Stmt.Grounded (Scopes.learn [] stmt.declared? known) rest

/-- The initializer of a global that is not known is walked with the global marked. -/
theorem Stmt.resolve_var_grounded {name : Token} {expr : Expr} {walk : Walk}
    (top : walk.resolver.scopes = [])
    (running : ((Stmt.var name (some expr)).resolve walk).2.stopped = none) :
    ∃ initializer, ((Stmt.var name (some expr)).resolve walk).1 = .var name (some initializer) ∧
      (initializer.Reads name.lexeme → name.lexeme ∈ walk.resolver.known) := by
  obtain ⟨ended, declared⟩ := Walk.left_running running
  obtain ⟨_, _, placed⟩ := Walking.declare_running name walk declared
  refine ⟨(expr.resolve (walk.entered name)).1, rfl, ?_⟩
  rintro ⟨read, member, same⟩
  apply Classical.byContradiction
  intro unknown
  have initializes : (walk.entered name).Initializes name.lexeme := by
    have marked : (walk.entered name).resolver =
        { (Walking.declare name walk).2.resolver with initializing := some name.lexeme } := by
      change (if _ then _ else _ : Resolver) = _
      rw [placed, top]
      rw [if_pos]
      simpa using unknown
    constructor
    · rw [marked, placed, top]
    · rw [marked]
  exact expr.resolve_other initializes ended read member same

theorem Stmt.resolve_grounded {stmt : Stmt} {walk : Walk} (top : walk.resolver.scopes = [])
    (running : (stmt.resolve walk).2.stopped = none)
    (cleared : walk.Clears stmt (stmt.resolve walk).1 (stmt.resolve walk).2) {name : Token}
    {initializer : Expr} (declares : (stmt.resolve walk).1 = .var name (some initializer))
    (reads : initializer.Reads name.lexeme) : name.lexeme ∈ walk.resolver.known := by
  have declared : stmt.declared? = some name := by
    rw [← cleared.declared, declares]
    rfl
  cases stmt with
  | var token found =>
      cases found with
      | none => cases declares
      | some expr =>
          obtain ⟨other, resolved, known⟩ := Stmt.resolve_var_grounded top running
          rw [resolved] at declares
          cases declares
          exact known reads
  | function token parameters body => cases declares
  | _ => cases declared

theorem Stmt.resolveAll_grounded (statements : List Stmt) (proper : Stmt.ProperAll statements)
    {walk : Walk} (top : walk.resolver.scopes = [])
    (running : (Stmt.resolveAll statements walk).2.stopped = none) :
    Stmt.Grounded walk.resolver.known (Stmt.resolveAll statements walk).1 := by
  induction statements generalizing walk with
  | nil => trivial
  | cons stmt rest ih =>
      have others := Stmt.resolveAll_running rest proper.2 (stmt.resolve walk).2 running
      have first := stmt.resolve_running proper.1 walk others.unstopped
      have flat : walk.resolver.names = [] := by
        rw [Resolver.names, top]
        rfl
      have names := first.passes.names
      have known := first.passes.known
      rw [flat] at names known
      have top' : (stmt.resolve walk).2.resolver.scopes = [] := by
        apply List.map_eq_nil_iff.mp (names.trans _)
        cases stmt.declared? <;> rfl
      constructor
      · intro name initializer
        exact Stmt.resolve_grounded top others.unstopped first
      · have grounded := ih proper.2 top' running
        rw [known, ← first.declared] at grounded
        exact grounded

/-! ### When the declaration is executed -/

theorem Starts.grounded {fuel : Nat} {machine : Machine} {statements : List Stmt} {point : Point}
    {known : List String} (starts : Starts fuel machine statements point)
    (ready : machine.Ready machine.globals []) (placed : Stmt.ScopedAll [] statements)
    (grounded : Stmt.Grounded known statements)
    (bound : ∀ name, name ∈ known → machine.store.Binds machine.globals name) {name : Token}
    {initializer : Expr} (declares : point.task = .execute (.var name (some initializer)))
    (reads : initializer.Reads name.lexeme) :
    initializer.Scoped [] (some name.lexeme) ∧
      point.machine.store.Binds point.machine.globals name.lexeme := by
  induction starts generalizing known with
  | first =>
      cases declares
      exact ⟨placed.1.2, bound _ (grounded.1 name initializer rfl reads)⟩
  | @next machine later stmt rest flow point ended _ ih =>
      have evolves := (Outcome.Meets.of_value (ready.point placed.1 fuel).keeps ended).1
      have ready' := ready.execute placed.1 ended
      have flat : stmt.extend [] = [] := Stmt.extend_eq_nil_iff.mpr rfl
      have rest' := placed.2
      rw [flat] at ready' rest'
      apply ih ready' rest' grounded.2 _ declares
      intro other learnt
      have member : other ∈ known ∨ other ∈ Stmt.declaredNames [stmt] :=
        mem_foldl_learn.mp learnt
      rw [evolves.globals]
      rcases member with before | declared
      · exact evolves.grown.binds _ _ (bound other before)
      · obtain ⟨token, declares', same⟩ := Stmt.mem_declaredNames_singleton.mp declared
        rw [← same, ← ready.atTop]
        exact evolves.binds ready.sound.present ended declares'

theorem begin?_grounded {source : String} {machine begun : Machine} {statements : List Stmt}
    (begins : begin? source machine = some (statements, begun)) :
    Stmt.Grounded machine.globalNames statements := by
  obtain ⟨tokens, rfl, accepted, _⟩ := begin?_resolved begins
  exact Stmt.resolveAll_grounded _ (Parser.program_shaped tokens).proper rfl accepted

theorem Session.wellFormed {machine : Machine} (session : Session machine) :
    machine.WellFormed := by
  induction session with
  | new sink readings journal => exact Machine.new_wellFormed sink readings journal
  | supply name native _ ih => exact (Machine.Leads.supplied name native).matures ih |>.formed
  | run _ ran ih => exact (runSource_matures ih ran).formed

/-! ### While the initializer is evaluated -/

/-- The second point is a part of the first one, and not a call that the first one makes. -/
def Point.EntersOwn (point part : Point) : Prop :=
  point.Enters part ∧ ∀ callee arguments paren, part.task ≠ .call callee arguments paren

abbrev Point.ReachesOwn : Point → Point → Prop := Relation.ReflTransGen Point.EntersOwn

/-- The task evaluates parts of the expression. -/
def Task.Inside (expr : Expr) : Task → Prop
  | .evaluate part => part.references ⊆ expr.references
  | .evaluateAll parts => Expr.referencesAll parts ⊆ expr.references
  | .assign _ _ _ => True
  | _ => False

theorem Point.EntersOwn.inside {point part : Point} {expr : Expr} (enters : point.EntersOwn part)
    (inside : point.task.Inside expr) : part.task.Inside expr := by
  obtain ⟨enters, own⟩ := enters
  cases enters with
  | grouping | unary | assigned | elements => exact inside
  | binaryLeft | logicalLeft | callee | object | firstValue =>
      exact (List.append_subset.mp inside).1
  | binaryRight | logicalRight | arguments | position | otherValues =>
      exact (List.append_subset.mp inside).2
  | assign => trivial
  | call => exact absurd rfl (own _ _ _)
  | _ => exact inside.elim

theorem Point.ReachesOwn.inside {point place : Point} {expr : Expr}
    (reaches : point.ReachesOwn place) (inside : point.task.Inside expr) :
    place.task.Inside expr := by
  induction reaches with
  | refl => exact inside
  | tail _ enters ih => exact enters.inside ih

theorem Point.ReachesOwn.reaches {point place : Point} (own : point.ReachesOwn place) :
    point.Reaches place := by
  apply Relation.ReflTransGen.mono _ _ _ own
  intro _ _ enters
  exact enters.1

/-- While the text is run on the machine, a top-level declaration of the name is executed, and the
evaluation of its initializer comes to the point without leaving the initializer's own text. -/
def Initializes (fuel : Nat) (source : String) (machine : Machine) (name : Token)
    (place : Point) : Prop :=
  ∃ statements begun start initializer first, begin? source machine = some (statements, begun) ∧
    Starts fuel begun statements start ∧ start.task = .execute (.var name (some initializer)) ∧
    start.Enters first ∧ first.ReachesOwn place

theorem Point.Enters.of_var {point part : Point} {name : Token} {initializer : Expr}
    (enters : point.Enters part) (declares : point.task = .execute (.var name (some initializer))) :
    part.task = .evaluate initializer := by
  cases enters <;> cases declares
  rfl

theorem Initializes.bound {fuel : Nat} {source : String} {machine : Machine} {name read : Token}
    {depth : Option Nat} {place : Point} (session : Session machine)
    (initializes : Initializes fuel source machine name place)
    (reads : place.task = .evaluate (.reference read depth)) (same : read.lexeme = name.lexeme) :
    depth = none ∧ machine.Matures place.machine ∧
      place.machine.store.Binds machine.globals name.lexeme := by
  obtain ⟨statements, begun, start, initializer, first, begins, starts, declares, enters, own⟩ :=
    initializes
  obtain ⟨placed, sameRest⟩ := begin?_scoped begins
  have begunMatures := Machine.Matures.eqExceptJournal session.wellFormed sameRest
  have startMatures := starts.matures begunMatures.formed
  have placeMatures := startMatures.1.reach (.head enters own.reaches)
  have firstTask := enters.of_var declares
  have inside : place.task.Inside initializer := by
    apply own.inside
    rw [firstTask]
    exact List.Subset.refl _
  rw [reads] at inside
  have member : (read, depth) ∈ initializer.references := inside (List.mem_singleton.mpr rfl)
  have known : ∀ other, other ∈ machine.globalNames → begun.store.Binds begun.globals other := by
    intro other member
    rw [begunMatures.globals]
    exact begunMatures.grown.binds _ _ (Store.mem_names_iff.mp member)
  obtain ⟨scope, bound⟩ := starts.grounded (session.ready.eqExceptJournal sameRest).own placed
    (begin?_grounded begins) known declares ⟨_, member, same⟩
  rw [startMatures.2.globals, begunMatures.globals] at bound
  exact ⟨initializer.depth_eq_none scope _ member,
    (begunMatures.trans startMatures.2).trans placeMatures.2,
    placeMatures.2.grown.binds _ _ bound⟩

/-- Whatever has been run before in a session: while a top-level declaration that the resolver let
through is executed, each read of the declared name in the initializer itself finds it bound in the
global frame and gives the value there. -/
theorem redeclared_global_is_bound {machine : Machine} (session : Session machine) {fuel : Nat}
    {source : String} {name : Token} {place : Point}
    (initializes : Initializes fuel source machine name place) {read : Token} {depth : Option Nat}
    (reads : place.task = .evaluate (.reference read depth)) (same : read.lexeme = name.lexeme) :
    place.machine.globals = machine.globals ∧
      place.machine.store.Binds machine.globals name.lexeme ∧
      (∃ value, place.machine.store.local? machine.globals name.lexeme = some value ∧
        ∀ more, evaluate (more + 1) (.reference read depth) place.machine =
          .value value place.machine) ∧
      place.error? = none := by
  obtain ⟨rfl, matures, bound⟩ := initializes.bound session reads same
  obtain ⟨value, found⟩ := Option.isSome_iff_exists.mp bound
  have evaluated : ∀ more, evaluate (more + 1) (.reference read none) place.machine =
      .value value place.machine := by
    intro more
    change Exec.ofExcept (place.machine.store.get place.machine.globals read) place.machine = _
    rw [Store.get_of_root matures.formed.root, matures.globals, same, found]
    rfl
  refine ⟨matures.globals, bound, ⟨value, found, evaluated⟩, ?_⟩
  obtain ⟨amount, task, current, initializing⟩ := place
  change task = _ at reads
  subst reads
  cases amount with
  | zero => rfl
  | succ more =>
      change (evaluate (more + 1) (.reference read none) current).error? = none
      rw [evaluated]
      rfl

/-- A text that declares a variable and then fails. -/
def failing : String := "var x = 1; nil();"

/-- A text that reads the variable in its redeclaration, after a call. -/
def redeclaring : String := "var x = clock() + x;"

/-- The program reads the variable it declares, behind an operand that has a value. -/
def readsDeclared : List Stmt × Machine → Bool
  | ([.var name (some (.binary left _ (.reference read none)))], begun) =>
      (evaluate 8 left begun).value?.isSome && name.lexeme == "x" && read.lexeme == "x"
  | _ => false

/-- The first run fails after the declaration, and the read in the second run finds the variable. -/
theorem redeclared_global_is_bound_failed :
    ∃ machine status name place read, Session machine ∧ status.fault.isSome ∧
      runSource 9 failing (Machine.new ⟨"", none, false⟩ (fun _ => .ok 0) .silent) =
        some (status, machine) ∧
      Initializes 10 redeclaring machine name place ∧
      place.task = .evaluate (.reference read none) ∧ read.lexeme = "x" ∧ name.lexeme = "x" ∧
      place.machine.store.Binds machine.globals "x" := by
  have checked : (runSource 9 failing (Machine.new ⟨"", none, false⟩ (fun _ => .ok 0) .silent)).any
      (fun ran => ran.1.fault.isSome && (begin? redeclaring ran.2).any readsDeclared) = true := by
    decide +kernel
  obtain ⟨⟨status, machine⟩, ran, holds⟩ := (Option.any_eq_true _ _).mp checked
  obtain ⟨failed, reads⟩ := Bool.and_eq_true_iff.mp holds
  obtain ⟨start, begins, shape⟩ := (Option.any_eq_true _ _).mp reads
  have session : Session machine := .run (.new _ _ _) ran
  unfold readsDeclared at shape
  split at shape
  · rename_i name left operator read begun
    simp only [Bool.and_eq_true, beq_iff_eq] at shape
    obtain ⟨⟨ends, declared⟩, same⟩ := shape
    obtain ⟨⟨value, later⟩, ended⟩ := Option.isSome_iff_exists.mp ends
    have initializes : Initializes 10 redeclaring machine name
        ⟨8, .evaluate (.reference read none), later, [(begun.active, name.lexeme)]⟩ := by
      refine ⟨_, begun, _, _, _, begins, .first, rfl, .initializer, .single ⟨?_, ?_⟩⟩
      · exact .binaryRight (Outcome.of_value? ended)
      · exact fun _ _ _ => Task.noConfusion
    have bound := (redeclared_global_is_bound session initializes rfl
      (same.trans declared.symm)).2.1
    rw [declared] at bound
    exact ⟨machine, status, name, _, read, session, failed, ran, initializes, rfl, same,
      declared, bound⟩
  · cases shape

end LexicalScript
