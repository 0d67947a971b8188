import LexicalScript.Proofs.RuleSteps

/-!
What holds of every rule of a run.

The rules are put together from steps that bind a name, make a frame or an object, or leave the
frames as they are.  So whatever these steps keep is kept by every rule, for every tree and however
the run ends.
-/

set_option autoImplicit false

namespace LexicalScript

/-! ### Parts of trees -/

/-- The expressions that an expression is made of. -/
def Expr.parts : Expr → List Expr
  | .literal _ | .reference _ _ => []
  | .unary _ inner | .grouping inner | .assign _ inner _ => [inner]
  | .binary left _ right | .logical left _ right | .index left _ right => [left, right]
  | .call callee _ arguments => callee :: arguments
  | .list _ elements => elements

/-- The expressions that a statement is made of. -/
def Stmt.exprs : Stmt → List Expr
  | .expression expr | .print expr | .conditional expr _ _ | .loop expr _ => [expr]
  | .var _ expr | .returnValue _ expr => expr.toList
  | .block _ | .function _ _ _ => []

/-- The statements that a statement is made of. -/
def Stmt.parts : Stmt → List Stmt
  | .block body | .function _ _ body => body
  | .conditional _ thenBranch elseBranch => thenBranch :: elseBranch.toList
  | .loop _ body => [body]
  | _ => []

/-! ### Laws -/

/-- What a run is to keep: a property of machines, a relation from each machine to those that its
steps end with and one to those that they pass, and properties of values and of trees, with what the
steps of a run do to them. -/
structure RunLaws where
  fit : Machine → Prop
  grows : Machine → Machine → Prop
  passes : Machine → Machine → Prop
  value : Value → Machine → Prop
  callable : Callable → Machine → Prop
  expr : Expr → Prop
  stmt : Stmt → Prop
  exprParts : ∀ {whole}, expr whole → ∀ part, part ∈ whole.parts → expr part
  stmtExprs : ∀ {whole}, stmt whole → ∀ part, part ∈ whole.exprs → expr part
  stmtParts : ∀ {whole}, stmt whole → ∀ part, part ∈ whole.parts → stmt part
  refl : ∀ {machine}, fit machine → grows machine machine
  trans : ∀ {machine middle later}, grows machine middle → grows middle later → grows machine later
  kept : ∀ {machine later}, grows machine later → fit later
  passing : ∀ {machine later}, grows machine later → passes machine later
  passingOn : ∀ {machine middle later}, passes machine middle → passes middle later →
    passes machine later
  /-- Only the frames matter, and which of them are the global and the active one. -/
  quiet : ∀ {machine later}, fit machine → later.globals = machine.globals →
    later.active = machine.active → later.store.frames = machine.store.frames → grows machine later
  define : ∀ {machine owner value'} name, fit machine → value value' machine →
    owner = machine.active ∨ (∃ token depth, Exec.target? machine token depth = some owner) →
    grows machine { machine with store := machine.store.define owner name value' }
  enterBlock : ∀ {machine}, fit machine → fit machine.enterBlock ∧
    passes machine machine.enterBlock ∧
    ∀ later, grows machine.enterBlock later → grows machine { later with active := machine.active }
  enterCall : ∀ {machine declaration closure arguments}, fit machine →
    callable (.function declaration closure) machine →
    (∀ argument, argument ∈ arguments → value argument machine) →
    fit (machine.enterCall declaration closure arguments) ∧
      passes machine (machine.enterCall declaration closure arguments) ∧
      ∀ later, grows (machine.enterCall declaration closure arguments) later →
        grows machine { later with active := machine.active }
  older : ∀ {machine later value'}, grows machine later → value value' machine → value value' later
  outside : ∀ {machine value'} frame, value value' machine →
    value value' { machine with active := frame }
  plain : ∀ {machine value'}, value'.Plain ∨ value' = .nil → value value' machine
  list : ∀ {machine elements} identity, (∀ element, element ∈ elements → value element machine) →
    value (.list identity elements) machine
  element : ∀ {machine identity elements element}, value (.list identity elements) machine →
    element ∈ elements → value element machine
  function : ∀ {machine name parameters body} identity, fit machine →
    stmt (.function name parameters body) →
    value (.function identity ⟨name, parameters, body⟩ machine.active) machine
  stored : ∀ {machine token depth owner name value'}, fit machine →
    Exec.target? machine token depth = some owner →
    machine.store.local? owner name = some value' → value value' machine
  called : ∀ {machine value' callable'}, value value' machine → value'.callable? = some callable' →
    callable callable' machine
  body : ∀ {machine declaration closure}, callable (.function declaration closure) machine →
    ∀ part, part ∈ declaration.body → stmt part

namespace RunLaws

variable (laws : RunLaws)

/-- However the step ends, the laws hold of the machine that it leaves, and its result satisfies the
condition there. -/
def Keeps {α : Type} (machine : Machine) (action : Exec α) (condition : α → Machine → Prop) :
    Prop :=
  (action machine).Meets (fun result later => laws.grows machine later ∧ condition result later)
    (fun _ later => laws.grows machine later)

variable {laws} {α β : Type} {machine : Machine} {condition : α → Machine → Prop}
  {condition' : β → Machine → Prop} {action : Exec α} {next : α → Exec β}

/-! ### Steps -/

namespace Keeps

theorem bind (first : laws.Keeps machine action condition)
    (after : ∀ result later, action machine = .value result later → laws.grows machine later →
      condition result later → laws.Keeps later (next result) condition') :
    laws.Keeps machine (action >>= next) condition' := by
  unfold Keeps at first ⊢
  rw [Attempt.bind_apply]
  cases ended : action machine with
  | value result later =>
      rw [ended] at first
      obtain ⟨grows, held⟩ := first
      apply (after result later ended grows held).mono
      · rintro result' final ⟨grows', held'⟩
        exact ⟨laws.trans grows grows', held'⟩
      · exact fun _ final grows' => laws.trans grows grows'
  | failure fault later =>
      rw [ended] at first
      exact first
  | exhausted => trivial

theorem grows {later : Machine} (keeps : laws.Keeps machine action condition)
    (left : (action machine).state? = some later) : laws.grows machine later := by
  have met := Outcome.Meets.mono keeps (fun _ _ both => both.1) fun _ _ grows => grows
  exact met.of_state? left

variable (fit : laws.fit machine)

include fit

theorem pure {result : α} (held : condition result machine) :
    laws.Keeps machine (Pure.pure result) condition :=
  ⟨laws.refl fit, held⟩

theorem assignVariable (name : Token) (depth : Option Nat) {value : Value}
    (held : laws.value value machine) :
    laws.Keeps machine (Exec.assignVariable name depth value) fun _ _ => True := by
  unfold Keeps Exec.assignVariable
  cases reached : Exec.target? machine name depth with
  | none => exact laws.quiet fit rfl rfl rfl
  | some owner => exact ⟨laws.define _ fit held (Or.inr ⟨name, depth, reached⟩), trivial⟩

theorem defineVariable (name : String) {value : Value} (held : laws.value value machine) :
    laws.Keeps machine (Exec.defineVariable name value) fun _ _ => True :=
  ⟨laws.define name fit held (Or.inl rfl), trivial⟩

theorem makeFunction {name : Token} {parameters : List Token} {body : List Stmt}
    (code : laws.stmt (.function name parameters body)) :
    laws.Keeps machine (Exec.makeFunction ⟨name, parameters, body⟩) laws.value := by
  have grows : laws.grows machine { machine with
      store := (machine.store.makeFunction ⟨name, parameters, body⟩ machine.active).2 } :=
    laws.quiet fit rfl rfl rfl
  exact ⟨grows, laws.older grows (laws.function _ fit code)⟩

end Keeps

/-- The values that a result gives satisfy the law. -/
def given (laws : RunLaws) (gives : α → Value → Prop) (result : α) (machine : Machine) : Prop :=
  ∀ value, gives result value → laws.value value machine

theorem Keeps.framed {creation : Exec FrameId} {frame : FrameId} {store : Store}
    {gives : α → Value → Prop} {body : Exec α}
    (created : creation machine = .value frame { machine with store := store })
    (leaves : ∀ later, laws.grows { machine with store := store, active := frame } later →
      laws.grows machine { later with active := machine.active })
    (inside : laws.Keeps { machine with store := store, active := frame } body
      (laws.given gives)) :
    laws.Keeps machine (creation >>= fun frame => Exec.within frame body) (laws.given gives) := by
  unfold Keeps at inside ⊢
  rw [Attempt.bind_apply, created]
  dsimp only [Exec.within]
  cases ended : body { machine with store := store, active := frame } with
  | value result later =>
      rw [ended] at inside
      exact ⟨leaves later inside.1, fun value gives =>
        laws.outside machine.active (inside.2 value gives)⟩
  | failure fault later =>
      rw [ended] at inside
      exact leaves later inside
  | exhausted => trivial

/-! ### Rules -/

/-- The code that a task runs satisfies the laws. -/
def code (laws : RunLaws) : Task → Prop
  | .evaluate expr => laws.expr expr
  | .evaluateAll exprs => ∀ expr, expr ∈ exprs → laws.expr expr
  | .assign _ _ _ | .call _ _ _ => True
  | .invoke callable _ _ => ∀ declaration closure, callable = .function declaration closure →
      ∀ stmt, stmt ∈ declaration.body → laws.stmt stmt
  | .execute stmt => laws.stmt stmt
  | .cycle condition body => laws.expr condition ∧ laws.stmt body
  | .executeAll statements => ∀ stmt, stmt ∈ statements → laws.stmt stmt

theorem code_of_all (exprs : ∀ expr, laws.expr expr) (statements : ∀ stmt, laws.stmt stmt)
    (task : Task) : laws.code task := by
  cases task with
  | evaluate expr => exact exprs expr
  | evaluateAll => exact fun expr _ => exprs expr
  | assign | call => trivial
  | invoke => exact fun _ _ _ stmt _ => statements stmt
  | execute stmt => exact statements stmt
  | cycle condition body => exact ⟨exprs condition, statements body⟩
  | executeAll => exact fun stmt _ => statements stmt

/-- The laws hold where the point starts, of its machine, of its code and of its values. -/
structure Admits (laws : RunLaws) (point : Point) : Prop where
  fit : laws.fit point.machine
  code : laws.code point.task
  supplied : point.task.Supplied fun value => laws.value value point.machine

theorem code_of_enters {point part : Point} (enters : point.Enters part)
    (code : laws.code point.task)
    (supplied : part.task.Supplied fun value => laws.value value part.machine) :
    laws.code part.task := by
  cases enters with
  | grouping | unary | binaryLeft | binaryRight | logicalLeft | logicalRight | assigned | callee
  | object | position =>
      exact laws.exprParts code _ (by simp [Expr.parts])
  | elements => exact laws.exprParts code
  | arguments => exact fun expr member => laws.exprParts code expr (List.mem_cons_of_mem _ member)
  | assign | call => trivial
  | firstValue => exact code _ List.mem_cons_self
  | otherValues => exact fun expr member => code expr (List.mem_cons_of_mem _ member)
  | invoke =>
      rintro declaration closure rfl
      obtain ⟨⟨callee, held, found⟩, _⟩ := supplied
      exact laws.body (laws.called held found)
  | body => exact code _ _ rfl
  | expression | print | initializer | test | returned =>
      exact laws.stmtExprs code _ (by simp [Stmt.exprs])
  | block => exact laws.stmtParts code
  | thenBranch | elseBranch => exact laws.stmtParts code _ (by simp [Stmt.parts])
  | loop =>
      exact ⟨laws.stmtExprs code _ (by simp [Stmt.exprs]),
        laws.stmtParts code _ (by simp [Stmt.parts])⟩
  | cycleTest => exact code.1
  | cycleBody => exact code.2
  | cycleAgain => exact code
  | firstStatement => exact code _ List.mem_cons_self
  | otherStatements => exact fun stmt member => code stmt (List.mem_cons_of_mem _ member)

theorem obtained {held : Value → Prop} {value : Value} (found : value.Obtained held machine)
    (fit : laws.fit machine) (values : ∀ value, held value → laws.value value machine) :
    laws.value value machine := by
  induction found with
  | held found => exact values _ found
  | plain plain => exact laws.plain plain
  | stored reached bound => exact laws.stored fit reached bound
  | element _ member ih => exact laws.element ih member
  | list _ ih => exact laws.list _ ih

theorem quiet_keeps {point : Point} {held : Value → Prop} {gives : α → Value → Prop}
    (step : QuietStep point held machine action gives) (fit : laws.fit machine)
    (values : ∀ value, held value → laws.value value machine) :
    laws.Keeps machine action (laws.given gives) := by
  refine step.obtains.mono ?_ fun _ later same =>
    laws.quiet fit same.globals same.active same.frames
  rintro result later ⟨same, each⟩
  have grows := laws.quiet fit same.globals same.active same.frames
  exact ⟨grows, fun value gives => laws.older grows (obtained (each value gives) fit values)⟩

theorem basic_keeps {point : Point} {held : Value → Prop} {gives : α → Value → Prop}
    (step : BasicStep point held machine action gives) (code : laws.code point.task)
    (fit : laws.fit machine) (values : ∀ value, held value → laws.value value machine) :
    laws.Keeps machine action (laws.given gives) := by
  have nothing {action : Exec Unit} (keeps : laws.Keeps machine action fun _ _ => True) :
      laws.Keeps machine action (laws.given Nothing) :=
    keeps.mono (fun _ _ both => ⟨both.1, fun _ none => none.elim⟩) fun _ _ both => both
  cases step with
  | quiet step => exact quiet_keeps step fit values
  | assign _ found => exact nothing (.assignVariable fit _ _ (values _ found))
  | define _ _ found =>
      refine nothing (.defineVariable fit _ ?_)
      rcases found with found | rfl
      · exact values _ found
      · exact laws.plain (Or.inr rfl)
  | declare same =>
      rw [same] at code
      exact nothing ((Keeps.makeFunction fit code).bind fun function later _ grows held =>
        .defineVariable (laws.kept grows) _ held)

/-- What the points that a rule enters keep, its steps keep, and those points are admitted and
passed. -/
theorem steps_keep {point : Point} {held : Value → Prop} {gives : α → Value → Prop}
    {parts : Point → Prop} (steps : RuleSteps point held machine action gives parts)
    (code : laws.code point.task)
    (inner : ∀ part, point.Enters part → laws.Admits part →
      laws.Keeps part.machine (part.task.run part.fuel) (laws.given part.task.Gives))
    (fit : laws.fit machine) (values : ∀ value, held value → laws.value value machine) :
    laws.Keeps machine action (laws.given gives) ∧
      ∀ part, parts part → laws.Admits part ∧ laws.passes machine part.machine := by
  induction steps with
  | basic step => exact ⟨basic_keeps step code fit values, fun _ none => none.elim⟩
  | part enters supplied =>
      have supplied' := supplied.mono values
      have admits : laws.Admits _ := ⟨fit, code_of_enters enters code supplied', supplied'⟩
      refine ⟨inner _ enters admits, ?_⟩
      rintro part rfl
      exact ⟨admits, laws.passing (laws.refl fit)⟩
  | bind _ _ ih ih' =>
      obtain ⟨keeps, admits⟩ := ih fit values
      have after (result) (later : Machine) (ended) := by
        obtain ⟨grows, gives⟩ := Outcome.Meets.of_value keeps ended
        refine ih' result later ended (laws.kept grows) ?_
        rintro value (old | new)
        · exact laws.older grows (values value old)
        · exact gives value new
      refine ⟨keeps.bind fun result later ended _ _ => (after result later ended).1, ?_⟩
      rintro part (early | ⟨result, later, ended, late⟩)
      · exact admits part early
      · obtain ⟨admits', passes⟩ := (after result later ended).2 part late
        have grows := (Outcome.Meets.of_value keeps ended).1
        exact ⟨admits', laws.passingOn (laws.passing grows) passes⟩
  | block same =>
      subst same
      obtain ⟨fit', passes, leaves⟩ := laws.enterBlock fit
      have admits : laws.Admits _ := ⟨fit', code_of_enters .block code trivial, trivial⟩
      refine ⟨.framed rfl leaves (inner _ .block admits), ?_⟩
      rintro part rfl
      exact ⟨admits, passes⟩
  | body same supplied =>
      subst same
      obtain ⟨⟨callee, found, called⟩, each⟩ := supplied
      obtain ⟨fit', passes, leaves⟩ := laws.enterCall fit
        (laws.called (values callee found) called) fun value member =>
          values value (each value member)
      have admits : laws.Admits _ := ⟨fit', code_of_enters .body code trivial, trivial⟩
      refine ⟨.framed rfl leaves (inner _ .body admits), ?_⟩
      rintro part rfl
      exact ⟨admits, passes⟩
  | fewer _ included ih =>
      obtain ⟨keeps, admits⟩ := ih fit values
      exact ⟨keeps, fun part among => admits part (included part among)⟩

theorem Admits.keeps {point : Point} (admits : laws.Admits point) :
    laws.Keeps point.machine (point.task.run point.fuel) (laws.given point.task.Gives) := by
  induction point using Point.induction with
  | enter point ih =>
      exact (steps_keep (point.ruleSteps admits.supplied) admits.code ih admits.fit fun _ => id).1

theorem Admits.enter {point part : Point} (admits : laws.Admits point)
    (enters : point.Enters part) : laws.Admits part ∧ laws.passes point.machine part.machine :=
  (steps_keep (point.ruleSteps admits.supplied) admits.code (fun _ _ => Admits.keeps) admits.fit
    fun _ => id).2 part enters

theorem Admits.reach {point place : Point} (admits : laws.Admits point)
    (reaches : point.Reaches place) :
    laws.Admits place ∧ laws.passes point.machine place.machine := by
  induction reaches with
  | refl => exact ⟨admits, laws.passing (laws.refl admits.fit)⟩
  | tail _ enters ih =>
      obtain ⟨admits', passes⟩ := ih.1.enter enters
      exact ⟨admits', laws.passingOn ih.2 passes⟩

theorem evaluate (laws : RunLaws) (fuel : Nat) {expr : Expr} (code : laws.expr expr)
    (fit : laws.fit machine) :
    laws.Keeps machine (LexicalScript.evaluate fuel expr) laws.value := by
  have admits : laws.Admits ⟨fuel, .evaluate expr, machine, []⟩ := ⟨fit, code, trivial⟩
  exact admits.keeps.mono (fun result _ both => ⟨both.1, both.2 result rfl⟩) fun _ _ both => both

theorem execute (laws : RunLaws) (fuel : Nat) {stmt : Stmt} (code : laws.stmt stmt)
    (fit : laws.fit machine) :
    laws.Keeps machine (LexicalScript.execute fuel stmt) (laws.given Flow.Carries) := by
  have admits : laws.Admits ⟨fuel, .execute stmt, machine, []⟩ := ⟨fit, code, trivial⟩
  exact admits.keeps

theorem starts (laws : RunLaws) {fuel : Nat} {statements : List Stmt} {point : Point}
    (starts : Starts fuel machine statements point)
    (code : ∀ stmt, stmt ∈ statements → laws.stmt stmt) (fit : laws.fit machine) :
    laws.Admits point ∧ laws.passes machine point.machine := by
  induction starts with
  | first => exact ⟨⟨fit, code _ List.mem_cons_self, trivial⟩, laws.passing (laws.refl fit)⟩
  | @next _ _ stmt _ _ _ ended _ ih =>
      obtain ⟨own, others⟩ := List.forall_mem_cons.mp code
      have grows := (laws.execute fuel own fit).grows (congrArg Outcome.state? ended)
      obtain ⟨admits, passes⟩ := ih others (laws.kept grows)
      exact ⟨admits, laws.passingOn (laws.passing grows) passes⟩

theorem executeEach (laws : RunLaws) (fuel : Nat) {statements : List Stmt}
    (code : ∀ stmt, stmt ∈ statements → laws.stmt stmt) (fit : laws.fit machine) :
    laws.Keeps machine (LexicalScript.executeEach fuel statements) fun _ _ => True := by
  induction statements generalizing machine with
  | nil => exact .pure fit trivial
  | cons stmt rest ih =>
      obtain ⟨own, others⟩ := List.forall_mem_cons.mp code
      apply (laws.execute fuel own fit).bind
      intro _ later _ grows _
      exact ih others (laws.kept grows)

end RunLaws

end LexicalScript
