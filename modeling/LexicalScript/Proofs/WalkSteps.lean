import LexicalScript.Proofs.Erasure
import LexicalScript.Proofs.StoppedWalks

/-!
A walk as a sequence of steps.

What the resolver does with a tree is laid out as a list of steps, in the order in which it does
them, without regard to errors.  A walk takes the steps one after the other.  A step that finds an
error stops the walk, and a stopped walk writes no depth and learns no name, but it still leaves the
scopes that it has entered.  So a step is reached if the steps in front of it do not stop the walk,
and everything that is written is written by a step that is reached.
-/

set_option autoImplicit false

namespace LexicalScript

/-- The name of a global that is new to the resolver, as long as its initializer is walked. -/
def Resolver.awaited (resolver : Resolver) : Option Token → Option String
  | none => none
  | some owner =>
      if resolver.scopes.isEmpty && !resolver.known.contains owner.lexeme then some owner.lexeme
      else none

/-- The name of an occurrence and its depth. -/
abbrev Entry := String × Option Nat

def Occurrence.entry (occurrence : Occurrence) : Entry :=
  (occurrence.name.lexeme, occurrence.depth)

def entriesOf (occurrences : List Occurrence) : List Entry := occurrences.map Occurrence.entry

/-- One step of a walk. -/
inductive Step where
  | declare (name : Token)
  | define (name : Token)
  | openInitializer (owner : Token)
  | closeInitializer
  /-- A name that is read must not wait for its initializer in the innermost scope. -/
  | checkLocal (name : Token)
  /-- Writes the depth of an occurrence, in place of an old one. -/
  | locate (name : Token) (old : Option Nat)
  /-- A name that is read must not be the new global that is being initialized. -/
  | checkGlobal (owner name : Token)
  | checkReturn (keyword : Token)
  /-- Opens a scope, which is in a function or not. -/
  | enter (inFunction : Bool)
  /-- Closes the innermost scope.  What is around it is in a function or not. -/
  | leave (inFunction : Bool)

namespace Step

def take (walk : Walk) : Step → Walk
  | .declare name => (Walking.declare name walk).2
  | .define name => (Walking.define name walk).2
  | .openInitializer owner =>
      { walk with
        resolver :=
          if walk.resolver.scopes.isEmpty && !walk.resolver.known.contains owner.lexeme then
            { walk.resolver with initializing := some owner.lexeme }
          else walk.resolver }
  | .closeInitializer => { walk with resolver := { walk.resolver with initializing := none } }
  | .checkLocal name =>
      if walk.resolver.scopes.head?.any fun scope => scope.lookup name.lexeme == some false then
        (Walking.stop (.localInOwnInitializer name.lexeme) name.line walk).2
      else walk
  | .locate name old => (Walking.locate name old walk).2
  | .checkGlobal owner name =>
      if (walk.resolver.depth? name.lexeme).isNone &&
          walk.resolver.awaited (some owner) == some name.lexeme then
        (Walking.stop (.globalInOwnInitializer name.lexeme) name.line walk).2
      else walk
  | .checkReturn keyword =>
      if walk.resolver.inFunction then walk
      else (Walking.stop .returnOutsideFunction keyword.line walk).2
  | .enter inFunction =>
      { walk with
        resolver :=
          { walk.resolver with scopes := [] :: walk.resolver.scopes, inFunction := inFunction } }
  | .leave inFunction =>
      { walk with
        resolver :=
          { walk.resolver with
            scopes := walk.resolver.scopes.tail, inFunction := inFunction } }

/-- The name of an occurrence and the depth that it has after the step that is to write it. -/
def entries (walk : Walk) : Step → List Entry
  | .locate name old => [(name.lexeme, (Walking.locate name old walk).1)]
  | _ => []

end Step

namespace Walk

def follow (walk : Walk) (steps : List Step) : Walk := steps.foldl Step.take walk

/-- The entries of the occurrences after the steps that are to write them. -/
def settle (walk : Walk) : List Step → List Entry
  | [] => []
  | step :: rest => step.entries walk ++ (step.take walk).settle rest

theorem follow_append (walk : Walk) (steps steps' : List Step) :
    walk.follow (steps ++ steps') = (walk.follow steps).follow steps' :=
  List.foldl_append

theorem settle_append (walk : Walk) (steps steps' : List Step) :
    walk.settle (steps ++ steps') = walk.settle steps ++ (walk.follow steps).settle steps' := by
  induction steps generalizing walk with
  | nil => rfl
  | cons step rest ih =>
      change step.entries walk ++ (step.take walk).settle (rest ++ steps') = _
      rw [ih, ← List.append_assoc]
      rfl

end Walk

/-! ### The steps of a tree -/

mutual

/-- The steps of an expression, which may belong to the initializer of a variable. -/
def Expr.steps (owner : Option Token) : Expr → List Step
  | .literal _ => []
  | .unary _ operand => operand.steps owner
  | .binary left _ right => left.steps owner ++ right.steps owner
  | .logical left _ right => left.steps owner ++ right.steps owner
  | .grouping inner => inner.steps owner
  | .reference name depth =>
      .checkLocal name :: .locate name depth :: (owner.map (.checkGlobal · name)).toList
  | .assign name value depth => value.steps owner ++ [.locate name depth]
  | .call callee _ arguments => callee.steps owner ++ Expr.stepsAll owner arguments
  | .list _ elements => Expr.stepsAll owner elements
  | .index object _ position => object.steps owner ++ position.steps owner

def Expr.stepsAll (owner : Option Token) : List Expr → List Step
  | [] => []
  | expr :: rest => expr.steps owner ++ Expr.stepsAll owner rest

end

def Expr.stepsOption : Option Expr → List Step
  | none => []
  | some expr => expr.steps none

def parameterSteps (parameters : List Token) : List Step :=
  parameters.flatMap fun parameter => [.declare parameter, .define parameter]

def initializerSteps (name : Token) : Option Expr → List Step
  | none => []
  | some expr => .openInitializer name :: (expr.steps (some name) ++ [.closeInitializer])

mutual

/-- The steps of a statement that is inside a function or not. -/
def Stmt.steps (inFunction : Bool) : Stmt → List Step
  | .expression expr => expr.steps none
  | .print expr => expr.steps none
  | .var name initializer => .declare name :: (initializerSteps name initializer ++ [.define name])
  | .block body => .enter inFunction :: (Stmt.stepsAll inFunction body ++ [.leave inFunction])
  | .conditional condition thenBranch elseBranch =>
      condition.steps none ++
        (thenBranch.steps inFunction ++ Stmt.stepsOption inFunction elseBranch)
  | .loop condition body => condition.steps none ++ body.steps inFunction
  | .function name parameters body =>
      .declare name :: .define name :: .enter true ::
        ((parameterSteps parameters ++ Stmt.stepsAll true body) ++ [.leave inFunction])
  | .returnValue keyword value => .checkReturn keyword :: Expr.stepsOption value

def Stmt.stepsOption (inFunction : Bool) : Option Stmt → List Step
  | none => []
  | some stmt => stmt.steps inFunction

def Stmt.stepsAll (inFunction : Bool) : List Stmt → List Step
  | [] => []
  | stmt :: rest => stmt.steps inFunction ++ Stmt.stepsAll inFunction rest

end

/-! ### Walking a tree is taking its steps -/

/-- The walk takes the steps, leaves the occurrences with the entries, and is left with as many
scopes around it, in a function or not, and in an initializer or not, as before. -/
structure Walk.Covers (walk : Walk) (steps : List Step) (later : Walk)
    (entries : List Entry) : Prop where
  follows : later = walk.follow steps
  settles : entries = walk.settle steps
  nesting : later.resolver.scopes.length = walk.resolver.scopes.length
  inFunction : later.resolver.inFunction = walk.resolver.inFunction
  initializing : later.resolver.initializing = walk.resolver.initializing

namespace Walk.Covers

variable {walk middle later : Walk} {steps steps' : List Step} {entries entries' : List Entry}

theorem refl (walk : Walk) : walk.Covers [] walk [] := ⟨rfl, rfl, rfl, rfl, rfl⟩

theorem append (one : walk.Covers steps middle entries)
    (two : middle.Covers steps' later entries') :
    walk.Covers (steps ++ steps') later (entries ++ entries') where
  follows := by
    rw [Walk.follow_append, ← one.follows]
    exact two.follows
  settles := by
    rw [Walk.settle_append, ← one.follows, ← one.settles, ← two.settles]
  nesting := two.nesting.trans one.nesting
  inFunction := two.inFunction.trans one.inFunction
  initializing := two.initializing.trans one.initializing

theorem snoc (one : walk.Covers steps middle entries) (two : middle.Covers steps' later []) :
    walk.Covers (steps ++ steps') later entries := by
  have both := one.append two
  rwa [List.append_nil] at both

theorem cons {step : Step} (one : walk.Covers [step] middle [])
    (two : middle.Covers steps later entries) : walk.Covers (step :: steps) later entries :=
  one.append two

theorem single {step : Step} {later : Walk} {entries : List Entry}
    (taken : later = step.take walk) (written : entries = step.entries walk)
    (nesting : later.resolver.scopes.length = walk.resolver.scopes.length)
    (inFunction : later.resolver.inFunction = walk.resolver.inFunction)
    (initializing : later.resolver.initializing = walk.resolver.initializing) :
    walk.Covers [step] later entries :=
  ⟨taken, written.trans (List.append_nil _).symm, nesting, inFunction, initializing⟩

theorem still {step : Step} (same : (step.take walk).resolver = walk.resolver) :
    walk.Covers [step] (step.take walk) (step.entries walk) :=
  .single rfl rfl (by rw [same]) (by rw [same]) (by rw [same])

end Walk.Covers

theorem Walking.stop_stopped_eq {walk : Walk} {error : ResolveError}
    (stopped : walk.stopped = some error) (cause : ResolveCause) (line : Nat) :
    (Walking.stop cause line walk).2 = walk := by
  rw [Walking.stop_eq, stopped]

theorem Walking.locate_stopped_eq {walk : Walk} {error : ResolveError}
    (stopped : walk.stopped = some error) (name : Token) (old : Option Nat) :
    Walking.locate name old walk = (old, walk) := by
  unfold Walking.locate
  rw [stopped]

theorem Walking.locate_running_eq {walk : Walk} (running : walk.stopped = none) (name : Token)
    (old : Option Nat) :
    (Walking.locate name old walk).1 = walk.resolver.depth? name.lexeme := by
  unfold Walking.locate
  rw [running]

/-- A name that is read is checked, located and checked again. -/
theorem Walking.read_eq (name : Token) (old : Option Nat) (walk : Walk) :
    Walking.read name old walk =
      if walk.resolver.scopes.head?.any fun scope => scope.lookup name.lexeme == some false then
        (old, (Walking.stop (.localInOwnInitializer name.lexeme) name.line walk).2)
      else
        ((Walking.locate name old walk).1,
          if (Walking.locate name old walk).1.isNone &&
              walk.resolver.initializing == some name.lexeme then
            (Walking.stop (.globalInOwnInitializer name.lexeme) name.line
              (Walking.locate name old walk).2).2
          else (Walking.locate name old walk).2) := by
  unfold Walking.read
  rw [Walking.bind_apply, Walking.get_apply]
  dsimp only
  split
  · rfl
  · rw [Walking.bind_apply]
    split <;> rfl

namespace Step

variable {walk : Walk} {error : ResolveError}

theorem take_checkLocal_stopped (stopped : walk.stopped = some error) (name : Token) :
    (checkLocal name).take walk = walk := by
  rw [take, Walking.stop_stopped_eq stopped, ite_self]

theorem take_checkGlobal_stopped (stopped : walk.stopped = some error) (owner name : Token) :
    (checkGlobal owner name).take walk = walk := by
  rw [take, Walking.stop_stopped_eq stopped, ite_self]

theorem take_locate_stopped (stopped : walk.stopped = some error) (name : Token)
    (old : Option Nat) : (locate name old).take walk = walk := by
  rw [take, Walking.locate_stopped_eq stopped]

end Step

theorem Walk.follow_checkGlobal_stopped {walk : Walk} {error : ResolveError}
    (stopped : walk.stopped = some error) (owner : Option Token) (name : Token) :
    walk.follow (owner.map (.checkGlobal · name)).toList = walk := by
  cases owner with
  | none => rfl
  | some owner => exact Step.take_checkGlobal_stopped stopped owner name

/-- In its first check a name may stop the walk, and then the rest is passed over. -/
theorem Walking.read_eq_follow (name : Token) (old : Option Nat) (owner : Option Token)
    (walk : Walk) (marked : walk.resolver.initializing = walk.resolver.awaited owner) :
    Walking.read name old walk =
      ((Walking.locate name old ((Step.checkLocal name).take walk)).1,
        ((Step.locate name old).take ((Step.checkLocal name).take walk)).follow
          (owner.map (.checkGlobal · name)).toList) := by
  rw [Walking.read_eq, Step.take]
  split
  · -- the walk stops before the other two steps, which then pass it over
    have halted := Walking.stop_stopped (.localInOwnInitializer name.lexeme) name.line walk
    obtain ⟨error, halted⟩ := Option.ne_none_iff_exists'.mp halted
    rw [Walking.locate_stopped_eq halted, Step.take_locate_stopped halted,
      Walk.follow_checkGlobal_stopped halted]
  · congr 1
    rw [Step.take, marked]
    cases stopped : walk.stopped with
    | some error =>
        rw [Walking.locate_stopped_eq stopped, Walking.stop_stopped_eq stopped, ite_self,
          Walk.follow_checkGlobal_stopped stopped]
    | none =>
        rw [Walking.locate_running_eq stopped]
        cases owner with
        | none => exact if_neg (by simp [Resolver.awaited])
        | some owner =>
            change _ = (Step.checkGlobal owner name).take (Walking.locate name old walk).2
            rw [Step.take, (Walking.locate_still name old).resolver]

theorem Walking.read_covers (name : Token) (old : Option Nat) (owner : Option Token) (walk : Walk)
    (marked : walk.resolver.initializing = walk.resolver.awaited owner) :
    walk.Covers ((Expr.reference name old).steps owner) (Walking.read name old walk).2
      [(name.lexeme, (Walking.read name old walk).1)] := by
  have same := (Walking.read_still name old).resolver walk
  refine ⟨?_, ?_, by rw [same], by rw [same], by rw [same]⟩
  · rw [Walking.read_eq_follow name old owner walk marked]
    rfl
  · rw [Walking.read_eq_follow name old owner walk marked]
    cases owner <;> rfl

theorem Walk.Covers.both {walk middle later : Walk} {steps steps' : List Step}
    {occurrences occurrences' : List Occurrence}
    (one : walk.Covers steps middle (entriesOf occurrences))
    (two : middle.Covers steps' later (entriesOf occurrences')) :
    walk.Covers (steps ++ steps') later (entriesOf (occurrences ++ occurrences')) := by
  rw [entriesOf, List.map_append]
  exact one.append two

theorem Walking.Still.marked {α : Type} {action : Walking α} (still : action.Still) {walk : Walk}
    {owner : Option Token} (marked : walk.resolver.initializing = walk.resolver.awaited owner) :
    (action walk).2.resolver.initializing = (action walk).2.resolver.awaited owner := by
  rw [still.resolver, marked]

theorem Walking.locate_covers (name : Token) (old : Option Nat) (walk : Walk) :
    walk.Covers [.locate name old] (Walking.locate name old walk).2
      [(name.lexeme, (Walking.locate name old walk).1)] :=
  .still ((Walking.locate_still name old).resolver walk)

mutual

theorem Expr.resolve_covers {owner : Option Token} : (expr : Expr) → (walk : Walk) →
    walk.resolver.initializing = walk.resolver.awaited owner →
    walk.Covers (expr.steps owner) (expr.resolve walk).2
      (entriesOf (expr.resolve walk).1.occurrences)
  | .literal _, walk, _ => .refl walk
  | .unary _ operand, walk, marked => operand.resolve_covers walk marked
  | .grouping inner, walk, marked => inner.resolve_covers walk marked
  | .binary left _ right, walk, marked | .logical left _ right, walk, marked
  | .index left _ right, walk, marked =>
      (left.resolve_covers walk marked).both
        (right.resolve_covers _ (left.resolve_still.marked marked))
  | .reference name depth, walk, marked => Walking.read_covers name depth owner walk marked
  | .assign name value depth, walk, marked =>
      (value.resolve_covers walk marked).both (Walking.locate_covers name depth _)
  | .call callee _ arguments, walk, marked =>
      (callee.resolve_covers walk marked).both
        (Expr.resolveAll_covers arguments _ (callee.resolve_still.marked marked))
  | .list _ elements, walk, marked => Expr.resolveAll_covers elements walk marked

theorem Expr.resolveAll_covers {owner : Option Token} : (exprs : List Expr) → (walk : Walk) →
    walk.resolver.initializing = walk.resolver.awaited owner →
    walk.Covers (Expr.stepsAll owner exprs) (Expr.resolveAll exprs walk).2
      (entriesOf (Expr.occurrencesAll (Expr.resolveAll exprs walk).1))
  | [], walk, _ => .refl walk
  | expr :: rest, walk, marked =>
      (expr.resolve_covers walk marked).both
        (Expr.resolveAll_covers rest _ (expr.resolve_still.marked marked))

end

theorem Expr.resolveOption_covers : (found : Option Expr) → (walk : Walk) →
    walk.resolver.initializing = none →
    walk.Covers (Expr.stepsOption found) (Expr.resolveOption found walk).2
      (entriesOf (Expr.occurrencesOption (Expr.resolveOption found walk).1))
  | none, walk, _ => .refl walk
  | some expr, walk, plain => expr.resolve_covers walk plain

theorem Walking.moveUnlessStopped_stopped_eq {walk : Walk} {error : ResolveError}
    (stopped : walk.stopped = some error) (change : Resolver → Resolver) :
    (Walking.moveUnlessStopped change walk).2 = walk := by
  rw [Walking.moveUnlessStopped_eq, stopped]

theorem Walking.moveUnlessStopped_running_eq {walk : Walk} (running : walk.stopped = none)
    (change : Resolver → Resolver) :
    (Walking.moveUnlessStopped change walk).2 =
      { walk with resolver := change walk.resolver } := by
  rw [Walking.moveUnlessStopped_eq, running]

/-- A change of the place that keeps the number of scopes and what is around the walk. -/
theorem Walk.Covers.move {walk : Walk} {step : Step} {change : Resolver → Resolver}
    (taken : step.take walk = (Walking.moveUnlessStopped change walk).2)
    (written : step.entries walk = [])
    (nesting : (change walk.resolver).scopes.length = walk.resolver.scopes.length)
    (inFunction : (change walk.resolver).inFunction = walk.resolver.inFunction)
    (initializing : (change walk.resolver).initializing = walk.resolver.initializing) :
    walk.Covers [step] (step.take walk) [] := by
  refine .single rfl written.symm ?_ ?_ ?_
  all_goals
    rw [taken]
    cases stopped : walk.stopped with
    | some error => rw [Walking.moveUnlessStopped_stopped_eq stopped]
    | none =>
        rw [Walking.moveUnlessStopped_running_eq stopped]
        assumption

theorem Walking.define_covers (name : Token) (walk : Walk) :
    walk.Covers [.define name] (Walking.define name walk).2 [] := by
  refine .move rfl rfl ?_ ?_ ?_
  all_goals
    split
    · split <;> rfl
    · simp [*]

theorem Walking.declare_top_eq (name : Token) {walk : Walk} (top : walk.resolver.scopes = []) :
    Walking.declare name walk = ((), walk) := by
  unfold Walking.declare
  rw [Walking.bind_apply, Walking.get_apply]
  dsimp only
  rw [top]
  rfl

theorem Walking.declare_inner_eq (name : Token) {walk : Walk} {scope : Scope} {scopes : List Scope}
    (inner : walk.resolver.scopes = scope :: scopes) :
    Walking.declare name walk =
      if scope.declares name.lexeme then
        Walking.stop (.alreadyDeclared name.lexeme) name.line walk
      else
        Walking.moveUnlessStopped
          (fun resolver => { resolver with scopes := scope.mark name.lexeme false :: scopes })
          walk := by
  unfold Walking.declare
  rw [Walking.bind_apply, Walking.get_apply]
  dsimp only
  rw [inner]
  dsimp only
  split <;> rfl

theorem Walking.declare_covers (name : Token) (walk : Walk) :
    walk.Covers [.declare name] (Walking.declare name walk).2 [] := by
  cases inner : walk.resolver.scopes with
  | nil =>
      apply Walk.Covers.still
      rw [Step.take, Walking.declare_top_eq name inner]
  | cons scope scopes =>
      have taken : (Step.declare name).take walk = (Walking.declare name walk).2 := rfl
      rw [Walking.declare_inner_eq name inner] at taken
      by_cases again : scope.declares name.lexeme = true
      · rw [if_pos again] at taken
        apply Walk.Covers.still
        rw [taken, (Walking.stop_still _ _).resolver]
      · rw [if_neg again] at taken
        exact .move taken rfl (by rw [inner]; rfl) rfl rfl

theorem Walking.bindParameters_covers (parameters : List Token) (walk : Walk) :
    walk.Covers (parameterSteps parameters) (Walking.bindParameters parameters walk).2 [] := by
  induction parameters generalizing walk with
  | nil => exact .refl walk
  | cons parameter rest ih =>
      have bound := (Walking.declare_covers parameter walk).append
        (Walking.define_covers parameter _)
      exact bound.append (ih _)

/-- What lies between two steps of which the second undoes the first. -/
theorem Walk.Covers.bracket {walk closed : Walk} {opening closing : Step} {steps : List Step}
    {entries : List Entry} (body : (opening.take walk).Covers steps closed entries)
    (silent : opening.entries walk = []) (silent' : closing.entries closed = [])
    (nesting : (closing.take closed).resolver.scopes.length = walk.resolver.scopes.length)
    (inFunction : (closing.take closed).resolver.inFunction = walk.resolver.inFunction)
    (initializing : (closing.take closed).resolver.initializing = walk.resolver.initializing) :
    walk.Covers (opening :: (steps ++ [closing])) (closing.take closed) entries := by
  refine ⟨?_, ?_, nesting, inFunction, initializing⟩
  · change _ = (opening.take walk).follow (steps ++ [closing])
    rw [Walk.follow_append, ← body.follows]
    rfl
  · change _ = opening.entries walk ++ (opening.take walk).settle (steps ++ [closing])
    rw [silent, List.nil_append, Walk.settle_append, ← body.follows, ← body.settles]
    change entries = entries ++ (closing.entries closed ++ [])
    rw [silent', List.append_nil, List.append_nil]

/-- A new scope, which is left with what was around it before. -/
theorem Walk.Covers.scope {walk closed : Walk} {inside : Bool} {steps : List Step}
    {entries : List Entry} (body : ((Step.enter inside).take walk).Covers steps closed entries) :
    walk.Covers (.enter inside :: (steps ++ [.leave walk.resolver.inFunction]))
      ((Step.leave walk.resolver.inFunction).take closed) entries := by
  refine .bracket body rfl rfl ?_ rfl body.initializing
  change closed.resolver.scopes.tail.length = _
  rw [List.length_tail, body.nesting]
  rfl

theorem Step.take_leave {walk : Walk} {inside : Bool} (fits : walk.resolver.inFunction = inside) :
    (leave inside).take walk =
      { walk with resolver := { walk.resolver with scopes := walk.resolver.scopes.tail } } := by
  cases fits
  rfl

theorem Walking.inScope_covers {α : Type} {body : Walking α} {walk : Walk} {steps : List Step}
    {entries : List Entry}
    (within : ((Step.enter walk.resolver.inFunction).take walk).Covers steps
      (body ((Step.enter walk.resolver.inFunction).take walk)).2 entries) :
    walk.Covers
      (.enter walk.resolver.inFunction :: (steps ++ [.leave walk.resolver.inFunction]))
      (Walking.inScope body walk).2 entries := by
  have left : (Walking.inScope body walk).2 =
      (Step.leave walk.resolver.inFunction).take
        (body ((Step.enter walk.resolver.inFunction).take walk)).2 :=
    (Step.take_leave within.inFunction).symm
  rw [left]
  exact within.scope

theorem Walking.inFunction_covers {α : Type} (body : Walking α) {walk : Walk} {steps : List Step}
    {entries : List Entry}
    (within : ((Step.enter true).take walk).Covers steps
      (body ((Step.enter true).take walk)).2 entries) :
    walk.Covers (.enter true :: (steps ++ [.leave walk.resolver.inFunction]))
      (Walking.inFunction body walk).2 entries :=
  within.scope

theorem Walking.checkReturn_covers (keyword : Token) (walk : Walk) :
    walk.Covers [.checkReturn keyword] ((Step.checkReturn keyword).take walk) [] := by
  have same : ((Step.checkReturn keyword).take walk).resolver = walk.resolver := by
    rw [Step.take]
    split
    · rfl
    · exact (Walking.stop_still .returnOutsideFunction keyword.line).resolver walk
  exact .still same

/-- Opening an initializer marks its variable if that is a new global. -/
theorem Step.take_openInitializer (name : Token) {walk : Walk}
    (plain : walk.resolver.initializing = none) :
    (openInitializer name).take walk =
      { walk with
        resolver := { walk.resolver with initializing := walk.resolver.awaited (some name) } } := by
  obtain ⟨⟨scopes, inFunction, initializing, known⟩, stopped, notes⟩ := walk
  cases plain
  rw [take, Resolver.awaited]
  dsimp only
  split <;> rfl

theorem Walking.inInitializer_covers (name : Token) (expr : Expr) (walk : Walk)
    (plain : walk.resolver.initializing = none) :
    walk.Covers (initializerSteps name (some expr))
      (Walking.inInitializer name expr.resolve walk).2
      (entriesOf (Walking.inInitializer name expr.resolve walk).1.occurrences) := by
  have opened := Step.take_openInitializer name plain
  have body : ((Step.openInitializer name).take walk).Covers (expr.steps (some name)) _ _ :=
    expr.resolve_covers _ (by rw [opened]; rfl)
  refine .bracket body rfl rfl ?_ ?_ plain.symm
  · exact body.nesting.trans (by rw [opened])
  · exact body.inFunction.trans (by rw [opened])

mutual

theorem Stmt.resolve_covers {inside : Bool} : (stmt : Stmt) → (walk : Walk) →
    walk.resolver.inFunction = inside → walk.resolver.initializing = none →
    walk.Covers (stmt.steps inside) (stmt.resolve walk).2
      (entriesOf (stmt.resolve walk).1.occurrences)
  | .expression expr, walk, _, plain | .print expr, walk, _, plain =>
      expr.resolve_covers walk plain
  | .var name none, walk, _, _ =>
      (Walking.declare_covers name walk).cons (Walking.define_covers name _)
  | .var name (some expr), walk, _, plain =>
      have declared := Walking.declare_covers name walk
      declared.cons ((Walking.inInitializer_covers name expr _
        (declared.initializing.trans plain)).snoc (Walking.define_covers name _))
  | .block body, walk, fits, plain => by
      cases fits
      exact Walking.inScope_covers (Stmt.resolveAll_covers body _ rfl plain)
  | .conditional condition thenBranch elseBranch, walk, fits, plain => by
      have tested : walk.Covers (condition.steps none) _ _ := condition.resolve_covers walk plain
      have fits' := tested.inFunction.trans fits
      have plain' := tested.initializing.trans plain
      have chosen := thenBranch.resolve_covers _ fits' plain'
      have branches := chosen.both (Stmt.resolveOption_covers elseBranch _
        (chosen.inFunction.trans fits') (chosen.initializing.trans plain'))
      have whole := tested.both branches
      rw [← List.append_assoc (Expr.occurrences _)] at whole
      exact whole
  | .loop condition body, walk, fits, plain =>
      have tested : walk.Covers (condition.steps none) _ _ := condition.resolve_covers walk plain
      tested.both (body.resolve_covers _ (tested.inFunction.trans fits)
        (tested.initializing.trans plain))
  | .function name parameters body, walk, fits, plain => by
      have named := (Walking.declare_covers name walk).append (Walking.define_covers name _)
      have bound := Walking.bindParameters_covers parameters
        ((Step.enter true).take (Walking.define name (Walking.declare name walk).2).2)
      have within := bound.append (Stmt.resolveAll_covers body _ bound.inFunction
        (bound.initializing.trans (named.initializing.trans plain)))
      have whole := named.append (Walking.inFunction_covers
        (do Walking.bindParameters parameters; Stmt.resolveAll body) within)
      -- the scope of the function is left for what is around its declaration
      have around := named.inFunction.trans fits
      rw [Stmt.steps, ← around]
      exact whole
  | .returnValue keyword value, walk, fits, plain => by
      have checked := Walking.checkReturn_covers keyword walk
      have whole := checked.cons
        (Expr.resolveOption_covers value _ (checked.initializing.trans plain))
      rw [Step.take] at whole
      rw [Stmt.resolve, Walking.bind_apply, Walking.get_apply]
      dsimp only
      split at whole
      · rw [if_pos ‹_›]
        exact whole
      · rw [if_neg ‹_›]
        exact whole

theorem Stmt.resolveOption_covers {inside : Bool} : (branch : Option Stmt) → (walk : Walk) →
    walk.resolver.inFunction = inside → walk.resolver.initializing = none →
    walk.Covers (Stmt.stepsOption inside branch) (Stmt.resolveOption branch walk).2
      (entriesOf (Stmt.occurrencesOption (Stmt.resolveOption branch walk).1))
  | none, walk, _, _ => .refl walk
  | some stmt, walk, fits, plain => stmt.resolve_covers walk fits plain

theorem Stmt.resolveAll_covers {inside : Bool} : (statements : List Stmt) → (walk : Walk) →
    walk.resolver.inFunction = inside → walk.resolver.initializing = none →
    walk.Covers (Stmt.stepsAll inside statements) (Stmt.resolveAll statements walk).2
      (entriesOf (Stmt.occurrencesAll (Stmt.resolveAll statements walk).1))
  | [], walk, _, _ => .refl walk
  | stmt :: rest, walk, fits, plain =>
      have first := stmt.resolve_covers walk fits plain
      first.both (Stmt.resolveAll_covers rest _ (first.inFunction.trans fits)
        (first.initializing.trans plain))

end

/-- The walk that a resolver between walks sets out on. -/
def Walk.begin (known : List String) (statements : List Stmt) : Walk :=
  ⟨.ofGlobals known, none, #[.beginning statements.length]⟩

theorem Resolver.resolve_covers (known : List String) (statements : List Stmt) :
    (Walk.begin known statements).Covers (Stmt.stepsAll false statements)
      (Stmt.resolveAll statements (Walk.begin known statements)).2
      (entriesOf
        (Stmt.occurrencesAll ((Resolver.ofGlobals known).resolve statements).statements)) :=
  Stmt.resolveAll_covers statements _ rfl rfl

section Answer

variable (known : List String) (statements : List Stmt)

theorem Resolver.error_resolve :
    ((Resolver.ofGlobals known).resolve statements).error =
      ((Walk.begin known statements).follow (Stmt.stepsAll false statements)).stopped := by
  rw [← (Resolver.resolve_covers known statements).follows]
  rfl

theorem Resolver.place_resolve :
    ((Resolver.ofGlobals known).resolve statements).resolver =
      ((Walk.begin known statements).follow (Stmt.stepsAll false statements)).resolver := by
  rw [← (Resolver.resolve_covers known statements).follows]
  rfl

theorem Resolver.notes_resolve :
    ((Resolver.ofGlobals known).resolve statements).notes =
      ((Walk.begin known statements).follow (Stmt.stepsAll false statements)).notes.toList := by
  rw [← (Resolver.resolve_covers known statements).follows]
  rfl

end Answer

end LexicalScript
