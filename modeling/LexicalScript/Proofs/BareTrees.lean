import LexicalScript.Proofs.WalkSteps

/-!
Trees that differ in their depths only.

Such trees have the same steps up to the old depths, and no step looks at an old depth when it is
decided where the walk goes on.  The old depths stand in the steps in the order of the occurrences,
and together with them a tree without its depths is the whole tree again.
-/

set_option autoImplicit false

namespace LexicalScript

/-! ### Steps without old depths -/

namespace Step

/-- The step without the depth that was there before. -/
def bare : Step → Step
  | .locate name _ => .locate name none
  | step => step

/-- The entry that was there before. -/
def old : Step → List Entry
  | .locate name depth => [(name.lexeme, depth)]
  | _ => []

theorem take_bare (step : Step) (walk : Walk) : step.bare.take walk = step.take walk := by
  cases step with
  | locate name old =>
      change (Walking.locate name none walk).2 = (Walking.locate name old walk).2
      unfold Walking.locate
      cases walk.stopped <;> rfl
  | _ => rfl

end Step

/-- Old depths do not change where a walk leads. -/
theorem Walk.follow_bare (walk : Walk) (steps : List Step) :
    walk.follow (steps.map Step.bare) = walk.follow steps := by
  induction steps generalizing walk with
  | nil => rfl
  | cons step rest ih =>
      change (step.bare.take walk).follow (rest.map Step.bare) = (step.take walk).follow rest
      rw [Step.take_bare, ih]

mutual

theorem Expr.steps_erase (owner : Option Token) : (expr : Expr) →
    (expr.retouch .erasing).steps owner = (expr.steps owner).map Step.bare
  | .literal _ => rfl
  | .unary _ operand => operand.steps_erase owner
  | .grouping inner => inner.steps_erase owner
  | .binary left _ right | .logical left _ right | .index left _ right => by
      simp only [Expr.retouch, Expr.steps, List.map_append, left.steps_erase, right.steps_erase]
  | .reference name _ => by cases owner <;> rfl
  | .assign name value _ => by
      simp only [Expr.retouch, Expr.steps, List.map_append, value.steps_erase]
      rfl
  | .call callee _ arguments => by
      simp only [Expr.retouch, Expr.steps, List.map_append, callee.steps_erase,
        Expr.stepsAll_erase]
  | .list _ elements => Expr.stepsAll_erase owner elements

theorem Expr.stepsAll_erase (owner : Option Token) : (exprs : List Expr) →
    Expr.stepsAll owner (Expr.retouchAll .erasing exprs) =
      (Expr.stepsAll owner exprs).map Step.bare
  | [] => rfl
  | expr :: rest => by
      simp only [Expr.retouchAll, Expr.stepsAll, List.map_append, expr.steps_erase,
        Expr.stepsAll_erase]

end

theorem Expr.stepsOption_erase (found : Option Expr) :
    Expr.stepsOption (Expr.retouchOption .erasing found) =
      (Expr.stepsOption found).map Step.bare := by
  cases found with
  | none => rfl
  | some expr => exact expr.steps_erase none

theorem initializerSteps_erase (name : Token) (found : Option Expr) :
    initializerSteps name (Expr.retouchOption .erasing found) =
      (initializerSteps name found).map Step.bare := by
  cases found with
  | none => rfl
  | some expr =>
      simp only [Expr.retouchOption, initializerSteps, List.map_cons, List.map_append,
        expr.steps_erase]
      rfl

theorem parameterSteps_bare (parameters : List Token) :
    (parameterSteps parameters).map Step.bare = parameterSteps parameters := by
  induction parameters with
  | nil => rfl
  | cons parameter rest ih =>
      change Step.declare parameter :: Step.define parameter ::
        (parameterSteps rest).map Step.bare = _
      rw [ih]
      rfl

mutual

theorem Stmt.steps_erase (inside : Bool) : (stmt : Stmt) →
    (stmt.retouch .erasing).steps inside = (stmt.steps inside).map Step.bare
  | .expression expr | .print expr => expr.steps_erase none
  | .var name initializer => by
      simp only [Stmt.retouch, Stmt.steps, List.map_cons, List.map_append, initializerSteps_erase]
      rfl
  | .block body => by
      simp only [Stmt.retouch, Stmt.steps, List.map_cons, List.map_append, Stmt.stepsAll_erase]
      rfl
  | .conditional condition thenBranch elseBranch => by
      simp only [Stmt.retouch, Stmt.steps, List.map_append, condition.steps_erase,
        thenBranch.steps_erase, Stmt.stepsOption_erase]
  | .loop condition body => by
      simp only [Stmt.retouch, Stmt.steps, List.map_append, condition.steps_erase,
        body.steps_erase]
  | .function name parameters body => by
      have same : parameters.map Retouch.erasing.token = parameters := List.map_id parameters
      simp only [Stmt.retouch, Stmt.steps, List.map_cons, List.map_append, Stmt.stepsAll_erase,
        parameterSteps_bare, same]
      rfl
  | .returnValue keyword value => by
      simp only [Stmt.retouch, Stmt.steps, List.map_cons, Expr.stepsOption_erase]
      rfl

theorem Stmt.stepsOption_erase (inside : Bool) : (branch : Option Stmt) →
    Stmt.stepsOption inside (Stmt.retouchOption .erasing branch) =
      (Stmt.stepsOption inside branch).map Step.bare
  | none => rfl
  | some stmt => stmt.steps_erase inside

theorem Stmt.stepsAll_erase (inside : Bool) : (statements : List Stmt) →
    Stmt.stepsAll inside (Stmt.retouchAll .erasing statements) =
      (Stmt.stepsAll inside statements).map Step.bare
  | [] => rfl
  | stmt :: rest => by
      simp only [Stmt.retouchAll, Stmt.stepsAll, List.map_append, stmt.steps_erase,
        Stmt.stepsAll_erase]

end

/-! ### Old entries -/

/-- The entries that were there before the steps. -/
def oldEntries (steps : List Step) : List Entry := steps.flatMap Step.old

theorem oldEntries_append (steps steps' : List Step) :
    oldEntries (steps ++ steps') = oldEntries steps ++ oldEntries steps' :=
  List.flatMap_append

theorem entriesOf_append (occurrences occurrences' : List Occurrence) :
    entriesOf (occurrences ++ occurrences') = entriesOf occurrences ++ entriesOf occurrences' :=
  List.map_append

mutual

theorem Expr.oldEntries_steps (owner : Option Token) : (expr : Expr) →
    oldEntries (expr.steps owner) = entriesOf expr.occurrences
  | .literal _ => rfl
  | .unary _ operand => operand.oldEntries_steps owner
  | .grouping inner => inner.oldEntries_steps owner
  | .binary left _ right | .logical left _ right | .index left _ right => by
      simp only [Expr.steps, Expr.occurrences, oldEntries_append, entriesOf_append,
        left.oldEntries_steps, right.oldEntries_steps]
  | .reference name _ => by cases owner <;> rfl
  | .assign name value _ => by
      simp only [Expr.steps, Expr.occurrences, oldEntries_append, entriesOf_append,
        value.oldEntries_steps]
      rfl
  | .call callee _ arguments => by
      simp only [Expr.steps, Expr.occurrences, oldEntries_append, entriesOf_append,
        callee.oldEntries_steps, Expr.oldEntries_stepsAll]
  | .list _ elements => Expr.oldEntries_stepsAll owner elements

theorem Expr.oldEntries_stepsAll (owner : Option Token) : (exprs : List Expr) →
    oldEntries (Expr.stepsAll owner exprs) = entriesOf (Expr.occurrencesAll exprs)
  | [] => rfl
  | expr :: rest => by
      simp only [Expr.stepsAll, Expr.occurrencesAll, oldEntries_append, entriesOf_append,
        expr.oldEntries_steps, Expr.oldEntries_stepsAll]

end

theorem Expr.oldEntries_stepsOption (found : Option Expr) :
    oldEntries (Expr.stepsOption found) = entriesOf (Expr.occurrencesOption found) := by
  cases found with
  | none => rfl
  | some expr => exact expr.oldEntries_steps none

theorem oldEntries_parameterSteps (parameters : List Token) :
    oldEntries (parameterSteps parameters) = [] := by
  induction parameters with
  | nil => rfl
  | cons parameter rest ih => exact ih

theorem oldEntries_initializerSteps (name : Token) (found : Option Expr) :
    oldEntries (initializerSteps name found) = entriesOf (Expr.occurrencesOption found) := by
  cases found with
  | none => rfl
  | some expr =>
      change oldEntries (expr.steps (some name) ++ [.closeInitializer]) = _
      rw [oldEntries_append, expr.oldEntries_steps]
      exact List.append_nil _

mutual

theorem Stmt.oldEntries_steps (inside : Bool) : (stmt : Stmt) →
    oldEntries (stmt.steps inside) = entriesOf stmt.occurrences
  | .expression expr | .print expr => expr.oldEntries_steps none
  | .var name initializer => by
      change oldEntries (initializerSteps name initializer ++ [.define name]) = _
      rw [oldEntries_append, oldEntries_initializerSteps]
      exact List.append_nil _
  | .block body => by
      change oldEntries (Stmt.stepsAll inside body ++ [.leave inside]) = _
      rw [oldEntries_append, Stmt.oldEntries_stepsAll inside body]
      exact List.append_nil _
  | .conditional condition thenBranch elseBranch => by
      simp only [Stmt.steps, Stmt.occurrences, oldEntries_append, entriesOf_append,
        List.append_assoc, condition.oldEntries_steps, thenBranch.oldEntries_steps,
        Stmt.oldEntries_stepsOption]
  | .loop condition body => by
      simp only [Stmt.steps, Stmt.occurrences, oldEntries_append, entriesOf_append,
        condition.oldEntries_steps, body.oldEntries_steps]
  | .function name parameters body => by
      change oldEntries ((parameterSteps parameters ++ Stmt.stepsAll true body) ++
        [.leave inside]) = _
      rw [oldEntries_append, oldEntries_append, oldEntries_parameterSteps,
        Stmt.oldEntries_stepsAll true body]
      exact List.append_nil _
  | .returnValue keyword value => Expr.oldEntries_stepsOption value

theorem Stmt.oldEntries_stepsOption (inside : Bool) : (branch : Option Stmt) →
    oldEntries (Stmt.stepsOption inside branch) = entriesOf (Stmt.occurrencesOption branch)
  | none => rfl
  | some stmt => stmt.oldEntries_steps inside

theorem Stmt.oldEntries_stepsAll (inside : Bool) : (statements : List Stmt) →
    oldEntries (Stmt.stepsAll inside statements) = entriesOf (Stmt.occurrencesAll statements)
  | [] => rfl
  | stmt :: rest => by
      simp only [Stmt.stepsAll, Stmt.occurrencesAll, oldEntries_append, entriesOf_append,
        stmt.oldEntries_steps, Stmt.oldEntries_stepsAll]

end

/-! ### A tree from what is left without its depths -/

mutual

/-- Entries that begin with those of an expression belong to one expression only, once it is known
without its depths. -/
theorem Expr.eq_of_erase {rest rest' : List Entry} : (expr other : Expr) →
    expr.retouch .erasing = other.retouch .erasing →
    entriesOf expr.occurrences ++ rest = entriesOf other.occurrences ++ rest' →
    expr = other ∧ rest = rest'
  | .literal value, other, same, entries => by
      cases other <;> simp only [Expr.retouch, reduceCtorEq] at same
      cases same
      exact ⟨rfl, entries⟩
  | .unary operator operand, other, same, entries => by
      cases other <;> simp only [Expr.retouch, reduceCtorEq, Expr.unary.injEq] at same
      obtain ⟨rfl, rest⟩ := operand.eq_of_erase _ same.2 entries
      cases same.1
      exact ⟨rfl, rest⟩
  | .grouping inner, other, same, entries => by
      cases other <;> simp only [Expr.retouch, reduceCtorEq, Expr.grouping.injEq] at same
      obtain ⟨rfl, rest⟩ := inner.eq_of_erase _ same entries
      exact ⟨rfl, rest⟩
  | .binary left operator right, other, same, entries
  | .logical left operator right, other, same, entries
  | .index left operator right, other, same, entries => by
      cases other <;> simp only [Expr.retouch, reduceCtorEq, Expr.binary.injEq,
        Expr.logical.injEq, Expr.index.injEq] at same
      simp only [Expr.occurrences, entriesOf_append, List.append_assoc] at entries
      obtain ⟨rfl, later⟩ := left.eq_of_erase _ same.1 entries
      obtain ⟨rfl, rest⟩ := right.eq_of_erase _ same.2.2 later
      cases same.2.1
      exact ⟨rfl, rest⟩
  | .reference name depth, other, same, entries => by
      cases other <;> simp only [Expr.retouch, reduceCtorEq, Expr.reference.injEq] at same
      cases same.1
      obtain ⟨head, rest⟩ := List.cons.inj entries
      cases (Prod.mk.inj head).2
      exact ⟨rfl, rest⟩
  | .assign name value depth, other, same, entries => by
      cases other <;> simp only [Expr.retouch, reduceCtorEq, Expr.assign.injEq] at same
      simp only [Expr.occurrences, entriesOf_append, List.append_assoc] at entries
      obtain ⟨rfl, later⟩ := value.eq_of_erase _ same.2.1 entries
      cases same.1
      obtain ⟨head, rest⟩ := List.cons.inj later
      cases (Prod.mk.inj head).2
      exact ⟨rfl, rest⟩
  | .call callee paren arguments, other, same, entries => by
      cases other <;> simp only [Expr.retouch, reduceCtorEq, Expr.call.injEq] at same
      simp only [Expr.occurrences, entriesOf_append, List.append_assoc] at entries
      obtain ⟨rfl, later⟩ := callee.eq_of_erase _ same.1 entries
      obtain ⟨rfl, rest⟩ := Expr.eq_of_eraseAll arguments _ same.2.2 later
      cases same.2.1
      exact ⟨rfl, rest⟩
  | .list bracket elements, other, same, entries => by
      cases other <;> simp only [Expr.retouch, reduceCtorEq, Expr.list.injEq] at same
      obtain ⟨rfl, rest⟩ := Expr.eq_of_eraseAll elements _ same.2 entries
      cases same.1
      exact ⟨rfl, rest⟩

theorem Expr.eq_of_eraseAll {rest rest' : List Entry} : (exprs others : List Expr) →
    Expr.retouchAll .erasing exprs = Expr.retouchAll .erasing others →
    entriesOf (Expr.occurrencesAll exprs) ++ rest =
      entriesOf (Expr.occurrencesAll others) ++ rest' →
    exprs = others ∧ rest = rest'
  | [], [], _, entries => ⟨rfl, entries⟩
  | expr :: exprs, other :: others, same, entries => by
      obtain ⟨head, tail⟩ := List.cons.inj same
      simp only [Expr.occurrencesAll, entriesOf_append, List.append_assoc] at entries
      obtain ⟨rfl, later⟩ := expr.eq_of_erase _ head entries
      obtain ⟨rfl, rest⟩ := Expr.eq_of_eraseAll exprs _ tail later
      exact ⟨rfl, rest⟩

end

theorem Expr.eq_of_eraseOption {rest rest' : List Entry} : (found other : Option Expr) →
    Expr.retouchOption .erasing found = Expr.retouchOption .erasing other →
    entriesOf (Expr.occurrencesOption found) ++ rest =
      entriesOf (Expr.occurrencesOption other) ++ rest' →
    found = other ∧ rest = rest'
  | none, none, _, entries => ⟨rfl, entries⟩
  | some expr, some other, same, entries => by
      obtain ⟨rfl, rest⟩ := expr.eq_of_erase other (Option.some.inj same) entries
      exact ⟨rfl, rest⟩

mutual

theorem Stmt.eq_of_erase {rest rest' : List Entry} : (stmt other : Stmt) →
    stmt.retouch .erasing = other.retouch .erasing →
    entriesOf stmt.occurrences ++ rest = entriesOf other.occurrences ++ rest' →
    stmt = other ∧ rest = rest'
  | .expression expr, other, same, entries | .print expr, other, same, entries => by
      cases other <;> simp only [Stmt.retouch, reduceCtorEq, Stmt.expression.injEq,
        Stmt.print.injEq] at same
      obtain ⟨rfl, rest⟩ := expr.eq_of_erase _ same entries
      exact ⟨rfl, rest⟩
  | .var name initializer, other, same, entries => by
      cases other <;> simp only [Stmt.retouch, reduceCtorEq, Stmt.var.injEq] at same
      obtain ⟨rfl, rest⟩ := Expr.eq_of_eraseOption initializer _ same.2 entries
      cases same.1
      exact ⟨rfl, rest⟩
  | .block body, other, same, entries => by
      cases other <;> simp only [Stmt.retouch, reduceCtorEq, Stmt.block.injEq] at same
      obtain ⟨rfl, rest⟩ := Stmt.eq_of_eraseAll body _ same entries
      exact ⟨rfl, rest⟩
  | .conditional condition thenBranch elseBranch, other, same, entries => by
      cases other <;> simp only [Stmt.retouch, reduceCtorEq, Stmt.conditional.injEq] at same
      simp only [Stmt.occurrences, entriesOf_append, List.append_assoc] at entries
      obtain ⟨rfl, tested⟩ := condition.eq_of_erase _ same.1 entries
      obtain ⟨rfl, later⟩ := thenBranch.eq_of_erase _ same.2.1 tested
      obtain ⟨rfl, rest⟩ := Stmt.eq_of_eraseOption elseBranch _ same.2.2 later
      exact ⟨rfl, rest⟩
  | .loop condition body, other, same, entries => by
      cases other <;> simp only [Stmt.retouch, reduceCtorEq, Stmt.loop.injEq] at same
      simp only [Stmt.occurrences, entriesOf_append, List.append_assoc] at entries
      obtain ⟨rfl, later⟩ := condition.eq_of_erase _ same.1 entries
      obtain ⟨rfl, rest⟩ := body.eq_of_erase _ same.2 later
      exact ⟨rfl, rest⟩
  | .function name parameters body, other, same, entries => by
      cases other <;> simp only [Stmt.retouch, reduceCtorEq, Stmt.function.injEq] at same
      obtain ⟨rfl, rest⟩ := Stmt.eq_of_eraseAll body _ same.2.2 entries
      cases same.1
      have kept : parameters.map id = List.map id _ := same.2.1
      rw [List.map_id, List.map_id] at kept
      cases kept
      exact ⟨rfl, rest⟩
  | .returnValue keyword value, other, same, entries => by
      cases other <;> simp only [Stmt.retouch, reduceCtorEq, Stmt.returnValue.injEq] at same
      obtain ⟨rfl, rest⟩ := Expr.eq_of_eraseOption value _ same.2 entries
      cases same.1
      exact ⟨rfl, rest⟩

theorem Stmt.eq_of_eraseOption {rest rest' : List Entry} : (branch other : Option Stmt) →
    Stmt.retouchOption .erasing branch = Stmt.retouchOption .erasing other →
    entriesOf (Stmt.occurrencesOption branch) ++ rest =
      entriesOf (Stmt.occurrencesOption other) ++ rest' →
    branch = other ∧ rest = rest'
  | none, none, _, entries => ⟨rfl, entries⟩
  | some stmt, some other, same, entries => by
      obtain ⟨rfl, rest⟩ := stmt.eq_of_erase other (Option.some.inj same) entries
      exact ⟨rfl, rest⟩

theorem Stmt.eq_of_eraseAll {rest rest' : List Entry} : (statements others : List Stmt) →
    Stmt.retouchAll .erasing statements = Stmt.retouchAll .erasing others →
    entriesOf (Stmt.occurrencesAll statements) ++ rest =
      entriesOf (Stmt.occurrencesAll others) ++ rest' →
    statements = others ∧ rest = rest'
  | [], [], _, entries => ⟨rfl, entries⟩
  | stmt :: statements, other :: others, same, entries => by
      obtain ⟨head, tail⟩ := List.cons.inj same
      simp only [Stmt.occurrencesAll, entriesOf_append, List.append_assoc] at entries
      obtain ⟨rfl, later⟩ := stmt.eq_of_erase _ head entries
      obtain ⟨rfl, rest⟩ := Stmt.eq_of_eraseAll statements _ tail later
      exact ⟨rfl, rest⟩

end

end LexicalScript
