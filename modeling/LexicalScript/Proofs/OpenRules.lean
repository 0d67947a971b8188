import LexicalScript.Proofs.Outcome
import LexicalScript.Proofs.Reference

/-!
The rules of the reference with their recursion open.

Each rule of the reference uses all rules with one unit of fuel less.  Here the rules with some fuel
are one value, and a step makes from it the rules with one unit more.  A step keeps the order in
which fewer runs are cut off, so more fuel never changes a run that ends.
-/

set_option autoImplicit false

namespace LexicalScript.Reference

/-! ### Runs that are cut off earlier -/

/-- The first run is cut off or ends as the second one does. -/
def Run.Below {α : Type} (less more : Run α) : Prop :=
  ∀ state, less state = .exhausted ∨ less state = more state

namespace Run.Below

variable {α β : Type} {less middle more : Run α}

theorem refl (run : Run α) : Run.Below run run :=
  fun _ => Or.inr rfl

theorem exhausted : Run.Below (Attempt.exhausted : Run α) more :=
  fun _ => Or.inl rfl

theorem trans (below : Run.Below less middle) (below' : Run.Below middle more) :
    Run.Below less more := by
  intro state
  rcases below state with cut | same
  · exact Or.inl cut
  · rw [same]
    exact below' state

/-- Sequences are compared one by one, the second parts on the results that the first part can
give. -/
theorem bind_of_yields {next next' : α → Run β} {property : α → Prop}
    (yields : Attempt.Yields less property) (below : Run.Below less more)
    (after : ∀ result, property result → Run.Below (next result) (next' result)) :
    Run.Below (less >>= next) (more >>= next') := by
  intro state
  have met := yields state
  rw [Attempt.bind_apply, Attempt.bind_apply]
  rcases below state with cut | same
  · rw [cut]
    exact Or.inl rfl
  · rw [← same]
    cases ended : less state with
    | value result later =>
        rw [ended] at met
        exact after result met later
    | failure fault later => exact Or.inr rfl
    | exhausted => exact Or.inl rfl

theorem bind {next next' : α → Run β} (below : Run.Below less more)
    (after : ∀ result, Run.Below (next result) (next' result)) :
    Run.Below (less >>= next) (more >>= next') := by
  have anything : Attempt.Yields less fun _ => True := by
    intro state
    cases less state <;> trivial
  exact bind_of_yields anything below fun result _ => after result

theorem yields {property : α → Prop} (below : Run.Below less more)
    (yields : Attempt.Yields more property) : Attempt.Yields less property := by
  intro state
  rcases below state with cut | same
  · rw [cut]
    trivial
  · rw [same]
    exact yields state

end Run.Below

/-! ### Rules as a value -/

/-- The rules with some amount of fuel. -/
@[ext]
structure Rules where
  evaluate : Environment → Expr → Run Datum
  evaluateAll : Environment → List Expr → Run (List Datum)
  call : Datum → List Datum → Token → Run Datum
  invoke : Datum → List Datum → Token → Run Datum
  execute : Place → Stmt → Run (Flow × Place)
  executeLoop : Place → Expr → Stmt → Run Flow
  executeAll : Environment → List Stmt → Run Flow

namespace Rules

/-- The rules without fuel. -/
def spent : Rules where
  evaluate _ _ := .exhausted
  evaluateAll _ _ := .exhausted
  call _ _ _ := .exhausted
  invoke _ _ _ := .exhausted
  execute _ _ := .exhausted
  executeLoop _ _ _ := .exhausted
  executeAll _ _ := .exhausted

/-- The rules with one unit of fuel more than those that they use. -/
def next (inner : Rules) : Rules where
  evaluate environment expr :=
    match expr with
    | .literal value => return Datum.ofLiteral value
    | .grouping expr => inner.evaluate environment expr
    | .unary operator operand => do
        let operand ← inner.evaluate environment operand
        ofExcept ((applyUnary operator operand.face).map Datum.ofResult)
    | .binary left operator right => do
        let left ← inner.evaluate environment left
        let right ← inner.evaluate environment right
        ofExcept ((applyBinary operator left.face right.face).map Datum.ofResult)
    | .logical left operator right => do
        let left ← inner.evaluate environment left
        if settles operator left.face then return left
        else inner.evaluate environment right
    | .reference name _ => read environment name
    | .assign name value _ => do
        let datum ← inner.evaluate environment value
        assign environment name datum
        return datum
    | .call callee paren arguments => do
        let callee ← inner.evaluate environment callee
        let arguments ← inner.evaluateAll environment arguments
        inner.call callee arguments paren
    | .list _ elements => do
        let elements ← inner.evaluateAll environment elements
        makeList elements
    | .index object bracket position => do
        let object ← inner.evaluate environment object
        let position ← inner.evaluate environment position
        ofExcept (index bracket object position)
  evaluateAll environment exprs :=
    match exprs with
    | [] => return []
    | expr :: rest => do
        let datum ← inner.evaluate environment expr
        let others ← inner.evaluateAll environment rest
        return datum :: others
  call callee arguments paren :=
    match callee with
    | .native _ supplied =>
        if arguments.length = supplied.arity then inner.invoke callee arguments paren
        else raise ⟨.arity supplied.arity arguments.length, paren.line⟩
    | .function _ declaration _ =>
        if arguments.length = declaration.parameters.length then
          inner.invoke callee arguments paren
        else raise ⟨.arity declaration.parameters.length arguments.length, paren.line⟩
    | _ => raise ⟨.notCallable, paren.line⟩
  invoke callee arguments paren :=
    match callee with
    | .native _ supplied => callNative supplied arguments paren.line
    | .function _ declaration environment => do
        let environment ← bindParameters declaration.parameters arguments environment
        match ← inner.executeAll environment declaration.body with
        | .returned datum => return datum
        | .normal => return .nil
    | _ => return .nil
  execute place stmt :=
    match stmt with
    | .expression expr => do
        let _ ← inner.evaluate place.environment expr
        return (.normal, place)
    | .print expr => do
        let datum ← inner.evaluate place.environment expr
        write (datum.face.text ++ "\n")
        return (.normal, place)
    | .var name initializer =>
        match place with
        | .top => do
            let datum ← optional (inner.evaluate []) initializer
            declareGlobal name.lexeme datum
            return (.normal, .top)
        | .inside outer => do
            let location ← allocate
            let environment := (name.lexeme, location) :: outer
            let datum ← optional (inner.evaluate environment) initializer
            fill location datum
            return (.normal, .inside environment)
    | .block body => do
        let flow ← inner.executeAll place.environment body
        return (flow, place)
    | .conditional condition thenBranch elseBranch => do
        let test ← inner.evaluate place.environment condition
        if test.face.isTruthy then inner.execute place thenBranch
        else match elseBranch with
          | some stmt => inner.execute place stmt
          | none => return (.normal, place)
    | .loop condition body => do
        let flow ← inner.executeLoop place condition body
        return (flow, place)
    | .function name parameters body => do
        let identity ← identify
        match place with
        | .top => do
            declareGlobal name.lexeme (.function identity ⟨name, parameters, body⟩ [])
            return (.normal, .top)
        | .inside outer => do
            let location ← allocate
            let environment := (name.lexeme, location) :: outer
            fill location (.function identity ⟨name, parameters, body⟩ environment)
            return (.normal, .inside environment)
    | .returnValue _ value => do
        let datum ← optional (inner.evaluate place.environment) value
        return (.returned datum, place)
  executeLoop place condition body := do
    let test ← inner.evaluate place.environment condition
    if test.face.isTruthy then
      match ← inner.execute place body with
      | (.returned datum, _) => return .returned datum
      | (.normal, _) => inner.executeLoop place condition body
    else return .normal
  executeAll environment statements :=
    match statements with
    | [] => return .normal
    | stmt :: rest => do
        match ← inner.execute (.inside environment) stmt with
        | (.returned datum, _) => return .returned datum
        | (.normal, place) => inner.executeAll place.environment rest

/-- Executes the statements of a program in order, however each of them ends, up to the first
fault. -/
def executeEach (rules : Rules) : List Stmt → Run Unit
  | [] => return ()
  | stmt :: rest => do
      let _ ← rules.execute .top stmt
      rules.executeEach rest

/-- Runs a program, and then flushes the sink. -/
def run (rules : Rules) (statements : List Stmt) (state : State) :
    Option (Option Fault × State) :=
  match rules.executeEach statements state with
  | .exhausted => none
  | .value _ state => some (state.sink.flush.map .output, state)
  | .failure fault state =>
      match state.sink.flush with
      | some error => some (some (.output error), state)
      | none => some (some fault, state)

/-- The rules of the reference. -/
def reference (fuel : Nat) : Rules where
  evaluate := Reference.evaluate fuel
  evaluateAll := Reference.evaluateAll fuel
  call := Reference.call fuel
  invoke := Reference.invoke fuel
  execute := Reference.execute fuel
  executeLoop := Reference.executeLoop fuel
  executeAll := Reference.executeAll fuel

theorem reference_succ (fuel : Nat) : reference (fuel + 1) = (reference fuel).next := by
  ext
  case evaluate environment expr state => cases expr <;> rfl
  case evaluateAll environment exprs state => cases exprs <;> rfl
  case call callee arguments paren state => cases callee <;> rfl
  case invoke callee arguments paren state => cases callee <;> rfl
  case execute place stmt state => cases stmt <;> rfl
  case executeLoop => rfl
  case executeAll environment statements state => cases statements <;> rfl

theorem reference_executeEach (fuel : Nat) (statements : List Stmt) :
    Reference.executeEach fuel statements = (reference fuel).executeEach statements := by
  induction statements with
  | nil => rfl
  | cons stmt rest ih =>
      unfold Reference.executeEach executeEach
      rw [ih]
      rfl

theorem reference_run (fuel : Nat) (statements : List Stmt) (state : State) :
    Reference.run fuel statements state = (reference fuel).run statements state := by
  unfold Rules.run
  rw [← reference_executeEach]
  rfl

/-! ### More fuel -/

/-- Each of the first rules is cut off or ends as the second one does. -/
structure Below (less more : Rules) : Prop where
  evaluate : ∀ environment expr,
    Run.Below (less.evaluate environment expr) (more.evaluate environment expr)
  evaluateAll : ∀ environment exprs,
    Run.Below (less.evaluateAll environment exprs) (more.evaluateAll environment exprs)
  call : ∀ callee arguments paren,
    Run.Below (less.call callee arguments paren) (more.call callee arguments paren)
  invoke : ∀ callee arguments paren,
    Run.Below (less.invoke callee arguments paren) (more.invoke callee arguments paren)
  execute : ∀ place stmt, Run.Below (less.execute place stmt) (more.execute place stmt)
  executeLoop : ∀ place condition body,
    Run.Below (less.executeLoop place condition body) (more.executeLoop place condition body)
  executeAll : ∀ environment statements,
    Run.Below (less.executeAll environment statements) (more.executeAll environment statements)

namespace Below

variable {less middle more : Rules}

theorem refl (rules : Rules) : rules.Below rules where
  evaluate _ _ := .refl _
  evaluateAll _ _ := .refl _
  call _ _ _ := .refl _
  invoke _ _ _ := .refl _
  execute _ _ := .refl _
  executeLoop _ _ _ := .refl _
  executeAll _ _ := .refl _

theorem trans (below : less.Below middle) (below' : middle.Below more) : less.Below more where
  evaluate _ _ := (below.evaluate _ _).trans (below'.evaluate _ _)
  evaluateAll _ _ := (below.evaluateAll _ _).trans (below'.evaluateAll _ _)
  call _ _ _ := (below.call _ _ _).trans (below'.call _ _ _)
  invoke _ _ _ := (below.invoke _ _ _).trans (below'.invoke _ _ _)
  execute _ _ := (below.execute _ _).trans (below'.execute _ _)
  executeLoop _ _ _ := (below.executeLoop _ _ _).trans (below'.executeLoop _ _ _)
  executeAll _ _ := (below.executeAll _ _).trans (below'.executeAll _ _)

theorem spent (rules : Rules) : Rules.spent.Below rules where
  evaluate _ _ := .exhausted
  evaluateAll _ _ := .exhausted
  call _ _ _ := .exhausted
  invoke _ _ _ := .exhausted
  execute _ _ := .exhausted
  executeLoop _ _ _ := .exhausted
  executeAll _ _ := .exhausted

theorem optional (below : less.Below more) (environment : Environment) (found : Option Expr) :
    Run.Below (Reference.optional (less.evaluate environment) found)
      (Reference.optional (more.evaluate environment) found) := by
  cases found with
  | none => exact .refl _
  | some expr => exact below.evaluate environment expr

theorem next_evaluate (below : less.Below more) (environment : Environment) (expr : Expr) :
    Run.Below (less.next.evaluate environment expr) (more.next.evaluate environment expr) := by
  have part := below.evaluate environment
  cases expr with
  | literal value => exact .refl _
  | grouping inner => exact part inner
  | unary operator operand => exact (part operand).bind fun _ => .refl _
  | binary left operator right =>
      exact (part left).bind fun _ => (part right).bind fun _ => .refl _
  | logical left operator right =>
      refine (part left).bind fun datum => ?_
      cases settles operator datum.face with
      | true => exact .refl _
      | false => exact part right
  | reference name depth => exact .refl _
  | assign name value depth => exact (part value).bind fun _ => .refl _
  | call callee paren arguments =>
      refine (part callee).bind fun function => ?_
      exact (below.evaluateAll environment arguments).bind fun data =>
        below.call function data paren
  | list bracket elements =>
      exact (below.evaluateAll environment elements).bind fun _ => .refl _
  | index object bracket position =>
      exact (part object).bind fun _ => (part position).bind fun _ => .refl _

theorem next_call (below : less.Below more) (callee : Datum) (arguments : List Datum)
    (paren : Token) :
    Run.Below (less.next.call callee arguments paren) (more.next.call callee arguments paren) := by
  have counted {arity : Nat} : Run.Below
      (if arguments.length = arity then less.invoke callee arguments paren
        else raise ⟨.arity arity arguments.length, paren.line⟩)
      (if arguments.length = arity then more.invoke callee arguments paren
        else raise ⟨.arity arity arguments.length, paren.line⟩) := by
    split
    · exact below.invoke callee arguments paren
    · exact .refl _
  cases callee with
  | native identity supplied => exact counted
  | function identity declaration environment => exact counted
  | _ => exact .refl _

theorem next_invoke (below : less.Below more) (callee : Datum) (arguments : List Datum)
    (paren : Token) :
    Run.Below (less.next.invoke callee arguments paren)
      (more.next.invoke callee arguments paren) := by
  cases callee with
  | function identity declaration environment =>
      refine Run.Below.bind (.refl _) fun environment => ?_
      exact (below.executeAll environment declaration.body).bind fun _ => .refl _
  | _ => exact .refl _

theorem next_execute (below : less.Below more) (place : Place) (stmt : Stmt) :
    Run.Below (less.next.execute place stmt) (more.next.execute place stmt) := by
  have part := below.evaluate place.environment
  cases stmt with
  | expression expr => exact (part expr).bind fun _ => .refl _
  | print expr => exact (part expr).bind fun _ => .refl _
  | var name initializer =>
      cases place with
      | top => exact (below.optional [] initializer).bind fun _ => .refl _
      | inside outer =>
          refine Run.Below.bind (.refl _) fun location => ?_
          exact (below.optional ((name.lexeme, location) :: outer) initializer).bind fun _ =>
            .refl _
  | block body => exact (below.executeAll place.environment body).bind fun _ => .refl _
  | conditional condition thenBranch elseBranch =>
      refine (part condition).bind fun test => ?_
      cases test.face.isTruthy with
      | true => exact below.execute place thenBranch
      | false =>
          cases elseBranch with
          | none => exact .refl _
          | some branch => exact below.execute place branch
  | loop condition body => exact (below.executeLoop place condition body).bind fun _ => .refl _
  | function name parameters body => exact .refl _
  | returnValue keyword value =>
      exact (below.optional place.environment value).bind fun _ => .refl _

theorem next_executeLoop (below : less.Below more) (place : Place) (condition : Expr)
    (body : Stmt) :
    Run.Below (less.next.executeLoop place condition body)
      (more.next.executeLoop place condition body) := by
  refine (below.evaluate place.environment condition).bind fun test => ?_
  cases test.face.isTruthy with
  | false => exact .refl _
  | true =>
      refine (below.execute place body).bind fun result => ?_
      obtain ⟨flow, after⟩ := result
      cases flow with
      | returned datum => exact .refl _
      | normal => exact below.executeLoop place condition body

/-- Rules that use better rules are better. -/
theorem next (below : less.Below more) : less.next.Below more.next where
  evaluate := below.next_evaluate
  evaluateAll environment exprs := by
    cases exprs with
    | nil => exact .refl _
    | cons expr rest =>
        refine (below.evaluate environment expr).bind fun _ => ?_
        exact (below.evaluateAll environment rest).bind fun _ => .refl _
  call := below.next_call
  invoke := below.next_invoke
  execute := below.next_execute
  executeLoop := below.next_executeLoop
  executeAll environment statements := by
    cases statements with
    | nil => exact .refl _
    | cons stmt rest =>
        refine (below.execute (.inside environment) stmt).bind fun result => ?_
        obtain ⟨flow, place⟩ := result
        cases flow with
        | returned datum => exact .refl _
        | normal => exact below.executeAll place.environment rest

theorem executeEach (below : less.Below more) (statements : List Stmt) :
    Run.Below (less.executeEach statements) (more.executeEach statements) := by
  induction statements with
  | nil => exact .refl _
  | cons stmt rest ih => exact (below.execute .top stmt).bind fun _ => ih

/-- A program that ends under the first rules ends in the same way under the second ones. -/
theorem run (below : less.Below more) {statements : List Stmt} {state : State}
    {ran : Option Fault × State} (ended : less.run statements state = some ran) :
    more.run statements state = some ran := by
  unfold Rules.run at ended ⊢
  rcases below.executeEach statements state with cut | same
  · rw [cut] at ended
    cases ended
  · rw [← same]
    exact ended

end Below

/-- More fuel changes no run of the reference that ends. -/
theorem reference_below {fuel more : Nat} (enough : fuel ≤ more) :
    (reference fuel).Below (reference more) := by
  induction fuel generalizing more with
  | zero => exact .spent _
  | succ fuel ih =>
      cases more with
      | zero => cases enough
      | succ more =>
          rw [reference_succ, reference_succ]
          exact (ih (Nat.le_of_succ_le_succ enough)).next

end Rules

end LexicalScript.Reference
