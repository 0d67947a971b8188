import LexicalScript.Proofs.RunPoints

/-!
What the rules of a run are made of.

Doing a task is a sequence of steps.  Some of them are the points that the task leads to, and the
others are basic: they read or bind a name, make an object, write, take note of something or apply
an operator.  The rules are gone through here once, so that whatever basic steps keep, and points
hand to their parts, holds of every rule by induction on its steps.
-/

set_option autoImplicit false

namespace LexicalScript

/-! ### Values at hand -/

/-- The value that a flow carries. -/
def Flow.Carries (flow : Flow) (value : Value) : Prop := flow = .returned value

/-- A result without values. -/
def Nothing {α : Type} (_ : α) (_ : Value) : Prop := False

/-- The values that the result of a task gives. -/
def Task.Gives : (task : Task) → task.Result → Value → Prop
  | .evaluate _ | .call _ _ _ | .invoke _ _ _ => Eq
  | .evaluateAll _ => fun values value => value ∈ values
  | .assign _ _ _ => Nothing
  | .execute _ | .cycle _ _ | .executeAll _ => Flow.Carries

/-- The values that the task is given are among those at hand. -/
def Task.Supplied (held : Value → Prop) : Task → Prop
  | .assign _ _ value => held value
  | .call callee arguments _ => held callee ∧ ∀ argument, argument ∈ arguments → held argument
  | .invoke callable arguments _ =>
      (∃ callee, held callee ∧ callee.callable? = some callable) ∧
        ∀ argument, argument ∈ arguments → held argument
  | _ => True

theorem Task.Supplied.mono {held held' : Value → Prop} {task : Task}
    (supplied : task.Supplied held) (more : ∀ value, held value → held' value) :
    task.Supplied held' := by
  cases task with
  | assign name depth value => exact more value supplied
  | call callee arguments paren =>
      exact ⟨more callee supplied.1, fun value member => more value (supplied.2 value member)⟩
  | invoke callable arguments paren =>
      obtain ⟨⟨callee, found, same⟩, each⟩ := supplied
      exact ⟨⟨callee, more callee found, same⟩, fun value member => more value (each value member)⟩
  | _ => trivial

/-! ### Results of operators -/

/-- A truth value, a number or a string. -/
def Value.Plain : Value → Prop
  | .bool _ | .number _ | .string _ => True
  | _ => False

theorem applyUnary_plain {operator : Token} {operand result : Value}
    (applied : applyUnary operator operand = .ok result) : result.Plain := by
  unfold applyUnary at applied
  split at applied
  · split at applied
    · cases applied
      trivial
    · cases applied
  · cases applied
    trivial
  · cases applied

theorem applyArithmetic_plain {operator : Token} {left right : Float} {result : Value}
    (applied : applyArithmetic operator left right = .ok result) : result.Plain := by
  unfold applyArithmetic at applied
  split at applied
  case h_3 =>
      split at applied
      · cases applied
      · cases applied
        trivial
  all_goals
    cases applied
    try trivial

theorem applyPlus_plain {operator : Token} {left right result : Value}
    (applied : applyPlus operator left right = .ok result) : result.Plain := by
  unfold applyPlus at applied
  split at applied
  all_goals
    cases applied
    try trivial

theorem applyBinary_plain {operator : Token} {left right result : Value}
    (applied : applyBinary operator left right = .ok result) : result.Plain := by
  unfold applyBinary at applied
  split at applied
  · exact applyPlus_plain applied
  · cases applied
    trivial
  · cases applied
    trivial
  · split at applied
    · exact applyArithmetic_plain applied
    · cases applied

theorem applyIndex_mem {bracket : Token} {object index result : Value}
    (applied : applyIndex bracket object index = .ok result) :
    ∃ identity elements, object = .list identity elements ∧ result ∈ elements := by
  unfold applyIndex at applied
  split at applied
  · rename_i identity elements
    split at applied
    · split at applied
      · rename_i element found
        cases applied
        obtain ⟨position, _, inside⟩ := Option.bind_eq_some_iff.mp found
        exact ⟨identity, elements, rfl, List.mem_of_getElem? inside⟩
      · cases applied
    · cases applied
  · cases applied

/-! ### Basic steps -/

/-- The step is one that the rule for the point takes by itself and that leaves the frames as they
are.  It starts from the machine and with the values at hand, and the values that its result gives
are named beside it. -/
inductive QuietStep (point : Point) (held : Value → Prop) (machine : Machine) :
    {α : Type} → Exec α → (α → Value → Prop) → Prop
  | exhausted {α : Type} {gives : α → Value → Prop} :
      QuietStep point held machine (Attempt.exhausted : Exec α) gives
  | pure {α : Type} {gives : α → Value → Prop} {result : α} :
      (∀ value, gives result value → held value ∨ value.Plain ∨ value = .nil) →
      QuietStep point held machine (Pure.pure result : Exec α) gives
  | note (event : Event) : QuietStep point held machine (Exec.note event) Nothing
  | notCallable {α : Type} {gives : α → Value → Prop} (line : Nat) :
      QuietStep point held machine (Exec.raise ⟨.notCallable, line⟩ : Exec α) gives
  | miscounted {α : Type} {gives : α → Value → Prop} (expected given line : Nat) :
      QuietStep point held machine (Exec.raise ⟨.arity expected given, line⟩ : Exec α) gives
  | unary {operator : Token} {operand : Expr} (value : Value) :
      point.task = .evaluate (.unary operator operand) →
      QuietStep point held machine (Exec.ofExcept (applyUnary operator value)) Eq
  | binary {left : Expr} {operator : Token} {right : Expr} (first second : Value) :
      point.task = .evaluate (.binary left operator right) →
      QuietStep point held machine (Exec.ofExcept (applyBinary operator first second)) Eq
  | index (bracket : Token) {object : Value} (position : Value) : held object →
      QuietStep point held machine (Exec.ofExcept (applyIndex bracket object position)) Eq
  | write {fuel : Nat} {expr : Expr} {start : Machine} {initializing : List (FrameId × String)}
      {value : Value} : point = ⟨fuel + 1, .execute (.print expr), start, initializing⟩ →
      LexicalScript.evaluate fuel expr start = .value value machine →
      QuietStep point held machine (Exec.write (value.text ++ "\n")) Nothing
  | read {fuel : Nat} {name : Token} {depth : Option Nat}
      {initializing : List (FrameId × String)} :
      point = ⟨fuel + 1, .evaluate (.reference name depth), machine, initializing⟩ →
      QuietStep point held machine (Exec.readVariable name depth) Eq
  | makeList {elements : List Value} : (∀ element, element ∈ elements → held element) →
      QuietStep point held machine (Exec.makeList elements) Eq
  | native {native : Native} {arguments : List Value} {paren : Token} :
      point.task = .invoke (.native native) arguments paren →
      (Task.invoke (.native native) arguments paren).Supplied held →
      QuietStep point held machine (callNative native arguments paren.line) Eq

/-- The step is one that the rule for the point takes by itself: a quiet one, or one that binds a
name. -/
inductive BasicStep (point : Point) (held : Value → Prop) (machine : Machine) :
    {α : Type} → Exec α → (α → Value → Prop) → Prop
  | quiet {α : Type} {action : Exec α} {gives : α → Value → Prop} :
      QuietStep point held machine action gives → BasicStep point held machine action gives
  | assign {fuel : Nat} {name : Token} {depth : Option Nat} {value : Value}
      {initializing : List (FrameId × String)} :
      point = ⟨fuel, .assign name depth value, machine, initializing⟩ → held value →
      BasicStep point held machine (Exec.assignVariable name depth value) Nothing
  | define {stmt : Stmt} {name : Token} {value : Value} : point.task = .execute stmt →
      stmt.declared? = some name → held value ∨ value = .nil →
      BasicStep point held machine (Exec.defineVariable name.lexeme value) Nothing
  | declare {name : Token} {parameters : List Token} {body : List Stmt} :
      point.task = .execute (.function name parameters body) →
      BasicStep point held machine (Exec.makeFunction ⟨name, parameters, body⟩ >>=
        Exec.defineVariable name.lexeme) Nothing

/-! ### What quiet steps leave and give -/

/-- The later machine has the frames of the earlier one, with the same ones global and active. -/
structure Machine.SameFrames (machine later : Machine) : Prop where
  globals : later.globals = machine.globals
  active : later.active = machine.active
  frames : later.store.frames = machine.store.frames

/-- The value is put together from values at hand, from stored ones and from plain ones. -/
inductive Value.Obtained (held : Value → Prop) (machine : Machine) : Value → Prop
  | held {value : Value} : held value → Obtained held machine value
  | plain {value : Value} : value.Plain ∨ value = .nil → Obtained held machine value
  | stored {name : Token} {depth : Option Nat} {owner : FrameId} {value : Value} :
      Exec.target? machine name depth = some owner →
      machine.store.local? owner name.lexeme = some value → Obtained held machine value
  | element {identity : Identity} {elements : List Value} {value : Value} :
      Obtained held machine (.list identity elements) → value ∈ elements →
      Obtained held machine value
  | list {identity : Identity} {elements : List Value} :
      (∀ value, value ∈ elements → Obtained held machine value) →
      Obtained held machine (.list identity elements)

theorem Value.Obtained.ofLiteral {held : Value → Prop} {machine : Machine} (literal : Literal) :
    (Value.ofLiteral literal).Obtained held machine := by
  cases literal with
  | nil => exact .plain (Or.inr rfl)
  | _ => exact .plain (Or.inl trivial)

/-- An element is obtained with its list, and nil where there is none. -/
theorem Value.Obtained.getD {held : Value → Prop} {machine : Machine} {values : List Value}
    (each : ∀ value, value ∈ values → value.Obtained held machine) (position : Nat) :
    (values.getD position .nil).Obtained held machine := by
  rw [List.getD_eq_getElem?_getD]
  cases found : values[position]? with
  | none => exact .plain (Or.inr rfl)
  | some value => exact each value (List.mem_of_getElem? found)

theorem Value.Obtained.elements {held : Value → Prop} {machine : Machine} {value : Value}
    (obtained : value.Obtained held machine) :
    ∀ element, element ∈ value.elements → element.Obtained held machine := by
  intro element member
  cases value with
  | list identity elements => exact .element obtained member
  | _ => cases member

section

variable {held : Value → Prop} {machine : Machine} {arguments : List Value}

mutual

/-- The host puts its replies together from its arguments. -/
theorem Reply.build_obtained (reply : Reply)
    (each : ∀ value, value ∈ arguments → held value) (fresh : Identity) :
    (reply.build arguments fresh).1.Obtained held machine := by
  cases reply with
  | literal value => exact .ofLiteral value
  | argument position => exact .getD (fun value member => .held (each value member)) position
  | element object position => exact .getD (object.build_obtained each fresh).elements position
  | list elements => exact .list (Reply.buildAll_obtained elements each fresh)

theorem Reply.buildAll_obtained (replies : List Reply)
    (each : ∀ value, value ∈ arguments → held value) (fresh : Identity) :
    ∀ value, value ∈ (Reply.buildAll arguments replies fresh).1 → value.Obtained held machine := by
  cases replies with
  | nil => exact fun _ member => nomatch member
  | cons reply rest =>
      intro value member
      rcases List.mem_cons.mp member with rfl | later
      · exact reply.build_obtained each fresh
      · exact Reply.buildAll_obtained rest each _ value later

end

end

/-- However the step ends, the machine keeps its frames, and the values that the result gives are
obtained from those at hand. -/
def Exec.Obtains {α : Type} (action : Exec α) (machine : Machine) (held : Value → Prop)
    (gives : α → Value → Prop) : Prop :=
  (action machine).Meets
    (fun result later => machine.SameFrames later ∧
      ∀ value, gives result value → value.Obtained held machine)
    (fun _ later => machine.SameFrames later)

theorem Exec.stored_of_lookup {store : Store} {name : Token} {found : Option FrameId}
    {value : Value} {error : RuntimeError}
    (read : (match found.bind fun owner => store.local? owner name.lexeme with
      | some value => .ok value
      | none => .error error : Except RuntimeError Value) = .ok value) :
    ∃ owner, found = some owner ∧ store.local? owner name.lexeme = some value := by
  split at read
  · rename_i other inside
    cases read
    exact Option.bind_eq_some_iff.mp inside
  · cases read

namespace Exec.Obtains

variable {α : Type} {machine : Machine} {held : Value → Prop} {gives : α → Value → Prop}

theorem pure {result : α}
    (obtained : ∀ value, gives result value → value.Obtained held machine) :
    (Pure.pure result : Exec α).Obtains machine held gives :=
  ⟨⟨rfl, rfl, rfl⟩, obtained⟩

theorem raise (error : RuntimeError) : (Exec.raise error : Exec α).Obtains machine held gives :=
  ⟨rfl, rfl, rfl⟩

theorem ofExcept {outcome : Except RuntimeError α}
    (obtained : ∀ result, outcome = .ok result → ∀ value, gives result value →
      value.Obtained held machine) :
    (Exec.ofExcept outcome).Obtains machine held gives := by
  cases outcome with
  | ok result => exact pure (obtained result rfl)
  | error error => exact raise error

theorem write (text : String) : (Exec.write text).Obtains machine held Nothing := by
  unfold Obtains Exec.write
  obtain ⟨error, sink⟩ := machine.sink.write text
  cases error with
  | none => exact ⟨⟨rfl, rfl, rfl⟩, fun _ none => none.elim⟩
  | some error => exact ⟨rfl, rfl, rfl⟩

theorem readVariable (name : Token) (depth : Option Nat) :
    (Exec.readVariable name depth).Obtains machine held Eq := by
  have obtained {outcome : Except RuntimeError Value}
      (stored : ∀ value, outcome = .ok value → ∃ owner,
        Exec.target? machine name depth = some owner ∧
          machine.store.local? owner name.lexeme = some value) :
      (Exec.ofExcept outcome).Obtains machine held Eq := by
    refine ofExcept fun value read => ?_
    rintro _ rfl
    obtain ⟨owner, reached, bound⟩ := stored value read
    exact .stored reached bound
  cases depth with
  | some hops => exact obtained fun _ => stored_of_lookup
  | none => exact obtained fun _ => stored_of_lookup

theorem makeList {elements : List Value} (each : ∀ value, value ∈ elements → held value) :
    (Exec.makeList elements).Obtains machine held Eq := by
  refine ⟨⟨rfl, rfl, rfl⟩, ?_⟩
  rintro _ rfl
  exact .list fun value member => .held (each value member)

theorem callNative (native : Native) {arguments : List Value} (line : Nat)
    (each : ∀ value, value ∈ arguments → held value) :
    (callNative native arguments line).Obtains machine held Eq := by
  unfold Obtains LexicalScript.callNative
  rw [Attempt.bind_apply]
  cases native.action with
  | readClock =>
      dsimp only [Exec.note, Exec.readClock]
      obtain ⟨reading, clock⟩ := (machine.note (.nativeCalled native.name)).clock.read
      cases reading with
      | error problem => exact ⟨rfl, rfl, rfl⟩
      | ok seconds =>
          refine ⟨⟨rfl, rfl, rfl⟩, ?_⟩
          rintro _ rfl
          exact .plain (Or.inl trivial)
  | answer host =>
      dsimp only
      cases host (Value.viewAll arguments) with
      | error message => exact ⟨rfl, rfl, rfl⟩
      | ok reply =>
          refine ⟨⟨rfl, rfl, rfl⟩, ?_⟩
          rintro _ rfl
          exact reply.build_obtained each _

end Exec.Obtains

theorem QuietStep.obtains {α : Type} {point : Point} {held : Value → Prop} {machine : Machine}
    {action : Exec α} {gives : α → Value → Prop}
    (step : QuietStep point held machine action gives) :
    action.Obtains machine held gives := by
  cases step with
  | exhausted => trivial
  | pure known =>
      refine .pure fun value gives => ?_
      rcases known value gives with found | plain
      · exact .held found
      · exact .plain plain
  | note event => exact ⟨⟨rfl, rfl, rfl⟩, fun _ none => none.elim⟩
  | notCallable line | miscounted expected given line => exact .raise _
  | unary value =>
      refine .ofExcept fun result applied => ?_
      rintro _ rfl
      exact .plain (Or.inl (applyUnary_plain applied))
  | binary first second =>
      refine .ofExcept fun result applied => ?_
      rintro _ rfl
      exact .plain (Or.inl (applyBinary_plain applied))
  | index bracket position found =>
      refine .ofExcept fun result applied => ?_
      rintro _ rfl
      obtain ⟨identity, elements, rfl, member⟩ := applyIndex_mem applied
      exact .element (.held found) member
  | write => exact .write _
  | read => exact .readVariable _ _
  | makeList each => exact .makeList each
  | native _ supplied => exact .callNative _ _ supplied.2

/-! ### Steps of a rule -/

/-- From the machine and with the values at hand, the step is put together from basic steps of the
rule for the point and from points that it enters, which are among the parts. -/
inductive RuleSteps (point : Point) : {α : Type} → (Value → Prop) → Machine → Exec α →
    (α → Value → Prop) → (Point → Prop) → Prop
  | basic {α : Type} {held : Value → Prop} {machine : Machine} {action : Exec α}
      {gives : α → Value → Prop} : BasicStep point held machine action gives →
      RuleSteps point held machine action gives fun _ => False
  | part {held : Value → Prop} {part : Point} : point.Enters part → part.task.Supplied held →
      RuleSteps point held part.machine (part.task.run part.fuel) part.task.Gives (· = part)
  | bind {α β : Type} {held : Value → Prop} {machine : Machine} {action : Exec α}
      {next : α → Exec β} {gives : α → Value → Prop} {gives' : β → Value → Prop}
      {parts : Point → Prop} {rest : α → Machine → Point → Prop} :
      RuleSteps point held machine action gives parts →
      (∀ result later, action machine = .value result later →
        RuleSteps point (fun value => held value ∨ gives result value) later (next result) gives'
          (rest result later)) →
      RuleSteps point held machine (action >>= next) gives' fun place => parts place ∨
        ∃ result later, action machine = .value result later ∧ rest result later place
  | block {held : Value → Prop} {fuel : Nat} {machine : Machine} {body : List Stmt}
      {initializing : List (FrameId × String)} :
      point = ⟨fuel + 1, .execute (.block body), machine, initializing⟩ →
      RuleSteps point held machine
        (Exec.nestedFrame >>= fun frame =>
          Exec.within frame (LexicalScript.executeAll fuel body))
        Flow.Carries (· = ⟨fuel, .executeAll body, machine.enterBlock, initializing⟩)
  | body {held : Value → Prop} {fuel : Nat} {machine : Machine} {declaration : Declaration}
      {closure : FrameId} {arguments : List Value} {paren : Token}
      {initializing : List (FrameId × String)} :
      point = ⟨fuel + 1, .invoke (.function declaration closure) arguments paren, machine,
        initializing⟩ →
      (Task.invoke (.function declaration closure) arguments paren).Supplied held →
      RuleSteps point held (machine.note (.functionCalled declaration.name.lexeme))
        (Exec.callFrame declaration closure arguments >>= fun frame =>
          Exec.within frame (LexicalScript.executeAll fuel declaration.body))
        Flow.Carries (· = ⟨fuel, .executeAll declaration.body,
          (machine.note (.functionCalled declaration.name.lexeme)).enterCall declaration closure
            arguments, initializing⟩)
  | fewer {α : Type} {held : Value → Prop} {machine : Machine} {action : Exec α}
      {gives : α → Value → Prop} {parts parts' : Point → Prop} :
      RuleSteps point held machine action gives parts → (∀ place, parts' place → parts place) →
      RuleSteps point held machine action gives parts'

namespace RuleSteps

variable {α β : Type} {point : Point} {held : Value → Prop} {machine : Machine}
  {gives : α → Value → Prop} {parts parts' : Point → Prop} {fuel : Nat}
  {initializing : List (FrameId × String)}

theorem quiet {action : Exec α} (step : QuietStep point held machine action gives) :
    RuleSteps point held machine action gives fun _ => False :=
  .basic (.quiet step)

/-! ### Parts by their rules -/

theorem evaluate {expr : Expr}
    (enters : point.Enters ⟨fuel, .evaluate expr, machine, initializing⟩) :
    RuleSteps point held machine (LexicalScript.evaluate fuel expr) Eq
      (· = ⟨fuel, .evaluate expr, machine, initializing⟩) :=
  .part enters trivial

theorem evaluateAll {exprs : List Expr}
    (enters : point.Enters ⟨fuel, .evaluateAll exprs, machine, initializing⟩) :
    RuleSteps point held machine (LexicalScript.evaluateAll fuel exprs)
      (fun values value => value ∈ values)
      (· = ⟨fuel, .evaluateAll exprs, machine, initializing⟩) :=
  .part enters trivial

theorem assign {name : Token} {depth : Option Nat} {value : Value}
    (enters : point.Enters ⟨fuel, .assign name depth value, machine, initializing⟩)
    (found : held value) :
    RuleSteps point held machine (Exec.assignVariable name depth value) Nothing
      (· = ⟨fuel, .assign name depth value, machine, initializing⟩) :=
  .part enters found

theorem callCounted {callee : Value} {arguments : List Value} {paren : Token}
    (enters : point.Enters ⟨fuel, .call callee arguments paren, machine, initializing⟩)
    (found : held callee) (each : ∀ argument, argument ∈ arguments → held argument) :
    RuleSteps point held machine (LexicalScript.callCounted fuel callee arguments paren) Eq
      (· = ⟨fuel, .call callee arguments paren, machine, initializing⟩) :=
  .part enters ⟨found, each⟩

theorem invoke {callable : Callable} {arguments : List Value} {paren : Token}
    (enters : point.Enters ⟨fuel, .invoke callable arguments paren, machine, initializing⟩)
    (supplied : (Task.invoke callable arguments paren).Supplied held) :
    RuleSteps point held machine (LexicalScript.invoke fuel callable arguments paren) Eq
      (· = ⟨fuel, .invoke callable arguments paren, machine, initializing⟩) :=
  .part enters supplied

theorem execute {stmt : Stmt}
    (enters : point.Enters ⟨fuel, .execute stmt, machine, initializing⟩) :
    RuleSteps point held machine (LexicalScript.execute fuel stmt) Flow.Carries
      (· = ⟨fuel, .execute stmt, machine, initializing⟩) :=
  .part enters trivial

theorem executeLoop {condition : Expr} {body : Stmt}
    (enters : point.Enters ⟨fuel, .cycle condition body, machine, initializing⟩) :
    RuleSteps point held machine (LexicalScript.executeLoop fuel condition body) Flow.Carries
      (· = ⟨fuel, .cycle condition body, machine, initializing⟩) :=
  .part enters trivial

theorem executeAll {statements : List Stmt}
    (enters : point.Enters ⟨fuel, .executeAll statements, machine, initializing⟩) :
    RuleSteps point held machine (LexicalScript.executeAll fuel statements) Flow.Carries
      (· = ⟨fuel, .executeAll statements, machine, initializing⟩) :=
  .part enters trivial

/-! ### Choices -/

theorem andThen {action : Exec α} {next : α → Exec β} {gives' : β → Value → Prop}
    (first : RuleSteps point held machine action gives parts)
    (after : ∀ result later, action machine = .value result later →
      RuleSteps point (fun value => held value ∨ gives result value) later (next result) gives'
        fun _ => False) :
    RuleSteps point held machine (action >>= next) gives' parts :=
  .fewer (.bind first after) fun _ => Or.inl

theorem choice {chosen : Bool} {first second : Exec α}
    (left : chosen = true → RuleSteps point held machine first gives parts)
    (right : chosen = false → RuleSteps point held machine second gives parts') :
    RuleSteps point held machine (if chosen then first else second) gives fun place =>
      (chosen = true ∧ parts place) ∨ (chosen = false ∧ parts' place) := by
  cases chosen with
  | true =>
      refine .fewer (left rfl) ?_
      rintro place (⟨_, among⟩ | ⟨impossible, _⟩)
      · exact among
      · cases impossible
  | false =>
      refine .fewer (right rfl) ?_
      rintro place (⟨impossible, _⟩ | ⟨_, among⟩)
      · cases impossible
      · exact among

theorem unlessReturned {rest : Exec Flow} (flow : Flow)
    (carried : ∀ value, flow.Carries value → held value)
    (others : flow = .normal → RuleSteps point held machine rest Flow.Carries parts) :
    RuleSteps point held machine (match flow with
      | .returned value => return .returned value
      | .normal => rest) Flow.Carries fun place => flow = .normal ∧ parts place := by
  cases flow with
  | returned value =>
      refine .fewer (.quiet (.pure fun other carries => Or.inl (carried other carries))) ?_
      rintro place ⟨impossible, _⟩
      cases impossible
  | normal => exact .fewer (others rfl) fun place both => both.2

theorem finished : RuleSteps point held machine (pure Flow.normal) Flow.Carries fun _ => False :=
  .quiet (.pure fun _ carries => nomatch carries)

end RuleSteps

/-! ### Rules -/

section Rules

variable {held : Value → Prop} {fuel : Nat} {machine : Machine}
  {initializing : List (FrameId × String)}

open RuleSteps

theorem access_steps {point : Point} (bracket : Token) {object : Value} (position : Value)
    (found : held object) :
    RuleSteps point held machine (do
      match object with
      | .list .. => pure ()
      | _ => Exec.note (.indexRefused object.typeName)
      Exec.ofExcept (applyIndex bracket object position)) Eq fun _ => False := by
  have refused : RuleSteps point held machine
      (Exec.note (.indexRefused object.typeName) >>= fun _ =>
        Exec.ofExcept (applyIndex bracket object position)) Eq fun _ => False :=
    .andThen (.quiet (.note _)) fun _ _ _ => .quiet (.index bracket position (Or.inl found))
  cases object with
  | list identity elements => exact .quiet (.index bracket position found)
  | _ => exact refused

theorem evaluate_steps (expr : Expr) :
    RuleSteps ⟨fuel + 1, .evaluate expr, machine, initializing⟩ held machine
      (evaluate (fuel + 1) expr) Eq
      (Point.Enters ⟨fuel + 1, .evaluate expr, machine, initializing⟩) := by
  cases expr with
  | literal value =>
      have plain : (Value.ofLiteral value).Plain ∨ Value.ofLiteral value = .nil := by
        cases value with
        | nil => exact Or.inr rfl
        | _ => exact Or.inl trivial
      refine .fewer (.quiet (.pure ?_)) (by rintro place ⟨⟩)
      rintro _ rfl
      exact Or.inr plain
  | grouping inner =>
      have inside : RuleSteps ⟨fuel + 1, .evaluate (.grouping inner), machine, initializing⟩ held
          machine (evaluate fuel inner) Eq _ := .evaluate .grouping
      refine .fewer inside ?_
      rintro place ⟨⟩
      rfl
  | unary operator operand =>
      refine .fewer (.andThen (.evaluate .unary) fun value later _ =>
        .quiet (.unary value rfl)) ?_
      rintro place ⟨⟩
      rfl
  | binary left operator right =>
      refine .fewer (.bind (.evaluate .binaryLeft) fun first later ended =>
        .andThen (.evaluate (.binaryRight ended)) fun second last _ =>
          .quiet (.binary first second rfl)) ?_
      rintro place enters
      cases enters with
      | binaryLeft => exact Or.inl rfl
      | binaryRight ended => exact Or.inr ⟨_, _, ended, rfl⟩
  | logical left operator right =>
      refine .fewer (.bind (.evaluate .logicalLeft) fun first later ended =>
        .choice (fun _ => .quiet (.pure fun value same => Or.inl (Or.inr same))) fun settled =>
          .evaluate (.logicalRight ended settled)) ?_
      rintro place enters
      cases enters with
      | logicalLeft => exact Or.inl rfl
      | logicalRight ended settled => exact Or.inr ⟨_, _, ended, Or.inr ⟨settled, rfl⟩⟩
  | reference name depth => exact .fewer (.quiet (.read rfl)) (by rintro place ⟨⟩)
  | assign name value depth =>
      refine .fewer (.bind (.evaluate .assigned) fun result later ended =>
        .andThen (.assign (.assign ended) (Or.inr rfl)) fun _ last _ =>
          .quiet (.pure fun other same => Or.inl (Or.inl (Or.inr same)))) ?_
      rintro place enters
      cases enters with
      | assigned => exact Or.inl rfl
      | assign ended => exact Or.inr ⟨_, _, ended, rfl⟩
  | call callee paren arguments =>
      refine .fewer (.bind (.evaluate .callee) fun function later ended =>
        .bind (.evaluateAll (.arguments ended)) fun values last ended' =>
          .callCounted (.call ended ended') (Or.inl (Or.inr rfl)) fun _ => Or.inr) ?_
      rintro place enters
      cases enters with
      | callee => exact Or.inl rfl
      | arguments ended => exact Or.inr ⟨_, _, ended, Or.inl rfl⟩
      | call ended ended' => exact Or.inr ⟨_, _, ended, Or.inr ⟨_, _, ended', rfl⟩⟩
  | list bracket elements =>
      refine .fewer (.andThen (.evaluateAll .elements) fun values later _ =>
        .quiet (.makeList fun _ => Or.inr)) ?_
      rintro place ⟨⟩
      rfl
  | index object bracket position =>
      refine .fewer (.bind (.evaluate .object) fun list later ended =>
        .andThen (.evaluate (.position ended)) fun number last _ =>
          access_steps bracket number (Or.inl (Or.inr rfl))) ?_
      rintro place enters
      cases enters with
      | object => exact Or.inl rfl
      | position ended => exact Or.inr ⟨_, _, ended, rfl⟩

theorem evaluateAll_steps (exprs : List Expr) :
    RuleSteps ⟨fuel + 1, .evaluateAll exprs, machine, initializing⟩ held machine
      (evaluateAll (fuel + 1) exprs) (fun values value => value ∈ values)
      (Point.Enters ⟨fuel + 1, .evaluateAll exprs, machine, initializing⟩) := by
  cases exprs with
  | nil => exact .fewer (.quiet (.pure fun _ member => nomatch member)) (by rintro place ⟨⟩)
  | cons expr rest =>
      refine .fewer (.bind (.evaluate .firstValue) fun first later ended =>
        .andThen (.evaluateAll (.otherValues ended)) fun values last _ =>
          .quiet (.pure fun value member => Or.inl ?_)) ?_
      · rcases List.mem_cons.mp member with same | among
        · exact Or.inl (Or.inr same.symm)
        · exact Or.inr among
      · rintro place enters
        cases enters with
        | firstValue => exact Or.inl rfl
        | otherValues ended => exact Or.inr ⟨_, _, ended, rfl⟩

theorem call_steps {callee : Value} {arguments : List Value} {paren : Token}
    (supplied : (Task.call callee arguments paren).Supplied held) :
    RuleSteps ⟨fuel + 1, .call callee arguments paren, machine, initializing⟩ held machine
      (callCounted (fuel + 1) callee arguments paren) Eq
      (Point.Enters ⟨fuel + 1, .call callee arguments paren, machine, initializing⟩) := by
  unfold callCounted
  cases found : callee.callable? with
  | none =>
      refine .fewer (.andThen (.quiet (.note _)) fun _ _ _ => .quiet (.notCallable _)) ?_
      rintro place enters
      cases enters with
      | invoke found' => cases found.symm.trans found'
  | some callable =>
      dsimp only
      by_cases counted : arguments.length = callable.arity
      · rw [if_pos counted]
        refine .fewer (.andThen
          (.invoke (.invoke found counted) ⟨⟨callee, supplied.1, found⟩, supplied.2⟩)
          fun result later _ => .andThen (.quiet (.note _)) fun _ _ _ =>
            .quiet (.pure fun value same => Or.inl (Or.inl (Or.inr same)))) ?_
        rintro place enters
        cases enters with
        | invoke found' =>
            cases found.symm.trans found'
            rfl
      · rw [if_neg counted]
        refine .fewer (.quiet (.miscounted _ _ _)) ?_
        rintro place enters
        cases enters with
        | invoke found' counted' =>
            cases found.symm.trans found'
            exact counted counted'

theorem returned_steps {point : Point} (flow : Flow)
    (carried : ∀ value, flow.Carries value → held value) :
    RuleSteps point held machine (match flow with
      | .returned value => pure value
      | .normal => pure .nil) Eq fun _ => False := by
  cases flow with
  | normal =>
      refine .quiet (.pure ?_)
      rintro value rfl
      exact Or.inr (Or.inr rfl)
  | returned value =>
      refine .quiet (.pure ?_)
      rintro other rfl
      exact Or.inl (carried value rfl)

theorem called_steps {declaration : Declaration} {closure : FrameId} {arguments : List Value}
    {paren : Token} {result : Unit} {later : Machine}
    (supplied : (Task.invoke (.function declaration closure) arguments paren).Supplied held)
    (noted : Exec.note (.functionCalled declaration.name.lexeme) machine = .value result later) :
    RuleSteps ⟨fuel + 1, .invoke (.function declaration closure) arguments paren, machine,
        initializing⟩ held later (do
      let frame ← Exec.callFrame declaration closure arguments
      match ← Exec.within frame (executeAll fuel declaration.body) with
      | .returned value => return value
      | .normal => return .nil) Eq
      (· = ⟨fuel, .executeAll declaration.body, later.enterCall declaration closure arguments,
        initializing⟩) := by
  cases noted
  rw [← bind_assoc]
  exact .andThen (.body rfl supplied) fun flow _ _ => returned_steps flow fun _ => Or.inr

theorem invoke_steps {callable : Callable} {arguments : List Value} {paren : Token}
    (supplied : (Task.invoke callable arguments paren).Supplied held) :
    RuleSteps ⟨fuel + 1, .invoke callable arguments paren, machine, initializing⟩ held machine
      (invoke (fuel + 1) callable arguments paren) Eq
      (Point.Enters ⟨fuel + 1, .invoke callable arguments paren, machine, initializing⟩) := by
  cases callable with
  | native native => exact .fewer (.quiet (.native rfl supplied)) (by rintro place ⟨⟩)
  | function declaration closure =>
      refine .fewer (.bind (.quiet (.note _)) fun _ _ noted =>
        called_steps (supplied.mono fun _ => Or.inl) noted) ?_
      rintro place ⟨⟩
      exact Or.inr ⟨_, _, rfl, rfl⟩

theorem bindVariable_steps {point : Point} {name : Token} {initializer : Option Expr}
    {value : Value} (same : point.task = .execute (.var name initializer))
    (found : held value ∨ value = .nil) :
    RuleSteps point held machine (do
      Exec.note (.variableDefined name.lexeme value)
      Exec.defineVariable name.lexeme value
      return Flow.normal) Flow.Carries fun _ => False :=
  .andThen (.quiet (.note _)) fun _ _ _ =>
    .andThen (.basic (.define same rfl (found.imp_left Or.inl))) fun _ _ _ => .finished

theorem execute_steps (stmt : Stmt) :
    RuleSteps ⟨fuel + 1, .execute stmt, machine, initializing⟩ held machine
      (execute (fuel + 1) stmt) Flow.Carries
      (Point.Enters ⟨fuel + 1, .execute stmt, machine, initializing⟩) := by
  cases stmt with
  | expression expr =>
      refine .fewer (.andThen (.evaluate .expression) fun _ _ _ => .finished) ?_
      rintro place ⟨⟩
      rfl
  | print expr =>
      refine .fewer (.andThen (.evaluate .print) fun value later ended =>
        .andThen (.quiet (.write rfl ended)) fun _ _ _ => .finished) ?_
      rintro place ⟨⟩
      rfl
  | var name initializer =>
      cases initializer with
      | none => exact .fewer (bindVariable_steps rfl (Or.inr rfl)) (by rintro place ⟨⟩)
      | some expr =>
          refine .fewer (.andThen (.evaluate .initializer) fun value later _ =>
            bindVariable_steps rfl (Or.inl (Or.inr rfl))) ?_
          rintro place ⟨⟩
          rfl
  | block body =>
      refine .fewer (.block rfl) ?_
      rintro place ⟨⟩
      rfl
  | conditional condition thenBranch elseBranch =>
      cases elseBranch with
      | none =>
          refine .fewer (.bind (.evaluate .test) fun test later ended =>
            .choice (fun holds => .execute (.thenBranch ended holds)) fun _ => .finished) ?_
          rintro place enters
          cases enters with
          | test => exact Or.inl rfl
          | thenBranch ended holds => exact Or.inr ⟨_, _, ended, Or.inl ⟨holds, rfl⟩⟩
      | some branch =>
          refine .fewer (.bind (.evaluate .test) fun test later ended =>
            .choice (fun holds => .execute (.thenBranch ended holds)) fun fails =>
              .execute (.elseBranch ended fails)) ?_
          rintro place enters
          cases enters with
          | test => exact Or.inl rfl
          | thenBranch ended holds => exact Or.inr ⟨_, _, ended, Or.inl ⟨holds, rfl⟩⟩
          | elseBranch ended fails => exact Or.inr ⟨_, _, ended, Or.inr ⟨fails, rfl⟩⟩
  | loop condition body =>
      refine .fewer (.executeLoop .loop) ?_
      rintro place ⟨⟩
      rfl
  | function name parameters body =>
      have declared : RuleSteps ⟨fuel + 1, .execute (.function name parameters body), machine,
          initializing⟩ held machine (do
            Exec.note (.functionDefined name.lexeme parameters.length)
            Exec.makeFunction ⟨name, parameters, body⟩ >>= Exec.defineVariable name.lexeme
            return Flow.normal) Flow.Carries fun _ => False :=
        .andThen (.quiet (.note _)) fun _ _ _ =>
          .andThen (.basic (.declare rfl)) fun _ _ _ => .finished
      simp only [bind_assoc] at declared
      exact .fewer declared (by rintro place ⟨⟩)
  | returnValue keyword value =>
      cases value with
      | none =>
          refine .fewer (.quiet (.pure ?_)) (by rintro place ⟨⟩)
          rintro value ⟨⟩
          exact Or.inr (Or.inr rfl)
      | some expr =>
          refine .fewer (.andThen (.evaluate .returned) fun result later _ =>
            .quiet (.pure ?_)) ?_
          · rintro value ⟨⟩
            exact Or.inl (Or.inr rfl)
          · rintro place ⟨⟩
            rfl

theorem cycle_steps (condition : Expr) (body : Stmt) :
    RuleSteps ⟨fuel + 1, .cycle condition body, machine, initializing⟩ held machine
      (executeLoop (fuel + 1) condition body) Flow.Carries
      (Point.Enters ⟨fuel + 1, .cycle condition body, machine, initializing⟩) := by
  refine .fewer (.bind (.evaluate .cycleTest) fun test later ended =>
    .choice
      (fun holds => .bind (.execute (.cycleBody ended holds)) fun flow last ended' =>
        .unlessReturned flow (fun _ => Or.inr) fun normal =>
          .executeLoop (.cycleAgain ended holds (normal ▸ ended')))
      fun _ => .finished) ?_
  rintro place enters
  cases enters with
  | cycleTest => exact Or.inl rfl
  | cycleBody ended holds => exact Or.inr ⟨_, _, ended, Or.inl ⟨holds, Or.inl rfl⟩⟩
  | cycleAgain ended holds ended' =>
      exact Or.inr ⟨_, _, ended, Or.inl ⟨holds, Or.inr ⟨_, _, ended', rfl, rfl⟩⟩⟩

theorem executeAll_steps (statements : List Stmt) :
    RuleSteps ⟨fuel + 1, .executeAll statements, machine, initializing⟩ held machine
      (executeAll (fuel + 1) statements) Flow.Carries
      (Point.Enters ⟨fuel + 1, .executeAll statements, machine, initializing⟩) := by
  cases statements with
  | nil => exact .fewer .finished (by rintro place ⟨⟩)
  | cons stmt rest =>
      refine .fewer (.bind (.execute .firstStatement) fun flow later ended =>
        .unlessReturned flow (fun _ => Or.inr) fun normal =>
          .executeAll (.otherStatements (normal ▸ ended))) ?_
      rintro place enters
      cases enters with
      | firstStatement => exact Or.inl rfl
      | otherStatements ended => exact Or.inr ⟨_, _, ended, rfl, rfl⟩

end Rules

/-- Every task is done in basic steps and in the points that it enters. -/
theorem Point.ruleSteps (point : Point) {held : Value → Prop}
    (supplied : point.task.Supplied held) :
    RuleSteps point held point.machine (point.task.run point.fuel) point.task.Gives
      point.Enters := by
  obtain ⟨fuel, task, machine, initializing⟩ := point
  cases fuel with
  | zero =>
      cases task with
      | assign name depth value =>
          exact .fewer (.basic (.assign rfl supplied)) (by rintro place ⟨⟩)
      | _ => exact .fewer (.quiet .exhausted) (by rintro place ⟨⟩)
  | succ fuel =>
      cases task with
      | evaluate expr => exact evaluate_steps expr
      | evaluateAll exprs => exact evaluateAll_steps exprs
      | assign name depth value =>
          exact .fewer (.basic (.assign rfl supplied)) (by rintro place ⟨⟩)
      | call callee arguments paren => exact call_steps supplied
      | invoke callable arguments paren => exact invoke_steps supplied
      | execute stmt => exact execute_steps stmt
      | cycle condition body => exact cycle_steps condition body
      | executeAll statements => exact executeAll_steps statements

/-! ### Where faults come from -/

theorem Exec.lookup_error? {name : Token} {depth : Option Nat} {machine : Machine}
    {found : Option Value} {fault : Fault}
    (failed : (Exec.ofExcept (match found with
      | some value => .ok value
      | none => .error (Store.undefinedVariable name depth)) machine).error? = some fault) :
    fault = .runtime (Store.undefinedVariable name depth) := by
  cases found with
  | some value => cases failed
  | none =>
      cases failed
      rfl

theorem Exec.readVariable_error? {name : Token} {depth : Option Nat} {machine : Machine}
    {fault : Fault} (failed : (Exec.readVariable name depth machine).error? = some fault) :
    fault = .runtime (Store.undefinedVariable name depth) := by
  cases depth with
  | none => exact lookup_error? failed
  | some hops => exact lookup_error? failed

theorem Exec.assignVariable_error? {name : Token} {depth : Option Nat} {value : Value}
    {machine : Machine} {fault : Fault}
    (failed : (Exec.assignVariable name depth value machine).error? = some fault) :
    fault = .runtime (Store.undefinedVariable name depth) := by
  unfold Exec.assignVariable at failed
  split at failed
  · cases failed
  · cases failed
    rfl

/-- A native function fails at the line of the call and with a message of its own, which the clock
begins in its own way. -/
theorem callNative_error? {native : Native} {arguments : List Value} {line : Nat}
    {machine : Machine} {fault : Fault}
    (failed : (callNative native arguments line machine).error? = some fault) :
    ∃ message, fault = .runtime ⟨.native message, line⟩ ∧
      (native.action = .readClock → ∃ problem, message = "Clock error: " ++ problem) := by
  rcases Outcome.error?_bind failed with none | ⟨_, later, _, failed⟩
  · cases none
  · cases action : native.action with
    | readClock =>
        rw [action] at failed
        dsimp only [Exec.readClock] at failed
        cases reading : later.clock.read.1 with
        | ok seconds =>
            rw [reading] at failed
            cases failed
        | error problem =>
            rw [reading] at failed
            cases failed
            exact ⟨_, rfl, fun _ => ⟨problem, rfl⟩⟩
    | answer host =>
        rw [action] at failed
        dsimp only at failed
        cases replied : host (Value.viewAll arguments) with
        | ok reply =>
            rw [replied] at failed
            cases failed
        | error message =>
            rw [replied] at failed
            cases failed
            exact ⟨message, rfl, fun impossible => nomatch impossible⟩

/-- A basic step of the point fails. -/
def Point.Raises (point : Point) (fault : Fault) : Prop :=
  ∃ (α : Type) (held : Value → Prop) (machine : Machine) (action : Exec α)
    (gives : α → Value → Prop),
    BasicStep point held machine action gives ∧ (action machine).error? = some fault

theorem error?_within {α : Type} {frame : FrameId} {body : Exec α} {machine : Machine} :
    (Exec.within frame body machine).error? = (body { machine with active := frame }).error? := by
  unfold Exec.within
  dsimp only
  cases body { machine with active := frame } <;> rfl

theorem RuleSteps.raises {α : Type} {point : Point} {held : Value → Prop} {machine : Machine}
    {action : Exec α} {gives : α → Value → Prop} {parts : Point → Prop} {fault : Fault}
    (steps : RuleSteps point held machine action gives parts)
    (failed : (action machine).error? = some fault) :
    point.Raises fault ∨ ∃ part, point.Enters part ∧ part.error? = some fault := by
  induction steps with
  | basic step => exact Or.inl ⟨_, _, _, _, _, step, failed⟩
  | part enters _ => exact Or.inr ⟨_, enters, failed⟩
  | bind _ _ ih ih' =>
      rcases Outcome.error?_bind failed with first | ⟨result, later, ended, rest⟩
      · exact ih first
      · exact ih' result later ended rest
  | block same =>
      subst same
      refine Or.inr ⟨_, .block, ?_⟩
      rcases Outcome.error?_bind failed with none | ⟨_, _, framed, inside⟩
      · cases none
      · cases framed
        rw [error?_within] at inside
        exact inside
  | body same _ =>
      subst same
      refine Or.inr ⟨_, .body, ?_⟩
      rcases Outcome.error?_bind failed with none | ⟨_, _, framed, inside⟩
      · cases none
      · cases framed
        rw [error?_within] at inside
        exact inside
  | fewer _ _ ih => exact ih failed

theorem Task.supplied_of_all (task : Task) : task.Supplied fun _ => True := by
  cases task with
  | call => exact ⟨trivial, fun _ _ => trivial⟩
  | invoke callable =>
      refine ⟨?_, fun _ _ => trivial⟩
      cases callable with
      | native native => exact ⟨.native 0 native, trivial, rfl⟩
      | function declaration closure => exact ⟨.function 0 declaration closure, trivial, rfl⟩
  | _ => trivial

/-- The fault that a point ends with is raised by a basic step of a point that it leads to. -/
theorem Point.exists_raises {point : Point} {fault : Fault} (failed : point.error? = some fault) :
    ∃ place, point.Reaches place ∧ place.Raises fault := by
  induction point using Point.induction with
  | enter point ih =>
      rcases (point.ruleSteps point.task.supplied_of_all).raises failed with
        own | ⟨part, enters, inside⟩
      · exact ⟨point, .refl, own⟩
      · obtain ⟨place, reaches, raises⟩ := ih part enters inside
        exact ⟨place, .head enters reaches, raises⟩

end LexicalScript
