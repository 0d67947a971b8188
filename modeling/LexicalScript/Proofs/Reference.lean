import LexicalScript.Machine.Evaluate

/-!
Lexical scoping as a reference.

Here a program runs without frames and without depths.  Every local declaration and every parameter
gets a location of its own, a local variable before its initializer is evaluated.  The environment
of a piece of code is an immutable list of names with their locations, which a function keeps from
where it was declared.  A name that the environment does not hold is looked up in the table of
globals when it is used.
-/

set_option autoImplicit false

namespace LexicalScript.Reference

/-- The number of a cell of the heap. -/
abbrev Location := Nat

/-- Names with their locations, the latest first. -/
abbrev Environment := List (String × Location)

/-- A value whose functions hold environments. -/
inductive Datum where
  | nil
  | bool (value : Bool)
  | number (value : Float)
  | string (value : String)
  | list (identity : Identity) (elements : List Datum)
  | native (identity : Identity) (supplied : Native)
  | function (identity : Identity) (declaration : Declaration) (environment : Environment)

mutual

/-- What operators and printing see of a value: all of it but the bodies and environments of its
functions. -/
def Datum.face : Datum → Value
  | .nil => .nil
  | .bool value => .bool value
  | .number value => .number value
  | .string value => .string value
  | .list identity elements => .list identity (Datum.faceAll elements)
  | .native identity supplied => .native identity supplied
  | .function identity declaration _ =>
      .function identity ⟨declaration.name, declaration.parameters, []⟩ 0

def Datum.faceAll : List Datum → List Value
  | [] => []
  | datum :: rest => datum.face :: Datum.faceAll rest

end

def Datum.elements : Datum → List Datum
  | .list _ elements => elements
  | _ => []

/-- A result of an operator; no operator gives a list or a function. -/
def Datum.ofResult : Value → Datum
  | .bool value => .bool value
  | .number value => .number value
  | .string value => .string value
  | _ => .nil

def Datum.ofLiteral : Literal → Datum
  | .nil => .nil
  | .bool value => .bool value
  | .number value => .number value
  | .string value => .string value

/-- The state of a run: cells, which are empty until something is stored, and the globals. -/
structure State where
  heap : List (Option Datum)
  globals : List (String × Datum)
  fresh : Identity
  sink : Sink
  clock : Clock

/-- A state whose only global is the clock. -/
def State.new (sink : Sink) (readings : Readings) : State where
  heap := []
  globals := [(Native.clock.name, .native 0 .clock)]
  fresh := 1
  sink := sink
  clock := ⟨readings, 0⟩

/-- Adds a native function to the globals. -/
def State.supply (state : State) (name : String) (native : Native) : State :=
  { state with
    globals := (name, .native state.fresh native) :: state.globals
    fresh := state.fresh + 1 }

abbrev Run (α : Type) : Type := Attempt Fault State α

/-! ### Steps -/

def raise {α : Type} (error : RuntimeError) : Run α := Attempt.fail (.runtime error)

def ofExcept {α : Type} : Except RuntimeError α → Run α
  | .ok result => pure result
  | .error error => raise error

def write (text : String) : Run Unit := fun state =>
  match state.sink.write text with
  | (none, sink) => .value () { state with sink := sink }
  | (some error, sink) => .failure (.output error) { state with sink := sink }

def readClock (line : Nat) : Run Datum := fun state =>
  let (reading, clock) := state.clock.read
  let result := (reading.map Datum.number).mapError fun problem =>
    RuntimeError.mk (.native ("Clock error: " ++ problem)) line
  ofExcept result { state with clock := clock }

def identify : Run Identity := fun state =>
  .value state.fresh { state with fresh := state.fresh + 1 }

def makeList (elements : List Datum) : Run Datum := do
  let identity ← identify
  return .list identity elements

/-- A new cell, empty. -/
def allocate : Run Location := fun state =>
  .value state.heap.length { state with heap := state.heap ++ [none] }

def fill (location : Location) (datum : Datum) : Run Unit :=
  .update fun state => { state with heap := state.heap.set location (some datum) }

def declareGlobal (name : String) (datum : Datum) : Run Unit :=
  .update fun state => { state with globals := (name, datum) :: state.globals }

/-- What a name stands for: the contents of its location, or else the global of that name. -/
def State.find? (state : State) (environment : Environment) (name : String) : Option Datum :=
  match environment.lookup name with
  | some location => state.heap[location]?.join
  | none => state.globals.lookup name

def read (environment : Environment) (name : Token) : Run Datum := fun state =>
  match state.find? environment name.lexeme with
  | some datum => .value datum state
  | none => raise (Store.undefinedVariable name none) state

/-- Stores in the location of a name, or else in the global of that name, which must exist. -/
def assign (environment : Environment) (name : Token) (datum : Datum) : Run Unit := fun state =>
  match environment.lookup name.lexeme with
  | some location => fill location datum state
  | none =>
      match state.globals.lookup name.lexeme with
      | some _ => declareGlobal name.lexeme datum state
      | none => raise (Store.undefinedVariable name none) state

/-- Gives every parameter a location with its argument. -/
def bindParameters : List Token → List Datum → Environment → Run Environment
  | parameter :: parameters, argument :: arguments, environment => do
      let location ← allocate
      fill location argument
      bindParameters parameters arguments ((parameter.lexeme, location) :: environment)
  | _, _, environment => return environment

def index (bracket : Token) (object position : Datum) : Except RuntimeError Datum :=
  match object with
  | .list _ elements =>
      match position with
      | .number number =>
          match (position? number).bind fun position => elements[position]? with
          | some element => .ok element
          | none => .error ⟨.indexOutOfBounds, bracket.line⟩
      | _ => .error ⟨.indexNotNumber, bracket.line⟩
  | _ => .error ⟨.notIndexable, bracket.line⟩

mutual

/-- The value that a reply of the host stands for, and the next unused identity. -/
def build (arguments : List Datum) : Reply → Identity → Datum × Identity
  | .literal value, fresh => (.ofLiteral value, fresh)
  | .argument position, fresh => (arguments.getD position .nil, fresh)
  | .element object position, fresh =>
      let (datum, fresh) := build arguments object fresh
      (datum.elements.getD position .nil, fresh)
  | .list elements, fresh =>
      let (data, fresh) := buildAll arguments elements fresh
      (.list fresh data, fresh + 1)

def buildAll (arguments : List Datum) : List Reply → Identity → List Datum × Identity
  | [], fresh => ([], fresh)
  | reply :: rest, fresh =>
      let (datum, fresh) := build arguments reply fresh
      let (data, fresh) := buildAll arguments rest fresh
      (datum :: data, fresh)

end

def takeReply (arguments : List Datum) (reply : Reply) : Run Datum := fun state =>
  let (datum, fresh) := build arguments reply state.fresh
  .value datum { state with fresh := fresh }

def callNative (native : Native) (arguments : List Datum) (line : Nat) : Run Datum :=
  match native.action with
  | .readClock => readClock line
  | .answer host => do
      let result := (host (Value.viewAll (Datum.faceAll arguments))).mapError fun message =>
        RuntimeError.mk (.native message) line
      let reply ← ofExcept result
      takeReply arguments reply

/-! ### Rules -/

/-- Where a statement stands: at the top level, or inside a block or a function. -/
inductive Place where
  | top
  | inside (environment : Environment)

def Place.environment : Place → Environment
  | .top => []
  | .inside environment => environment

inductive Flow where
  | normal
  | returned (datum : Datum)

/-- The value of an expression that may be missing. -/
def optional (value : Expr → Run Datum) : Option Expr → Run Datum
  | none => return .nil
  | some expr => value expr

mutual

def evaluate : Nat → Environment → Expr → Run Datum
  | 0, _, _ => .exhausted
  | fuel + 1, environment, expr =>
      match expr with
      | .literal value => return Datum.ofLiteral value
      | .grouping inner => evaluate fuel environment inner
      | .unary operator operand => do
          let operand ← evaluate fuel environment operand
          ofExcept ((applyUnary operator operand.face).map Datum.ofResult)
      | .binary left operator right => do
          let left ← evaluate fuel environment left
          let right ← evaluate fuel environment right
          ofExcept ((applyBinary operator left.face right.face).map Datum.ofResult)
      | .logical left operator right => do
          let left ← evaluate fuel environment left
          if settles operator left.face then return left
          else evaluate fuel environment right
      | .reference name _ => read environment name
      | .assign name value _ => do
          let datum ← evaluate fuel environment value
          assign environment name datum
          return datum
      | .call callee paren arguments => do
          let callee ← evaluate fuel environment callee
          let arguments ← evaluateAll fuel environment arguments
          call fuel callee arguments paren
      | .list _ elements => do
          let elements ← evaluateAll fuel environment elements
          makeList elements
      | .index object bracket position => do
          let object ← evaluate fuel environment object
          let position ← evaluate fuel environment position
          ofExcept (index bracket object position)

def evaluateAll : Nat → Environment → List Expr → Run (List Datum)
  | 0, _, _ => .exhausted
  | _ + 1, _, [] => return []
  | fuel + 1, environment, expr :: rest => do
      let datum ← evaluate fuel environment expr
      let others ← evaluateAll fuel environment rest
      return datum :: others

def call : Nat → Datum → List Datum → Token → Run Datum
  | 0, _, _, _ => .exhausted
  | fuel + 1, callee, arguments, paren =>
      match callee with
      | .native _ supplied =>
          if arguments.length = supplied.arity then invoke fuel callee arguments paren
          else raise ⟨.arity supplied.arity arguments.length, paren.line⟩
      | .function _ declaration _ =>
          if arguments.length = declaration.parameters.length then
            invoke fuel callee arguments paren
          else raise ⟨.arity declaration.parameters.length arguments.length, paren.line⟩
      | _ => raise ⟨.notCallable, paren.line⟩

/-- A function runs in the environment that it kept, with its parameters added. -/
def invoke : Nat → Datum → List Datum → Token → Run Datum
  | 0, _, _, _ => .exhausted
  | fuel + 1, callee, arguments, paren =>
      match callee with
      | .native _ supplied => callNative supplied arguments paren.line
      | .function _ declaration environment => do
          let environment ← bindParameters declaration.parameters arguments environment
          match ← executeAll fuel environment declaration.body with
          | .returned datum => return datum
          | .normal => return .nil
      | _ => return .nil

/-- Executes a statement, and gives the place after it. -/
def execute : Nat → Place → Stmt → Run (Flow × Place)
  | 0, _, _ => .exhausted
  | fuel + 1, place, stmt =>
      match stmt with
      | .expression expr => do
          let _ ← evaluate fuel place.environment expr
          return (.normal, place)
      | .print expr => do
          let datum ← evaluate fuel place.environment expr
          write (datum.face.text ++ "\n")
          return (.normal, place)
      | .var name initializer =>
          match place with
          | .top => do
              let datum ← optional (evaluate fuel []) initializer
              declareGlobal name.lexeme datum
              return (.normal, .top)
          | .inside outer => do
              let location ← allocate
              let environment := (name.lexeme, location) :: outer
              let datum ← optional (evaluate fuel environment) initializer
              fill location datum
              return (.normal, .inside environment)
      | .block body => do
          let flow ← executeAll fuel place.environment body
          return (flow, place)
      | .conditional condition thenBranch elseBranch => do
          let test ← evaluate fuel place.environment condition
          if test.face.isTruthy then execute fuel place thenBranch
          else match elseBranch with
            | some stmt => execute fuel place stmt
            | none => return (.normal, place)
      | .loop condition body => do
          let flow ← executeLoop fuel place condition body
          return (flow, place)
      | .function name parameters body => do
          let identity ← identify
          match place with
          | .top => do
              declareGlobal name.lexeme (.function identity ⟨name, parameters, body⟩ [])
              return (.normal, .top)
          | .inside outer => do
              let location ← allocate
              let environment := (name.lexeme, location) :: outer
              fill location (.function identity ⟨name, parameters, body⟩ environment)
              return (.normal, .inside environment)
      | .returnValue _ value => do
          let datum ← optional (evaluate fuel place.environment) value
          return (.returned datum, place)

def executeLoop : Nat → Place → Expr → Stmt → Run Flow
  | 0, _, _, _ => .exhausted
  | fuel + 1, place, condition, body => do
      let test ← evaluate fuel place.environment condition
      if test.face.isTruthy then
        match ← execute fuel place body with
        | (.returned datum, _) => return .returned datum
        | (.normal, _) => executeLoop fuel place condition body
      else return .normal

/-- Executes the statements of a block or of a function, each in the environment that those before
it have made. -/
def executeAll : Nat → Environment → List Stmt → Run Flow
  | 0, _, _ => .exhausted
  | _ + 1, _, [] => return .normal
  | fuel + 1, environment, stmt :: rest => do
      match ← execute fuel (.inside environment) stmt with
      | (.returned datum, _) => return .returned datum
      | (.normal, place) => executeAll fuel place.environment rest

end

/-- Executes the statements of a program in order, however each of them ends, up to the first
fault. -/
def executeEach (fuel : Nat) : List Stmt → Run Unit
  | [] => return ()
  | stmt :: rest => do
      let _ ← execute fuel .top stmt
      executeEach fuel rest

/-- Runs a program, and then flushes the sink: how the program ended, and the state it left; nothing
if the fuel did not suffice. -/
def run (fuel : Nat) (statements : List Stmt) (state : State) : Option (Option Fault × State) :=
  match executeEach fuel statements state with
  | .exhausted => none
  | .value _ state => some (state.sink.flush.map .output, state)
  | .failure fault state =>
      match state.sink.flush with
      | some error => some (some (.output error), state)
      | none => some (some fault, state)

end LexicalScript.Reference
