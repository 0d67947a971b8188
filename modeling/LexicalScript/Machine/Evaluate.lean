import LexicalScript.Machine.Operators

/-!
Running trees on a machine.

The rules recurse on fuel, which bounds the depth of their recursion: every rule hands one unit less
to the rules it uses.  A rule that runs out says so, and that outcome says nothing about the
program.
-/

set_option autoImplicit false

namespace LexicalScript

/-- How a statement ended: in the normal way, or by returning a value. -/
inductive Flow where
  | normal
  | returned (value : Value)
  deriving Repr

def callNative (native : Native) (arguments : List Value) (line : Nat) : Exec Value := do
  Exec.note (.nativeCalled native.name)
  match native.action with
  | .readClock => Exec.readClock line
  | .answer host => do
      let result := (host (Value.viewAll arguments)).mapError fun message =>
        RuntimeError.mk (.native message) line
      let reply ← Exec.ofExcept result
      Exec.takeReply arguments reply

mutual

def evaluate : Nat → Expr → Exec Value
  | 0, _ => .exhausted
  | fuel + 1, expr =>
      match expr with
      | .literal value => return Value.ofLiteral value
      | .grouping inner => evaluate fuel inner
      | .unary operator operand => do
          let operand ← evaluate fuel operand
          Exec.ofExcept (applyUnary operator operand)
      | .binary left operator right => do
          let left ← evaluate fuel left
          let right ← evaluate fuel right
          Exec.ofExcept (applyBinary operator left right)
      | .logical left operator right => do
          let left ← evaluate fuel left
          if settles operator left then return left
          else evaluate fuel right
      | .reference name depth => Exec.readVariable name depth
      | .assign name value depth => do
          let value ← evaluate fuel value
          Exec.assignVariable name depth value
          return value
      | .call callee paren arguments => do
          let callee ← evaluate fuel callee
          let arguments ← evaluateAll fuel arguments
          callCounted fuel callee arguments paren
      | .list _ elements => do
          let elements ← evaluateAll fuel elements
          Exec.makeList elements
      | .index object bracket position => do
          let object ← evaluate fuel object
          let position ← evaluate fuel position
          match object with
          | .list .. => pure ()
          | _ => Exec.note (.indexRefused object.typeName)
          Exec.ofExcept (applyIndex bracket object position)

def evaluateAll : Nat → List Expr → Exec (List Value)
  | 0, _ => .exhausted
  | _ + 1, [] => return []
  | fuel + 1, expr :: rest => do
      let value ← evaluate fuel expr
      let values ← evaluateAll fuel rest
      return value :: values

/-- Calls a value, which must be callable with that many arguments. -/
def callCounted : Nat → Value → List Value → Token → Exec Value
  | 0, _, _, _ => .exhausted
  | fuel + 1, callee, arguments, paren =>
      match callee.callable? with
      | none => do
          Exec.note (.callRefused callee.typeName)
          Exec.raise ⟨.notCallable, paren.line⟩
      | some callable =>
          if arguments.length = callable.arity then do
            let result ← invoke fuel callable arguments paren
            Exec.note (.returned callable.name result)
            return result
          else
            Exec.raise ⟨.arity callable.arity arguments.length, paren.line⟩

/-- Calls a callable without counting the arguments.  A body that does not return gives nil. -/
def invoke : Nat → Callable → List Value → Token → Exec Value
  | 0, _, _, _ => .exhausted
  | fuel + 1, callable, arguments, paren =>
      match callable with
      | .native native => callNative native arguments paren.line
      | .function declaration closure => do
          Exec.note (.functionCalled declaration.name.lexeme)
          let frame ← Exec.callFrame declaration closure arguments
          match ← Exec.within frame (executeAll fuel declaration.body) with
          | .returned value => return value
          | .normal => return .nil

def execute : Nat → Stmt → Exec Flow
  | 0, _ => .exhausted
  | fuel + 1, stmt =>
      match stmt with
      | .expression expr => do
          let _ ← evaluate fuel expr
          return .normal
      | .print expr => do
          let value ← evaluate fuel expr
          Exec.write (value.text ++ "\n")
          return .normal
      | .var name initializer => do
          let value ← match initializer with
            | none => pure Value.nil
            | some expr => evaluate fuel expr
          Exec.note (.variableDefined name.lexeme value)
          Exec.defineVariable name.lexeme value
          return .normal
      | .block body => do
          let frame ← Exec.nestedFrame
          Exec.within frame (executeAll fuel body)
      | .conditional condition thenBranch elseBranch => do
          let condition ← evaluate fuel condition
          if condition.isTruthy then execute fuel thenBranch
          else match elseBranch with
            | some stmt => execute fuel stmt
            | none => return .normal
      | .loop condition body => executeLoop fuel condition body
      | .function name parameters body => do
          Exec.note (.functionDefined name.lexeme parameters.length)
          let function ← Exec.makeFunction ⟨name, parameters, body⟩
          Exec.defineVariable name.lexeme function
          return .normal
      | .returnValue _ value => do
          let value ← match value with
            | none => pure Value.nil
            | some expr => evaluate fuel expr
          return .returned value

def executeLoop : Nat → Expr → Stmt → Exec Flow
  | 0, _, _ => .exhausted
  | fuel + 1, condition, body => do
      let test ← evaluate fuel condition
      if test.isTruthy then
        match ← execute fuel body with
        | .returned value => return .returned value
        | .normal => executeLoop fuel condition body
      else return .normal

/-- Executes statements in order until one does not end in the normal way. -/
def executeAll : Nat → List Stmt → Exec Flow
  | 0, _ => .exhausted
  | _ + 1, [] => return .normal
  | fuel + 1, stmt :: rest => do
      match ← execute fuel stmt with
      | .returned value => return .returned value
      | .normal => executeAll fuel rest

end

/-- Executes the statements of a program in order, however each of them ends, up to the first
fault. -/
def executeEach (fuel : Nat) : List Stmt → Exec Unit
  | [] => return ()
  | stmt :: rest => do
      let _ ← execute fuel stmt
      executeEach fuel rest

/-- Runs a program and then flushes the sink, also after a fault.  A failure to flush replaces the
outcome of the program. -/
def interpret (fuel : Nat) (statements : List Stmt) : Exec Unit := fun machine =>
  match executeEach fuel statements (machine.note (.interpreting statements.length)) with
  | .exhausted => .exhausted
  | .value _ machine =>
      match machine.sink.flush with
      | some error => .failure (.output error) machine
      | none => .value () (machine.note .interpreted)
  | .failure fault machine =>
      match machine.sink.flush with
      | some error => .failure (.output error) machine
      | none => .failure fault machine

end LexicalScript
