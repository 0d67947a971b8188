import LexicalScript.Tree

/-!
Resolution of names before a run.

A walk over the statements keeps the stack of scopes around the current place, innermost first, and
writes to every occurrence of a name how many scopes lie between it and the scope that declares it.
The walk stops at the first static error: from then on it changes no depth and no known name, so the
depths written before it stay.  Between two walks only the names of known globals are kept.
-/

set_option autoImplicit false

namespace LexicalScript

inductive ResolveCause where
  | alreadyDeclared (name : String)
  | localInOwnInitializer (name : String)
  | globalInOwnInitializer (name : String)
  | returnOutsideFunction
  deriving DecidableEq, Repr

def ResolveCause.message : ResolveCause → String
  | .alreadyDeclared name => "Already a variable named '" ++ name ++ "' in this scope."
  | .localInOwnInitializer name =>
      "Can't read local variable '" ++ name ++ "' in its own initializer."
  | .globalInOwnInitializer name =>
      "Can't read global variable '" ++ name ++ "' in its own initializer."
  | .returnOutsideFunction => "Can't return from top-level code."

structure ResolveError where
  cause : ResolveCause
  line : Nat
  deriving DecidableEq, Repr

/-- The names of a scope, each with whether its initializer has been passed. -/
abbrev Scope := List (String × Bool)

def Scope.declares (scope : Scope) (name : String) : Bool :=
  (scope.lookup name).isSome

def Scope.mark (name : String) (ready : Bool) (scope : Scope) : Scope :=
  (name, ready) :: scope.filter fun entry => entry.1 != name

inductive ResolveNote where
  | beginning (statements : Nat)
  | resolved (name : String) (depth : Option Nat)
  | failed (error : ResolveError)
  deriving DecidableEq, Repr

structure Resolver where
  /-- The scopes around the current place, innermost first; none at the top level. -/
  scopes : List Scope
  inFunction : Bool
  /-- The new global whose initializer is being walked. -/
  initializing : Option String
  known : List String
  deriving DecidableEq, Repr

def Resolver.ofGlobals (known : List String) : Resolver := ⟨[], false, none, known⟩

def Resolver.new : Resolver := Resolver.ofGlobals []

/-- How many scopes lie between the current place and the one that declares a name. -/
def Resolver.depth? (resolver : Resolver) (name : String) : Option Nat :=
  resolver.scopes.findIdx? (·.declares name)

structure Walk where
  resolver : Resolver
  stopped : Option ResolveError
  notes : Array ResolveNote

abbrev Walking (α : Type) : Type := StateM Walk α

namespace Walking

def stop (cause : ResolveCause) (line : Nat) : Walking Unit := modify fun walk =>
  match walk.stopped with
  | some _ => walk
  | none =>
      { walk with
        stopped := some ⟨cause, line⟩
        notes := walk.notes.push (.failed ⟨cause, line⟩) }

def move (change : Resolver → Resolver) : Walking Unit := modify fun walk =>
  { walk with resolver := change walk.resolver }

def moveUnlessStopped (change : Resolver → Resolver) : Walking Unit := modify fun walk =>
  match walk.stopped with
  | some _ => walk
  | none => { walk with resolver := change walk.resolver }

/-- Declares a name in the innermost scope; at the top level a name may be declared again. -/
def declare (name : Token) : Walking Unit := do
  let walk ← get
  match walk.resolver.scopes with
  | [] => pure ()
  | scope :: scopes =>
      if scope.declares name.lexeme then
        stop (.alreadyDeclared name.lexeme) name.line
      else
        moveUnlessStopped fun resolver =>
          { resolver with scopes := scope.mark name.lexeme false :: scopes }

/-- Marks a declared name as ready; at the top level it becomes a known global. -/
def define (name : Token) : Walking Unit := moveUnlessStopped fun resolver =>
  match resolver.scopes with
  | [] =>
      if resolver.known.contains name.lexeme then resolver
      else { resolver with known := resolver.known ++ [name.lexeme] }
  | scope :: scopes => { resolver with scopes := scope.mark name.lexeme true :: scopes }

/-- The new depth of an occurrence that had the depth `old`; a stopped walk keeps the old one. -/
def locate (name : Token) (old : Option Nat) : Walking (Option Nat) := fun walk =>
  match walk.stopped with
  | some _ => (old, walk)
  | none =>
      let depth := walk.resolver.depth? name.lexeme
      (depth, { walk with notes := walk.notes.push (.resolved name.lexeme depth) })

/-- The new depth of a name that is read.  Reading a variable in its own initializer is an error. -/
def read (name : Token) (old : Option Nat) : Walking (Option Nat) := do
  let walk ← get
  if walk.resolver.scopes.head?.any fun scope => scope.lookup name.lexeme == some false then
    stop (.localInOwnInitializer name.lexeme) name.line
    return old
  else
    let depth ← locate name old
    if depth.isNone && walk.resolver.initializing == some name.lexeme then
      stop (.globalInOwnInitializer name.lexeme) name.line
    return depth

def inScope {α : Type} (body : Walking α) : Walking α := do
  move fun resolver => { resolver with scopes := [] :: resolver.scopes }
  let result ← body
  move fun resolver => { resolver with scopes := resolver.scopes.tail }
  return result

def inFunction {α : Type} (body : Walking α) : Walking α := do
  let outside := (← get).resolver.inFunction
  move fun resolver => { resolver with inFunction := true }
  let result ← inScope body
  move fun resolver => { resolver with inFunction := outside }
  return result

/-- Walks the initializer of a variable.  A global that is not known yet is marked meanwhile. -/
def inInitializer {α : Type} (name : Token) (body : Walking α) : Walking α := do
  move fun resolver =>
    if resolver.scopes.isEmpty && !resolver.known.contains name.lexeme then
      { resolver with initializing := some name.lexeme }
    else resolver
  let result ← body
  move fun resolver => { resolver with initializing := none }
  return result

def bindParameters : List Token → Walking Unit
  | [] => pure ()
  | parameter :: rest => do
      declare parameter
      define parameter
      bindParameters rest

end Walking

mutual

def Expr.resolve : Expr → Walking Expr
  | .literal value => return .literal value
  | .unary operator operand => return .unary operator (← operand.resolve)
  | .binary left operator right => return .binary (← left.resolve) operator (← right.resolve)
  | .logical left operator right => return .logical (← left.resolve) operator (← right.resolve)
  | .grouping inner => return .grouping (← inner.resolve)
  | .reference name depth => return .reference name (← Walking.read name depth)
  | .assign name value depth => do
      let value ← value.resolve
      return .assign name value (← Walking.locate name depth)
  | .call callee paren arguments => do
      let callee ← callee.resolve
      return .call callee paren (← Expr.resolveAll arguments)
  | .list bracket elements => return .list bracket (← Expr.resolveAll elements)
  | .index object bracket position => return .index (← object.resolve) bracket (← position.resolve)

def Expr.resolveAll : List Expr → Walking (List Expr)
  | [] => return []
  | expr :: rest => do
      let expr ← expr.resolve
      return expr :: (← Expr.resolveAll rest)

end

def Expr.resolveOption : Option Expr → Walking (Option Expr)
  | none => return none
  | some expr => return some (← expr.resolve)

mutual

def Stmt.resolve : Stmt → Walking Stmt
  | .expression expr => return .expression (← expr.resolve)
  | .print expr => return .print (← expr.resolve)
  | .var name initializer => do
      Walking.declare name
      let initializer ← match initializer with
        | none => pure none
        | some expr => some <$> Walking.inInitializer name expr.resolve
      Walking.define name
      return .var name initializer
  | .block body => return .block (← Walking.inScope (Stmt.resolveAll body))
  | .conditional condition thenBranch elseBranch => do
      let condition ← condition.resolve
      let thenBranch ← thenBranch.resolve
      return .conditional condition thenBranch (← Stmt.resolveOption elseBranch)
  | .loop condition body => return .loop (← condition.resolve) (← body.resolve)
  | .function name parameters body => do
      Walking.declare name
      Walking.define name
      let body ← Walking.inFunction do
        Walking.bindParameters parameters
        Stmt.resolveAll body
      return .function name parameters body
  | .returnValue keyword value => do
      unless (← get).resolver.inFunction do
        Walking.stop .returnOutsideFunction keyword.line
      return .returnValue keyword (← Expr.resolveOption value)

def Stmt.resolveOption : Option Stmt → Walking (Option Stmt)
  | none => return none
  | some stmt => return some (← stmt.resolve)

def Stmt.resolveAll : List Stmt → Walking (List Stmt)
  | [] => return []
  | stmt :: rest => do
      let stmt ← stmt.resolve
      return stmt :: (← Stmt.resolveAll rest)

end

structure Resolved where
  statements : List Stmt
  error : Option ResolveError
  resolver : Resolver
  notes : List ResolveNote

def Resolver.resolve (resolver : Resolver) (statements : List Stmt) : Resolved :=
  let (resolved, walk) := (Stmt.resolveAll statements).run
    ⟨resolver, none, #[.beginning statements.length]⟩
  ⟨resolved, walk.stopped, walk.resolver, walk.notes.toList⟩

end LexicalScript
