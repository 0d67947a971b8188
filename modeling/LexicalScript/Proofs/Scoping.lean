import LexicalScript.Proofs.Shape

/-!
Static scoping of resolved trees.

Scopes are lists of names, innermost first.  A tree is scoped under given scopes when every
occurrence of a name carries the distance to the innermost scope that declares the name, no
variable is read in its own initializer, and no scope declares a name twice.
-/

set_option autoImplicit false

namespace LexicalScript

/-- The names declared by the scopes around a place, innermost first; none at the top level. -/
abbrev Scopes := List (List String)

namespace Scopes

/-- How many scopes lie between a place and the innermost scope that declares a name. -/
def locate (scopes : Scopes) (name : String) : Option Nat :=
  scopes.findIdx? (·.contains name)

/-- Adds a name to the innermost scope. -/
def declare (name : String) : Scopes → Scopes
  | [] => []
  | scope :: scopes => (name :: scope) :: scopes

/-- The scopes around an initializer: the variable is declared already. -/
def awaiting (pending : Option String) (scopes : Scopes) : Scopes :=
  match pending with
  | none => scopes
  | some name => scopes.declare name

/-- The innermost scope does not declare the name yet. -/
def Admits (name : String) : Scopes → Prop
  | [] => True
  | scope :: _ => name ∉ scope

end Scopes

/-- The scopes after a statement that stands in them. -/
def Stmt.extend (scopes : Scopes) (stmt : Stmt) : Scopes :=
  match stmt.declared? with
  | none => scopes
  | some name => scopes.declare name.lexeme

theorem Stmt.extend_of_plain {scopes : Scopes} {stmt : Stmt} (plain : stmt.declared? = none) :
    stmt.extend scopes = scopes := by
  unfold Stmt.extend
  rw [plain]

theorem Stmt.extend_eq_nil_iff {scopes : Scopes} {stmt : Stmt} :
    stmt.extend scopes = [] ↔ scopes = [] := by
  unfold Stmt.extend
  cases stmt.declared? with
  | none => exact Iff.rfl
  | some name => cases scopes <;> simp [Scopes.declare]

mutual

/-- Every occurrence in the expression carries the distance to its declaration, and the pending
name, whose initializer this is, is not read. -/
def Expr.Scoped (scopes : Scopes) (pending : Option String) : Expr → Prop
  | .literal _ => True
  | .unary _ operand => operand.Scoped scopes pending
  | .binary left _ right => left.Scoped scopes pending ∧ right.Scoped scopes pending
  | .logical left _ right => left.Scoped scopes pending ∧ right.Scoped scopes pending
  | .grouping inner => inner.Scoped scopes pending
  | .reference name depth =>
      depth = scopes.locate name.lexeme ∧ (depth = some 0 → pending ≠ some name.lexeme)
  | .assign name value depth =>
      value.Scoped scopes pending ∧ depth = scopes.locate name.lexeme
  | .call callee _ arguments =>
      callee.Scoped scopes pending ∧ Expr.ScopedAll scopes pending arguments
  | .list _ elements => Expr.ScopedAll scopes pending elements
  | .index object _ position => object.Scoped scopes pending ∧ position.Scoped scopes pending

/-- All expressions of a list are scoped. -/
def Expr.ScopedAll (scopes : Scopes) (pending : Option String) : List Expr → Prop
  | [] => True
  | expr :: rest => expr.Scoped scopes pending ∧ Expr.ScopedAll scopes pending rest

end

/-- An expression that may be missing is scoped. -/
def Expr.ScopedOption (scopes : Scopes) (pending : Option String) : Option Expr → Prop
  | none => True
  | some expr => expr.Scoped scopes pending

/-- The names of parameters, the last one first. -/
def parameterNames (parameters : List Token) : List String :=
  (parameters.map Token.lexeme).reverse

mutual

/-- The statement is scoped under the scopes it stands in. -/
def Stmt.Scoped (scopes : Scopes) : Stmt → Prop
  | .expression expr => expr.Scoped scopes none
  | .print expr => expr.Scoped scopes none
  | .var name initializer =>
      scopes.Admits name.lexeme ∧
        Expr.ScopedOption (scopes.declare name.lexeme) (some name.lexeme) initializer
  | .block body => Stmt.ScopedAll ([] :: scopes) body
  | .conditional condition thenBranch elseBranch =>
      condition.Scoped scopes none ∧ (thenBranch.declared? = none ∧ thenBranch.Scoped scopes) ∧
        Stmt.ScopedBranch scopes elseBranch
  | .loop condition body =>
      condition.Scoped scopes none ∧ body.declared? = none ∧ body.Scoped scopes
  | .function name parameters body =>
      scopes.Admits name.lexeme ∧ (parameterNames parameters).Nodup ∧
        Stmt.ScopedAll (parameterNames parameters :: scopes.declare name.lexeme) body
  | .returnValue _ value => Expr.ScopedOption scopes none value

/-- A branch that may be missing is scoped and no declaration. -/
def Stmt.ScopedBranch (scopes : Scopes) : Option Stmt → Prop
  | none => True
  | some stmt => stmt.declared? = none ∧ stmt.Scoped scopes

/-- Statements are scoped one after the other, each under what those before it declared. -/
def Stmt.ScopedAll (scopes : Scopes) : List Stmt → Prop
  | [] => True
  | stmt :: rest => stmt.Scoped scopes ∧ Stmt.ScopedAll (stmt.extend scopes) rest

end

end LexicalScript
