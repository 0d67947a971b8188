import LexicalScript.Value

/-!
Changing the tokens and depths of a tree.
-/

set_option autoImplicit false

namespace LexicalScript

/-- A change of the tokens and of the depths in a tree. -/
structure Retouch where
  token : Token → Token
  depth : Option Nat → Option Nat

mutual

def Expr.retouch (change : Retouch) : Expr → Expr
  | .literal value => .literal value
  | .unary operator operand => .unary (change.token operator) (operand.retouch change)
  | .binary left operator right =>
      .binary (left.retouch change) (change.token operator) (right.retouch change)
  | .logical left operator right =>
      .logical (left.retouch change) (change.token operator) (right.retouch change)
  | .grouping inner => .grouping (inner.retouch change)
  | .reference name depth => .reference (change.token name) (change.depth depth)
  | .assign name value depth =>
      .assign (change.token name) (value.retouch change) (change.depth depth)
  | .call callee paren arguments =>
      .call (callee.retouch change) (change.token paren) (Expr.retouchAll change arguments)
  | .list bracket elements => .list (change.token bracket) (Expr.retouchAll change elements)
  | .index object bracket position =>
      .index (object.retouch change) (change.token bracket) (position.retouch change)

def Expr.retouchAll (change : Retouch) : List Expr → List Expr
  | [] => []
  | expr :: rest => expr.retouch change :: Expr.retouchAll change rest

end

def Expr.retouchOption (change : Retouch) : Option Expr → Option Expr
  | none => none
  | some expr => some (expr.retouch change)

mutual

def Stmt.retouch (change : Retouch) : Stmt → Stmt
  | .expression expr => .expression (expr.retouch change)
  | .print expr => .print (expr.retouch change)
  | .var name initializer => .var (change.token name) (Expr.retouchOption change initializer)
  | .block body => .block (Stmt.retouchAll change body)
  | .conditional condition thenBranch elseBranch =>
      .conditional (condition.retouch change) (thenBranch.retouch change)
        (Stmt.retouchOption change elseBranch)
  | .loop condition body => .loop (condition.retouch change) (body.retouch change)
  | .function name parameters body =>
      .function (change.token name) (parameters.map change.token) (Stmt.retouchAll change body)
  | .returnValue keyword value =>
      .returnValue (change.token keyword) (Expr.retouchOption change value)

def Stmt.retouchOption (change : Retouch) : Option Stmt → Option Stmt
  | none => none
  | some stmt => some (stmt.retouch change)

def Stmt.retouchAll (change : Retouch) : List Stmt → List Stmt
  | [] => []
  | stmt :: rest => stmt.retouch change :: Stmt.retouchAll change rest

end

def Declaration.retouch (change : Retouch) (declaration : Declaration) : Declaration :=
  ⟨change.token declaration.name, declaration.parameters.map change.token,
    Stmt.retouchAll change declaration.body⟩

/-! ### Erasing depths -/

/-- Takes all depths away. -/
def Retouch.erasing : Retouch := ⟨id, fun _ => none⟩

/-- No occurrence of a name has a depth. -/
def Expr.Unresolved (expr : Expr) : Prop := expr.retouch .erasing = expr

def Stmt.Unresolved (stmt : Stmt) : Prop := stmt.retouch .erasing = stmt

end LexicalScript
