import LexicalScript.Token

/-!
Trees of expressions and statements.

Every occurrence of a name carries the depth that scope resolution gave it: how many scopes lie
between the occurrence and the scope that declares the name, or none when the name is global or not
yet resolved.
-/

set_option autoImplicit false

namespace LexicalScript

inductive Literal where
  | nil
  | bool (value : Bool)
  | number (value : Float)
  | string (value : String)
  deriving Repr

def Literal.same : Literal → Literal → Bool
  | .nil, .nil => true
  | .bool left, .bool right => left == right
  | .number left, .number right => left == right
  | .string left, .string right => left == right
  | _, _ => false

inductive Expr where
  | literal (value : Literal)
  | unary (operator : Token) (operand : Expr)
  | binary (left : Expr) (operator : Token) (right : Expr)
  | logical (left : Expr) (operator : Token) (right : Expr)
  | grouping (inner : Expr)
  | reference (name : Token) (depth : Option Nat)
  | assign (name : Token) (value : Expr) (depth : Option Nat)
  /-- A call keeps its closing parenthesis. -/
  | call (callee : Expr) (paren : Token) (arguments : List Expr)
  /-- A list keeps its opening bracket. -/
  | list (bracket : Token) (elements : List Expr)
  /-- An element access keeps its closing bracket. -/
  | index (object : Expr) (bracket : Token) (position : Expr)
  deriving Repr

inductive Stmt where
  | expression (expr : Expr)
  | print (expr : Expr)
  | var (name : Token) (initializer : Option Expr)
  | block (body : List Stmt)
  | conditional (condition : Expr) (thenBranch : Stmt) (elseBranch : Option Stmt)
  | loop (condition : Expr) (body : Stmt)
  | function (name : Token) (parameters : List Token) (body : List Stmt)
  | returnValue (keyword : Token) (value : Option Expr)
  deriving Repr

/-! ### Sameness of trees -/

mutual

/-- Whether two expressions are the same tree, depths included. -/
def Expr.same : Expr → Expr → Bool
  | .literal left, .literal right => left.same right
  | .unary operator operand, .unary operator' operand' =>
      operator.same operator' && operand.same operand'
  | .binary left operator right, .binary left' operator' right' =>
      left.same left' && operator.same operator' && right.same right'
  | .logical left operator right, .logical left' operator' right' =>
      left.same left' && operator.same operator' && right.same right'
  | .grouping inner, .grouping inner' => inner.same inner'
  | .reference name depth, .reference name' depth' => name.same name' && depth == depth'
  | .assign name value depth, .assign name' value' depth' =>
      name.same name' && value.same value' && depth == depth'
  | .call callee paren arguments, .call callee' paren' arguments' =>
      callee.same callee' && paren.same paren' && Expr.sameAll arguments arguments'
  | .list bracket elements, .list bracket' elements' =>
      bracket.same bracket' && Expr.sameAll elements elements'
  | .index object bracket position, .index object' bracket' position' =>
      object.same object' && bracket.same bracket' && position.same position'
  | _, _ => false

def Expr.sameAll : List Expr → List Expr → Bool
  | [], [] => true
  | left :: lefts, right :: rights => left.same right && Expr.sameAll lefts rights
  | _, _ => false

end

def Expr.sameOption : Option Expr → Option Expr → Bool
  | none, none => true
  | some left, some right => left.same right
  | _, _ => false

def Token.sameAll : List Token → List Token → Bool
  | [], [] => true
  | left :: lefts, right :: rights => left.same right && Token.sameAll lefts rights
  | _, _ => false

mutual

def Stmt.same : Stmt → Stmt → Bool
  | .expression left, .expression right => left.same right
  | .print left, .print right => left.same right
  | .var name initializer, .var name' initializer' =>
      name.same name' && Expr.sameOption initializer initializer'
  | .block body, .block body' => Stmt.sameAll body body'
  | .conditional condition thenBranch elseBranch, .conditional condition' thenBranch' elseBranch' =>
      condition.same condition' && thenBranch.same thenBranch' &&
        Stmt.sameOption elseBranch elseBranch'
  | .loop condition body, .loop condition' body' => condition.same condition' && body.same body'
  | .function name parameters body, .function name' parameters' body' =>
      name.same name' && Token.sameAll parameters parameters' && Stmt.sameAll body body'
  | .returnValue keyword value, .returnValue keyword' value' =>
      keyword.same keyword' && Expr.sameOption value value'
  | _, _ => false

def Stmt.sameOption : Option Stmt → Option Stmt → Bool
  | none, none => true
  | some left, some right => left.same right
  | _, _ => false

def Stmt.sameAll : List Stmt → List Stmt → Bool
  | [], [] => true
  | left :: lefts, right :: rights => left.same right && Stmt.sameAll lefts rights
  | _, _ => false

end

/-! ### Occurrences of names -/

structure Occurrence where
  name : Token
  assigned : Bool
  depth : Option Nat
  deriving Repr

mutual

/-- The occurrences of an expression in source order; an assignment comes after its value. -/
def Expr.occurrences : Expr → List Occurrence
  | .literal _ => []
  | .unary _ operand => operand.occurrences
  | .binary left _ right => left.occurrences ++ right.occurrences
  | .logical left _ right => left.occurrences ++ right.occurrences
  | .grouping inner => inner.occurrences
  | .reference name depth => [⟨name, false, depth⟩]
  | .assign name value depth => value.occurrences ++ [⟨name, true, depth⟩]
  | .call callee _ arguments => callee.occurrences ++ Expr.occurrencesAll arguments
  | .list _ elements => Expr.occurrencesAll elements
  | .index object _ position => object.occurrences ++ position.occurrences

def Expr.occurrencesAll : List Expr → List Occurrence
  | [] => []
  | expr :: rest => expr.occurrences ++ Expr.occurrencesAll rest

end

def Expr.occurrencesOption : Option Expr → List Occurrence
  | none => []
  | some expr => expr.occurrences

mutual

def Stmt.occurrences : Stmt → List Occurrence
  | .expression expr => expr.occurrences
  | .print expr => expr.occurrences
  | .var _ initializer => Expr.occurrencesOption initializer
  | .block body => Stmt.occurrencesAll body
  | .conditional condition thenBranch elseBranch =>
      condition.occurrences ++ thenBranch.occurrences ++ Stmt.occurrencesOption elseBranch
  | .loop condition body => condition.occurrences ++ body.occurrences
  | .function _ _ body => Stmt.occurrencesAll body
  | .returnValue _ value => Expr.occurrencesOption value

def Stmt.occurrencesOption : Option Stmt → List Occurrence
  | none => []
  | some stmt => stmt.occurrences

def Stmt.occurrencesAll : List Stmt → List Occurrence
  | [] => []
  | stmt :: rest => stmt.occurrences ++ Stmt.occurrencesAll rest

end

end LexicalScript
