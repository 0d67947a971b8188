import LexicalScript.Tree

/-!
Trees as text in prefix form.

Every node is written as its operator or keyword followed by its parts, in parentheses.  Brackets,
keywords and resolved depths that a node keeps are not written.
-/

set_option autoImplicit false

namespace LexicalScript

def Literal.text : Literal → String
  | .nil => "nil"
  | .bool value => if value then "true" else "false"
  | .number value => literalText value
  | .string value => value

mutual

def Expr.text : Expr → String
  | .literal value => value.text
  | .unary operator operand => "(" ++ operator.lexeme ++ " " ++ operand.text ++ ")"
  | .binary left operator right =>
      "(" ++ operator.lexeme ++ " " ++ left.text ++ " " ++ right.text ++ ")"
  | .logical left operator right =>
      "(" ++ operator.lexeme ++ " " ++ left.text ++ " " ++ right.text ++ ")"
  | .grouping inner => "(group " ++ inner.text ++ ")"
  | .reference name _ => name.lexeme
  | .assign name value _ => "(= " ++ name.lexeme ++ " " ++ value.text ++ ")"
  | .call callee _ arguments => "(call " ++ callee.text ++ Expr.textAll arguments ++ ")"
  | .list _ elements => "(list" ++ Expr.textAll elements ++ ")"
  | .index object _ position => "(index " ++ object.text ++ " " ++ position.text ++ ")"

/-- Expressions in prefix form, each after a space. -/
def Expr.textAll : List Expr → String
  | [] => ""
  | expr :: rest => " " ++ expr.text ++ Expr.textAll rest

end

def Expr.textOption : Option Expr → String
  | none => ""
  | some expr => " " ++ expr.text

mutual

def Stmt.text : Stmt → String
  | .expression expr => "(; " ++ expr.text ++ ")"
  | .print expr => "(print " ++ expr.text ++ ")"
  | .var name initializer => "(var " ++ name.lexeme ++ Expr.textOption initializer ++ ")"
  | .block body => "(block" ++ Stmt.textAll body ++ ")"
  | .conditional condition thenBranch elseBranch =>
      "(if " ++ condition.text ++ " " ++ thenBranch.text ++ Stmt.textOption elseBranch ++ ")"
  | .loop condition body => "(while " ++ condition.text ++ " " ++ body.text ++ ")"
  | .function name parameters body =>
      "(fun " ++ name.lexeme ++ "(" ++ " ".intercalate (parameters.map Token.lexeme) ++ ")" ++
        Stmt.textAll body ++ ")"
  | .returnValue _ value => "(return" ++ Expr.textOption value ++ ")"

def Stmt.textOption : Option Stmt → String
  | none => ""
  | some stmt => " " ++ stmt.text

def Stmt.textAll : List Stmt → String
  | [] => ""
  | stmt :: rest => " " ++ stmt.text ++ Stmt.textAll rest

end

end LexicalScript
