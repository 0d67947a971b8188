import LexicalScript.Parser.State
import LexicalScript.Tree

/-!
The rules for expressions.

Infix operators are grouped in levels that bind more and more tightly.  Every level is left
associative; assignment is right associative and binds least.  The rules recurse on fuel, of which
`LexicalScript.Parser.budget` gives enough for any list of tokens.
-/

set_option autoImplicit false

namespace LexicalScript.Parser

/-- The levels of operators, from the loosest to the tightest.  The last one has no infix operators:
its operands are prefixed by operators or followed by calls and element accesses. -/
inductive Level where
  | disjunction
  | conjunction
  | equality
  | comparison
  | term
  | factor
  | prefixed
  deriving DecidableEq, Repr

namespace Level

def tighter? : Level → Option Level
  | .disjunction => some .conjunction
  | .conjunction => some .equality
  | .equality => some .comparison
  | .comparison => some .term
  | .term => some .factor
  | .factor => some .prefixed
  | .prefixed => none

def operators : Level → List Mark
  | .disjunction => [.orWord]
  | .conjunction => [.andWord]
  | .equality => [.bangEqual, .equalEqual]
  | .comparison => [.greater, .greaterEqual, .less, .lessEqual]
  | .term => [.minus, .plus]
  | .factor => [.slash, .star]
  | .prefixed => []

/-- The node that an operator of the level makes of its operands. -/
def join : Level → Expr → Token → Expr → Expr
  | .disjunction => .logical
  | .conjunction => .logical
  | _ => .binary

end Level

mutual

def expression : Nat → Parse Expr
  | 0 => .exhausted
  | fuel + 1 => do
      let target ← level fuel .disjunction
      match ← accept .equal with
      | none => return target
      | some equals =>
          let value ← expression fuel
          match target with
          | .reference name _ => return .assign name value none
          | _ => raise equals .assignmentTarget

def level : Nat → Level → Parse Expr
  | 0, _ => .exhausted
  | fuel + 1, current =>
      match current.tighter? with
      | none => prefixed fuel
      | some tighter => do
          let left ← level fuel tighter
          levelFrom fuel current tighter left

def levelFrom : Nat → Level → Level → Expr → Parse Expr
  | 0, _, _, _ => .exhausted
  | fuel + 1, current, tighter, left => do
      match ← acceptAny current.operators with
      | none => return left
      | some operator =>
          let right ← level fuel tighter
          levelFrom fuel current tighter (current.join left operator right)

def prefixed : Nat → Parse Expr
  | 0 => .exhausted
  | fuel + 1 => do
      match ← acceptAny [.bang, .minus] with
      | some operator =>
          let operand ← prefixed fuel
          return .unary operator operand
      | none =>
          let operand ← primary fuel
          applied fuel operand

def applied : Nat → Expr → Parse Expr
  | 0, _ => .exhausted
  | fuel + 1, operand => do
      match ← accept .leftParen with
      | some _ =>
          let arguments ←
            if ← sees .rightParen then pure [] else commaSeparated fuel (some maximalArity) 0
          let paren ← expect .rightParen .parenAfterArguments
          applied fuel (.call operand paren arguments)
      | none =>
          match ← accept .leftBracket with
          | some _ =>
              let position ← expression fuel
              let bracket ← expect .rightBracket .bracketAfterIndex
              applied fuel (.index operand bracket position)
          | none => return operand

/-- One or more expressions with commas between them.  From the `limit`-th on, each is reported as
one argument too many. -/
def commaSeparated : Nat → Option Nat → Nat → Parse (List Expr)
  | 0, _, _ => .exhausted
  | fuel + 1, limit, count => do
      if limit.any (· ≤ count) then report .tooManyArguments
      let first ← expression fuel
      match ← accept .comma with
      | none => return [first]
      | some _ =>
          let rest ← commaSeparated fuel limit (count + 1)
          return first :: rest

def primary : Nat → Parse Expr
  | 0 => .exhausted
  | fuel + 1 => do
      let token ← peek
      match token.kind with
      | .number value => advance; return .literal (.number value)
      | .string value => advance; return .literal (.string value)
      | .mark .falseWord => advance; return .literal (.bool false)
      | .mark .trueWord => advance; return .literal (.bool true)
      | .mark .nilWord => advance; return .literal .nil
      | .mark .identifier => advance; return .reference token none
      | .mark .leftBracket =>
          advance
          let elements ←
            if ← sees .rightBracket then pure [] else commaSeparated fuel none 0
          let _ ← expect .rightBracket .bracketAfterElements
          return .list token elements
      | .mark .leftParen =>
          advance
          let inner ← expression fuel
          let _ ← expect .rightParen .parenAfterExpression
          return .grouping inner
      | _ => raise token .expression

end

end LexicalScript.Parser
