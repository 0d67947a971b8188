import LexicalScript.Parser.Expression

/-!
The rules for declarations and statements, and the parser as a whole.

A declaration that fails is left out and its error recorded; the parser goes on at the next
statement boundary, also inside a block.  There is no node for counting loops: a `for` is built
from a block and a `while`.
-/

set_option autoImplicit false

namespace LexicalScript.Parser

/-- The statement that a `for` with these clauses stands for. -/
def counting (initializer : Option Stmt) (condition increment : Option Expr) (body : Stmt) : Stmt :=
  let step := match increment with
    | none => body
    | some increment => .block [body, .expression increment]
  let loop := Stmt.loop (condition.getD (.literal (.bool true))) step
  match initializer with
  | none => loop
  | some initializer => .block [initializer, loop]

def expressionUnless (fuel : Nat) (mark : Mark) : Parse (Option Expr) := do
  if ← sees mark then return none
  let expr ← expression fuel
  return some expr

def variableDeclaration (fuel : Nat) : Parse Stmt := do
  let name ← expect .identifier .variableName
  let initializer ← match ← accept .equal with
    | none => pure none
    | some _ => do
        let expr ← expression fuel
        pure (some expr)
  let _ ← expect .semicolon .semicolonAfterVariable
  return .var name initializer

def expressionStatement (fuel : Nat) : Parse Stmt := do
  let expr ← expression fuel
  let _ ← expect .semicolon .semicolonAfterExpression
  return .expression expr

def forInitializer (fuel : Nat) : Parse (Option Stmt) := do
  match ← accept .semicolon with
  | some _ => return none
  | none =>
      match ← accept .varWord with
      | some _ =>
          let stmt ← variableDeclaration fuel
          return some stmt
      | none =>
          let stmt ← expressionStatement fuel
          return some stmt

/-- One or more parameter names with commas between them, when `count` stand before. -/
def parameters : Nat → Nat → Parse (List Token)
  | 0, _ => .exhausted
  | fuel + 1, count => do
      if maximalArity ≤ count then report .tooManyParameters
      let first ← expect .identifier .parameterName
      match ← accept .comma with
      | none => return [first]
      | some _ =>
          let rest ← parameters fuel (count + 1)
          return first :: rest

mutual

/-- A declaration or statement, or nothing if it failed. -/
def declaration : Nat → Parse (Option Stmt)
  | 0 => .exhausted
  | fuel + 1 => do
      let token ← peek
      note (.entering token.line)
      recovering do
        match token.kind with
        | .mark .funWord => advance; functionDeclaration fuel
        | .mark .varWord => advance; variableDeclaration fuel
        | _ => statement fuel

def functionDeclaration : Nat → Parse Stmt
  | 0 => .exhausted
  | fuel + 1 => do
      let name ← expect .identifier .functionName
      let _ ← expect .leftParen .parenAfterFunctionName
      let names ← if ← sees .rightParen then pure [] else parameters fuel 0
      let _ ← expect .rightParen .parenAfterParameters
      let _ ← expect .leftBrace .braceBeforeFunctionBody
      let body ← block fuel
      note (.parsedFunction name.lexeme names.length)
      return .function name names body

def statement : Nat → Parse Stmt
  | 0 => .exhausted
  | fuel + 1 => do
      let token ← peek
      match token.kind with
      | .mark .forWord =>
          advance
          note (.desugaring token.line)
          let _ ← expect .leftParen .parenAfterFor
          let initializer ← forInitializer fuel
          let condition ← expressionUnless fuel .semicolon
          let _ ← expect .semicolon .semicolonAfterLoopCondition
          let increment ← expressionUnless fuel .rightParen
          let _ ← expect .rightParen .parenAfterForClauses
          let body ← statement fuel
          return counting initializer condition increment body
      | .mark .ifWord =>
          advance
          let _ ← expect .leftParen .parenAfterIf
          let condition ← expression fuel
          let _ ← expect .rightParen .parenAfterIfCondition
          let thenBranch ← statement fuel
          match ← accept .elseWord with
          | none => return .conditional condition thenBranch none
          | some _ =>
              let elseBranch ← statement fuel
              return .conditional condition thenBranch (some elseBranch)
      | .mark .whileWord =>
          advance
          let _ ← expect .leftParen .parenAfterWhile
          let condition ← expression fuel
          let _ ← expect .rightParen .parenAfterCondition
          let body ← statement fuel
          return .loop condition body
      | .mark .returnWord =>
          advance
          let value ← expressionUnless fuel .semicolon
          let _ ← expect .semicolon .semicolonAfterReturnValue
          return .returnValue token value
      | .mark .leftBrace =>
          advance
          let body ← block fuel
          return .block body
      | .mark .printWord =>
          advance
          let expr ← expression fuel
          let _ ← expect .semicolon .semicolonAfterValue
          return .print expr
      | _ => expressionStatement fuel

def block : Nat → Parse (List Stmt)
  | 0 => .exhausted
  | fuel + 1 => do
      let body ← declarations fuel true
      let _ ← expect .rightBrace .braceAfterBlock
      return body

/-- The declarations up to the end of the input or, inside a block, up to its closing brace. -/
def declarations : Nat → Bool → Parse (List Stmt)
  | 0, _ => .exhausted
  | fuel + 1, inBlock => do
      if (← atEnd) || (inBlock && (← sees .rightBrace)) then return []
      let first ← declaration fuel
      let rest ← declarations fuel inBlock
      match first with
      | none => return rest
      | some stmt => return stmt :: rest

end

/-! ### The parser as a whole -/

def budget (tokens : List Token) : Nat := 32 * (tokens.length + 1)

/-- A list of tokens that ends in an end of input, which is added if it is missing. -/
def close (tokens : List Token) : List Token :=
  match tokens.getLast? with
  | some last =>
      if last.is .endOfInput then tokens else tokens ++ [Token.endOfInput last.line]
  | none => [Token.endOfInput 1]

def start (tokens : List Token) : State :=
  let created : Array Note := #[.created tokens.length]
  let closed := close tokens
  { rest := closed
    errors := #[]
    notes :=
      match closed.drop tokens.length with
      | [] => created
      | added :: _ => created.push (.closed added) }

structure Parsed where
  statements : List Stmt
  errors : List ParseError
  notes : List Note

def Parsed.isClean (parsed : Parsed) : Bool := parsed.errors.isEmpty

/-- Parses the tokens of a program.  The budget suffices, so the last case does not arise. -/
def program (tokens : List Token) : Parsed :=
  let initial := (start tokens).note .beginning
  match declarations (budget initial.rest) false initial with
  | .value statements state =>
      let state := state.note (.finished statements.length state.errors.size)
      ⟨statements, state.errors.toList, state.notes.toList⟩
  | .failure error state => ⟨[], (state.record error).errors.toList, state.notes.toList⟩
  | .exhausted => ⟨[], [], initial.notes.toList⟩

def wholeExpression (fuel : Nat) : Parse Expr := do
  let expr ← expression fuel
  if ← atEnd then return expr
  raise (← peek) .endOfExpression

/-- Parses tokens that form one expression, with the notes taken.  An error recorded on the way
counts only if the expression is otherwise well formed.  The budget suffices, so the last case
does not arise. -/
def single (tokens : List Token) : Except ParseError Expr × List Note :=
  let initial := (start tokens).note .beginningExpression
  match wholeExpression (budget initial.rest) initial with
  | .value expr state =>
      match state.errors.toList with
      | [] => (.ok expr, state.notes.toList)
      | error :: _ => (.error error, state.notes.toList)
  | .failure error state => (.error error, state.notes.toList)
  | .exhausted => (.error ⟨initial.peek, .expression⟩, initial.notes.toList)

end LexicalScript.Parser
