import LexicalScript.Token

/-!
Errors of the parser, with their wording and the token they are found at.
-/

set_option autoImplicit false

namespace LexicalScript

inductive ParseCause where
  | functionName
  | parenAfterFunctionName
  | tooManyParameters
  | parameterName
  | parenAfterParameters
  | braceBeforeFunctionBody
  | variableName
  | semicolonAfterVariable
  | parenAfterFor
  | semicolonAfterLoopCondition
  | parenAfterForClauses
  | semicolonAfterValue
  | semicolonAfterExpression
  | parenAfterIf
  | parenAfterIfCondition
  | parenAfterWhile
  | parenAfterCondition
  | semicolonAfterReturnValue
  | braceAfterBlock
  | assignmentTarget
  | bracketAfterIndex
  | tooManyArguments
  | parenAfterArguments
  | bracketAfterElements
  | parenAfterExpression
  | expression
  | endOfExpression
  deriving DecidableEq, Repr

def ParseCause.message : ParseCause → String
  | .functionName => "Expect function name."
  | .parenAfterFunctionName => "Expect '(' after function name."
  | .tooManyParameters => "Can't have more than 255 parameters."
  | .parameterName => "Expect parameter name."
  | .parenAfterParameters => "Expect ')' after parameters."
  | .braceBeforeFunctionBody => "Expect '\x7b' before function body."
  | .variableName => "Expect variable name."
  | .semicolonAfterVariable => "Expect ';' after variable declaration."
  | .parenAfterFor => "Expect '(' after 'for'."
  | .semicolonAfterLoopCondition => "Expect ';' after loop condition."
  | .parenAfterForClauses => "Expect ')' after for clauses."
  | .semicolonAfterValue => "Expect ';' after value."
  | .semicolonAfterExpression => "Expect ';' after expression."
  | .parenAfterIf => "Expect '(' after 'if'."
  | .parenAfterIfCondition => "Expect ')' after if condition."
  | .parenAfterWhile => "Expect '(' after 'while'."
  | .parenAfterCondition => "Expect ')' after condition."
  | .semicolonAfterReturnValue => "Expect ';' after return value."
  | .braceAfterBlock => "Expect '\x7d' after block."
  | .assignmentTarget => "Invalid assignment target."
  | .bracketAfterIndex => "Expect ']' after index."
  | .tooManyArguments => "Can't have more than 255 arguments."
  | .parenAfterArguments => "Expect ')' after arguments."
  | .bracketAfterElements => "Expect ']' after list elements."
  | .parenAfterExpression => "Expect ')' after expression."
  | .expression => "Expect expression."
  | .endOfExpression => "Expect end of expression."

structure ParseError where
  token : Token
  cause : ParseCause
  deriving Repr

end LexicalScript
