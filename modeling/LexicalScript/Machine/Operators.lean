import LexicalScript.Machine

/-!
Operators on values.
-/

set_option autoImplicit false

namespace LexicalScript

def applyUnary (operator : Token) (operand : Value) : Except RuntimeError Value :=
  match operator.kind with
  | .mark .minus =>
      match operand with
      | .number value => .ok (.number (-value))
      | _ => .error ⟨.operandNotNumber, operator.line⟩
  | .mark .bang => .ok (.bool !operand.isTruthy)
  | _ => .error ⟨.unaryOperator operator.lexeme, operator.line⟩

def applyArithmetic (operator : Token) (left right : Float) : Except RuntimeError Value :=
  match operator.kind with
  | .mark .minus => .ok (.number (left - right))
  | .mark .star => .ok (.number (left * right))
  | .mark .slash =>
      if right == 0 then .error ⟨.divisionByZero, operator.line⟩
      else .ok (.number (left / right))
  | .mark .greater => .ok (.bool (decide (right < left)))
  | .mark .greaterEqual => .ok (.bool (decide (right ≤ left)))
  | .mark .less => .ok (.bool (decide (left < right)))
  | .mark .lessEqual => .ok (.bool (decide (left ≤ right)))
  | _ => .error ⟨.binaryOperator operator.lexeme, operator.line⟩

/-- The sum of two numbers, or the joined texts of two values one of which is a string. -/
def applyPlus (operator : Token) : Value → Value → Except RuntimeError Value
  | .number left, .number right => .ok (.number (left + right))
  | .string left, right => .ok (.string (left ++ right.text))
  | left, .string right => .ok (.string (left.text ++ right))
  | _, _ => .error ⟨.operandsNotAddable, operator.line⟩

def applyBinary (operator : Token) (left right : Value) : Except RuntimeError Value :=
  match operator.kind with
  | .mark .plus => applyPlus operator left right
  | .mark .equalEqual => .ok (.bool (left.same right))
  | .mark .bangEqual => .ok (.bool !left.same right)
  | _ =>
      match left, right with
      | .number left, .number right => applyArithmetic operator left right
      | _, _ => .error ⟨.operandsNotNumbers, operator.line⟩

/-- Whether a logical operator gives its left operand without looking at the right one. -/
def settles (operator : Token) (left : Value) : Bool :=
  if operator.is .orWord then left.isTruthy else !left.isTruthy

/-- The position that a number stands for: its integer part, unless that is negative or infinite. -/
def position? (number : Float) : Option Nat :=
  match Reading.ofFloat number with
  | .finite negative magnitude =>
      if negative && magnitude.floor != 0 then none else some magnitude.floor
  | _ => none

def applyIndex (bracket : Token) (object index : Value) : Except RuntimeError Value :=
  match object with
  | .list _ elements =>
      match index with
      | .number number =>
          match (position? number).bind fun position => elements[position]? with
          | some element => .ok element
          | none => .error ⟨.indexOutOfBounds, bracket.line⟩
      | _ => .error ⟨.indexNotNumber, bracket.line⟩
  | _ => .error ⟨.notIndexable, bracket.line⟩

end LexicalScript
