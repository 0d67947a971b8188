import LexicalScript.Tree

/-!
Values of the language.

Lists and functions are objects: each carries the identity it got when it was made, and two of
them with one identity are the same object.  A function holds its declaration and the frame in
which it was declared.
-/

set_option autoImplicit false

namespace LexicalScript

abbrev FrameId := Nat

abbrev Identity := Nat

/-- What a function of the host sees of a value: all of it but the code and the frame of its
functions. -/
inductive View where
  | nil
  | bool (value : Bool)
  | number (value : Float)
  | string (value : String)
  | list (identity : Identity) (elements : List View)
  | native (identity : Identity) (name : String) (arity : Nat)
  | function (identity : Identity) (name : String) (arity : Nat)
  deriving Repr

mutual

def View.text : View → String
  | .nil => "nil"
  | .bool value => if value then "true" else "false"
  | .number value => valueText value
  | .string value => value
  | .list _ elements => "[" ++ View.textAll elements ++ "]"
  | .native _ name _ => "<native fn " ++ name ++ ">"
  | .function _ name _ => "<fn " ++ name ++ ">"

def View.textAll : List View → String
  | [] => ""
  | [last] => last.text
  | first :: rest => first.text ++ ", " ++ View.textAll rest

end

/-- A value as a function of the host puts it together: a literal, one of its arguments, an element
of a list, or a new list. -/
inductive Reply where
  | literal (value : Literal)
  | argument (position : Nat)
  | element (object : Reply) (position : Nat)
  | list (elements : List Reply)
  deriving Repr

/-- What a native function does.  It reads the clock, or it answers as the host likes: with a value,
or with a message that says why there is none. -/
inductive NativeAction where
  | readClock
  | answer (host : List View → Except String Reply)

instance : Repr NativeAction where
  reprPrec
    | .readClock, _ => "readClock"
    | .answer _, _ => "answer"

structure Native where
  name : String
  arity : Nat
  action : NativeAction
  deriving Repr

def Native.clock : Native := ⟨"clock", 0, .readClock⟩

structure Declaration where
  name : Token
  parameters : List Token
  body : List Stmt
  deriving Repr

inductive Value where
  | nil
  | bool (value : Bool)
  | number (value : Float)
  | string (value : String)
  | list (identity : Identity) (elements : List Value)
  | native (identity : Identity) (supplied : Native)
  | function (identity : Identity) (declaration : Declaration) (closure : FrameId)
  deriving Repr

inductive Callable where
  | native (supplied : Native)
  | function (declaration : Declaration) (closure : FrameId)
  deriving Repr

namespace Callable

def name : Callable → String
  | .native supplied => supplied.name
  | .function declaration _ => declaration.name.lexeme

def arity : Callable → Nat
  | .native supplied => supplied.arity
  | .function declaration _ => declaration.parameters.length

end Callable

namespace Value

def ofLiteral : Literal → Value
  | .nil => .nil
  | .bool value => .bool value
  | .number value => .number value
  | .string value => .string value

/-- Nil, false, zero and the empty string count as false; every other value counts as true. -/
def isTruthy : Value → Bool
  | .nil => false
  | .bool value => value
  | .number value => !(value == 0)
  | .string value => !value.isEmpty
  | .list .. => true
  | .native .. => true
  | .function .. => true

def typeName : Value → String
  | .nil => "nil"
  | .bool _ => "boolean"
  | .number _ => "number"
  | .string _ => "string"
  | .list .. => "list"
  | .native .. => "function"
  | .function .. => "function"

def callable? : Value → Option Callable
  | .native _ supplied => some (.native supplied)
  | .function _ declaration closure => some (.function declaration closure)
  | _ => none

mutual

/-- Whether two values are equal.  Lists are equal when they are one object or agree element by
element; functions are equal when they are one object. -/
def same : Value → Value → Bool
  | .nil, .nil => true
  | .bool left, .bool right => left == right
  | .number left, .number right => left == right
  | .string left, .string right => left == right
  | .list identity elements, .list identity' elements' =>
      identity == identity' || sameAll elements elements'
  | .native identity _, .native identity' _ => identity == identity'
  | .function identity _ _, .function identity' _ _ => identity == identity'
  | _, _ => false

def sameAll : List Value → List Value → Bool
  | [], [] => true
  | left :: lefts, right :: rights => left.same right && sameAll lefts rights
  | _, _ => false

end

mutual

def view : Value → View
  | .nil => .nil
  | .bool value => .bool value
  | .number value => .number value
  | .string value => .string value
  | .list identity elements => .list identity (viewAll elements)
  | .native identity supplied => .native identity supplied.name supplied.arity
  | .function identity declaration _ =>
      .function identity declaration.name.lexeme declaration.parameters.length

def viewAll : List Value → List View
  | [] => []
  | value :: rest => value.view :: viewAll rest

end

/-- What is printed of a value. -/
def text (value : Value) : String := value.view.text

/-- The elements of a list; other values have none. -/
def elements : Value → List Value
  | .list _ elements => elements
  | _ => []

/-- A function of the language as a record: its name and how many arguments it takes. -/
def recordText? : Value → Option String
  | .function _ declaration _ =>
      some ("LoxFunction \x7b name: " ++ Text.quote declaration.name.lexeme ++ ", arity: " ++
        toString declaration.parameters.length ++ " \x7d")
  | _ => none

end Value

/-! ### Replies of the host -/

mutual

/-- The value that a reply stands for, and the next unused identity.  Arguments and elements that
are not there count as nil. -/
def Reply.build (arguments : List Value) : Reply → Identity → Value × Identity
  | .literal value, fresh => (.ofLiteral value, fresh)
  | .argument position, fresh => (arguments.getD position .nil, fresh)
  | .element object position, fresh =>
      let (value, fresh) := Reply.build arguments object fresh
      (value.elements.getD position .nil, fresh)
  | .list elements, fresh =>
      let (values, fresh) := Reply.buildAll arguments elements fresh
      (.list fresh values, fresh + 1)

def Reply.buildAll (arguments : List Value) : List Reply → Identity → List Value × Identity
  | [], fresh => ([], fresh)
  | reply :: rest, fresh =>
      let (value, fresh) := Reply.build arguments reply fresh
      let (values, fresh) := Reply.buildAll arguments rest fresh
      (value :: values, fresh)

end

end LexicalScript
