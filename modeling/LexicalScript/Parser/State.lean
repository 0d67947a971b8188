import LexicalScript.Attempt
import LexicalScript.Parser.Error

/-!
The state of the parser and its primitive steps.

The parser holds the tokens that are left, the errors it has recorded, and notes of what it did.
The tokens end in an end of input, and no step goes past the first one.
-/

set_option autoImplicit false

namespace LexicalScript.Parser

def maximalArity : Nat := 255

inductive Note where
  | created (count : Nat)
  | closed (token : Token)
  | beginning
  | beginningExpression
  | entering (line : Nat)
  | parsedFunction (name : String) (parameters : Nat)
  | desugaring (line : Nat)
  | failed (error : ParseError)
  | synchronized (start stop : Nat)
  | finished (statements errors : Nat)
  deriving Repr

structure State where
  rest : List Token
  errors : Array ParseError
  notes : Array Note
  deriving Repr

abbrev Parse (α : Type) : Type := Attempt ParseError State α

def State.peek (state : State) : Token :=
  match state.rest with
  | token :: _ => token
  | [] => Token.endOfInput 1

def State.atEnd (state : State) : Bool := state.peek.is .endOfInput

/-- Whether the next token has the mark; the end of input has none. -/
def State.sees (state : State) (mark : Mark) : Bool :=
  !state.atEnd && state.peek.is mark

/-- Goes past the next token, unless it is the end of input. -/
def State.advance (state : State) : State :=
  if state.atEnd then state else { state with rest := state.rest.tail }

def State.note (state : State) (note : Note) : State :=
  { state with notes := state.notes.push note }

/-- Records an error without leaving the current rule. -/
def State.record (state : State) (error : ParseError) : State :=
  { state with errors := state.errors.push error }

def peek : Parse Token := fun state => .value state.peek state

def atEnd : Parse Bool := fun state => .value state.atEnd state

def sees (mark : Mark) : Parse Bool := fun state => .value (state.sees mark) state

def advance : Parse Unit := Attempt.update State.advance

def note (note : Note) : Parse Unit := Attempt.update (·.note note)

def raise {α : Type} (token : Token) (cause : ParseCause) : Parse α := fun state =>
  .failure ⟨token, cause⟩ (state.note (.failed ⟨token, cause⟩))

def report (cause : ParseCause) : Parse Unit := fun state =>
  let error : ParseError := ⟨state.peek, cause⟩
  .value () ((state.note (.failed error)).record error)

def accept (mark : Mark) : Parse (Option Token) := fun state =>
  if state.sees mark then .value (some state.peek) state.advance else .value none state

def acceptAny (marks : List Mark) : Parse (Option Token) := fun state =>
  if marks.any state.sees then .value (some state.peek) state.advance else .value none state

def expect (mark : Mark) (cause : ParseCause) : Parse Token := do
  match ← accept mark with
  | some token => return token
  | none => raise (← peek) cause

def statementMarks : List Mark :=
  [.funWord, .varWord, .forWord, .ifWord, .whileWord, .printWord, .returnWord]

/-- The tokens left after skipping to a statement boundary, when `last` was skipped before them:
right behind a semicolon, in front of a word that starts a statement, or at the end. -/
def boundary (last : Token) : List Token → List Token
  | [] => []
  | token :: rest =>
      if token.is .endOfInput || last.is .semicolon || statementMarks.any token.is then
        token :: rest
      else boundary token rest

theorem boundary_isSuffix (last : Token) (tokens : List Token) :
    boundary last tokens <:+ tokens := by
  induction tokens generalizing last with
  | nil => exact List.suffix_rfl
  | cons token rest ih =>
      unfold boundary
      split
      · exact List.suffix_rfl
      · exact (ih token).trans (List.suffix_cons token rest)

/-- Skips the token that an error was found at and all that follow up to a statement boundary. -/
def State.synchronize (state : State) : State :=
  let skipped :=
    if state.atEnd then state
    else { state with rest := boundary state.peek state.rest.tail }
  skipped.note (.synchronized state.peek.line skipped.peek.line)

/-- Turns a failure into a recorded error and a missing result, with the tokens up to the next
statement boundary skipped. -/
def recovering {α : Type} (rule : Parse α) : Parse (Option α) := fun state =>
  match rule state with
  | .value result state => .value (some result) state
  | .failure error state => .value none (state.record error).synchronize
  | .exhausted => .exhausted

end LexicalScript.Parser
