import LexicalScript.Parser.Statement
import LexicalScript.Proofs.Outcome

/-!
What the parser's steps read.

The steps of the parser are seen through the tokens that are left.  No step goes past the end of
input, and recovery goes on at a statement boundary in front of it.
-/

set_option autoImplicit false

namespace LexicalScript

theorem Token.is_unique {token : Token} {mark mark' : Mark} (own : token.is mark = true)
    (own' : token.is mark' = true) : mark = mark' := by
  unfold Token.is at own own'
  cases kind : token.kind with
  | mark given =>
      rw [kind] at own own'
      exact (of_decide_eq_true own).symm.trans (of_decide_eq_true own')
  | string value =>
      rw [kind] at own
      cases own
  | number value =>
      rw [kind] at own
      cases own

theorem Token.not_is {token : Token} {mark mark' : Mark} (own : token.is mark = true)
    (different : mark ≠ mark') : token.is mark' = false := by
  cases other : token.is mark' with
  | false => rfl
  | true => exact absurd (Token.is_unique own other) different

theorem Token.kind_of_is {token : Token} {mark : Mark} (own : token.is mark = true) :
    token.kind = .mark mark := by
  unfold Token.is at own
  cases kind : token.kind with
  | mark given =>
      rw [kind] at own
      rw [of_decide_eq_true own]
  | string value =>
      rw [kind] at own
      cases own
  | number value =>
      rw [kind] at own
      cases own

theorem Token.is_of_kind {token : Token} {mark : Mark} (kind : token.kind = .mark mark) :
    token.is mark = true := by
  unfold Token.is
  rw [kind]
  exact decide_eq_true rfl

namespace Parser

/-- Items with commas between them: the first one, and the others if a comma follows. -/
def separated {α : Type} (item : Parse α) (others : Parse (List α)) : Parse (List α) := do
  let first ← item
  match ← accept .comma with
  | none => return [first]
  | some _ =>
      let rest ← others
      return first :: rest

/-- The part of a declaration that is guarded by recovery. -/
def guarded (fuel : Nat) (token : Token) : Parse Stmt :=
  match token.kind with
  | .mark .funWord => do advance; functionDeclaration fuel
  | .mark .varWord => do advance; variableDeclaration fuel
  | _ => statement fuel

/-- What is parsed behind the keyword of a `for`. -/
def forClauses (fuel line : Nat) : Parse Stmt := do
  note (.desugaring line)
  let _ ← expect .leftParen .parenAfterFor
  let initializer ← forInitializer fuel
  let condition ← expressionUnless fuel .semicolon
  let _ ← expect .semicolon .semicolonAfterLoopCondition
  let increment ← expressionUnless fuel .rightParen
  let _ ← expect .rightParen .parenAfterForClauses
  let body ← statement fuel
  return counting initializer condition increment body

/-- What is parsed behind the condition of an `if`. -/
def branches (fuel : Nat) (condition : Expr) : Parse Stmt := do
  let thenBranch ← statement fuel
  match ← accept .elseWord with
  | none => return .conditional condition thenBranch none
  | some _ =>
      let elseBranch ← statement fuel
      return .conditional condition thenBranch (some elseBranch)

/-- The next of the tokens that are left. -/
def upcoming : List Token → Token
  | token :: _ => token
  | [] => Token.endOfInput 1

/-- The tokens hold no end of input. -/
def Proceeds (tokens : List Token) : Prop :=
  ∀ token, token ∈ tokens → token.is .endOfInput = false

theorem Proceeds.nil : Proceeds [] :=
  fun _ member => nomatch member

theorem Proceeds.append {first rest : List Token} (before : Proceeds first)
    (after : Proceeds rest) : Proceeds (first ++ rest) := by
  intro token member
  rcases List.mem_append.mp member with left | right
  · exact before token left
  · exact after token right

theorem State.peek_eq (state : State) : state.peek = upcoming state.rest := by
  unfold State.peek upcoming
  cases state.rest <;> rfl

theorem State.advance_errors (state : State) : state.advance.errors = state.errors := by
  unfold State.advance
  split <;> rfl

/-- In front of the end of input, going on takes one token. -/
theorem State.rest_eq {state : State} (more : state.peek.is .endOfInput = false) :
    state.rest = state.peek :: state.advance.rest := by
  unfold State.advance State.atEnd
  rw [more]
  unfold State.peek at more ⊢
  cases left : state.rest with
  | nil =>
      rw [left] at more
      cases more
  | cons token rest =>
      rfl

/-- A mark is seen on the next token, which is then no end of input. -/
theorem State.peek_of_sees {state : State} {mark : Mark} (seen : state.sees mark = true) :
    state.peek.is mark = true ∧ state.peek.is .endOfInput = false := by
  unfold State.sees State.atEnd at seen
  rw [Bool.and_eq_true, Bool.not_eq_true'] at seen
  exact ⟨seen.2, seen.1⟩

theorem State.sees_of_peek {state : State} {mark : Mark} (own : state.peek.is mark = true)
    (other : mark ≠ .endOfInput) : state.sees mark = true := by
  unfold State.sees State.atEnd
  rw [Token.not_is own other, own]
  rfl

theorem State.sees_eq_false {state : State} {mark : Mark} (absent : state.peek.is mark = false) :
    state.sees mark = false := by
  unfold State.sees
  rw [absent, Bool.and_false]

/-! ### Where recovery goes on -/

/-- The tokens left when an error was found in front of these. -/
def resumed : List Token → List Token
  | [] => []
  | token :: rest => if token.is .endOfInput then token :: rest else boundary token rest

theorem synchronize_resumes (state : State) : state.synchronize.rest = resumed state.rest := by
  obtain ⟨rest, errors, notes⟩ := state
  cases rest with
  | nil => rfl
  | cons token rest =>
      cases halts : token.is .endOfInput with
      | true => simp [State.synchronize, State.note, State.atEnd, State.peek, resumed, halts]
      | false => simp [State.synchronize, State.note, State.atEnd, State.peek, resumed, halts]

theorem synchronize_errors (state : State) : state.synchronize.errors = state.errors := by
  unfold State.synchronize
  dsimp only
  split <;> rfl

end Parser

end LexicalScript
