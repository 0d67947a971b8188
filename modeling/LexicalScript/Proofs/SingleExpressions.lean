import LexicalScript.Proofs.Parsing

/-!
Parsing a single expression.

Tokens in front of the end of input are parsed to an expression exactly if they derive it.
-/

set_option autoImplicit false

namespace LexicalScript.Parser

open Grammar

/-- The state in which the parsing of a single expression begins. -/
def openingSingle (tokens : List Token) : State := (start tokens).note .beginningExpression

theorem wholeExpression_accepts (fuel : Nat) {tokens follow : List Token} {tree : Expr}
    (derived : Expression tokens tree) (ends : (upcoming follow).is .endOfInput = true) :
    Accepts (wholeExpression fuel) tokens tree follow := by
  have closes : Closes follow := by
    constructor
    · intro mark member
      refine Token.not_is ends ?_
      rintro rfl
      revert member
      decide
    · exact Token.not_is ends (by decide)
  unfold wholeExpression
  apply Accepts.bindAll ((completeExpressions fuel).expression derived closes)
  intro state left
  have stops : state.atEnd = true := by
    unfold State.atEnd
    rw [State.peek_eq, left]
    exact ends
  change ((if state.atEnd = true then _ else _ : Parse Expr) state).Meets _ _
  rw [if_pos stops]
  exact ⟨rfl, left, rfl⟩

/-- An expression is returned exactly if the whole was read and no error was recorded. -/
theorem single_eq_ok {tokens : List Token} {tree : Expr} :
    (single tokens).1 = .ok tree ↔
      ∃ final, wholeExpression (budget (openingSingle tokens).rest) (openingSingle tokens) =
        .value tree final ∧ final.errors = #[] := by
  unfold single openingSingle
  dsimp only
  generalize wholeExpression _ _ = outcome
  cases outcome with
  | exhausted => simp
  | failure error final => simp
  | value found final =>
      dsimp only
      cases recorded : final.errors.toList with
      | nil =>
          have clean := Array.toList_eq_nil_iff.mp recorded
          simp only [Except.ok.injEq, Outcome.value.injEq]
          constructor
          · intro same
            exact ⟨final, ⟨same, rfl⟩, clean⟩
          · rintro ⟨_, ⟨same, _⟩, _⟩
            exact same
      | cons error others =>
          have dirty : final.errors ≠ #[] := by
            intro clean
            rw [clean] at recorded
            cases recorded
          simp [dirty]

theorem single_complete {tokens : List Token} {last : Token} {tree : Expr}
    (ends : last.is .endOfInput = true) (derived : Expression tokens tree) :
    (single (tokens ++ [last])).1 = .ok tree := by
  have rest : (openingSingle (tokens ++ [last])).rest = tokens ++ [last] := opening_rest ends
  have stops : (upcoming [last]).is .endOfInput = true := ends
  have accepts := wholeExpression_accepts (budget (openingSingle (tokens ++ [last])).rest)
    derived stops _ rest
  rw [single_eq_ok]
  cases ended : wholeExpression (budget (openingSingle (tokens ++ [last])).rest)
      (openingSingle (tokens ++ [last])) with
  | exhausted =>
      exact absurd ended (wholeExpression_ne_exhausted (openingSingle (tokens ++ [last])))
  | failure error final => exact (accepts.of_failure ended).elim
  | value found final =>
      obtain ⟨rfl, _, unchanged⟩ := accepts.of_value ended
      exact ⟨final, rfl, unchanged⟩

/-- What parses as a single expression is what derives from the grammar. -/
theorem single_eq_ok_iff {tokens : List Token} {last : Token} {tree : Expr}
    (ends : last.is .endOfInput = true) (inner : Proceeds tokens) :
    (single (tokens ++ [last])).1 = .ok tree ↔ Expression tokens tree := by
  constructor
  · intro parsed
    obtain ⟨final, ended, clean⟩ := single_eq_ok.mp parsed
    have runs := wholeExpression_runs (derivations true) True
      (budget (openingSingle (tokens ++ [last])).rest) (openingSingle (tokens ++ [last]))
      (.inl trivial)
    obtain ⟨before, whole, proceeds, derived⟩ := runs.takes ended (.inr (clean ▸ Nat.zero_le _))
    have stops := (runs.of_value ended).2.1
    have rest : (openingSingle (tokens ++ [last])).rest = tokens ++ [last] := opening_rest ends
    rw [rest] at whole
    rw [eq_of_ends inner whole proceeds stops ends] at derived
    exact derived
  · exact single_complete ends

end LexicalScript.Parser
