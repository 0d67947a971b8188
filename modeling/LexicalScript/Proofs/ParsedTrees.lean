import LexicalScript.Proofs.ParserRuns

/-!
Properties of parsed trees.

Whatever the parser returns was put together from tokens of its input and smaller trees in one of
the ways that the grammar has, whether or not errors were recorded before.  So a property that each
of these ways keeps holds of every tree that is returned.
-/

set_option autoImplicit false

namespace LexicalScript.Parser

variable {known : Token → Prop} (laws : TreeLaws known)

/-- A parser starts with the tokens it was given and an end of the input. -/
theorem known_close {tokens : List Token} (each : ∀ token, token ∈ tokens → known token)
    (last : ∀ line, known (Token.endOfInput line)) : Known known (close tokens) := by
  intro token member
  unfold close at member
  split at member
  · split at member
    · exact each token member
    · rcases List.mem_append.mp member with inside | added
      · exact each token inside
      · rw [List.mem_singleton.mp added]
        exact last _
  · rw [List.mem_singleton.mp member]
    exact last _

theorem Took.of_known {α : Type} {property : α → Prop} {tokens left : List Token} {result : α}
    (took : Took tokens (fun taken result => Known known taken → property result) result left)
    (given : Known known tokens) : property result := by
  obtain ⟨taken, rfl, held⟩ := took
  exact held given.left

section

variable {tokens : List Token} (each : ∀ token, token ∈ tokens → known token)
  (last : ∀ line, known (Token.endOfInput line))

include each last

/-- Every statement of a program parsed from known tokens has the property, whether or not errors
were recorded. -/
theorem program_built : ∀ stmt, stmt ∈ (program tokens).statements → laws.stmt stmt := by
  let state := (start tokens).note .beginning
  have runs := declarations_run (laws.grammar True) True (budget state.rest) false state
    (.inl trivial)
  unfold program
  dsimp only
  split
  · rename_i statements final ended
    exact ((runs.of_value ended).2.2 (.inl trivial)).of_known (known_close each last)
  · exact fun _ member => absurd member List.not_mem_nil
  · exact fun _ member => absurd member List.not_mem_nil

/-- An expression that was parsed alone from known tokens has the property. -/
theorem single_built {expr : Expr} (parsed : (single tokens).1 = .ok expr) : laws.expr expr := by
  let state := (start tokens).note .beginningExpression
  have runs := wholeExpression_runs (laws.grammar True) True (budget state.rest) state
    (.inl trivial)
  unfold single at parsed
  dsimp only at parsed
  split at parsed
  · rename_i found final ended
    split at parsed
    · cases parsed
      exact ((runs.of_value ended).2.2 (.inl trivial)).of_known (known_close each last)
    · cases parsed
  · cases parsed
  · cases parsed

end

section

variable (laws : TreeLaws fun _ => True)

/-- A property that does not depend on the tokens holds of every statement of a parsed program. -/
theorem program_yields (tokens : List Token) :
    ∀ stmt, stmt ∈ (program tokens).statements → laws.stmt stmt :=
  program_built laws (fun _ _ => trivial) fun _ => trivial

theorem single_yields {tokens : List Token} {expr : Expr} (parsed : (single tokens).1 = .ok expr) :
    laws.expr expr :=
  single_built laws (fun _ _ => trivial) (fun _ => trivial) parsed

end

end LexicalScript.Parser
