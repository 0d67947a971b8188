import LexicalScript.Proofs.Recovery

/-!
What a list of declarations gives depends on its tokens alone.

Two runs in front of the same end of input stay in step through every rule, also where they recover
from an error.  So the result, the errors and the tokens left of a run are those of every other run
on these tokens, whatever its fuel and whatever it recorded before.
-/

set_option autoImplicit false

namespace LexicalScript.Parser

open Grammar

/-! ### Skipping in front of the end of input -/

section

variable {stop : Token} (ends : stop.is .endOfInput = true)

include ends

theorem boundary_end (tokens : List Token) (last : Token) :
    ∃ left, left <:+ tokens ∧
      ∀ behind, boundary last (tokens ++ stop :: behind) = left ++ stop :: behind := by
  induction tokens generalizing last with
  | nil =>
      refine ⟨[], List.suffix_rfl, ?_⟩
      intro behind
      simp [boundary, ends]
  | cons token rest ih =>
      by_cases halts :
          (token.is .endOfInput || last.is .semicolon || statementMarks.any token.is) = true
      · refine ⟨token :: rest, List.suffix_rfl, ?_⟩
        intro behind
        exact if_pos halts
      · obtain ⟨left, suffix, same⟩ := ih token
        refine ⟨left, suffix.trans (List.suffix_cons token rest), ?_⟩
        intro behind
        exact (if_neg halts).trans (same behind)

theorem resumed_end (tokens : List Token) :
    ∃ left, left <:+ tokens ∧
      ∀ behind, resumed (tokens ++ stop :: behind) = left ++ stop :: behind := by
  cases tokens with
  | nil =>
      refine ⟨[], List.suffix_rfl, ?_⟩
      intro behind
      exact if_pos ends
  | cons token rest =>
      cases halts : token.is .endOfInput with
      | true =>
          refine ⟨token :: rest, List.suffix_rfl, ?_⟩
          intro behind
          exact if_pos halts
      | false =>
          obtain ⟨left, suffix, same⟩ := boundary_end ends rest token
          refine ⟨left, suffix.trans (List.suffix_cons token rest), ?_⟩
          intro behind
          exact (if_neg (Bool.eq_false_iff.mp halts)).trans (same behind)

end

/-! ### The rules for statements -/

namespace Fork

variable {α : Type} {fork : Fork} {rule rule' : Parse α}

theorem stopsExpressions_of_end (ends : fork.stop.is .endOfInput = true) : fork.StopsExpressions :=
  ⟨.endOfInput, by decide, ends⟩

/-- Runs that fail alike go on together where the next statement begins. -/
theorem Pairs.recovering (ends : fork.stop.is .endOfInput = true) {ahead : List Token}
    {state state' : State}
    (pairs : fork.Pairs ahead (fork.InStep ahead) (rule state) (rule' state')) :
    fork.Pairs ahead (fork.InStep ahead) (Parser.recovering rule state)
      (Parser.recovering rule' state') := by
  unfold Parser.recovering
  cases ended : rule state with
  | exhausted => trivial
  | value result final =>
      cases ended' : rule' state' with
      | exhausted => trivial
      | failure error' final' =>
          rw [ended, ended'] at pairs
          exact pairs.elim
      | value result' final' =>
          rw [ended, ended'] at pairs
          obtain ⟨rfl, left⟩ := pairs
          exact ⟨rfl, left⟩
  | failure error final =>
      cases ended' : rule' state' with
      | exhausted => trivial
      | value result' final' =>
          rw [ended, ended'] at pairs
          exact pairs.elim
      | failure error' final' =>
          rw [ended, ended'] at pairs
          obtain ⟨rfl, left, suffix, shared'⟩ := pairs
          obtain ⟨further, suffix', same⟩ := resumed_end ends left
          refine ⟨rfl, further, suffix'.trans suffix, ?_, ?_, ?_⟩
          · rw [synchronize_resumes]
            change resumed final.rest = _
            rw [shared'.rest, same]
          · rw [synchronize_resumes]
            change resumed final'.rest = _
            rw [shared'.rest', same]
          · rw [synchronize_errors, synchronize_errors]
            change final'.errors.push error = _ ++ final.errors.push error
            rw [shared'.errors, Array.append_push]

theorem stepping_recovers (ends : fork.stop.is .endOfInput = true) :
    (stepping (stopsExpressions_of_end ends)).judgement.Recovers :=
  RunRelation.recovers (fun _ other => Token.not_is ends other.symm)
    fun steps ahead state state' same shared =>
      Pairs.recovering ends (steps ahead state state' same shared)

section

variable (ends : fork.stop.is .endOfInput = true) (fuel fuel' : Nat)

include ends

/-- The rules for statements stay in front of the end of input, whatever the fuel of both runs. -/
theorem steppingStatements :
    HoldsOfStatements (stepping (stopsExpressions_of_end ends)).judgement (.free True) fuel fuel' :=
  holdsOfStatements (.free True) (stepping_recovers ends) (fueled _ fuel fuel')

theorem declaration_lockstep : fork.Lockstep (declaration fuel) (declaration fuel') :=
  .of_forall fun _ => And.right ((steppingStatements ends fuel fuel').declaration (.inl trivial))

theorem declarations_lockstep (inBlock : Bool) :
    fork.Lockstep (declarations fuel inBlock) (declarations fuel' inBlock) :=
  .of_forall fun _ =>
    And.right ((steppingStatements ends fuel fuel').declarations inBlock (.inl trivial))

end

end Fork

/-! ### What declarations record -/

section

variable {tokens : List Token} {last : Token} (ends : last.is .endOfInput = true) {inBlock : Bool}

include ends

/-- A run that begins without errors is repeated by every other run on its tokens. -/
theorem declarations_again {state final : State} {stmts : List Stmt} {fuel : Nat}
    (rest : state.rest = tokens ++ [last]) (fresh : state.errors = #[])
    (ended : declarations fuel inBlock state = .value stmts final) (fuel' : Nat) {state' : State}
    (rest' : state'.rest = tokens ++ [last]) :
    (declarations fuel' inBlock state').Meets
      (fun found final' => found = stmts ∧ final'.rest = final.rest ∧
        final'.errors = state'.errors ++ final.errors ∧
        ∃ left, left <:+ tokens ∧ final'.rest = left ++ [last])
      fun _ _ => False := by
  have pairs := @Fork.declarations_lockstep ⟨last, [], [], state'.errors⟩ ends fuel fuel' inBlock
    tokens state state' ⟨rest, rest', by rw [fresh, Array.append_empty]⟩
  rw [ended] at pairs
  cases ended' : declarations fuel' inBlock state' with
  | exhausted => trivial
  | failure error final' =>
      rw [ended'] at pairs
      exact pairs.elim
  | value found final' =>
      rw [ended'] at pairs
      obtain ⟨same, left, suffix, shared⟩ := pairs
      exact ⟨same.symm, shared.rest'.trans shared.rest.symm, shared.errors, left, suffix,
        shared.rest'⟩

variable (tokens) (inBlock)

/-- Declarations in front of the end of input: what they return and record and the tokens they
leave depend on the tokens alone. -/
theorem declarations_record :
    ∃ taken left stmts errors, tokens = taken ++ left ∧
      (∀ fuel, Records (declarations fuel inBlock) taken stmts errors (left ++ [last])) ∧
      Concluded inBlock (left ++ [last]) := by
  let state : State := ⟨tokens ++ [last], #[], #[]⟩
  have unfailing := declarations_unfailing (budget state.rest) inBlock state
  have runs := declarations_run (.free True) True (budget state.rest) inBlock state (.inl trivial)
  cases ended : declarations (budget state.rest) inBlock state with
  | exhausted => exact absurd ended (declarations_ne_exhausted inBlock state)
  | failure error final => exact (unfailing.of_failure ended).elim
  | value stmts final =>
      have own := declarations_again ends rfl rfl ended (budget state.rest)
        (rfl : state.rest = tokens ++ [last])
      obtain ⟨_, _, _, left, ⟨taken, split⟩, rest⟩ := own.of_value ended
      have stopped := (runs.of_value ended).2.1
      rw [rest] at stopped
      refine ⟨taken, left, stmts, final.errors, split.symm, ?_, stopped⟩
      intro fuel state' rest'
      rw [← List.append_assoc, split] at rest'
      apply (declarations_again ends rfl rfl ended fuel rest').mono _ fun _ _ => id
      rintro found final' ⟨same, rest'', recorded, _⟩
      exact ⟨same, rest''.trans rest, recorded⟩

end

end LexicalScript.Parser
