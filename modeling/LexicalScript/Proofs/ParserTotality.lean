import LexicalScript.Proofs.ParserSteps
import LexicalScript.Proofs.RepeatedParses
import LexicalScript.Proofs.SingleExpressions

/-!
The parser ends on every list of tokens.

The tokens may be any: none at all, without an end of input, or with several of them.  A missing end
of input is added, the parser never goes past the first one, and what comes behind it does not
matter.
-/

set_option autoImplicit false

namespace LexicalScript.Parser

/-! ### The first end of input -/

/-- The tokens up to and with the first end of input. -/
def upToEnd (buffer : List Token) : List Token :=
  buffer.take (buffer.findIdx (·.is .endOfInput) + 1)

theorem closed_close (tokens : List Token) : Closed (close tokens) := by
  unfold Closed
  rw [List.findIdx_lt_length]
  unfold close
  split
  · rename_i last found
    split
    · rename_i ends
      exact ⟨last, List.mem_of_getLast? found, ends⟩
    · exact ⟨_, List.mem_append_right _ List.mem_cons_self, rfl⟩
  · exact ⟨_, List.mem_cons_self, rfl⟩

/-- A closed list of tokens, taken apart at its first end of input. -/
theorem Closed.split {buffer : List Token} (closed : Closed buffer) :
    ∃ ahead stop behind, buffer = ahead ++ stop :: behind ∧ stop.is .endOfInput = true ∧
      upToEnd buffer = ahead ++ [stop] ∧
      buffer.drop (buffer.findIdx (·.is .endOfInput)) = stop :: behind := by
  let first := buffer.findIdx (·.is .endOfInput)
  have within : first < buffer.length := closed
  refine ⟨buffer.take first, buffer[first], buffer.drop (first + 1), ?_, ?_, ?_, ?_⟩
  · rw [← List.drop_eq_getElem_cons within, List.take_append_drop]
  · exact List.findIdx_getElem (w := closed)
  · exact (List.take_append_getElem within).symm
  · exact List.drop_eq_getElem_cons within

/-! ### Outcomes that do not depend on the fuel -/

/-- The state without its notes. -/
def State.unnoted (state : State) : State := { state with notes := #[] }

/-- With enough fuel the rule ends, and however much it has, it ends in the same way if it ends. -/
structure Settles {α : Type} (rule : Nat → Parse α) (state : State) (enough : Nat) : Prop where
  ends : ∀ fuel, enough ≤ fuel → rule fuel state ≠ .exhausted
  same : ∀ fuel fuel', rule fuel state ≠ .exhausted → rule fuel' state ≠ .exhausted →
    (rule fuel state).mapState State.unnoted = (rule fuel' state).mapState State.unnoted

theorem Fork.SharedAhead.unnoted {stop : Token} {behind left : List Token} {state state' : State}
    (shared : Fork.SharedAhead ⟨stop, behind, behind, #[]⟩ left state state') :
    state.unnoted = state'.unnoted := by
  obtain ⟨rest, errors, notes⟩ := state
  obtain ⟨rest', errors', notes'⟩ := state'
  obtain ⟨own, own', recorded⟩ := shared
  cases own
  cases own'
  have same : errors' = errors := recorded.trans Array.empty_append
  rw [same]
  rfl

theorem Fork.Pairs.unnoted {α : Type} {stop : Token} {behind ahead : List Token}
    {outcome outcome' : Outcome ParseError State α}
    (pairs : Fork.Pairs ⟨stop, behind, behind, #[]⟩ ahead
      (Fork.InStep ⟨stop, behind, behind, #[]⟩ ahead) outcome outcome')
    (ended : outcome ≠ .exhausted) (ended' : outcome' ≠ .exhausted) :
    outcome.mapState State.unnoted = outcome'.mapState State.unnoted := by
  cases outcome with
  | exhausted => exact absurd rfl ended
  | value result final =>
      cases outcome' with
      | exhausted => exact absurd rfl ended'
      | failure error' final' => exact pairs.elim
      | value result' final' =>
          obtain ⟨rfl, left, _, shared⟩ := pairs
          exact congrArg (Outcome.value result) shared.unnoted
  | failure error final =>
      cases outcome' with
      | exhausted => exact absurd rfl ended'
      | value result' final' => exact pairs.elim
      | failure error' final' =>
          obtain ⟨rfl, left, _, shared⟩ := pairs
          exact congrArg (Outcome.failure error) shared.unnoted

theorem Fork.sharedAhead_self {stop : Token} {ahead behind : List Token} {state : State}
    (rest : state.rest = ahead ++ stop :: behind) :
    Fork.SharedAhead ⟨stop, behind, behind, #[]⟩ ahead state state :=
  ⟨rest, rest, Array.empty_append.symm⟩

/-! ### Programs, declarations and single expressions settle -/

section

variable {state : State} (closed : Closed state.rest)

include closed

theorem declarations_settles :
    Settles (fun fuel => declarations fuel false) state (budget state.rest) := by
  obtain ⟨ahead, stop, behind, whole, ends, -, -⟩ := closed.split
  constructor
  · intro fuel enough
    have ample : 16 * state.rest.length + 13 ≤ fuel := by
      unfold budget at enough
      omega
    exact (declarations_run (.free True) False fuel false state (.inr ample)).ne_exhausted
  · intro fuel fuel' ended ended'
    exact (Fork.declarations_lockstep ends fuel fuel' false ahead state state
      (Fork.sharedAhead_self whole)).unnoted ended ended'

theorem wholeExpression_settles : Settles wholeExpression state (budget state.rest) := by
  obtain ⟨ahead, stop, behind, whole, ends, -, -⟩ := closed.split
  constructor
  · intro fuel enough
    have ample : 16 * state.rest.length + 10 ≤ fuel := by
      unfold budget at enough
      omega
    exact (wholeExpression_runs (.free True) False fuel state (.inr ample)).ne_exhausted
  · intro fuel fuel' ended ended'
    exact (Fork.wholeExpression_lockstep (Fork.stopsExpressions_of_end ends) fuel fuel' ahead state
      state (Fork.sharedAhead_self whole)).unnoted ended ended'

theorem declaration_settles :
    Settles declaration state (16 * state.rest.length + 12) := by
  obtain ⟨ahead, stop, behind, whole, ends, -, -⟩ := closed.split
  constructor
  · intro fuel ample
    exact (declaration_runs (.free True) False fuel state (.inr ample)).ne_exhausted
  · intro fuel fuel' ended ended'
    exact (Fork.declaration_lockstep ends fuel fuel' ahead state state
      (Fork.sharedAhead_self whole)).unnoted ended ended'

end

/-- A declaration in front of the end of input takes a token, also when it fails and is skipped. -/
theorem declaration_advances {state final : State} (before : state.atEnd = false) {fuel : Nat}
    {found : Option Stmt} (ended : declaration fuel state = .value found final) :
    ∃ taken, taken ≠ [] ∧ state.rest = taken ++ final.rest := by
  obtain ⟨advanced, further, _⟩ :=
    (declaration_runs (.free True) True fuel state (.inl trivial)).of_value ended
  obtain ⟨taken, whole, _⟩ := advanced.rest
  refine ⟨taken, ?_, whole⟩
  rintro rfl
  have shorter := further (state.peek_eq ▸ before)
  rw [whole, List.nil_append] at shorter
  exact absurd shorter (Nat.lt_irrefl _)

/-- What is left inside a closed buffer is closed. -/
theorem Inside.closed {buffer rest : List Token} (closed : Closed buffer)
    (inside : Inside buffer rest) : Closed rest := by
  obtain ⟨cursor, _, before, rfl⟩ := inside
  obtain ⟨ahead, stop, behind, _, ends, _, left⟩ := closed.split
  refine List.findIdx_lt_length.mpr ⟨stop, ?_, ends⟩
  apply (List.drop_suffix_drop_left buffer before).subset
  rw [left]
  exact List.mem_cons_self

/-! ### Behind the first end of input -/

theorem close_upToEnd (tokens : List Token) :
    close (upToEnd (close tokens)) = upToEnd (close tokens) := by
  obtain ⟨ahead, stop, behind, -, ends, cut, -⟩ := (closed_close tokens).split
  rw [cut]
  exact opening_rest ends

/-- A program ends with its declarations, and these at the first end of input. -/
theorem program_ends (tokens : List Token) :
    ∃ statements final,
      declarations (budget (close tokens)) false (opening tokens) = .value statements final ∧
      (program tokens).statements = statements ∧
      (program tokens).errors = final.errors.toList ∧ final.atEnd = true := by
  rcases program_cases tokens with ⟨statements, final, ended, same, recorded⟩ |
    ⟨error, final, failed, _⟩
  · refine ⟨statements, final, ended, same, recorded, ?_⟩
    have runs := declarations_run (.free True) True (budget (close tokens)) false (opening tokens)
      (.inl trivial)
    unfold State.atEnd
    rw [State.peek_eq]
    exact (runs.of_value ended).2.1.ends
  · exact ((declarations_unfailing _ false (opening tokens)).of_failure failed).elim

/-- What is returned and recorded for a program does not depend on what comes behind the first end
of input. -/
theorem program_upToEnd (tokens : List Token) :
    (program tokens).statements = (program (upToEnd (close tokens))).statements ∧
      (program tokens).errors = (program (upToEnd (close tokens))).errors := by
  obtain ⟨ahead, stop, behind, whole, ends, cut, -⟩ := (closed_close tokens).split
  obtain ⟨statements, final, ended, same, recorded, -⟩ := program_ends tokens
  obtain ⟨statements', final', ended', same', recorded', -⟩ := program_ends (upToEnd (close tokens))
  have shared : Fork.SharedAhead ⟨stop, behind, [], #[]⟩ ahead (opening tokens)
      (opening (upToEnd (close tokens))) :=
    ⟨whole, (close_upToEnd tokens).trans cut, rfl⟩
  have pairs := Fork.declarations_lockstep ends (budget (close tokens))
    (budget (close (upToEnd (close tokens)))) false ahead _ _ shared
  rw [ended, ended'] at pairs
  obtain ⟨equal, left, _, shared'⟩ := pairs
  rw [same, same', recorded, recorded', shared'.errors]
  exact ⟨equal, congrArg Array.toList Array.empty_append.symm⟩

theorem single_of_value {tokens : List Token} {expr : Expr} {final : State}
    (ended : wholeExpression (budget (close tokens)) (openingSingle tokens) =
      .value expr final) :
    (single tokens).1 = match final.errors.toList with
      | [] => .ok expr
      | error :: _ => .error error := by
  unfold single
  dsimp only
  rw [show wholeExpression (budget ((start tokens).note .beginningExpression).rest)
    ((start tokens).note .beginningExpression) = _ from ended]
  dsimp only
  cases final.errors.toList <;> rfl

theorem single_of_failure {tokens : List Token} {error : ParseError} {final : State}
    (ended : wholeExpression (budget (close tokens)) (openingSingle tokens) =
      .failure error final) :
    (single tokens).1 = .error error := by
  unfold single
  dsimp only
  rw [show wholeExpression (budget ((start tokens).note .beginningExpression).rest)
    ((start tokens).note .beginningExpression) = _ from ended]

theorem single_upToEnd (tokens : List Token) :
    (single tokens).1 = (single (upToEnd (close tokens))).1 := by
  obtain ⟨ahead, stop, behind, whole, ends, cut, -⟩ := (closed_close tokens).split
  have shared : Fork.SharedAhead ⟨stop, behind, [], #[]⟩ ahead (openingSingle tokens)
      (openingSingle (upToEnd (close tokens))) :=
    ⟨whole, (close_upToEnd tokens).trans cut, rfl⟩
  have pairs := Fork.wholeExpression_lockstep (Fork.stopsExpressions_of_end ends)
    (budget (close tokens)) (budget (close (upToEnd (close tokens)))) ahead _ _ shared
  have settles (tokens : List Token) : wholeExpression (budget (close tokens))
      (openingSingle tokens) ≠ .exhausted :=
    (wholeExpression_settles (closed_close tokens : Closed (openingSingle tokens).rest)).ends _
      (Nat.le_refl _)
  cases ended : wholeExpression (budget (close tokens)) (openingSingle tokens) with
  | exhausted => exact absurd ended (settles tokens)
  | value expr final =>
      cases ended' : wholeExpression (budget (close (upToEnd (close tokens))))
          (openingSingle (upToEnd (close tokens))) with
      | exhausted => exact absurd ended' (settles _)
      | failure error' final' =>
          rw [ended, ended'] at pairs
          exact pairs.elim
      | value expr' final' =>
          rw [ended, ended'] at pairs
          obtain ⟨rfl, left, _, shared'⟩ := pairs
          have recorded : final'.errors = final.errors :=
            shared'.errors.trans Array.empty_append
          rw [single_of_value ended, single_of_value ended', recorded]
  | failure error final =>
      cases ended' : wholeExpression (budget (close (upToEnd (close tokens))))
          (openingSingle (upToEnd (close tokens))) with
      | exhausted => exact absurd ended' (settles _)
      | value expr' final' =>
          rw [ended, ended'] at pairs
          exact pairs.elim
      | failure error' final' =>
          rw [ended, ended'] at pairs
          obtain ⟨rfl, _⟩ := pairs
          rw [single_of_failure ended, single_of_failure ended']

/-! ### The parser as a whole -/

/-- Parsing a program or a single expression ends on every list of tokens, in the same way with any
fuel that lets it end.  It looks only at places inside the closed list, no further than the first
end of input.  A declaration that is tried in front of that takes a token, and what comes behind it
changes nothing. -/
theorem parsing_is_total (tokens : List Token) :
    (∃ statements final,
      declarations (budget (close tokens)) false (opening tokens) = .value statements final ∧
      (program tokens).statements = statements ∧
      (program tokens).errors = final.errors.toList ∧ final.atEnd = true) ∧
    Settles (fun fuel => declarations fuel false) (opening tokens) (budget (close tokens)) ∧
    Settles wholeExpression (openingSingle tokens) (budget (close tokens)) ∧
    (∀ fuel, LooksInside (close tokens) (declarations fuel false) (opening tokens) ∧
      LooksInside (close tokens) (wholeExpression fuel) (openingSingle tokens)) ∧
    (∀ state : State, Inside (close tokens) state.rest → state.atEnd = false →
      Settles declaration state (16 * state.rest.length + 12) ∧
      ∀ fuel, (∀ error final, declaration fuel state ≠ .failure error final) ∧
        ∀ found final, declaration fuel state = .value found final →
          Inside (close tokens) final.rest ∧
          ∃ taken, taken ≠ [] ∧ state.rest = taken ++ final.rest) ∧
    (program tokens).statements = (program (upToEnd (close tokens))).statements ∧
    (program tokens).errors = (program (upToEnd (close tokens))).errors ∧
    (single tokens).1 = (single (upToEnd (close tokens))).1 := by
  have closed := closed_close tokens
  have start := Inside.start closed
  refine ⟨program_ends tokens, declarations_settles closed, wholeExpression_settles closed, ?_, ?_,
    (program_upToEnd tokens).1, (program_upToEnd tokens).2, single_upToEnd tokens⟩
  · intro fuel
    exact ⟨.of_looks closed start (declarations_traced fuel false _),
      .of_looks closed start (wholeExpression_traced fuel _)⟩
  · intro state inside before
    have left := inside.closed closed
    refine ⟨declaration_settles left, fun fuel => ⟨?_, ?_⟩⟩
    · intro error final failed
      exact (declaration_unfailing fuel state).of_failure failed
    · intro found final ended
      obtain ⟨places, looks⟩ := declaration_traced fuel state
      exact ⟨(looks.inside closed inside).2 final (congrArg Outcome.state? ended),
        declaration_advances before ended⟩

end LexicalScript.Parser
