import LexicalScript.Proofs.ParserRuns

/-!
Two runs of a rule side by side.

The tokens of the two runs agree up to a stop token and may differ behind it, and the second run may
have recorded other errors before.  The fuel may differ as well.  The rules for expressions never
take a stop token, so unless one of the runs is out of fuel they end in the same way, with the same
result or error, in front of the stop token or further ahead.
-/

set_option autoImplicit false

namespace LexicalScript.Parser

/-- Where two runs part: the token that both stop at, the tokens behind it in each of them, and the
errors that only the second one has. -/
structure Fork where
  stop : Token
  behind : List Token
  behind' : List Token
  earlier : Array ParseError

namespace Fork

variable {α β : Type} {fork : Fork} {ahead left : List Token} {state state' : State}

/-- Both runs have the same tokens in front of the stop token, and have recorded the same errors. -/
structure SharedAhead (fork : Fork) (ahead : List Token) (state state' : State) : Prop where
  rest : state.rest = ahead ++ fork.stop :: fork.behind
  rest' : state'.rest = ahead ++ fork.stop :: fork.behind'
  errors : state'.errors = fork.earlier ++ state.errors

/-- The token that comes next in both runs. -/
def next (fork : Fork) (ahead : List Token) : Token := upcoming (ahead ++ [fork.stop])

theorem SharedAhead.peek (shared : fork.SharedAhead ahead state state') :
    state.peek = fork.next ahead ∧ state'.peek = fork.next ahead := by
  unfold next
  rw [State.peek_eq, State.peek_eq, shared.rest, shared.rest']
  cases ahead <;> exact ⟨rfl, rfl⟩

theorem SharedAhead.sees (shared : fork.SharedAhead ahead state state') (mark : Mark) :
    state'.sees mark = state.sees mark := by
  unfold State.sees State.atEnd
  rw [shared.peek.1, shared.peek.2]

theorem SharedAhead.advance {token : Token} (shared : fork.SharedAhead (token :: left) state state')
    (more : token.is .endOfInput = false) : fork.SharedAhead left state.advance state'.advance := by
  obtain ⟨rest, rest', errors⟩ := shared
  have before : state.atEnd = false := by
    unfold State.atEnd
    rw [State.peek_eq, rest]
    exact more
  have before' : state'.atEnd = false := by
    unfold State.atEnd
    rw [State.peek_eq, rest']
    exact more
  constructor
  · simp [State.advance, before, rest]
  · simp [State.advance, before', rest']
  · rw [State.advance_errors, State.advance_errors, errors]

/-- A token that is not the stop token stands in front of it. -/
theorem cons_of_next {token : Token} (coming : fork.next ahead = token)
    (other : token ≠ fork.stop) :
    ∃ left, ahead = token :: left := by
  cases ahead with
  | nil => exact absurd coming.symm other
  | cons first left =>
      cases coming
      exact ⟨left, rfl⟩

/-! ### Outcomes side by side -/

/-- Both runs end with results that are related, or fail alike, unless one is out of fuel. -/
def Pairs (fork : Fork) (ahead : List Token) (onValue : α → State → α → State → Prop) :
    Outcome ParseError State α → Outcome ParseError State α → Prop
  | .value result final, .value result' final' => onValue result final result' final'
  | .failure error final, .failure error' final' =>
      error = error' ∧ ∃ left, left <:+ ahead ∧ fork.SharedAhead left final final'
  | .exhausted, _ => True
  | _, .exhausted => True
  | .value .., .failure .. => False
  | .failure .., .value .. => False

/-- The results are the same, and both runs are still in front of the stop token. -/
def InStep (fork : Fork) (ahead : List Token) (result : α) (final : State) (result' : α)
    (final' : State) : Prop :=
  result = result' ∧ ∃ left, left <:+ ahead ∧ fork.SharedAhead left final final'

theorem InStep.widen {result result' : α}
    (same : fork.InStep left result state result' state') (suffix : left <:+ ahead) :
    fork.InStep ahead result state result' state' := by
  obtain ⟨equal, further, suffix', shared⟩ := same
  exact ⟨equal, further, suffix'.trans suffix, shared⟩

section

variable {onValue onValue' : α → State → α → State → Prop}
  {outcome outcome' : Outcome ParseError State α}

theorem Pairs.exhausted_right : fork.Pairs ahead onValue outcome .exhausted := by
  cases outcome <;> trivial

theorem Pairs.mono (pairs : fork.Pairs left onValue outcome outcome') (suffix : left <:+ ahead)
    (values : ∀ result final result' final', onValue result final result' final' →
      onValue' result final result' final') :
    fork.Pairs ahead onValue' outcome outcome' := by
  cases outcome with
  | exhausted => trivial
  | value result final =>
      cases outcome' with
      | exhausted => trivial
      | value result' final' => exact values _ _ _ _ pairs
      | failure error' final' => exact pairs.elim
  | failure error final =>
      cases outcome' with
      | exhausted => trivial
      | value result' final' => exact pairs.elim
      | failure error' final' =>
          obtain ⟨same, further, suffix', shared⟩ := pairs
          exact ⟨same, further, suffix'.trans suffix, shared⟩

/-- Two runs that are in step go on together. -/
theorem Pairs.bind {rule rule' : Parse β} {next next' : β → Parse α}
    (pairs : fork.Pairs ahead (fork.InStep ahead) (rule state) (rule' state'))
    (after : ∀ result left middle middle', rule state = .value result middle → left <:+ ahead →
      fork.SharedAhead left middle middle' →
      fork.Pairs left onValue (next result middle) (next' result middle')) :
    fork.Pairs ahead onValue ((rule >>= next) state) ((rule' >>= next') state') := by
  rw [Attempt.bind_apply, Attempt.bind_apply]
  cases ended : rule state with
  | exhausted => trivial
  | value result middle =>
      cases ended' : rule' state' with
      | exhausted => exact Pairs.exhausted_right
      | value result' middle' =>
          rw [ended, ended'] at pairs
          obtain ⟨rfl, left, suffix, shared⟩ := pairs
          exact (after result left middle middle' ended suffix shared).mono suffix
            fun _ _ _ _ => id
      | failure error' middle' =>
          rw [ended, ended'] at pairs
          exact pairs.elim
  | failure error middle =>
      cases ended' : rule' state' with
      | exhausted => trivial
      | value result' middle' =>
          rw [ended, ended'] at pairs
          exact pairs.elim
      | failure error' middle' =>
          rw [ended, ended'] at pairs
          exact pairs

end

/-! ### Rules that stay in front of the stop token -/

/-- From states with the same tokens ahead, the rules end in step or fail alike. -/
def Lockstep (fork : Fork) (rule rule' : Parse α) : Prop :=
  ∀ ahead state state', fork.SharedAhead ahead state state' →
    fork.Pairs ahead (fork.InStep ahead) (rule state) (rule' state')

/-- The same when these tokens are left in the first run. -/
def LockstepOn (fork : Fork) (tokens : List Token) (rule rule' : Parse α) : Prop :=
  ∀ ahead state state', state.rest = tokens → fork.SharedAhead ahead state state' →
    fork.Pairs ahead (fork.InStep ahead) (rule state) (rule' state')

theorem Lockstep.of_forall {rule rule' : Parse α}
    (steps : ∀ tokens, fork.LockstepOn tokens rule rule') : fork.Lockstep rule rule' :=
  fun ahead state state' shared => steps state.rest ahead state state' rfl shared

/-- No expression goes past the stop token. -/
def StopsExpressions (fork : Fork) : Prop :=
  ∃ mark, mark ∈ expressionStops ∧ fork.stop.is mark = true

theorem StopsExpressions.apart (stops : fork.StopsExpressions) (mark : Mark)
    (absent : mark ∉ expressionStops) : fork.stop.is mark = false := by
  obtain ⟨own, member, isOwn⟩ := stops
  refine Token.not_is isOwn ?_
  rintro rfl
  exact absent member

namespace LockstepOn

variable {tokens : List Token} {rule rule' : Parse α}

theorem bind {next next' : α → Parse β} (first : fork.LockstepOn tokens rule rule')
    (second : ∀ result left, Reaches tokens rule result left →
      fork.LockstepOn left (next result) (next' result)) :
    fork.LockstepOn tokens (rule >>= next) (rule' >>= next') := by
  rintro ahead state state' rfl shared
  apply (first ahead state state' rfl shared).bind
  intro result left middle middle' ended suffix shared'
  have reached : Reaches state.rest rule result middle.rest := ⟨state, middle, rfl, ended, rfl⟩
  apply (second result middle.rest reached left middle middle' rfl shared').mono List.suffix_rfl
  intro _ _ _ _ same
  exact same.widen suffix

theorem report (cause : ParseCause) :
    fork.LockstepOn tokens (Parser.report cause) (Parser.report cause) := by
  intro ahead state state' _ shared
  refine ⟨rfl, ahead, List.suffix_rfl, shared.rest, shared.rest', ?_⟩
  change state'.errors.push _ = _ ++ state.errors.push _
  rw [shared.errors, shared.peek.1, shared.peek.2, Array.append_push]

theorem atEnd : fork.LockstepOn tokens Parser.atEnd Parser.atEnd := by
  intro ahead state state' _ shared
  refine ⟨?_, ahead, List.suffix_rfl, shared⟩
  unfold State.atEnd
  rw [shared.peek.1, shared.peek.2]

theorem sees (mark : Mark) : fork.LockstepOn tokens (Parser.sees mark) (Parser.sees mark) :=
  fun ahead _ _ _ shared => ⟨(shared.sees mark).symm, ahead, List.suffix_rfl, shared⟩

theorem peek : fork.LockstepOn tokens Parser.peek Parser.peek :=
  fun ahead _ _ _ shared =>
    ⟨shared.peek.1.trans shared.peek.2.symm, ahead, List.suffix_rfl, shared⟩

theorem acceptAny {marks : List Mark} (apart : ∀ mark, mark ∈ marks → fork.stop.is mark = false) :
    fork.LockstepOn tokens (Parser.acceptAny marks) (Parser.acceptAny marks) := by
  intro ahead state state' _ shared
  have same : state'.sees = state.sees := funext shared.sees
  unfold Parser.acceptAny
  rw [same]
  cases seen : marks.any state.sees with
  | false => exact ⟨rfl, ahead, List.suffix_rfl, shared⟩
  | true =>
      obtain ⟨mark, member, sees⟩ := List.any_eq_true.mp seen
      obtain ⟨own, more⟩ := State.peek_of_sees sees
      have other : state.peek ≠ fork.stop := by
        intro same
        rw [same, apart mark member] at own
        cases own
      obtain ⟨left, rfl⟩ := cons_of_next shared.peek.1.symm other
      refine ⟨?_, left, List.suffix_cons _ left, shared.advance more⟩
      rw [shared.peek.1, shared.peek.2]

theorem advance (stops : fork.StopsExpressions)
    (apart : ∀ mark, (upcoming tokens).kind = .mark mark →
      fork.stop.is mark = false ∧ mark ≠ .endOfInput) :
    fork.LockstepOn tokens Parser.advance Parser.advance := by
  rintro ahead state state' rfl shared
  rw [← State.peek_eq] at apart
  have more : state.peek.is .endOfInput = false := by
    rw [Bool.eq_false_iff]
    intro ends
    exact (apart _ (Token.kind_of_is ends)).2 rfl
  have other : state.peek ≠ fork.stop := by
    intro same
    obtain ⟨mark, _, own⟩ := stops
    rw [same] at apart
    cases own.symm.trans (apart mark (Token.kind_of_is own)).1
  obtain ⟨left, rfl⟩ := cons_of_next shared.peek.1.symm other
  exact ⟨rfl, left, List.suffix_cons _ left, shared.advance more⟩

end LockstepOn

/-- Two runs in front of a stop token that no expression goes past. -/
def stepping (stops : fork.StopsExpressions) :
    RunRelation fun mark => fork.stop.is mark = false where
  relates := fork.LockstepOn
  pure ahead _ _ _ shared := ⟨rfl, ahead, List.suffix_rfl, shared⟩
  bind := LockstepOn.bind
  exhausted _ _ _ _ _ := trivial
  raise ahead _ _ _ shared :=
    ⟨rfl, ahead, List.suffix_rfl, shared.rest, shared.rest', shared.errors⟩
  report := LockstepOn.report _
  note ahead _ _ _ shared :=
    ⟨rfl, ahead, List.suffix_rfl, shared.rest, shared.rest', shared.errors⟩
  atEnd := LockstepOn.atEnd
  sees := LockstepOn.sees _
  peek := LockstepOn.peek
  acceptAny := LockstepOn.acceptAny
  advance := LockstepOn.advance stops

section

variable (stops : fork.StopsExpressions) (fuel fuel' : Nat)

include stops

/-- The runs need not have the same fuel. -/
theorem fueled : (stepping stops).judgement.Fueled fuel fuel' :=
  .inr fun holds => ⟨holds.1, fun _ _ _ _ _ => Pairs.exhausted_right⟩

theorem expression_lockstep : fork.Lockstep (expression fuel) (expression fuel') :=
  .of_forall fun _ => And.right
    ((holdsOfExpressions (stepping stops).judgement (.free True) stops.apart
      (fueled stops fuel fuel')).expression (.inl trivial))

theorem expressionUnless_lockstep (mark : Mark) :
    fork.Lockstep (expressionUnless fuel mark) (expressionUnless fuel' mark) :=
  .of_forall fun _ => And.right
    (expressionUnless_holds (stepping stops).judgement (.free True) stops.apart
      (fueled stops fuel fuel') mark (.inl trivial))

theorem parameters_lockstep (count : Nat) :
    fork.Lockstep (parameters fuel count) (parameters fuel' count) :=
  .of_forall fun _ => And.right
    (parameters_holds (stepping stops).judgement (.free True) stops.apart
      (fueled stops fuel fuel') count (.inl trivial))

theorem wholeExpression_lockstep :
    fork.Lockstep (wholeExpression fuel) (wholeExpression fuel') :=
  .of_forall fun _ => And.right
    (wholeExpression_holds (stepping stops).judgement (.free True) stops.apart
      (fueled stops fuel fuel') (.inl trivial))

omit fuel fuel' in
theorem accept_lockstep {mark : Mark} (inner : mark ∉ expressionStops) :
    fork.Lockstep (accept mark) (accept mark) :=
  .of_forall fun _ => And.right ((stepping stops).judgement.accept (stops.apart mark inner))

theorem expect_lockstep {mark : Mark} (inner : mark ∉ expressionStops) {cause : ParseCause} :
    fork.Lockstep (expect mark cause) (expect mark cause) :=
  .of_forall fun _ => And.right ((stepping stops).judgement.expect (stops.apart mark inner))

end

end Fork

end LexicalScript.Parser
