import LexicalScript.Proofs.ParserRuns

/-!
Where the parser looks.

A rule is a sequence of primitive steps, each of which looks at the next token or at nothing at all.
The places at which a rule looks are listed here in order, each as the tokens that were left there.
Every rule has such a list.  Wherever it looks, and wherever it is left, the place lies inside the
tokens that it was given and not behind their first end of input.
-/

set_option autoImplicit false

namespace LexicalScript.Parser

/-! ### Places -/

/-- What is left when the tokens are skipped to a statement boundary, before each token that is
looked at; `last` was skipped before them. -/
def skippedPlaces (last : Token) : List Token → List (List Token)
  | [] => [[]]
  | token :: rest =>
      if token.is .endOfInput || last.is .semicolon || statementMarks.any token.is then
        [token :: rest]
      else (token :: rest) :: skippedPlaces token rest

/-- The places that recovery looks at in a state, up to the one where it ends. -/
def State.recoveryPlaces (state : State) : List (List Token) :=
  if state.atEnd then [state.rest] else state.rest :: skippedPlaces state.peek state.rest.tail

/-- Started in the state, the rule looks at the next token at these places, one after another. -/
inductive Looks : {α : Type} → Parse α → State → List (List Token) → Prop
  | pure {α : Type} {result : α} {state : State} : Looks (Pure.pure result) state []
  | exhausted {α : Type} {state : State} : Looks (Attempt.exhausted : Parse α) state []
  | peek {state : State} : Looks peek state [state.rest]
  | atEnd {state : State} : Looks atEnd state [state.rest]
  | sees {mark : Mark} {state : State} : Looks (sees mark) state [state.rest]
  | advance {state : State} : Looks advance state [state.rest]
  | accept {mark : Mark} {state : State} : Looks (accept mark) state [state.rest]
  | acceptAny {marks : List Mark} {state : State} : Looks (acceptAny marks) state [state.rest]
  | note {added : Note} {state : State} : Looks (note added) state []
  | report {cause : ParseCause} {state : State} : Looks (report cause) state [state.rest]
  | raise {α : Type} {token : Token} {cause : ParseCause} {state : State} :
      Looks (raise token cause : Parse α) state []
  | bind {α β : Type} {first : Parse α} {next : α → Parse β} {state middle : State} {result : α}
      {places places' : List (List Token)} :
      Looks first state places → first state = .value result middle →
      Looks (next result) middle places' → Looks (first >>= next) state (places ++ places')
  | cut {α β : Type} {first : Parse α} {next : α → Parse β} {state : State}
      {places : List (List Token)} :
      Looks first state places → (∀ result middle, first state ≠ .value result middle) →
      Looks (first >>= next) state places
  | kept {α : Type} {rule : Parse α} {state : State} {places : List (List Token)} :
      Looks rule state places → (∀ error final, rule state ≠ .failure error final) →
      Looks (recovering rule) state places
  | recovered {α : Type} {rule : Parse α} {state final : State} {error : ParseError}
      {places : List (List Token)} :
      Looks rule state places → rule state = .failure error final →
      Looks (recovering rule) state (places ++ final.recoveryPlaces)

/-! ### Places inside the buffer -/

/-- The place is a cursor into the buffer, no further than the first end of input. -/
def Inside (buffer rest : List Token) : Prop :=
  ∃ cursor, cursor < buffer.length ∧ cursor ≤ buffer.findIdx (·.is .endOfInput) ∧
    rest = buffer.drop cursor

/-- There is an end of input among the tokens. -/
def Closed (buffer : List Token) : Prop := buffer.findIdx (·.is .endOfInput) < buffer.length

section

variable {buffer : List Token} (closed : Closed buffer)

include closed

theorem Inside.start : Inside buffer buffer :=
  ⟨0, Nat.lt_of_le_of_lt (Nat.zero_le _) closed, Nat.zero_le _, rfl⟩

theorem Inside.next {token : Token} {rest : List Token} (inside : Inside buffer (token :: rest))
    (more : token.is .endOfInput = false) : Inside buffer rest := by
  obtain ⟨cursor, within, before, left⟩ := inside
  rw [List.drop_eq_getElem_cons within] at left
  obtain ⟨same, left⟩ := List.cons.inj left
  have notFirst : cursor ≠ buffer.findIdx (·.is .endOfInput) := by
    intro first
    have ends := List.findIdx_getElem (w := closed)
    simp only [← first, ← same, more] at ends
    cases ends
  have further : cursor + 1 ≤ buffer.findIdx (·.is .endOfInput) := by omega
  exact ⟨cursor + 1, Nat.lt_of_le_of_lt further closed, further, left⟩

theorem Inside.advance {state : State} (inside : Inside buffer state.rest) :
    Inside buffer state.advance.rest := by
  cases halts : state.peek.is .endOfInput with
  | true =>
      unfold State.advance State.atEnd
      rw [if_pos halts]
      exact inside
  | false =>
      rw [State.rest_eq halts] at inside
      exact inside.next closed halts

/-- Skipping to a statement boundary stops in front of the end of input. -/
theorem Inside.skippedPlaces {rest : List Token} (inside : Inside buffer rest) (last : Token) :
    (∀ place, place ∈ skippedPlaces last rest → Inside buffer place) ∧
      Inside buffer (boundary last rest) := by
  induction rest generalizing last with
  | nil =>
      refine ⟨?_, inside⟩
      intro place member
      rw [List.mem_singleton.mp member]
      exact inside
  | cons token rest ih =>
      unfold Parser.skippedPlaces boundary
      split
      · refine ⟨?_, inside⟩
        intro place member
        rw [List.mem_singleton.mp member]
        exact inside
      · rename_i passes
        have more : token.is .endOfInput = false := by
          cases halts : token.is .endOfInput with
          | false => rfl
          | true => simp [halts] at passes
        obtain ⟨places, ended⟩ := ih (inside.next closed more) token
        exact ⟨List.forall_mem_cons.mpr ⟨inside, places⟩, ended⟩

theorem Inside.recoveryPlaces {state : State} (inside : Inside buffer state.rest)
    (error : ParseError) :
    (∀ place, place ∈ state.recoveryPlaces → Inside buffer place) ∧
      Inside buffer (state.record error).synchronize.rest := by
  cases halts : state.peek.is .endOfInput with
  | true =>
      have ended : (state.record error).synchronize.rest = state.rest := by
        change (if state.atEnd then _ else _ : State).rest = _
        unfold State.atEnd
        rw [if_pos halts]
        rfl
      unfold State.recoveryPlaces State.atEnd
      rw [if_pos halts, ended]
      exact ⟨List.forall_mem_singleton.mpr inside, inside⟩
  | false =>
      have ended : (state.record error).synchronize.rest = boundary state.peek state.rest.tail := by
        change (if state.atEnd then _ else _ : State).rest = _
        unfold State.atEnd
        rw [halts]
        rfl
      have left := inside
      rw [State.rest_eq halts] at left
      have tail : state.rest.tail = state.advance.rest := by
        rw [State.rest_eq halts, List.tail_cons]
      obtain ⟨places, ends⟩ := (left.next closed halts).skippedPlaces closed state.peek
      unfold State.recoveryPlaces State.atEnd
      rw [halts, ended, tail]
      exact ⟨List.forall_mem_cons.mpr ⟨inside, places⟩, ends⟩

/-- Started inside the buffer, a rule looks only at places inside it, and is left inside it. -/
theorem Looks.inside {α : Type} {rule : Parse α} {state : State} {places : List (List Token)}
    (looks : Looks rule state places) (inside : Inside buffer state.rest) :
    (∀ place, place ∈ places → Inside buffer place) ∧
      ∀ final, (rule state).state? = some final → Inside buffer final.rest := by
  induction looks with
  | pure | note | raise =>
      refine ⟨fun _ member => absurd member List.not_mem_nil, ?_⟩
      rintro final ⟨⟩
      exact inside
  | exhausted =>
      refine ⟨fun _ member => absurd member List.not_mem_nil, ?_⟩
      intro final left
      cases left
  | peek | atEnd | sees | report =>
      refine ⟨List.forall_mem_singleton.mpr inside, ?_⟩
      rintro final ⟨⟩
      exact inside
  | advance =>
      refine ⟨List.forall_mem_singleton.mpr inside, ?_⟩
      rintro final ⟨⟩
      exact inside.advance closed
  | accept | acceptAny =>
      refine ⟨List.forall_mem_singleton.mpr inside, ?_⟩
      intro final left
      simp only [Parser.accept, Parser.acceptAny] at left
      split at left
      · cases left
        exact inside.advance closed
      · cases left
        exact inside
  | bind first ended second ih ih' =>
      obtain ⟨places, left⟩ := ih inside
      have middle : Inside buffer _ := left _ (congrArg Outcome.state? ended)
      obtain ⟨places', left'⟩ := ih' middle
      refine ⟨List.forall_mem_append.mpr ⟨places, places'⟩, ?_⟩
      intro final
      rw [Attempt.bind_apply, ended]
      exact left' final
  | cut first stopped ih =>
      obtain ⟨places, left⟩ := ih inside
      refine ⟨places, ?_⟩
      intro final
      rw [Attempt.bind_apply]
      split
      · rename_i result middle ended
        exact absurd ended (stopped result middle)
      · rename_i error middle ended
        rintro ⟨⟩
        exact left _ (congrArg Outcome.state? ended)
      · intro none
        cases none
  | kept looks stopped ih =>
      obtain ⟨places, left⟩ := ih inside
      refine ⟨places, ?_⟩
      intro final
      unfold recovering
      split
      · rename_i result middle ended
        rintro ⟨⟩
        exact left _ (congrArg Outcome.state? ended)
      · rename_i error middle ended
        exact absurd ended (stopped error middle)
      · intro none
        cases none
  | recovered looks failed ih =>
      obtain ⟨places, left⟩ := ih inside
      have stopped : Inside buffer _ := left _ (congrArg Outcome.state? failed)
      obtain ⟨skipped, ended⟩ := stopped.recoveryPlaces closed _
      refine ⟨List.forall_mem_append.mpr ⟨places, skipped⟩, ?_⟩
      intro final
      unfold recovering
      rw [failed]
      rintro ⟨⟩
      exact ended

end

/-- The rule consists of steps that look at places, and all places that it looks at are inside the
buffer. -/
def LooksInside {α : Type} (buffer : List Token) (rule : Parse α) (state : State) : Prop :=
  (∃ places, Looks rule state places) ∧
    ∀ places, Looks rule state places → ∀ place, place ∈ places → Inside buffer place

theorem LooksInside.of_looks {α : Type} {buffer : List Token} {rule : Parse α} {state : State}
    (closed : Closed buffer) (inside : Inside buffer state.rest)
    (looks : ∃ places, Looks rule state places) : LooksInside buffer rule state :=
  ⟨looks, fun _ looks => (looks.inside closed inside).1⟩

/-! ### Every rule consists of such steps -/

/-- Started with these tokens, the rule looks at some places. -/
def TracedOn {α : Type} (tokens : List Token) (rule : Parse α) : Prop :=
  ∀ state : State, state.rest = tokens → ∃ places, Looks rule state places

namespace TracedOn

variable {α β : Type} {tokens : List Token}

theorem bind {first : Parse α} {next : α → Parse β} (traced : TracedOn tokens first)
    (after : ∀ result left, Reaches tokens first result left → TracedOn left (next result)) :
    TracedOn tokens (first >>= next) := by
  rintro state rfl
  obtain ⟨places, looks⟩ := traced state rfl
  cases ended : first state with
  | value result middle =>
      have reached : Reaches state.rest first result middle.rest :=
        ⟨state, middle, rfl, ended, rfl⟩
      obtain ⟨places', looks'⟩ := after result middle.rest reached middle rfl
      exact ⟨_, .bind looks ended looks'⟩
  | failure error middle =>
      refine ⟨_, .cut looks ?_⟩
      intro result final impossible
      cases ended.symm.trans impossible
  | exhausted =>
      refine ⟨_, .cut looks ?_⟩
      intro result final impossible
      cases ended.symm.trans impossible

theorem recovering {rule : Parse α} (traced : TracedOn tokens rule) :
    TracedOn tokens (Parser.recovering rule) := by
  rintro state rfl
  obtain ⟨places, looks⟩ := traced state rfl
  cases ended : rule state with
  | failure error final => exact ⟨_, .recovered looks ended⟩
  | value result final =>
      refine ⟨_, .kept looks ?_⟩
      intro error final impossible
      cases ended.symm.trans impossible
  | exhausted =>
      refine ⟨_, .kept looks ?_⟩
      intro error final impossible
      cases ended.symm.trans impossible

end TracedOn

/-- Every rule looks at some places. -/
def tracing : RunRelation fun _ => True where
  relates tokens rule _ := TracedOn tokens rule
  pure _ _ := ⟨_, .pure⟩
  bind := TracedOn.bind
  exhausted _ _ := ⟨_, .exhausted⟩
  raise _ _ := ⟨_, .raise⟩
  report _ _ := ⟨_, .report⟩
  note _ _ := ⟨_, .note⟩
  atEnd _ _ := ⟨_, .atEnd⟩
  sees _ _ := ⟨_, .sees⟩
  peek _ _ := ⟨_, .peek⟩
  acceptAny _ _ _ := ⟨_, .acceptAny⟩
  advance _ _ _ := ⟨_, .advance⟩

theorem tracing_recovers : tracing.judgement.Recovers :=
  RunRelation.recovers (fun _ _ => trivial) TracedOn.recovering

theorem declaration_traced (fuel : Nat) (state : State) :
    ∃ places, Looks (declaration fuel) state places :=
  And.right ((holdsOfStatements (.free True) tracing_recovers (.inl rfl)).declaration
    (.inl trivial)) state rfl

theorem declarations_traced (fuel : Nat) (inBlock : Bool) (state : State) :
    ∃ places, Looks (declarations fuel inBlock) state places :=
  And.right ((holdsOfStatements (.free True) tracing_recovers (.inl rfl)).declarations inBlock
    (.inl trivial)) state rfl

theorem wholeExpression_traced (fuel : Nat) (state : State) :
    ∃ places, Looks (wholeExpression fuel) state places :=
  And.right (wholeExpression_holds tracing.judgement (.free True) (fun _ _ => trivial) (.inl rfl)
    (.inl trivial)) state rfl

end LexicalScript.Parser
