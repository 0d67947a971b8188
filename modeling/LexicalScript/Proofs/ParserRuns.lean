import LexicalScript.Proofs.ParserRules

/-!
How the runs of the parser end.

A run takes tokens, though none past the end of input, and takes no recorded error back.  Relations
that the productions of the grammar keep hold between the tokens that a rule takes and what it
returns: of every run, if they are kept behind reported errors as well, and of the runs without an
error otherwise.  Every rule that starts over has taken a token before, or goes on at a tighter
level, so no run is out of fuel if there is enough of it for the tokens.
-/

set_option autoImplicit false

namespace LexicalScript.Parser

/-! ### From tokens to what is left of them -/

/-- What is left comes behind tokens without an end of input. -/
def AdvancesTo (tokens left : List Token) : Prop := ∃ taken, tokens = taken ++ left ∧ Proceeds taken

namespace AdvancesTo

variable {tokens middle left : List Token}

theorem refl (tokens : List Token) : AdvancesTo tokens tokens := ⟨[], rfl, .nil⟩

theorem trans (first : AdvancesTo tokens middle) (second : AdvancesTo middle left) :
    AdvancesTo tokens left := by
  obtain ⟨taken, rfl, before⟩ := first
  obtain ⟨taken', rfl, before'⟩ := second
  exact ⟨taken ++ taken', (List.append_assoc _ _ _).symm, before.append before'⟩

theorem cons {token : Token} (more : token.is .endOfInput = false) :
    AdvancesTo (token :: left) left :=
  ⟨[token], rfl, List.forall_mem_singleton.mpr more⟩

theorem suffix (advances : AdvancesTo tokens left) : left <:+ tokens := by
  obtain ⟨taken, rfl, _⟩ := advances
  exact List.suffix_append taken left

theorem advance {state : State} (more : state.peek.is .endOfInput = false) :
    AdvancesTo state.rest state.advance.rest := by
  rw [State.rest_eq more]
  exact cons more

end AdvancesTo

theorem boundary_advancesTo (last : Token) (tokens : List Token) :
    AdvancesTo tokens (boundary last tokens) := by
  induction tokens generalizing last with
  | nil => exact .refl []
  | cons token rest ih =>
      unfold boundary
      split
      · exact .refl _
      · rename_i passes
        have more : token.is .endOfInput = false := by
          cases halts : token.is .endOfInput with
          | false => rfl
          | true => simp [halts] at passes
        exact (AdvancesTo.cons more).trans (ih token)

theorem resumed_advancesTo (tokens : List Token) : AdvancesTo tokens (resumed tokens) := by
  unfold resumed
  split
  · exact .refl []
  · rename_i token rest
    split
    · exact .refl _
    · rename_i more
      exact (AdvancesTo.cons (Bool.eq_false_iff.mpr more)).trans (boundary_advancesTo token rest)

/-- The token that an error was found at is skipped. -/
theorem resumed_length {tokens : List Token} (more : (upcoming tokens).is .endOfInput = false) :
    (resumed tokens).length < tokens.length := by
  cases tokens with
  | nil => cases more
  | cons token rest =>
      have skipped := (boundary_isSuffix token rest).length_le
      have stays : resumed (token :: rest) = boundary token rest :=
        if_neg (Bool.eq_false_iff.mp more)
      rw [stays, List.length_cons]
      omega

/-! ### From state to state -/

/-- A later state of a run: tokens are taken, and errors only added. -/
structure State.AdvancesTo (state later : State) : Prop where
  rest : Parser.AdvancesTo state.rest later.rest
  errors : state.errors.size ≤ later.errors.size

namespace State.AdvancesTo

variable {state middle later : State}

theorem refl (state : State) : state.AdvancesTo state := ⟨.refl _, Nat.le_refl _⟩

theorem trans (first : state.AdvancesTo middle) (second : middle.AdvancesTo later) :
    state.AdvancesTo later :=
  ⟨first.rest.trans second.rest, Nat.le_trans first.errors second.errors⟩

theorem advance (more : state.peek.is .endOfInput = false) : state.AdvancesTo state.advance :=
  ⟨.advance more, Nat.le_of_eq (congrArg Array.size state.advance_errors.symm)⟩

theorem note (state : State) (entry : Note) : state.AdvancesTo (state.note entry) :=
  ⟨.refl _, Nat.le_refl _⟩

theorem record (state : State) (error : ParseError) : state.AdvancesTo (state.record error) := by
  refine ⟨.refl _, ?_⟩
  change state.errors.size ≤ (state.errors.push error).size
  rw [Array.size_push]
  exact Nat.le_succ _

theorem synchronize (state : State) : state.AdvancesTo state.synchronize := by
  constructor
  · rw [synchronize_resumes]
    exact resumed_advancesTo state.rest
  · exact Nat.le_of_eq (congrArg Array.size (synchronize_errors state).symm)

end State.AdvancesTo

/-- How a run from the state ends.  What is derived of the result needs that the run recorded no
error, unless reported errors are allowed. -/
def Runs {α : Type} (reports exhausts : Prop) (certain derived : α → List Token → Prop)
    (state : State) : Outcome ParseError State α → Prop
  | .value result final => state.AdvancesTo final ∧ certain result final.rest ∧
      (reports ∨ final.errors.size ≤ state.errors.size → derived result final.rest)
  | .failure _ final => state.AdvancesTo final
  | .exhausted => exhausts

section

variable {α β : Type} {reports exhausts : Prop} {state : State}
  {certain derived : α → List Token → Prop} {certain' derived' : β → List Token → Prop}

theorem Runs.of_value {outcome : Outcome ParseError State α} {result : α} {final : State}
    (runs : Runs reports exhausts certain derived state outcome)
    (ended : outcome = .value result final) :
    state.AdvancesTo final ∧ certain result final.rest ∧
      (reports ∨ final.errors.size ≤ state.errors.size → derived result final.rest) := by
  rw [ended] at runs
  exact runs

/-- The tokens that the run takes are in the relation with its result. -/
theorem Runs.takes {outcome : Outcome ParseError State α} {result : α} {final : State}
    {relation : List Token → α → Prop}
    (runs : Runs reports exhausts certain (Took state.rest relation) state outcome)
    (ended : outcome = .value result final)
    (counts : reports ∨ final.errors.size ≤ state.errors.size) :
    ∃ taken, state.rest = taken ++ final.rest ∧ Proceeds taken ∧ relation taken result := by
  obtain ⟨advanced, _, given⟩ := runs.of_value ended
  obtain ⟨taken, whole, proceeds⟩ := advanced.rest
  have took := given counts
  rw [whole] at took
  exact ⟨taken, whole, proceeds, took.relation⟩

theorem Runs.ne_exhausted {outcome : Outcome ParseError State α}
    (runs : Runs reports False certain derived state outcome) : outcome ≠ .exhausted := by
  rintro rfl
  exact runs

theorem Runs.mono {outcome : Outcome ParseError State α} {certain' derived' : α → List Token → Prop}
    (runs : Runs reports exhausts certain derived state outcome)
    (weaken : ∀ result taken left, state.rest = taken ++ left → certain result left →
      certain' result left)
    (weaken' : ∀ result left, certain result left → derived result left → derived' result left) :
    Runs reports exhausts certain' derived' state outcome := by
  cases outcome with
  | exhausted => exact runs
  | failure error final => exact runs
  | value result final =>
      obtain ⟨advanced, sure, given⟩ := runs
      obtain ⟨taken, whole, _⟩ := advanced.rest
      exact ⟨advanced, weaken result taken final.rest whole sure, fun clean =>
        weaken' result final.rest sure (given clean)⟩

theorem Runs.bind {rule : Parse α} {next : α → Parse β}
    (first : Runs reports exhausts certain derived state (rule state))
    (after : ∀ result middle, state.AdvancesTo middle → certain result middle.rest →
      Runs reports exhausts certain' (fun result' left => derived result middle.rest →
        derived' result' left) middle (next result middle)) :
    Runs reports exhausts certain' derived' state ((rule >>= next) state) := by
  rw [Attempt.bind_apply]
  cases ended : rule state with
  | exhausted =>
      rw [ended] at first
      exact first
  | failure error middle =>
      rw [ended] at first
      exact first
  | value result middle =>
      rw [ended] at first
      obtain ⟨advanced, sure, given⟩ := first
      have second := after result middle advanced sure
      change Runs reports exhausts certain' derived' state (next result middle)
      cases ended' : next result middle with
      | exhausted =>
          rw [ended'] at second
          exact second
      | failure error final =>
          rw [ended'] at second
          exact advanced.trans second
      | value result' final =>
          rw [ended'] at second
          obtain ⟨advanced', sure', given'⟩ := second
          have grown := advanced.errors
          have grown' := advanced'.errors
          refine ⟨advanced.trans advanced', sure', fun clean => ?_⟩
          exact given' (clean.imp_right fun _ => by omega)
            (given (clean.imp_right fun _ => by omega))

/-- A result without a step. -/
theorem Runs.unmoved {result : α} (sure : certain result state.rest)
    (given : derived result state.rest) :
    Runs reports exhausts certain derived state (.value result state) :=
  ⟨.refl state, sure, fun _ => given⟩

theorem Runs.advance {result : α} (more : state.peek.is .endOfInput = false)
    (sure : certain result state.advance.rest) :
    Runs reports exhausts certain (fun _ _ => True) state (.value result state.advance) :=
  ⟨.advance more, sure, fun _ => trivial⟩

theorem Runs.acceptAny (marks : List Mark) (state : State) :
    Runs reports exhausts (TookAny marks state.rest) (fun _ _ => True) state
      (Parser.acceptAny marks state) := by
  unfold Parser.acceptAny
  split
  · rename_i seen
    obtain ⟨mark, member, sees⟩ := List.any_eq_true.mp seen
    obtain ⟨own, more⟩ := State.peek_of_sees sees
    exact .advance more ⟨State.rest_eq more, List.any_eq_true.mpr ⟨mark, member, own⟩⟩
  · rename_i unseen
    refine .unmoved ⟨rfl, fun mark member other => ?_⟩ trivial
    rw [← State.peek_eq]
    cases own : state.peek.is mark with
    | false => rfl
    | true =>
        have seen := List.any_eq_true.mpr ⟨mark, member, State.sees_of_peek own other⟩
        exact absurd seen unseen

/-- Recovery goes on in front of the end of input: the rule has stopped further on, or the token
that it stopped at is skipped. -/
theorem Runs.recovering {rule : Parse α}
    (runs : Runs reports exhausts (fun _ left => left.length < state.rest.length) derived state
      (rule state)) :
    Runs reports exhausts
      (fun _ left => (upcoming state.rest).is .endOfInput = false →
        left.length < state.rest.length)
      (Recovered reports derived) state (Parser.recovering rule state) := by
  unfold Parser.recovering
  cases ended : rule state with
  | exhausted =>
      rw [ended] at runs
      exact runs
  | value result final =>
      rw [ended] at runs
      obtain ⟨advanced, shorter, given⟩ := runs
      exact ⟨advanced, fun _ => shorter, given⟩
  | failure error final =>
      rw [ended] at runs
      have advanced : state.AdvancesTo final := runs
      have recorded := advanced.trans (.record final error)
      refine ⟨recorded.trans (.synchronize _), fun inside => ?_, fun clean => ?_⟩
      · rw [synchronize_resumes]
        change (resumed final.rest).length < state.rest.length
        have suffix := advanced.rest.suffix
        have skipped := (resumed_advancesTo final.rest).suffix.length_le
        by_cases same : final.rest.length = state.rest.length
        · rw [suffix.eq_of_length same]
          exact resumed_length inside
        · have shorter := suffix.length_le
          omega
      · refine clean.resolve_right fun unchanged => ?_
        have grown := advanced.errors
        rw [synchronize_errors] at unchanged
        change (final.errors.push error).size ≤ state.errors.size at unchanged
        rw [Array.size_push] at unchanged
        omega

end

/-! ### The judgement on runs -/

/-- The judgement on a single run.  It may be about runs that report errors, and it may be about
runs that are out of fuel. -/
def running (reports exhausts : Prop) : Judgement fun _ => True where
  reports := reports
  exhausts := exhausts
  holds tokens rule _ certain derived := ∀ state : State, state.rest = tokens →
    Runs reports exhausts certain derived state (rule state)
  mono := by
    rintro α tokens rule rule' certain certain' derived derived' holds weaken weaken' state rfl
    exact (holds state rfl).mono weaken weaken'
  pure := by
    rintro α tokens result certain derived sure given state rfl
    exact .unmoved sure given
  bind := by
    rintro α β tokens rule rule' next next' certain derived certain' derived' first after state rfl
    apply (first state rfl).bind
    intro result middle advanced sure
    obtain ⟨taken, whole, _⟩ := advanced.rest
    exact after result taken middle.rest whole sure middle rfl
  exhausted given _ _ := given
  raise state _ := State.AdvancesTo.note state _
  report := by
    rintro tokens cause state rfl
    refine ⟨(State.AdvancesTo.note state _).trans (.record _ _), rfl, fun clean => ?_⟩
    refine clean.resolve_right fun unchanged => ?_
    change (state.errors.push _).size ≤ state.errors.size at unchanged
    rw [Array.size_push] at unchanged
    omega
  note := by
    rintro tokens entry state rfl
    exact ⟨.note state entry, rfl, fun _ => trivial⟩
  atEnd := by
    rintro tokens state rfl
    exact .unmoved ⟨rfl, congrArg (Token.is · .endOfInput) state.peek_eq⟩ trivial
  sees := by
    rintro tokens mark state rfl
    refine .unmoved ⟨rfl, fun seen => ?_⟩ trivial
    rw [← State.peek_eq]
    exact (State.peek_of_sees seen).1
  peek := by
    rintro tokens state rfl
    exact .unmoved ⟨rfl, state.peek_eq.symm⟩ trivial
  acceptAny := by
    rintro tokens marks _ state rfl
    exact .acceptAny marks state
  advance := by
    rintro tokens inner state rfl
    rw [← State.peek_eq] at inner ⊢
    have more : state.peek.is .endOfInput = false := by
      rw [Bool.eq_false_iff]
      intro ends
      exact (inner .endOfInput (Token.kind_of_is ends)).2 rfl
    exact .advance more (State.rest_eq more)

theorem running_recovers (reports exhausts : Prop) : (running reports exhausts).Recovers where
  free _ _ := trivial
  recovering := by
    rintro tokens rule rule' derived holds state rfl
    exact (holds state rfl).recovering

section

variable {reports : Prop} (laws : GrammarLaws reports) (exhausts : Prop) (fuel : Nat)

theorem statements_run : HoldsOfStatements (running reports exhausts) laws fuel fuel :=
  holdsOfStatements laws (running_recovers reports exhausts) (.inl rfl)

theorem declarations_run (inBlock : Bool) (state : State)
    (enough : exhausts ∨ 16 * state.rest.length + 13 ≤ fuel) :
    Runs reports exhausts (fun _ left => Concluded inBlock left)
      (Took state.rest laws.declarations) state (declarations fuel inBlock state) :=
  (statements_run laws exhausts fuel).declarations inBlock enough state rfl

theorem declaration_runs (state : State)
    (enough : exhausts ∨ 16 * state.rest.length + 12 ≤ fuel) :
    Runs reports exhausts
      (fun _ left => (upcoming state.rest).is .endOfInput = false →
        left.length < state.rest.length)
      (Recovered reports (Took state.rest laws.declaration)) state (declaration fuel state) :=
  (statements_run laws exhausts fuel).declaration enough state rfl

theorem statement_runs (state : State)
    (enough : exhausts ∨ 16 * state.rest.length + 11 ≤ fuel) :
    Runs reports exhausts (fun _ left => left.length < state.rest.length)
      (TookStatement (running reports exhausts) laws state.rest) state (statement fuel state) :=
  (statements_run laws exhausts fuel).statement enough state rfl

theorem wholeExpression_runs (state : State)
    (enough : exhausts ∨ 16 * state.rest.length + 10 ≤ fuel) :
    Runs reports exhausts (fun _ left => (upcoming left).is .endOfInput = true)
      (Took state.rest laws.expression) state (wholeExpression fuel state) :=
  wholeExpression_holds (running reports exhausts) laws (fun _ _ => trivial) (.inl rfl) enough
    state rfl

end

/-- The budget of a list of tokens suffices to parse it. -/
theorem declarations_ne_exhausted (inBlock : Bool) (state : State) :
    declarations (budget state.rest) inBlock state ≠ .exhausted := by
  have enough : 16 * state.rest.length + 13 ≤ budget state.rest := by
    unfold budget
    omega
  exact (declarations_run (.free True) False _ inBlock state (.inr enough)).ne_exhausted

theorem wholeExpression_ne_exhausted (state : State) :
    wholeExpression (budget state.rest) state ≠ .exhausted := by
  have enough : 16 * state.rest.length + 10 ≤ budget state.rest := by
    unfold budget
    omega
  exact (wholeExpression_runs (.free True) False _ state (.inr enough)).ne_exhausted

/-! ### What the runs are related to -/

/-- From the tokens, the rule ends with the result in front of what is left. -/
def Reaches {α : Type} (tokens : List Token) (rule : Parse α) (result : α)
    (left : List Token) : Prop :=
  ∃ state final : State, state.rest = tokens ∧ rule state = .value result final ∧ final.rest = left

/-- A relation between two runs of a rule, kept by its steps and by sequence. -/
structure RunRelation (allowed : Mark → Prop) where
  relates : {α : Type} → List Token → Parse α → Parse α → Prop
  pure : ∀ {α : Type} {tokens : List Token} {result : α},
    relates tokens (Pure.pure result) (Pure.pure result)
  bind : ∀ {α β : Type} {tokens : List Token} {rule rule' : Parse α} {next next' : α → Parse β},
    relates tokens rule rule' →
    (∀ result left, Reaches tokens rule result left →
      relates left (next result) (next' result)) →
    relates tokens (rule >>= next) (rule' >>= next')
  exhausted : ∀ {α : Type} {tokens : List Token} {rule : Parse α}, relates tokens .exhausted rule
  raise : ∀ {α : Type} {tokens : List Token} {token : Token} {cause : ParseCause},
    relates tokens (Parser.raise token cause : Parse α) (Parser.raise token cause)
  report : ∀ {tokens : List Token} {cause : ParseCause},
    relates tokens (Parser.report cause) (Parser.report cause)
  note : ∀ {tokens : List Token} {entry : Note},
    relates tokens (Parser.note entry) (Parser.note entry)
  atEnd : ∀ {tokens : List Token}, relates tokens Parser.atEnd Parser.atEnd
  sees : ∀ {tokens : List Token} {mark : Mark},
    relates tokens (Parser.sees mark) (Parser.sees mark)
  peek : ∀ {tokens : List Token}, relates tokens Parser.peek Parser.peek
  acceptAny : ∀ {tokens : List Token} {marks : List Mark}, (∀ mark, mark ∈ marks → allowed mark) →
    relates tokens (Parser.acceptAny marks) (Parser.acceptAny marks)
  advance : ∀ {tokens : List Token},
    (∀ mark, (upcoming tokens).kind = .mark mark → allowed mark ∧ mark ≠ .endOfInput) →
    relates tokens Parser.advance Parser.advance

namespace RunRelation

variable {allowed : Mark → Prop} (relation : RunRelation allowed)

/-- The first run ends as it does, and the two are related. -/
def judgement : Judgement allowed where
  reports := True
  exhausts := True
  holds tokens rule rule' certain derived :=
    (running True True).holds tokens rule rule certain derived ∧
      relation.relates tokens rule rule'
  mono holds weaken weaken' := ⟨(running True True).mono holds.1 weaken weaken', holds.2⟩
  pure sure given := ⟨(running True True).pure sure given, relation.pure⟩
  bind := by
    rintro α β tokens rule rule' next next' certain derived certain' derived' ⟨runs, related⟩ after
    refine ⟨(running True True).bind runs fun result taken left whole sure =>
      (after result taken left whole sure).1, relation.bind related ?_⟩
    rintro result left ⟨state, final, rfl, ended, rfl⟩
    obtain ⟨advanced, sure, _⟩ := Runs.of_value (runs state rfl) ended
    obtain ⟨taken, whole, _⟩ := advanced.rest
    exact (after result taken final.rest whole sure).2
  exhausted given := ⟨(running True True).exhausted given, relation.exhausted⟩
  raise := ⟨(running True True).raise, relation.raise⟩
  report := ⟨(running True True).report, relation.report⟩
  note := ⟨(running True True).note, relation.note⟩
  atEnd := ⟨(running True True).atEnd, relation.atEnd⟩
  sees := ⟨(running True True).sees, relation.sees⟩
  peek := ⟨(running True True).peek, relation.peek⟩
  acceptAny apart := ⟨(running True True).acceptAny fun _ _ => trivial, relation.acceptAny apart⟩
  advance apart := ⟨(running True True).advance fun mark kind => ⟨trivial, (apart mark kind).2⟩,
    relation.advance apart⟩

variable {relation}

theorem recovers (free : ∀ mark, mark ≠ .endOfInput → allowed mark)
    (recovering : ∀ {tokens : List Token} {rule rule' : Parse Stmt},
      relation.relates tokens rule rule' →
      relation.relates tokens (Parser.recovering rule) (Parser.recovering rule')) :
    relation.judgement.Recovers where
  free := free
  recovering holds :=
    ⟨(running_recovers True True).recovering holds.1, recovering holds.2⟩

end RunRelation

end LexicalScript.Parser
