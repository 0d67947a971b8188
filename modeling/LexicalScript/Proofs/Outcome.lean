import LexicalScript.Attempt

/-!
What computations that may fail guarantee about their results.

An outcome meets a pair of conditions, one for results and one for errors; running out of fuel
meets every pair.  The rules below take a computation apart at its sequencing points, so a property
of a long computation is assembled from properties of its steps.
-/

set_option autoImplicit false

namespace LexicalScript

variable {ε σ α β : Type}

/-- A result satisfies the first condition, and an error the second. -/
def Outcome.Meets (outcome : Outcome ε σ α) (onValue : α → σ → Prop)
    (onFailure : ε → σ → Prop) : Prop :=
  match outcome with
  | .value result state => onValue result state
  | .failure error state => onFailure error state
  | .exhausted => True

namespace Outcome

variable {onValue onValue' : α → σ → Prop} {onFailure onFailure' : ε → σ → Prop}

theorem Meets.mono {outcome : Outcome ε σ α} (met : outcome.Meets onValue onFailure)
    (values : ∀ result state, onValue result state → onValue' result state)
    (failures : ∀ error state, onFailure error state → onFailure' error state) :
    outcome.Meets onValue' onFailure' := by
  cases outcome with
  | value result state => exact values result state met
  | failure error state => exact failures error state met
  | exhausted => trivial

/-- A sequence meets its conditions if the second computation does from every state in which the
first one may end. -/
theorem Meets.bind {first : Attempt ε σ α} {next : α → Attempt ε σ β} {state : σ}
    {onNext : β → σ → Prop} (met : (first state).Meets onValue onFailure)
    (after : ∀ result state, onValue result state →
      (next result state).Meets onNext onFailure) :
    ((first >>= next) state).Meets onNext onFailure := by
  rw [Attempt.bind_apply]
  cases ended : first state with
  | value result state =>
      rw [ended] at met
      exact after result state met
  | failure error state =>
      rw [ended] at met
      exact met
  | exhausted => trivial

theorem Meets.of_value {outcome : Outcome ε σ α} {result : α} {state : σ}
    (met : outcome.Meets onValue onFailure) (ended : outcome = .value result state) :
    onValue result state := by
  rw [ended] at met
  exact met

theorem Meets.of_failure {outcome : Outcome ε σ α} {error : ε} {state : σ}
    (met : outcome.Meets onValue onFailure) (ended : outcome = .failure error state) :
    onFailure error state := by
  rw [ended] at met
  exact met

/-- The state in which a computation was left, with a result or with an error. -/
def state? : Outcome ε σ α → Option σ
  | .value _ state => some state
  | .failure _ state => some state
  | .exhausted => none

/-- The result of a computation with the state it ended in. -/
def value? : Outcome ε σ α → Option (α × σ)
  | .value result state => some (result, state)
  | _ => none

theorem of_value? {outcome : Outcome ε σ α} {ended : α × σ} (same : outcome.value? = some ended) :
    outcome = .value ended.1 ended.2 := by
  cases outcome with
  | value result state =>
      cases same
      rfl
  | failure error state | exhausted => cases same

/-- The error of a computation with the state it was left in. -/
def failure? : Outcome ε σ α → Option (ε × σ)
  | .failure error state => some (error, state)
  | _ => none

theorem of_failure? {outcome : Outcome ε σ α} {failed : ε × σ}
    (same : outcome.failure? = some failed) : outcome = .failure failed.1 failed.2 := by
  cases outcome with
  | failure error state =>
      cases same
      rfl
  | value result state | exhausted => cases same

/-- What holds of the state after a result and after an error holds wherever it was left. -/
theorem Meets.of_state? {outcome : Outcome ε σ α} {state : σ} {condition : σ → Prop}
    (met : outcome.Meets (fun _ => condition) (fun _ => condition))
    (left : outcome.state? = some state) : condition state := by
  cases outcome with
  | value result final | failure error final =>
      cases left
      exact met
  | exhausted => cases left

/-- The outcome with its state changed. -/
def mapState (change : σ → σ) : Outcome ε σ α → Outcome ε σ α
  | .value result state => .value result (change state)
  | .failure error state => .failure error (change state)
  | .exhausted => .exhausted

theorem state?_mapState (change : σ → σ) (outcome : Outcome ε σ α) :
    (outcome.mapState change).state? = outcome.state?.map change := by
  cases outcome <;> rfl

/-- Changes that agree on the state in which a computation was left have the same effect. -/
theorem mapState_congr {change change' : σ → σ} {outcome : Outcome ε σ α}
    (same : ∀ state, outcome.state? = some state → change state = change' state) :
    outcome.mapState change = outcome.mapState change' := by
  cases outcome with
  | value result state => exact congrArg (Outcome.value result) (same state rfl)
  | failure error state => exact congrArg (Outcome.failure error) (same state rfl)
  | exhausted => rfl

end Outcome

/-- A sequence returns only if both of its computations do. -/
theorem Attempt.returns_of_bind {first : Attempt ε σ α} {next : α → Attempt ε σ β}
    {state final : σ} {result : β} (ended : (first >>= next) state = .value result final) :
    ∃ found middle, first state = .value found middle ∧
      next found middle = .value result final := by
  rw [Attempt.bind_apply] at ended
  cases begun : first state with
  | value found middle =>
      rw [begun] at ended
      exact ⟨found, middle, rfl, ended⟩
  | failure error middle =>
      rw [begun] at ended
      cases ended
  | exhausted =>
      rw [begun] at ended
      cases ended

/-- Every result of the computation has the property, from whatever state it starts. -/
def Attempt.Yields (action : Attempt ε σ α) (property : α → Prop) : Prop :=
  ∀ state, (action state).Meets (fun result _ => property result) (fun _ _ => True)

namespace Attempt

variable {property : α → Prop} {property' : β → Prop}

theorem Yields.pure {result : α} (holds : property result) :
    (Pure.pure result : Attempt ε σ α).Yields property :=
  fun _ => holds

theorem Yields.bind {first : Attempt ε σ α} {next : α → Attempt ε σ β}
    (yields : first.Yields property)
    (after : ∀ result, property result → (next result).Yields property') :
    (first >>= next).Yields property' :=
  fun state => (yields state).bind fun result state holds => after result holds state

/-- Nothing need be known of the first computation if the second one does not depend on it. -/
theorem Yields.after {first : Attempt ε σ α} {next : α → Attempt ε σ β}
    (after : ∀ result, (next result).Yields property') : (first >>= next).Yields property' := by
  have trivially : first.Yields fun _ => True := by
    intro state
    cases first state <;> trivial
  exact trivially.bind fun result _ => after result

theorem Yields.exhausted : (Attempt.exhausted : Attempt ε σ α).Yields property :=
  fun _ => trivial

end Attempt

end LexicalScript
