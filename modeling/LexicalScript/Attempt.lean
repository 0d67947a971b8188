/-!
Computations over a state that may fail or run out of fuel.

A computation ends with a result, ends with an error, or is cut off because its recursion went
deeper than the fuel it was given.  The first two keep the state reached; the third says nothing
about the computation, and more fuel may turn it into either of the others.
-/

set_option autoImplicit false

namespace LexicalScript

/-- How a computation over states `σ` with errors `ε` ended. -/
inductive Outcome (ε σ α : Type) where
  | value (result : α) (state : σ)
  | failure (error : ε) (state : σ)
  | exhausted
  deriving Repr

abbrev Attempt (ε σ α : Type) : Type := σ → Outcome ε σ α

namespace Attempt

variable {ε σ α β : Type}

@[inline, always_inline]
def value (result : α) : Attempt ε σ α := fun state => .value result state

@[inline, always_inline]
def fail (error : ε) : Attempt ε σ α := fun state => .failure error state

@[inline, always_inline]
def exhausted : Attempt ε σ α := fun _ => .exhausted

@[inline, always_inline]
def andThen (first : Attempt ε σ α) (next : α → Attempt ε σ β) : Attempt ε σ β := fun state =>
  match first state with
  | .value result state => next result state
  | .failure error state => .failure error state
  | .exhausted => .exhausted

@[inline, always_inline]
instance : Monad (Attempt ε σ) where
  pure := value
  bind := andThen

@[inline, always_inline]
def state : Attempt ε σ σ := fun state => .value state state

@[inline, always_inline]
def update (change : σ → σ) : Attempt ε σ Unit := fun state => .value () (change state)

@[inline, always_inline]
def ofExcept : Except ε α → Attempt ε σ α
  | .ok result => value result
  | .error error => fail error

theorem pure_apply (result : α) (state : σ) :
    (pure result : Attempt ε σ α) state = .value result state := rfl

theorem bind_apply (first : Attempt ε σ α) (next : α → Attempt ε σ β) (state : σ) :
    (first >>= next) state =
      match first state with
      | .value result state => next result state
      | .failure error state => .failure error state
      | .exhausted => .exhausted := rfl

instance : LawfulMonad (Attempt ε σ) :=
  LawfulMonad.mk' (Attempt ε σ)
    (by
      intro α first
      funext state
      change andThen first (fun result => value result) state = first state
      unfold andThen
      cases first state <;> rfl)
    (fun _ _ => rfl)
    (by
      intro α β γ first next last
      funext state
      change andThen (andThen first next) last state =
        andThen first (fun result => andThen (next result) last) state
      unfold andThen
      cases first state <;> rfl)

end Attempt

end LexicalScript
