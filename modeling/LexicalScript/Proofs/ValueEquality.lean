import LexicalScript.Proofs.ObjectIdentity
import Mathlib

/-!
Equality of values.

Two numbers are equal as the format of numbers has it, which makes a number that is none differ from
itself.  Lists are equal when they are one object or agree element by element, so that a list with
such a number in it equals itself and no other list.  Among the values of a run, in which one object
has one list of elements, equality is symmetric and transitive all the same, and it keeps apart what
counts as true and what counts as false.
-/

set_option autoImplicit false

namespace LexicalScript

/-! ### Numbers -/

section Numbers

open Float.Model Float.Model.UnpackedFloat

/-- Two numbers compare as equal if they are the same, or both zero, and are numbers at all. -/
theorem compare_eq_eq_iff (left right : UnpackedFloat) : left.compare right = some .eq ↔
    left ≠ .notANumber ∧
      (left = right ∨ ∃ sign sign', left = .zero sign ∧ right = .zero sign') := by
  cases left with
  | notANumber => simp [UnpackedFloat.compare]
  | infinity sign =>
      cases right with
      | infinity sign' => cases sign <;> cases sign' <;> simp [UnpackedFloat.compare, compare]
      | _ => cases sign <;> simp [UnpackedFloat.compare]
  | zero sign =>
      cases right with
      | notANumber | zero => simp [UnpackedFloat.compare]
      | infinity sign' | finite sign' => cases sign' <;> simp [UnpackedFloat.compare]
  | finite sign mantissa exponent positive =>
      cases right with
      | notANumber => simp [UnpackedFloat.compare]
      | zero => cases sign <;> simp [UnpackedFloat.compare]
      | infinity sign' => cases sign' <;> simp [UnpackedFloat.compare]
      | finite sign' mantissa' exponent' positive' =>
          cases sign <;> cases sign' <;> simp [UnpackedFloat.compare, and_comm]

theorem number_beq_iff {left right : Float} : (left == right) = true ↔
    left.toModel.unpack ≠ .notANumber ∧ (left.toModel.unpack = right.toModel.unpack ∨
      ∃ sign sign', left.toModel.unpack = .zero sign ∧ right.toModel.unpack = .zero sign') := by
  rw [← compare_eq_eq_iff]
  change (UnpackedFloat.compare _ _ == some .eq) = true ↔ _
  rw [beq_iff_eq]

theorem number_isNaN_iff {number : Float} :
    number.isNaN = true ↔ number.toModel.unpack = .notANumber := by
  change UnpackedFloat.isNaN _ = true ↔ _
  cases number.toModel.unpack <;> simp [UnpackedFloat.isNaN]

theorem number_beq_symm {left right : Float} (same : (left == right) = true) :
    (right == left) = true := by
  obtain ⟨proper, equal | ⟨sign, sign', zero, zero'⟩⟩ := number_beq_iff.mp same
  · exact number_beq_iff.mpr ⟨equal ▸ proper, Or.inl equal.symm⟩
  · exact number_beq_iff.mpr ⟨by rw [zero']; nofun, Or.inr ⟨sign', sign, zero', zero⟩⟩

theorem number_beq_trans {left middle right : Float} (same : (left == middle) = true)
    (same' : (middle == right) = true) : (left == right) = true := by
  obtain ⟨proper, equal | ⟨sign, sign', zero, zero'⟩⟩ := number_beq_iff.mp same
  · rw [number_beq_iff, equal]
    exact number_beq_iff.mp same'
  · obtain ⟨_, equal | ⟨_, last, _, zero''⟩⟩ := number_beq_iff.mp same'
    · exact number_beq_iff.mpr ⟨proper, Or.inr ⟨sign, sign', zero, equal ▸ zero'⟩⟩
    · exact number_beq_iff.mpr ⟨proper, Or.inr ⟨sign, last, zero, zero''⟩⟩

theorem number_beq_self_iff {number : Float} :
    (number == number) = true ↔ number.isNaN = false := by
  rw [number_beq_iff, ← Bool.not_eq_true, number_isNaN_iff]
  exact ⟨fun same => same.1, fun proper => ⟨proper, Or.inl rfl⟩⟩

end Numbers

/-! ### Values -/

namespace Value

/-- Induction over values: a list has the property if its elements have it. -/
theorem nested {motive : Value → Prop}
    (list : ∀ identity elements, (∀ value, value ∈ elements → motive value) →
      motive (.list identity elements))
    (other : ∀ value, (∀ identity elements, value ≠ .list identity elements) → motive value) :
    ∀ value, motive value
  | .list identity elements => list identity elements fun value _ => nested list other value
  | .nil | .bool _ | .number _ | .string _ | .native .. | .function .. => other _ nofun

/-- When two values are equal. -/
inductive Matches : Value → Value → Prop
  | nil : Matches .nil .nil
  | bool {value : Bool} : Matches (.bool value) (.bool value)
  | number {left right : Float} : (left == right) = true → Matches (.number left) (.number right)
  | string {value : String} : Matches (.string value) (.string value)
  | object {identity : Identity} {elements elements' : List Value} :
      Matches (.list identity elements) (.list identity elements')
  | list {identity identity' : Identity} {elements elements' : List Value} :
      List.Forall₂ (fun left right => left.same right = true) elements elements' →
      Matches (.list identity elements) (.list identity' elements')
  | native {identity : Identity} {supplied supplied' : Native} :
      Matches (.native identity supplied) (.native identity supplied')
  | function {identity : Identity} {declaration declaration' : Declaration}
      {closure closure' : FrameId} :
      Matches (.function identity declaration closure) (.function identity declaration' closure')

theorem sameAll_iff {left right : List Value} : sameAll left right = true ↔
    List.Forall₂ (fun value other => value.same other = true) left right := by
  induction left generalizing right with
  | nil => cases right <;> simp [sameAll]
  | cons value rest ih => cases right <;> simp [sameAll, ih]

theorem same_iff {left right : Value} : left.same right = true ↔ left.Matches right := by
  constructor
  · intro same
    unfold Value.same at same
    split at same
    · exact .nil
    · cases eq_of_beq same
      exact .bool
    · exact .number same
    · cases eq_of_beq same
      exact .string
    · rcases Bool.or_eq_true_iff.mp same with own | all
      · cases eq_of_beq own
        exact .object
      · exact .list (sameAll_iff.mp all)
    · cases eq_of_beq same
      exact .native
    · cases eq_of_beq same
      exact .function
    · cases same
  · intro matched
    cases matched with
    | nil => rfl
    | number same => exact same
    | list all =>
        rw [Value.same, sameAll_iff.mpr all, Bool.or_true]
    | bool | string | object | native | function => simp [Value.same]

theorem same_symm {left right : Value} (same : left.same right = true) :
    right.same left = true := by
  induction left using nested generalizing right with
  | list identity elements ih =>
      cases same_iff.mp same with
      | object => exact same_iff.mpr .object
      | list all =>
          refine same_iff.mpr (.list ?_)
          clear same
          induction all with
          | nil => exact .nil
          | cons first _ others =>
              refine .cons (ih _ List.mem_cons_self first) (others fun value member => ?_)
              exact ih value (List.mem_cons_of_mem _ member)
  | other left single =>
      cases same_iff.mp same with
      | number equal => exact same_iff.mpr (.number (number_beq_symm equal))
      | native => exact same_iff.mpr .native
      | function => exact same_iff.mpr .function
      | nil | bool | string => exact same
      | object | list => exact absurd rfl (single _ _)

theorem same_comm (left right : Value) : left.same right = right.same left :=
  Bool.eq_iff_iff.mpr ⟨same_symm, same_symm⟩

/-- Only a number can differ from itself.  A list is one object with itself. -/
theorem same_self_iff {value : Value} :
    value.same value = true ↔ ∀ number, value = .number number → number.isNaN = false := by
  rw [same_iff]
  constructor
  · rintro matched number rfl
    cases matched with
    | number same => exact number_beq_self_iff.mp same
  · intro proper
    cases value with
    | nil => exact .nil
    | bool => exact .bool
    | number number => exact .number (number_beq_self_iff.mpr (proper number rfl))
    | string => exact .string
    | list => exact .object
    | native => exact .native
    | function => exact .function

theorem Matches.ctorIdx_eq {left right : Value} (matched : left.Matches right) :
    left.ctorIdx = right.ctorIdx := by
  cases matched <;> rfl

/-- Lists that are not one object are compared element by element. -/
theorem same_list_iff {identity identity' : Identity} (apart : identity ≠ identity')
    {elements elements' : List Value} :
    (list identity elements).same (list identity' elements') = true ↔
      elements.length = elements'.length ∧ ∀ (position : Nat) (value value' : Value),
        elements[position]? = some value → elements'[position]? = some value' →
        value.same value' = true := by
  have apart' : (identity == identity') = false := beq_false_of_ne apart
  rw [Value.same, apart', Bool.false_or, sameAll_iff, List.forall₂_iff_get]
  refine and_congr_right fun _ => ⟨?_, ?_⟩
  · intro all position value value' found found'
    obtain ⟨within, rfl⟩ := List.getElem?_eq_some_iff.mp found
    obtain ⟨within', rfl⟩ := List.getElem?_eq_some_iff.mp found'
    exact all position within within'
  · intro all position within within'
    exact all position _ _ (List.getElem?_eq_getElem within) (List.getElem?_eq_getElem within')

theorem isTruthy_eq_of_same {left right : Value} (same : left.same right = true) :
    left.isTruthy = right.isTruthy := by
  cases same_iff.mp same with
  | number equal =>
      have zero : ∀ {number number' : Float}, (number == number') = true → (number == 0) = true →
          (number' == 0) = true :=
        fun equal zero => number_beq_trans (number_beq_symm equal) zero
      exact congrArg (!·) (Bool.eq_iff_iff.mpr ⟨zero equal, zero (number_beq_symm equal)⟩)
  | nil | bool | string | object | list | native | function => rfl

end Value

theorem sameAll_trans (known : Value → Prop) {elements elements' elements'' : List Value}
    (step : ∀ value, value ∈ elements → ∀ {middle right : Value}, known middle → known right →
      value.same middle = true → middle.same right = true → value.same right = true)
    (inside' : ∀ value, value ∈ elements' → known value)
    (inside'' : ∀ value, value ∈ elements'' → known value)
    (all : List.Forall₂ (fun left right => left.same right = true) elements elements')
    (all' : List.Forall₂ (fun left right => left.same right = true) elements' elements'') :
    List.Forall₂ (fun left right => left.same right = true) elements elements'' := by
  induction all generalizing elements'' with
  | nil =>
      cases all'
      exact .nil
  | cons first _ others =>
      cases all' with
      | cons first' rest' =>
          refine .cons ?_ (others ?_ ?_ ?_ rest')
          · exact step _ List.mem_cons_self (inside' _ List.mem_cons_self)
              (inside'' _ List.mem_cons_self) first first'
          · exact fun value member => step value (List.mem_cons_of_mem _ member)
          · exact fun value member => inside' value (List.mem_cons_of_mem _ member)
          · exact fun value member => inside'' value (List.mem_cons_of_mem _ member)

/-- Where every object has an identity of its own, equality is transitive.  A list that is equal as
an object has the very elements of the other one, so the elements can be compared all the same. -/
theorem Census.same_trans {known : Value → Prop} {limit : Identity} (census : Census known limit)
    {left middle right : Value} (listed : known left) (listed' : known middle)
    (listed'' : known right) (same : left.same middle = true) (same' : middle.same right = true) :
    left.same right = true := by
  induction left using Value.nested generalizing middle right with
  | list identity elements ih =>
      cases Value.same_iff.mp same with
      | object =>
          rw [census.single _ _ identity listed listed' rfl rfl]
          exact same'
      | @list _ identity' _ elements' all =>
          cases Value.same_iff.mp same' with
          | object =>
              rw [← census.single _ _ identity' listed' listed'' rfl rfl]
              exact same
          | @list _ identity'' _ elements'' all' =>
              refine Value.same_iff.mpr (.list (sameAll_trans known ?_ ?_ ?_ all all'))
              · intro value member middle right
                exact ih value member (census.element identity elements value listed member)
              · exact fun value => census.element identity' elements' value listed'
              · exact fun value => census.element identity'' elements'' value listed''
  | other left single =>
      cases Value.same_iff.mp same with
      | number equal =>
          cases Value.same_iff.mp same' with
          | number equal' => exact Value.same_iff.mpr (.number (number_beq_trans equal equal'))
      | native =>
          cases Value.same_iff.mp same' with
          | native => exact Value.same_iff.mpr .native
      | function =>
          cases Value.same_iff.mp same' with
          | function => exact Value.same_iff.mpr .function
      | nil | bool | string => exact same'
      | object | list => exact absurd rfl (single _ _)

/-- Equality among the values of a run.  One object is one value.  Equality is symmetric and
transitive; NaN alone differs from itself; values of different kinds differ; lists
that are not one object are equal when they have equal elements at all positions; and of two equal
values both or neither count as true.  The operators of the language compare in this way. -/
theorem equality_is_a_partial_equivalence {machine : Machine} (session : Session machine)
    (fuel : Nat) (source : String) :
    (∀ value other identity, Arises fuel source machine value → Arises fuel source machine other →
      value.identity? = some identity → other.identity? = some identity → value = other) ∧
    (∀ left right : Value, left.same right = right.same left) ∧
    (∀ left middle right, Arises fuel source machine left → Arises fuel source machine middle →
      Arises fuel source machine right → left.same middle = true → middle.same right = true →
      left.same right = true) ∧
    (∀ value : Value, value.same value = true ↔
      ∀ number, value = .number number → number.isNaN = false) ∧
    (∀ left right : Value, left.ctorIdx ≠ right.ctorIdx → left.same right = false) ∧
    (∀ identity identity' elements elements', identity ≠ identity' →
      ((Value.list identity elements).same (.list identity' elements') = true ↔
        elements.length = elements'.length ∧ ∀ (position : Nat) (value value' : Value),
          elements[position]? = some value → elements'[position]? = some value' →
          value.same value' = true)) ∧
    (∀ left right : Value, left.same right = true → left.isTruthy = right.isTruthy) ∧
    (∀ operator left right, operator.kind = .mark .equalEqual →
      applyBinary operator left right = .ok (.bool (left.same right))) ∧
    (∀ operator left right, operator.kind = .mark .bangEqual →
      applyBinary operator left right = .ok (.bool !left.same right)) := by
  obtain ⟨known, limit, census, listed⟩ := session.census fuel source
  refine ⟨?_, Value.same_comm, ?_, fun _ => Value.same_self_iff, ?_, ?_,
    fun _ _ => Value.isTruthy_eq_of_same, ?_, ?_⟩
  · intro value other identity arises arises'
    exact census.single value other identity (listed value arises) (listed other arises')
  · intro left middle right arises arises' arises''
    exact census.same_trans (listed left arises) (listed middle arises') (listed right arises'')
  · intro left right apart
    rw [← Bool.not_eq_true]
    exact fun same => apart (Value.same_iff.mp same).ctorIdx_eq
  · intro identity identity' elements elements' apart
    exact Value.same_list_iff apart
  · intro operator left right isOperator
    unfold applyBinary
    rw [isOperator]
  · intro operator left right isOperator
    unfold applyBinary
    rw [isOperator]

/-- A text that makes NaN by way of infinity, and lists around it. -/
def sharing : String :=
  "var x = 99999999; x = x * x; x = x * x; x = x * x; x = x * x; x = x * x; x = x * x; " ++
    "var a = [x - x]; var b = [a]; var c = [a]; var d = [a]; var e = [x - x];"

/-- The first of five variables is an object and not the same as the last, and those between are
the same one after the other. -/
def paired : List (Option Value) → Bool
  | [some a, some b, some c, some d, some e] =>
      decide (a.identity? = some 1 ∧ a.same e = false ∧ b.same c = true ∧ c.same d = true)
  | _ => false

/-- The list around NaN equals itself, but not another list around NaN.  Three lists around the
first one are equal. -/
theorem equality_is_a_partial_equivalence_sharing :
    ∃ status later a b c d e,
      runSource 40 sharing (Machine.new ⟨"", none, false⟩ (fun _ => .ok 0) .silent) =
        some (status, later) ∧
      ["a", "b", "c", "d", "e"].map (later.store.local? 0) = [a, b, c, d, e].map some ∧
      a.same a = true ∧ a.same e = false ∧ b.same c = true ∧ c.same d = true ∧
      b.same d = true := by
  have checked : (runSource 40 sharing (Machine.new ⟨"", none, false⟩ (fun _ => .ok 0) .silent)).any
      (fun ran => paired (["a", "b", "c", "d", "e"].map (ran.2.store.local? 0))) = true := by
    decide +kernel
  obtain ⟨⟨status, later⟩, ran, holds⟩ := (Option.any_eq_true _ _).mp checked
  unfold paired at holds
  split at holds
  · rename_i a b c d e found
    obtain ⟨object, apart, first, second⟩ := of_decide_eq_true holds
    obtain ⟨_, _, trans, self, _⟩ := equality_is_a_partial_equivalence
      (.new ⟨"", none, false⟩ (fun _ => .ok 0) .silent) 40 sharing
    have parts := found
    simp only [List.map_cons, List.map_nil, List.cons.injEq, and_true] at parts
    obtain ⟨_, found_b, found_c, found_d, _⟩ := parts
    have last : b.same d = true :=
      trans b c d (.left ran found_b) (.left ran found_c) (.left ran found_d) first second
    have same : a.same a = true := (self a).mpr fun number isNumber => by
      rw [isNumber] at object
      cases object
    exact ⟨status, later, a, b, c, d, e, ran, found, same, apart, first, second, last⟩
  · exact absurd holds Bool.false_ne_true

end LexicalScript
