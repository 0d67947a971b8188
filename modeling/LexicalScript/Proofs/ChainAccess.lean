import Mathlib.Order.Bounds.Defs
import LexicalScript.Proofs.Assignments
import LexicalScript.Proofs.FrameHistory

/-!
Access along a chain of frames against access at a distance.

In any store that was built by making frames and writing to them, a name is found along the chain of
a frame exactly in the frame at the least distance that binds it.  Reading and assigning along the
chain are then reading and assigning at that distance.  An assignment along the chain replaces one
binding: it makes no binding, and what is seen from elsewhere changes only where that binding is the
one that is seen.
-/

set_option autoImplicit false

namespace LexicalScript

namespace Store

/-- The frame that many hops out exists and binds the name itself. -/
def BindsAt (store : Store) (frame : FrameId) (name : String) (hops : Nat) : Prop :=
  ∃ owner, store.ancestor? frame hops = some owner ∧ store.Binds owner name

/-- The stores that are built by making frames, with and without an enclosing one, and by writing to
frames in any of the three ways.  Making an object takes an identity. -/
inductive Built : Store → Prop
  | empty : Built .empty
  | opened {store : Store} : Built store → Built (store.create none).2
  | nested {store : Store} {enclosing : FrameId} :
      Built store → enclosing < store.frames.size → Built (store.create (some enclosing)).2
  | identified {store : Store} : Built store → Built store.identify.2
  | defined {store : Store} (frame : FrameId) (name : String) (value : Value) :
      Built store → Built (store.define frame name value)
  | assigned {store later : Store} {frame : FrameId} {name : Token} {value : Value} :
      Built store → store.assign frame name value = .ok later → Built later
  | assignedAt {store later : Store} {frame : FrameId} {hops : Nat} {name : Token}
      {value : Value} :
      Built store → store.assignAt frame hops name value = .ok later → Built later

/-! ### Parents are older -/

theorem assign_eq_ok {store later : Store} {frame : FrameId} {name : Token} {value : Value}
    (assigned : store.assign frame name value = .ok later) :
    ∃ owner, store.owner? frame name.lexeme = some owner ∧
      later = store.define owner name.lexeme value := by
  unfold assign at assigned
  split at assigned
  · rename_i owner found
    cases assigned
    exact ⟨owner, found, rfl⟩
  · cases assigned

theorem assignAt_eq_ok {store later : Store} {frame : FrameId} {hops : Nat} {name : Token}
    {value : Value} (assigned : store.assignAt frame hops name value = .ok later) :
    ∃ owner, store.ancestor? frame hops = some owner ∧
      later = store.define owner name.lexeme value := by
  unfold assignAt at assigned
  split at assigned
  · rename_i owner found
    cases assigned
    exact ⟨owner, found, rfl⟩
  · cases assigned

theorem Aged.define {store : Store} (aged : store.Aged) (frame : FrameId) (name : String)
    (value : Value) : (store.define frame name value).Aged := by
  intro child parent found
  rw [parent?_define] at found
  exact aged child parent found

theorem Aged.create {store : Store} (aged : store.Aged) {parent : Option FrameId}
    (older : ∀ enclosing, parent = some enclosing → enclosing < store.frames.size) :
    (store.create parent).2.Aged := by
  intro child enclosing found
  rw [parent?_create] at found
  split at found
  · rename_i newest
    rw [newest]
    exact older enclosing found
  · exact aged child enclosing found

theorem Built.aged {store : Store} (built : store.Built) : store.Aged := by
  induction built with
  | empty =>
      intro frame parent found
      exact absurd (lt_size_of_parent? found) (Nat.not_lt_zero frame)
  | opened _ ih =>
      refine ih.create ?_
      intro enclosing impossible
      cases impossible
  | nested _ created ih =>
      refine ih.create ?_
      intro enclosing same
      cases same
      exact created
  | identified _ ih => exact ih
  | defined frame name value _ ih => exact ih.define frame name value
  | assigned _ assigned ih =>
      obtain ⟨owner, _, rfl⟩ := assign_eq_ok assigned
      exact ih.define _ _ _
  | assignedAt _ assigned ih =>
      obtain ⟨owner, _, rfl⟩ := assignAt_eq_ok assigned
      exact ih.define _ _ _

/-! ### The least distance -/

variable {store later : Store} {frame owner : FrameId}

/-- The frame at the least distance is the one that a search along the chain finds. -/
theorem Aged.owner?_of_isLeast (aged : store.Aged) {name : String} {hops : Nat}
    (least : IsLeast {hops | store.BindsAt frame name hops} hops) :
    ∃ owner, store.ancestor? frame hops = some owner ∧ store.Binds owner name ∧
      store.owner? frame name = some owner := by
  obtain ⟨⟨owner, reached, bound⟩, lowest⟩ := least
  refine ⟨owner, reached, bound, (aged.owner?_eq_some_iff name).mpr ⟨hops, reached, bound, ?_⟩⟩
  intro fewer less between passed bindsNearer
  exact absurd (lowest ⟨between, passed, bindsNearer⟩) (Nat.not_le.mpr less)

theorem Aged.owner?_eq_none (aged : store.Aged) {name : String}
    (missing : ∀ hops, ¬ store.BindsAt frame name hops) : store.owner? frame name = none := by
  rw [Option.eq_none_iff_forall_ne_some]
  intro owner found
  obtain ⟨hops, reached, bound, _⟩ := (aged.owner?_eq_some_iff name).mp found
  exact missing hops ⟨owner, reached, bound⟩

theorem get_of_owner? {name : Token} (found : store.owner? frame name.lexeme = some owner) :
    store.get frame name = match store.local? owner name.lexeme with
      | some value => .ok value
      | none => .error (undefinedVariable name none) := by
  unfold get
  rw [found]
  rfl

theorem getAt_of_ancestor? {hops : Nat} {name : Token}
    (reached : store.ancestor? frame hops = some owner) :
    store.getAt frame hops name = match store.local? owner name.lexeme with
      | some value => .ok value
      | none => .error (undefinedVariable name (some hops)) := by
  unfold getAt
  rw [reached]
  rfl

/-! ### Replacing a binding -/

/-- The later store is the earlier one with a binding of one frame replaced: no frame binds other
names than before, and a lookup gives another result only where it comes to that binding. -/
structure Replaces (store : Store) (owner : FrameId) (name : String) (value : Value)
    (later : Store) : Prop where
  frames : later.frames.size = store.frames.size
  identities : later.fresh = store.fresh
  parents : ∀ frame, later.parent? frame = store.parent? frame
  names : ∀ frame, later.names frame = store.names frame
  kept : ∀ frame other, (frame, other) ≠ (owner, name) →
    later.local? frame other = store.local? frame other
  seen : ∀ frame (token : Token), token.lexeme = name →
    store.Nearest frame token.lexeme owner → later.get frame token = .ok value
  unseen : ∀ frame (token : Token) nearest, store.Nearest frame token.lexeme nearest →
    (nearest, token.lexeme) ≠ (owner, name) → later.get frame token = store.get frame token
  missing : ∀ frame (token : Token), (∀ nearest, ¬ store.Nearest frame token.lexeme nearest) →
    later.get frame token = store.get frame token

/-- A search looks only at parents and at which names are bound. -/
theorem ownerWithin?_congr (name : String) (limit : Nat)
    (parents : ∀ frame, later.parent? frame = store.parent? frame)
    (bound : ∀ frame, (later.local? frame name).isSome = (store.local? frame name).isSome) :
    later.ownerWithin? name limit frame = store.ownerWithin? name limit frame := by
  induction limit generalizing frame with
  | zero => rfl
  | succ limit ih =>
      unfold ownerWithin?
      have same := bound frame
      rw [parents frame]
      cases own : store.local? frame name with
      | some value =>
          rw [own] at same
          obtain ⟨value', own'⟩ := Option.isSome_iff_exists.mp same
          rw [own']
      | none =>
          rw [own] at same
          rw [Option.not_isSome_iff_eq_none.mp (ne_true_of_eq_false same)]
          dsimp only
          cases store.parent? frame with
          | none => rfl
          | some parent => exact ih

theorem isSome_local?_define {name : String} (bound : store.Binds owner name) (value : Value)
    (frame : FrameId) (other : String) :
    ((store.define owner name value).local? frame other).isSome =
      (store.local? frame other).isSome := by
  by_cases same : frame = owner ∧ other = name
  · obtain ⟨rfl, rfl⟩ := same
    rw [local?_define_self store (lt_size_of_binds bound)]
    exact bound.symm
  · rw [local?_define_of_ne store (Classical.not_and_iff_not_or_not.mp same)]

theorem names_define_of_binds {name : String} (bound : store.Binds owner name) (value : Value)
    (frame : FrameId) : (store.define owner name value).names frame = store.names frame := by
  by_cases own : frame = owner
  · rw [own]
    exact (names_define_self store (lt_size_of_binds bound) name value).trans (if_pos bound)
  · exact names_define_of_ne store own name value

theorem Aged.replaces_define (aged : store.Aged) {name : String} (bound : store.Binds owner name)
    (value : Value) : store.Replaces owner name value (store.define owner name value) := by
  have parents := fun frame => parent?_define store owner frame name value
  have sameOwner (frame : FrameId) (other : String) :
      (store.define owner name value).owner? frame other = store.owner? frame other :=
    ownerWithin?_congr other (frame + 1) parents (isSome_local?_define bound value · other)
  have kept (frame : FrameId) (other : String) (apart : (frame, other) ≠ (owner, name)) :
      (store.define owner name value).local? frame other = store.local? frame other := by
    refine local?_define_of_ne store (Classical.not_and_iff_not_or_not.mp ?_) value
    rintro ⟨rfl, rfl⟩
    exact apart rfl
  refine
    { frames := size_define store owner name value
      identities := rfl
      parents := parents
      names := names_define_of_binds bound value
      kept := kept
      seen := ?_
      unseen := ?_
      missing := ?_ }
  · intro frame token same nearest
    have found := (aged.owner?_eq_some_iff token.lexeme).mpr nearest
    rw [get_of_owner? ((sameOwner frame token.lexeme).trans found), same,
      local?_define_self store (lt_size_of_binds bound)]
  · intro frame token nearest isNearest apart
    have found := (aged.owner?_eq_some_iff token.lexeme).mpr isNearest
    rw [get_of_owner? ((sameOwner frame token.lexeme).trans found), get_of_owner? found,
      kept nearest token.lexeme apart]
  · intro frame token none
    have absent : store.owner? frame token.lexeme = Option.none := by
      rw [Option.eq_none_iff_forall_ne_some]
      intro nearest found
      exact none nearest ((aged.owner?_eq_some_iff token.lexeme).mp found)
    unfold get
    rw [sameOwner, absent]
    rfl

end Store

/-! ### Chains and distances -/

/-- Reading and assigning along the chain of a frame are reading and assigning at the least distance
at which the name is bound, and the assignment replaces that binding and nothing else.  Without such
a distance both fail with the error of the name, and an assignment that a machine makes so leaves
the machine as it is. -/
theorem chain_access_is_at_least_distance {store : Store} (built : store.Built) (frame : FrameId)
    (name : Token) (value : Value) :
    (∀ hops, IsLeast {hops | store.BindsAt frame name.lexeme hops} hops →
      (∃ found, store.get frame name = .ok found ∧ store.getAt frame hops name = .ok found) ∧
      ∃ owner later, store.ancestor? frame hops = some owner ∧
        store.assign frame name value = .ok later ∧
        store.assignAt frame hops name value = .ok later ∧
        later.get frame name = .ok value ∧ store.Replaces owner name.lexeme value later) ∧
    ((∀ hops, ¬ store.BindsAt frame name.lexeme hops) →
      store.get frame name = .error (Store.undefinedVariable name none) ∧
      store.assign frame name value = .error (Store.undefinedVariable name none) ∧
      ∀ machine : Machine, machine.store = store → machine.globals = frame →
        ∃ later, machine.EqExceptJournal later ∧ Exec.assignVariable name none value machine =
          .failure (.runtime (Store.undefinedVariable name none)) later) := by
  have aged := built.aged
  constructor
  · intro hops least
    obtain ⟨owner, reached, bound, found⟩ := aged.owner?_of_isLeast least
    obtain ⟨old, own⟩ := Option.isSome_iff_exists.mp bound
    have replaces := aged.replaces_define bound value
    refine ⟨⟨old, ?_, ?_⟩, owner, store.define owner name.lexeme value, reached, ?_, ?_, ?_,
      replaces⟩
    · rw [Store.get_of_owner? found, own]
    · rw [Store.getAt_of_ancestor? reached, own]
    · unfold Store.assign
      rw [found]
    · unfold Store.assignAt
      rw [reached]
    · exact replaces.seen frame name rfl ((aged.owner?_eq_some_iff name.lexeme).mp found)
  · intro missing
    have absent := aged.owner?_eq_none missing
    have refused : store.assign frame name value =
        .error (Store.undefinedVariable name none) := by
      unfold Store.assign
      rw [absent]
    refine ⟨?_, refused, ?_⟩
    · unfold Store.get
      rw [absent]
      rfl
    · rintro machine rfl rfl
      rw [Exec.assignVariable_none, refused]
      refine ⟨_, ?_, rfl⟩
      rfl

/-- Two frames inside one that binds the name anew, and one beside them. -/
def shadowedStore : Store :=
  let outer := (Store.empty.create none).2.define 0 "a" .nil
  let inner := (outer.create (some 0)).2.define 1 "a" (.bool false)
  (((inner.create (some 1)).2.create (some 1)).2.create (some 0)).2

/-- Assigning from one of the inner frames is seen from the other, and not from the one beside. -/
theorem chain_access_is_at_least_distance_shadowed :
    shadowedStore.Built ∧
    IsLeast {hops | shadowedStore.BindsAt 2 "a" hops} 1 ∧
    (∃ later, shadowedStore.assign 2 ⟨.mark .identifier, "a", 7⟩ (.bool true) = .ok later ∧
      shadowedStore.assignAt 2 1 ⟨.mark .identifier, "a", 7⟩ (.bool true) = .ok later ∧
      later.get 3 ⟨.mark .identifier, "a", 8⟩ = .ok (.bool true) ∧
      later.get 4 ⟨.mark .identifier, "a", 8⟩ = .ok .nil) ∧
    (∀ hops, ¬ shadowedStore.BindsAt 2 "b" hops) ∧
    shadowedStore.assign 2 ⟨.mark .identifier, "b", 7⟩ .nil =
      .error ⟨.undefinedVariable "b" none, 7⟩ := by
  have built : shadowedStore.Built :=
    .nested (.nested (.nested (.defined 1 "a" (.bool false) (.nested (.defined 0 "a" .nil
      (.opened .empty)) (by decide))) (by decide)) (by decide)) (by decide)
  have least : IsLeast {hops | shadowedStore.BindsAt 2 "a" hops} 1 := by
    refine ⟨⟨1, rfl, rfl⟩, ?_⟩
    rintro hops ⟨owner, reached, bound⟩
    cases hops with
    | zero =>
        cases reached
        cases bound
    | succ hops => exact Nat.succ_le_succ (Nat.zero_le hops)
  have missing (hops : Nat) : ¬ shadowedStore.BindsAt 2 "b" hops := by
    rintro ⟨owner, reached, bound⟩
    match hops with
    | 0 | 1 | 2 =>
        cases reached
        cases bound
    | hops + 3 => cases reached
  obtain ⟨_, owner, later, reached, assigned, assignedAt, _, replaces⟩ :=
    (chain_access_is_at_least_distance built 2 ⟨.mark .identifier, "a", 7⟩ (.bool true)).1 1 least
  cases reached
  have beside : shadowedStore.Nearest 3 "a" 1 :=
    (built.aged.owner?_eq_some_iff "a").mp rfl
  have outside : shadowedStore.Nearest 4 "a" 0 :=
    (built.aged.owner?_eq_some_iff "a").mp rfl
  refine ⟨built, least, ⟨later, assigned, assignedAt, replaces.seen 3 _ rfl beside, ?_⟩, missing,
    ((chain_access_is_at_least_distance built 2 ⟨.mark .identifier, "b", 7⟩ .nil).2 missing).2.1⟩
  rw [replaces.unseen 4 _ 0 outside (by decide)]
  rfl

end LexicalScript
