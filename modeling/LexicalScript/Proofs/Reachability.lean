import LexicalScript.Proofs.FrameHeap

/-!
Frames that cannot be reached.

The frames that a run may touch are those that can be reached from the active or the global frame,
along parents and through the functions that reached frames hold.  Together with the frames that do
not exist yet they form a region in which every run stays.  All other frames remain as they are, and
remain out of reach.
-/

set_option autoImplicit false

namespace LexicalScript

/-- The frame can be reached from the active or the global frame, along parents and through the
functions, also those inside lists, that are stored in reached frames. -/
inductive Machine.Reaches (machine : Machine) : FrameId → Prop
  | active : Reaches machine machine.active
  | globals : Reaches machine machine.globals
  | parent {frame parent : FrameId} : Reaches machine frame →
      machine.store.parent? frame = some parent → Reaches machine parent
  | closure {frame : FrameId} {name : String} {value : Value} {closure : Declaration × FrameId} :
      Reaches machine frame → machine.store.local? frame name = some value →
      closure ∈ value.closures → Reaches machine closure.2

/-- The frames within reach, and those that do not exist yet. -/
def Machine.reach (machine : Machine) (frame : FrameId) : Prop :=
  machine.Reaches frame ∨ machine.store.frames.size ≤ frame

theorem Machine.reach_of_lt {machine : Machine} {frame : FrameId} (inside : machine.reach frame)
    (created : frame < machine.store.frames.size) : machine.Reaches frame := by
  rcases inside with reached | unborn
  · exact reached
  · exact absurd created (Nat.not_lt_of_le unborn)

/-- What is within reach cannot be left. -/
theorem Machine.WellFormed.fenced_reach {machine : Machine} (formed : machine.WellFormed) :
    machine.Fenced machine.reach where
  formed := formed
  active := Or.inl .active
  globals := Or.inl .globals
  parents frame parent inside found :=
    Or.inl (.parent (reach_of_lt inside (Store.lt_size_of_parent? found)) found)
  values frame name value inside found closure member := by
    have created := Store.lt_size_of_binds (Store.binds_of_local? found)
    exact Or.inl (.closure (reach_of_lt inside created) found member)
  unborn _ later := Or.inr later

/-- Every region that the machine is fenced in holds all that it reaches. -/
theorem Machine.Fenced.of_reaches {machine : Machine} {region : FrameId → Prop}
    (fenced : machine.Fenced region) {frame : FrameId} (reached : machine.Reaches frame) :
    region frame := by
  induction reached with
  | active => exact fenced.active
  | globals => exact fenced.globals
  | parent _ found ih => exact fenced.parents _ _ ih found
  | closure _ found member ih => exact fenced.values _ _ _ ih found _ member

/-- Whatever statement is executed on a well-formed machine, with whatever depths, and however it
ends: a frame that existed before and cannot be reached has the same bindings and the same parent
afterwards, and still cannot be reached. -/
theorem unreachable_frames_are_untouched {machine later : Machine} (formed : machine.WellFormed)
    {fuel : Nat} {stmt : Stmt} (left : (execute fuel stmt machine).state? = some later)
    {frame : FrameId} (existed : frame < machine.store.frames.size)
    (unreachable : ¬ machine.Reaches frame) :
    later.store.frames[frame]? = machine.store.frames[frame]? ∧ ¬ later.Reaches frame := by
  have proceeds := ((confinement machine.reach).execute fuel trivial
    formed.fenced_reach).grows left
  have outside : ¬ machine.reach frame :=
    fun inside => unreachable (Machine.reach_of_lt inside existed)
  refine ⟨proceeds.untouched frame outside, ?_⟩
  intro reached
  exact outside (proceeds.fenced.of_reaches reached)

/-- A function that makes the variable of the frame it closes over true. -/
def confirm : Declaration :=
  ⟨⟨.mark .identifier, "confirm", 1⟩, [],
    [.expression (.assign ⟨.mark .identifier, "done", 1⟩ (.literal (.bool true)) (some 1))]⟩

/-- A machine with two frames inside the global one, of which only the first is the frame of a
function that is kept. -/
def twoTasks : Machine where
  store := ⟨#[⟨[("confirm", .function 0 confirm 1)], none⟩, ⟨[("done", .nil)], some 0⟩,
    ⟨[("done", .nil)], some 0⟩], 1⟩
  globals := 0
  active := 0
  sink := .unbounded
  clock := ⟨fun _ => .ok 0, 0⟩
  journal := .silent

theorem twoTasks_parent? {frame parent : FrameId}
    (found : twoTasks.store.parent? frame = some parent) : parent = 0 := by
  match frame with
  | 0 => cases found
  | 1 | 2 => exact (Option.some.inj found).symm
  | _ + 3 => cases found

/-- The one function of the machine closes over the first of the two frames. -/
theorem twoTasks_within {frame : FrameId} {name : String} {value : Value}
    (found : twoTasks.store.local? frame name = some value) : value.Within (· = 1) := by
  have only : ∀ {key : String} {stored : Value}, stored.Within (· = 1) →
      Bindings.get? [(key, stored)] name = some value → value.Within (· = 1) := by
    intro key stored within looked
    unfold Bindings.get? at looked
    rw [List.lookup_cons] at looked
    split at looked
    · cases looked
      exact within
    · cases looked
  match frame with
  | 0 =>
      apply only _ found
      intro closure member
      cases List.mem_singleton.mp member
      rfl
  | 1 | 2 => exact only (.of_closures_eq_nil rfl) found
  | _ + 3 => cases found

theorem twoTasks_wellFormed : twoTasks.WellFormed := by
  refine ⟨Nat.succ_pos 2, Nat.succ_pos 2, rfl, ?_, ?_⟩
  · intro frame created apart
    match frame, created, apart with
    | 0, _, apart => exact absurd rfl apart
    | 1, _, _ => exact ⟨0, rfl, Nat.zero_lt_one⟩
    | 2, _, _ => exact ⟨0, rfl, Nat.zero_lt_two⟩
  · intro frame name value found closure member
    rw [twoTasks_within found closure member]
    exact Nat.succ_lt_succ (Nat.succ_pos 1)

/-- The second frame is out of reach. -/
theorem twoTasks_unreached : ¬ twoTasks.Reaches 2 := by
  have fenced : twoTasks.Fenced (· ≠ 2) := by
    refine ⟨twoTasks_wellFormed, Nat.zero_ne_add_one 1, Nat.zero_ne_add_one 1, ?_, ?_, ?_⟩
    · intro frame parent _ found
      rw [twoTasks_parent? found]
      exact Nat.zero_ne_add_one 1
    · intro frame name value _ found closure member
      rw [twoTasks_within found closure member]
      exact Nat.ne_of_lt (Nat.lt_succ_self 1)
    · intro frame later
      exact Nat.ne_of_gt later
  intro reached
  exact fenced.of_reaches reached rfl

/-- The call of the function. -/
def confirming : Stmt :=
  .expression (.call (.reference confirm.name none) ⟨.mark .rightParen, ")", 1⟩ [])

/-- Calling the function changes the frame it closes over, which is within reach, and not the other
one. -/
theorem unreachable_frames_are_untouched_call :
    ∃ later, (execute 10 confirming twoTasks).state? = some later ∧
      twoTasks.WellFormed ∧ twoTasks.Reaches 1 ∧ ¬ twoTasks.Reaches 2 ∧
      later.store.local? 1 "done" = some (.bool true) ∧
      later.store.frames[2]? = twoTasks.store.frames[2]? ∧ ¬ later.Reaches 2 := by
  have called : ∃ later, (execute 10 confirming twoTasks).state? = some later ∧
      later.store.local? 1 "done" = some (.bool true) := ⟨_, rfl, rfl⟩
  obtain ⟨later, left, confirmed⟩ := called
  have stored : twoTasks.store.local? 0 "confirm" = some (.function 0 confirm 1) := rfl
  have reached : twoTasks.Reaches 1 := .closure .globals stored (List.mem_singleton.mpr rfl)
  exact ⟨later, left, twoTasks_wellFormed, reached, twoTasks_unreached, confirmed,
    unreachable_frames_are_untouched twoTasks_wellFormed left (Nat.lt_succ_self 2)
      twoTasks_unreached⟩

end LexicalScript
