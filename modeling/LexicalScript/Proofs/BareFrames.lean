import LexicalScript.Proofs.Access
import LexicalScript.Proofs.ActiveFrame

/-!
Frames in which no name is ever bound.

A block whose statements declare nothing gets a frame like any other.  Assignments go to frames that
bind their name, or that are about to, so the frame of such a block stays without bindings: while
the block runs, in the rest of the run, and in all runs that follow.  A run is followed along its
points, and what is said of two points of it covers both orders in which they may come.
-/

set_option autoImplicit false

namespace LexicalScript

/-- No name is bound in the frame. -/
def Store.Bare (store : Store) (frame : FrameId) : Prop :=
  ∀ name, ¬ store.Binds frame name

theorem Store.bare_of_size_le {store : Store} {frame : FrameId}
    (outside : store.frames.size ≤ frame) : store.Bare frame :=
  fun _ bound => Nat.not_lt_of_le outside (lt_size_of_binds bound)

theorem Store.bare_iff {store : Store} {frame : FrameId} :
    store.Bare frame ↔ store.names frame = [] := by
  unfold Bare
  rw [List.eq_nil_iff_forall_not_mem]
  exact forall_congr' fun name => not_congr mem_names_iff.symm

theorem Machine.Spares.bare {machine later : Machine} {allowed : List (FrameId × String)}
    {frame : FrameId} (spares : machine.Spares allowed later)
    (created : frame < machine.store.frames.size) (bare : machine.store.Bare frame)
    (unlisted : ∀ name, (frame, name) ∉ allowed) : later.store.Bare frame := by
  intro name bound
  rcases spares.frugal frame name created bound with earlier | member
  · exact bare name earlier
  · exact unlisted name member

/-- The point is a block that declares nothing, so that the next frame is its frame. -/
def Point.Barren (point : Point) : Prop :=
  ∃ body, point.task = .execute (.block body) ∧ Stmt.declaredNames body = []

/-- The frame that a point makes if it is a block. -/
def Point.frame (point : Point) : FrameId := point.machine.store.frames.size

/-! ### Steps that follow a run -/

/-- The points are passed while the step is done.  In frames that were there before, names are bound
only as allowed, and the frames of barren blocks among the points are never bound in. -/
structure Exec.Tidy {α : Type} (action : Exec α) (machine : Machine)
    (allowed : List (FrameId × String)) (passes : Point → Prop) : Prop where
  old : machine.Covers allowed
  spares : ∀ later, (action machine).state? = some later → machine.Spares allowed later
  passing : ∀ point, passes point → machine.Spares allowed point.machine
  before : ∀ point, passes point → ∀ later, (action machine).state? = some later →
    point.frame ≤ later.store.frames.size
  opened : ∀ point, passes point → point.Barren → ∀ other, passes other →
    other.machine.store.Bare point.frame
  closed : ∀ point, passes point → point.Barren → ∀ later, (action machine).state? = some later →
    point.frame < later.store.frames.size ∧ later.store.Bare point.frame

namespace Exec

namespace Tidy

variable {α β : Type} {machine : Machine} {allowed : List (FrameId × String)}
  {passes others all : Point → Prop}

theorem of_spares {action : Exec α} (old : machine.Covers allowed)
    (spares : ∀ later, (action machine).state? = some later → machine.Spares allowed later) :
    action.Tidy machine allowed (fun _ => False) where
  old := old
  spares := spares
  passing _ passed := passed.elim
  before _ passed := passed.elim
  opened _ passed := passed.elim
  closed _ passed := passed.elim

/-- Of the step only the machine matters that it leaves. -/
theorem restrict {action : Exec α} {action' : Exec β} (tidy : action.Tidy machine allowed passes)
    (same : (action' machine).state? = (action machine).state?)
    (fewer : ∀ point, all point → passes point) : action'.Tidy machine allowed all where
  old := tidy.old
  spares later left := tidy.spares later (same.symm.trans left)
  passing point passed := tidy.passing point (fewer point passed)
  before point passed later left :=
    tidy.before point (fewer point passed) later (same.symm.trans left)
  opened point passed barren other passed' :=
    tidy.opened point (fewer point passed) barren other (fewer other passed')
  closed point passed barren later left :=
    tidy.closed point (fewer point passed) barren later (same.symm.trans left)

theorem mono {action : Exec α} {more : List (FrameId × String)}
    (tidy : action.Tidy machine allowed passes) (old : machine.Covers more)
    (included : ∀ listed, listed ∈ allowed → listed ∈ more) : action.Tidy machine more passes where
  old := old
  spares later left := (tidy.spares later left).mono included
  passing point passed := (tidy.passing point passed).mono included
  before := tidy.before
  opened := tidy.opened
  closed := tidy.closed

/-- The frames of blocks among the points are newer than all that is allowed. -/
theorem unlisted {action : Exec α} (tidy : action.Tidy machine allowed passes) {point : Point}
    (passed : passes point) (name : String) : (point.frame, name) ∉ allowed := by
  intro member
  exact Nat.not_lt_of_le (tidy.passing point passed).size (tidy.old point.frame name member)

/-- The points of two steps, the second of which starts where the first one ends. -/
theorem sequence {first : Exec α} {next : Exec β} {whole : Exec β} {middle : Machine}
    (head : first.Tidy machine allowed passes) (left : (first machine).state? = some middle)
    (tail : next.Tidy middle allowed others)
    (same : (whole machine).state? = (next middle).state?)
    (cover : ∀ point, all point → passes point ∨ others point) :
    whole.Tidy machine allowed all where
  old := head.old
  spares later left' := (head.spares middle left).trans (tail.spares later (same.symm.trans left'))
  passing point passed := by
    rcases cover point passed with early | late
    · exact head.passing point early
    · exact (head.spares middle left).trans (tail.passing point late)
  before point passed later left' := by
    rw [same] at left'
    rcases cover point passed with early | late
    · exact Nat.le_trans (head.before point early middle left) (tail.spares later left').size
    · exact tail.before point late later left'
  opened point passed barren other passed' := by
    rcases cover point passed with early | late
    · rcases cover other passed' with early' | late'
      · exact head.opened point early barren other early'
      · obtain ⟨created, bare⟩ := head.closed point early barren middle left
        exact (tail.passing other late').bare created bare (head.unlisted early)
    · rcases cover other passed' with early' | late'
      · -- The other point is over before the block makes its frame.
        refine Store.bare_of_size_le (Nat.le_trans (head.before other early' middle left) ?_)
        exact (tail.passing point late).size
      · exact tail.opened point late barren other late'
  closed point passed barren later left' := by
    rw [same] at left'
    rcases cover point passed with early | late
    · obtain ⟨created, bare⟩ := head.closed point early barren middle left
      have spares := tail.spares later left'
      exact ⟨Nat.lt_of_lt_of_le created spares.size, spares.bare created bare (head.unlisted early)⟩
    · exact tail.closed point late barren later left'

theorem bind {first : Exec α} {next : α → Exec β} {rest : α → Machine → Point → Prop}
    (head : first.Tidy machine allowed passes)
    (tail : ∀ result middle, first machine = .value result middle →
      (next result).Tidy middle allowed (rest result middle)) :
    (first >>= next).Tidy machine allowed fun point => passes point ∨
      ∃ result middle, first machine = .value result middle ∧ rest result middle point := by
  cases ended : first machine with
  | value result middle =>
      have left : (first machine).state? = some middle := by
        rw [ended]
        rfl
      refine head.sequence left (tail result middle ended) ?_ fun point passed => ?_
      · rw [Attempt.bind_apply, ended]
      · rcases passed with early | ⟨_, _, same, late⟩
        · exact Or.inl early
        · cases same
          exact Or.inr late
  | failure fault middle | exhausted =>
      refine head.restrict ?_ fun point passed => ?_
      · rw [Attempt.bind_apply, ended]
        rfl
      · rcases passed with early | ⟨_, _, same, _⟩
        · exact early
        · cases same

end Tidy

end Exec

end LexicalScript
