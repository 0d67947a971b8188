import LexicalScript.Proofs.BareFrames

/-!
Whole runs and the frames of blocks that declare nothing.

Each rule of a run follows its own points: the point itself and those it enters, in the order in
which it does them.  So of any two points of a run, one of which is a block that declares nothing,
the other one finds the frame of that block without bindings, and so does whatever is run later.
-/

set_option autoImplicit false

namespace LexicalScript

/-- The second point is a part of the first one, and not the whole of it. -/
def Point.Beyond (point place : Point) : Prop :=
  ∃ part, point.Enters part ∧ part.Reaches place

theorem Point.eq_or_beyond {point place : Point} (reaches : point.Reaches place) :
    place = point ∨ point.Beyond place := by
  rcases reaches.cases_head with same | beyond
  · exact Or.inl same.symm
  · exact Or.inr beyond

namespace Exec.Tidy

variable {α : Type} {fuel : Nat} {task : Task} {machine : Machine}
  {initializing allowed : List (FrameId × String)} {action : Exec α}

/-- A point is passed before its parts.  What is asked of the frame of a barren block is asked of
its parts. -/
theorem enter
    (tidy : action.Tidy machine allowed (Point.Beyond ⟨fuel, task, machine, initializing⟩))
    (within : Point.Barren ⟨fuel, task, machine, initializing⟩ → ∀ other,
      Point.Beyond ⟨fuel, task, machine, initializing⟩ other →
      other.machine.store.Bare machine.store.frames.size)
    (behind : Point.Barren ⟨fuel, task, machine, initializing⟩ → ∀ later,
      (action machine).state? = some later →
      machine.store.frames.size < later.store.frames.size ∧
        later.store.Bare machine.store.frames.size) :
    action.Tidy machine allowed (Point.Reaches ⟨fuel, task, machine, initializing⟩) where
  old := tidy.old
  spares := tidy.spares
  passing other reaches := by
    rcases Point.eq_or_beyond reaches with rfl | beyond
    · exact .of_same_frames rfl
    · exact tidy.passing other beyond
  before other reaches later left := by
    rcases Point.eq_or_beyond reaches with rfl | beyond
    · exact (tidy.spares later left).size
    · exact tidy.before other beyond later left
  opened other reaches barren third reaches' := by
    rcases Point.eq_or_beyond reaches with rfl | beyond
    · rcases Point.eq_or_beyond reaches' with rfl | beyond'
      · exact Store.bare_of_size_le (Nat.le_refl _)
      · exact within barren third beyond'
    · rcases Point.eq_or_beyond reaches' with rfl | beyond'
      · exact Store.bare_of_size_le (tidy.passing other beyond).size
      · exact tidy.opened other beyond barren third beyond'
  closed other reaches barren later left := by
    rcases Point.eq_or_beyond reaches with rfl | beyond
    · exact behind barren later left
    · exact tidy.closed other beyond barren later left

end Exec.Tidy

/-! ### New frames -/

theorem Exec.enclosed_left {α : Type} {machine entered later : Machine} {creation : Exec FrameId}
    {body : Exec α}
    (created : creation machine = .value entered.active { entered with active := machine.active })
    (left : ((creation >>= fun frame => within frame body) machine).state? = some later) :
    ∃ inside, (body entered).state? = some inside ∧ later.store = inside.store := by
  rw [Attempt.bind_apply, created] at left
  dsimp only at left
  rw [Exec.within_eq, Outcome.state?_mapState] at left
  obtain ⟨inside, ended, rfl⟩ := Option.map_eq_some_iff.mp left
  exact ⟨inside, ended, rfl⟩

/-- What is done with a new frame active, seen from outside. -/
theorem Exec.Tidy.enclose {α : Type} {machine entered : Machine} {creation : Exec FrameId}
    {body : Exec α} {allowed inner : List (FrameId × String)} {passes : Point → Prop}
    (created : creation machine = .value entered.active { entered with active := machine.active })
    (tidy : body.Tidy entered inner passes) (grown : machine.Spares allowed entered)
    (old : machine.Covers allowed)
    (outer : ∀ other name, (other, name) ∈ inner → other < machine.store.frames.size →
      (other, name) ∈ allowed) :
    (creation >>= fun frame => within frame body).Tidy machine allowed passes where
  old := old
  spares later left := by
    obtain ⟨inside, ended, same⟩ := enclosed_left created left
    have spares := grown.enclose (tidy.spares inside ended) outer
    exact spares.trans (.of_same_frames (congrArg Store.frames same))
  passing point passed := grown.enclose (tidy.passing point passed) outer
  before point passed later left := by
    obtain ⟨inside, ended, same⟩ := enclosed_left created left
    rw [same]
    exact tidy.before point passed inside ended
  opened := tidy.opened
  closed point passed barren later left := by
    obtain ⟨inside, ended, same⟩ := enclosed_left created left
    rw [same]
    exact tidy.closed point passed barren inside ended

/-! ### Rules -/

section Steps

variable {α : Type} {point : Point} {held : Value → Prop} {machine : Machine} {action : Exec α}
  {gives : α → Value → Prop} {parts : Point → Prop}

theorem Point.Sound.covers_allowed (sound : point.Sound) : point.machine.Covers point.allowed := by
  intro frame name listed
  rcases List.mem_append.mp listed with declared | initialized
  · obtain ⟨_, _, same⟩ := List.mem_map.mp declared
    cases same
    exact sound.stands.sound.present
  · exact sound.covers frame name initialized

/-- A rule that runs a body in a new frame. -/
theorem Point.Sound.steps_tidy_enclose {part : Point} {creation : Exec FrameId}
    (sound : point.Sound) (enters : point.Enters part) (opens : machine.Opens part.machine)
    (old : machine.Covers point.allowed)
    (inside : (part.task.run part.fuel).Tidy part.machine part.allowed part.Reaches)
    (created : creation machine =
      .value part.machine.active { part.machine with active := machine.active }) :
    (creation >>= fun frame => Exec.within frame (part.task.run part.fuel)).Tidy machine
      point.allowed fun place => ∃ other, other = part ∧ other.Reaches place := by
  have grown : machine.Spares point.allowed part.machine :=
    opens.spares.mono fun _ listed => nomatch listed
  have enclosed := Exec.Tidy.enclose created inside grown old fun frame name listed older => by
    refine enters.allowed sound.stands (Or.inr ?_) listed
    exact Nat.ne_of_lt (Nat.lt_of_lt_of_le older opens.active)
  refine enclosed.restrict rfl ?_
  rintro place ⟨other, rfl, reaches⟩
  exact reaches

/-- The steps of a rule follow the points that it enters. -/
theorem Point.Sound.steps_tidy (sound : point.Sound)
    (inner : ∀ part, point.Enters part → part.Sound →
      (part.task.run part.fuel).Tidy part.machine part.allowed part.Reaches)
    (steps : RuleSteps point held machine action gives parts)
    (evolves : point.machine.Evolves point.allowed machine)
    (values : ∀ value, held value → value.Sound machine.store machine.globals) :
    action.Tidy machine point.allowed fun place => ∃ part, parts part ∧ part.Reaches place := by
  have old := evolves.spares.covers sound.covers_allowed
  induction steps with
  | basic step =>
      refine (Exec.Tidy.of_spares old fun later left => ?_).restrict rfl ?_
      · exact ((step.keeps sound evolves values).of_state left).spares
      · rintro place ⟨part, none, _⟩
        exact none
  | part enters _ =>
      have part := (inner _ enters (sound.enter enters)).mono old fun _ =>
        enters.allowed sound.stands (Or.inl evolves.active)
      refine part.restrict rfl ?_
      rintro place ⟨other, rfl, reaches⟩
      exact reaches
  | bind first _ ih ih' =>
      have kept := (sound.steps_keep (fun _ _ => Point.Sound.keeps) first evolves values).1
      have both := (ih evolves values old).bind fun result later ended => by
        obtain ⟨evolves', sound'⟩ := Outcome.Meets.of_value kept ended
        refine ih' result later ended (evolves.trans evolves') ?_ (evolves'.spares.covers old)
        rintro value (known | new)
        · rw [evolves'.globals]
          exact (values value known).mono evolves'.grown
        · exact sound' value new
      refine both.restrict rfl ?_
      rintro place ⟨part, early | ⟨result, later, ended, late⟩, reaches⟩
      · exact Or.inl ⟨part, early, reaches⟩
      · exact Or.inr ⟨result, later, ended, part, late, reaches⟩
  | @block _ _ start _ _ same =>
      subst same
      exact sound.steps_tidy_enclose .block (sound.stands.sound.create start.active) old
        (inner _ .block (sound.enter .block)) rfl
  | @body _ _ start declaration closure arguments _ _ same supplied =>
      subst same
      exact sound.steps_tidy_enclose .body
        (evolves.sound.enterCall declaration closure fun value member =>
          values value (supplied.2 value member)) old (inner _ .body (sound.enter .body)) rfl
  | fewer _ included ih =>
      refine (ih evolves values old).restrict rfl ?_
      rintro place ⟨part, among, reaches⟩
      exact ⟨part, included part among, reaches⟩

end Steps

/-- Inside a block that declares nothing no name may be bound in its frame. -/
theorem Point.Sound.bare_of_spares {fuel : Nat} {body : List Stmt} {machine later : Machine}
    {initializing : List (FrameId × String)}
    (sound : Point.Sound ⟨fuel + 1, .execute (.block body), machine, initializing⟩)
    (none : Stmt.declaredNames body = [])
    (spares : machine.enterBlock.Spares
      (Point.allowed ⟨fuel, .executeAll body, machine.enterBlock, initializing⟩) later) :
    machine.store.frames.size < later.store.frames.size ∧
      later.store.Bare machine.store.frames.size := by
  have created : machine.store.frames.size < machine.enterBlock.store.frames.size := by
    unfold Machine.enterBlock
    rw [Store.size_create]
    exact Nat.lt_succ_self _
  have bare : machine.enterBlock.store.Bare machine.store.frames.size := by
    intro name bound
    unfold Store.Binds Machine.enterBlock at bound
    rw [Store.local?_create] at bound
    exact Nat.lt_irrefl _ (Store.lt_size_of_binds bound)
  refine ⟨Nat.lt_of_lt_of_le created spares.size, spares.bare created bare fun name listed => ?_⟩
  rcases List.mem_append.mp listed with declared | initialized
  · obtain ⟨_, member, _⟩ := List.mem_map.mp declared
    change _ ∈ Stmt.declaredNames body at member
    rw [none] at member
    cases member
  · exact Nat.lt_irrefl _ (sound.covers _ name initialized)

/-- Every point follows the points that it leads to. -/
theorem Point.Sound.tidy {point : Point} (sound : point.Sound) :
    (point.task.run point.fuel).Tidy point.machine point.allowed point.Reaches := by
  induction point using Point.induction with
  | enter point ih =>
      obtain ⟨fuel, task, machine, initializing⟩ := point
      have parts := sound.steps_tidy ih (Point.ruleSteps _ sound.supplied)
        (.refl sound.stands.sound) fun _ => id
      refine Exec.Tidy.enter parts ?_ ?_
      · rintro ⟨body, same, none⟩ other ⟨part, enters, reaches⟩
        cases same
        cases enters with
        | block =>
            have inside := ih _ .block (sound.enter .block)
            exact (sound.bare_of_spares none (inside.passing other reaches)).2
      · rintro ⟨body, same, none⟩ later left
        cases same
        cases fuel with
        | zero => cases left
        | succ fuel =>
            have inside := ih _ .block (sound.enter .block)
            have created : Exec.nestedFrame machine = .value machine.enterBlock.active
              { machine.enterBlock with active := machine.active } := rfl
            obtain ⟨final, ended, equal⟩ := Exec.enclosed_left created left
            rw [equal]
            exact sound.bare_of_spares none (inside.spares final ended)

/-! ### Programs and sessions -/

/-- The statements of a program, one after the other, however they end. -/
theorem executeEach_tidy (fuel : Nat) {machine : Machine} {scopes : Scopes}
    {statements : List Stmt} (ready : machine.Ready machine.globals scopes)
    (scope : Stmt.ScopedAll scopes statements) :
    (executeEach fuel statements).Tidy machine (machine.named (Stmt.declaredNames statements))
      fun place => ∃ start, Starts fuel machine statements start ∧ start.Reaches place := by
  have covers : machine.Covers (machine.named (Stmt.declaredNames statements)) := by
    intro frame name listed
    obtain ⟨_, _, same⟩ := List.mem_map.mp listed
    cases same
    exact ready.sound.present
  induction statements generalizing machine scopes with
  | nil =>
      have none : (pure () : Exec Unit).Tidy machine (machine.named []) fun _ => False := by
        refine .of_spares covers fun later left => ?_
        cases left
        exact .of_same_frames rfl
      refine none.restrict rfl ?_
      rintro place ⟨start, starts, _⟩
      cases starts
  | cons stmt rest ih =>
      rw [Machine.named_cons] at covers ⊢
      have sound := ready.point scope.1 fuel
      have first := sound.tidy.mono covers fun _ member => by
        rw [Point.allowed, List.append_nil] at member
        exact List.mem_append_left _ member
      have both := first.bind fun flow later ended => by
        have evolves := (Outcome.Meets.of_value sound.keeps ended).1
        have same : later.named (Stmt.declaredNames rest) =
            machine.named (Stmt.declaredNames rest) := by
          rw [Machine.named, evolves.active]
          rfl
        have covers' := evolves.spares.covers covers
        have others := ih (ready.execute scope.1 ended) scope.2 fun frame name listed =>
          covers' frame name (List.mem_append_right _ (same ▸ listed))
        rw [same] at others
        exact others.mono covers' fun _ => List.mem_append_right _
      refine both.restrict rfl ?_
      rintro place ⟨start, starts, reaches⟩
      cases starts with
      | first => exact Or.inl reaches
      | next ended starts => exact Or.inr ⟨_, _, ended, _, starts, reaches⟩

/-- The machines that a session may come to from a machine. -/
inductive Machine.Continues (machine : Machine) : Machine → Prop
  | refl : Continues machine machine
  | supply {later : Machine} (name : String) (native : Native) : Continues machine later →
      Continues machine ({ later with store := (later.store.makeNative native).2 }.defineGlobal name
        (later.store.makeNative native).1)
  | run {later last : Machine} {fuel : Nat} {source : String} {status : Status} :
      Continues machine later → runSource fuel source later = some (status, last) →
      Continues machine last

theorem Machine.Continues.session {machine later : Machine} (continues : machine.Continues later)
    (session : Session machine) : Session later := by
  induction continues with
  | refl => exact session
  | supply name native _ ih => exact ih.supply name native
  | run _ ran ih => exact ih.run ran

/-- What is executed when a text is run is followed along the points that occur. -/
theorem Session.tidy {machine begun : Machine} {source : String} {statements : List Stmt}
    (session : Session machine) (begins : begin? source machine = some (statements, begun))
    (fuel : Nat) :
    (executeEach fuel statements).Tidy begun (begun.named (Stmt.declaredNames statements))
      (Occurs fuel source machine) := by
  obtain ⟨scope, sameRest⟩ := begin?_scoped begins
  refine (executeEach_tidy fuel (session.ready.eqExceptJournal sameRest).own scope).restrict rfl ?_
  rintro place ⟨_, _, start, begins', starts, reaches⟩
  cases begins.symm.trans begins'
  exact ⟨start, starts, reaches⟩

/-- The frame exists, has no names, and is not the global one. -/
structure Machine.HasBare (machine : Machine) (frame : FrameId) : Prop where
  created : frame < machine.store.frames.size
  bare : machine.store.Bare frame
  inner : frame ≠ machine.globals

namespace Machine.HasBare

variable {machine later : Machine} {frame : FrameId}

theorem eqExceptJournal (has : machine.HasBare frame) (sameRest : machine.EqExceptJournal later) :
    later.HasBare frame := by
  rw [sameRest]
  exact ⟨has.created, has.bare, has.inner⟩

/-- Names that are declared at the top level are bound in the global frame. -/
theorem spared (has : machine.HasBare frame) (atTop : machine.active = machine.globals)
    {statements : List Stmt}
    (spares : machine.Spares (machine.named (Stmt.declaredNames statements)) later) :
    later.store.Bare frame := by
  refine spares.bare has.created has.bare fun name member => ?_
  obtain ⟨_, _, same⟩ := List.mem_map.mp member
  cases same
  exact has.inner atTop

theorem occurring {fuel : Nat} {source : String} {place : Point} (has : machine.HasBare frame)
    (session : Session machine) (occurs : Occurs fuel source machine place) :
    place.machine.store.Bare frame := by
  obtain ⟨statements, begun, start, begins, _⟩ := id occurs
  obtain ⟨_, sameRest⟩ := begin?_scoped begins
  have atTop := (session.ready.eqExceptJournal sameRest).own.atTop
  have has' := has.eqExceptJournal sameRest
  exact has'.spared atTop ((session.tidy begins fuel).passing place occurs)

theorem run {fuel : Nat} {source : String} {status : Status} (has : machine.HasBare frame)
    (session : Session machine) (ran : runSource fuel source machine = some (status, later)) :
    later.HasBare frame := by
  have resumes := runSource_resumes ran
  cases runSource_ran ran with
  | unscanned _ same | idle _ _ same | refused _ _ same => exact has.eqExceptJournal same
  | @executed tokens begun ended _ fault _ _ begins same ends same' =>
      have begun' := has.eqExceptJournal same
      have spares := (session.tidy begins fuel).spares ended ends.state?
      have atTop := (session.ready.eqExceptJournal same).own.atTop
      refine Machine.HasBare.eqExceptJournal ⟨Nat.lt_of_lt_of_le begun'.created spares.size,
        begun'.spared atTop spares, ?_⟩ same'
      have globals : ended.globals = later.globals := same'.resumes.globals.symm
      rw [globals, resumes.globals]
      exact has.inner

theorem supply (has : machine.HasBare frame) (name : String) (native : Native) :
    ({ machine with store := (machine.store.makeNative native).2 }.defineGlobal name
      (machine.store.makeNative native).1).HasBare frame := by
  refine ⟨?_, fun other bound => ?_, has.inner⟩
  · unfold defineGlobal
    rw [Store.size_define]
    exact has.created
  · unfold Store.Binds defineGlobal at bound
    rw [Store.local?_define_of_ne _ (Or.inl has.inner)] at bound
    exact has.bare other bound

theorem continues (has : machine.HasBare frame) (session : Session machine)
    (continues : machine.Continues later) : later.HasBare frame := by
  induction continues with
  | refl => exact has
  | supply name native _ ih => exact ih.supply name native
  | run before ran ih => exact ih.run (before.session session) ran

end Machine.HasBare

/-- The frame of a block that declares nothing is bare at every point of the run in which the block
occurs. -/
theorem Session.bare_of_barren {machine : Machine} {fuel : Nat} {source : String}
    {point place : Point} (session : Session machine) (occurs : Occurs fuel source machine point)
    (barren : point.Barren) (occurs' : Occurs fuel source machine place) :
    place.machine.store.Bare point.frame := by
  obtain ⟨statements, begun, start, begins, _⟩ := id occurs
  exact (session.tidy begins fuel).opened point occurs barren place occurs'

/-- It is bare when that run has ended. -/
theorem Session.hasBare_of_barren {machine later : Machine} {fuel : Nat} {source : String}
    {point : Point} {status : Status} (session : Session machine)
    (occurs : Occurs fuel source machine point) (barren : point.Barren)
    (ran : runSource fuel source machine = some (status, later)) :
    later.HasBare point.frame := by
  obtain ⟨statements, begun, start, begins, _⟩ := id occurs
  obtain ⟨_, sameRest⟩ := begin?_scoped begins
  have tidy := session.tidy begins fuel
  obtain ⟨ended, left, same⟩ := begin?_ends begins ran
  obtain ⟨created, bare⟩ := tidy.closed point occurs barren ended left
  refine Machine.HasBare.eqExceptJournal ⟨created, bare, ?_⟩ same
  -- The global frame was there before the block.
  have older := (session.ready.eqExceptJournal sameRest).sound.rooted
  have newer := (tidy.passing point occurs).size
  have globals : ended.globals = begun.globals := by
    rw [← same.resumes.globals, (runSource_resumes ran).globals]
    exact sameRest.resumes.globals.symm
  rw [globals]
  exact Nat.ne_of_gt (Nat.lt_of_lt_of_le older newer)

/-- The frame that a point makes never gets a name: in the run in which the point occurs, when that
run has ended, and in all runs that follow. -/
def Point.StaysBare (point : Point) (fuel : Nat) (source : String) (machine : Machine) : Prop :=
  (∀ place, Occurs fuel source machine place → place.machine.store.names point.frame = []) ∧
  ∀ status later, runSource fuel source machine = some (status, later) →
    ∀ last, later.Continues last → last.store.names point.frame = [] ∧
      ∀ more text place, Occurs more text last place →
        place.machine.store.names point.frame = []

theorem Session.staysBare {machine : Machine} {fuel : Nat} {source : String} {point : Point}
    (session : Session machine) (occurs : Occurs fuel source machine point)
    (barren : point.Barren) : point.StaysBare fuel source machine := by
  refine ⟨fun place occurs' => ?_, fun status later ran last continues => ?_⟩
  · exact Store.bare_iff.mp (session.bare_of_barren occurs barren occurs')
  · have session' := session.run ran
    have has := (session.hasBare_of_barren occurs barren ran).continues session' continues
    refine ⟨Store.bare_iff.mp has.bare, fun more text place occurs' => ?_⟩
    exact Store.bare_iff.mp (has.occurring (continues.session session') occurs')

end LexicalScript
