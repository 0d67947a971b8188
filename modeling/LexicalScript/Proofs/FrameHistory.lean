import LexicalScript.Proofs.Access
import LexicalScript.Proofs.FrameHeap

/-!
What holds of frames throughout their history.

A machine is used by running texts, executing statements and evaluating expressions on it, in any
order and with any outcome.  The machines that are passed on the way count as well.  All of them are
well formed, which bounds every walk along parents: a chain leads to the global frame and ends
there, and looking a name up along a chain finds the nearest frame that binds it.
-/

set_option autoImplicit false

namespace LexicalScript

/-! ### Walks along parents -/

/-- The frame is the nearest one that binds the name, going out from another one. -/
def Store.Nearest (store : Store) (frame : FrameId) (name : String) (owner : FrameId) : Prop :=
  ∃ hops, store.ancestor? frame hops = some owner ∧ store.Binds owner name ∧
    ∀ fewer, fewer < hops → ∀ between, store.ancestor? frame fewer = some between →
      ¬ store.Binds between name

/-- The chain of a frame has that many frames behind it, and the last one is the global frame. -/
structure Store.Climbs (store : Store) (globals frame : FrameId) (depth : Nat) : Prop where
  ends : store.ancestor? frame depth = some globals
  beyond : ∀ hops, depth < hops → store.ancestor? frame hops = none
  younger : ∀ hops owner, store.ancestor? frame hops = some owner → owner + hops ≤ frame

namespace Store

variable {store : Store} {frame parent : FrameId}

theorem ancestor?_succ (hops : Nat) (found : store.parent? frame = some parent) :
    store.ancestor? frame (hops + 1) = store.ancestor? parent hops := by
  rw [Store.ancestor?, found]

theorem ancestor?_succ_of_root (hops : Nat) (root : store.parent? frame = none) :
    store.ancestor? frame (hops + 1) = none := by
  rw [Store.ancestor?, root]

theorem Climbs.root {globals : FrameId} (root : store.parent? globals = none) :
    store.Climbs globals globals 0 where
  ends := rfl
  beyond hops more := by
    obtain ⟨fewer, rfl⟩ := Nat.exists_eq_succ_of_ne_zero (Nat.ne_of_gt more)
    exact ancestor?_succ_of_root fewer root
  younger hops owner reached := by
    cases hops with
    | zero =>
        cases reached
        exact Nat.le_refl _
    | succ hops =>
        rw [ancestor?_succ_of_root hops root] at reached
        cases reached

theorem Climbs.child {globals : FrameId} {depth : Nat} (found : store.parent? frame = some parent)
    (older : parent < frame) (climbs : store.Climbs globals parent depth) :
    store.Climbs globals frame (depth + 1) where
  ends := by
    rw [ancestor?_succ depth found]
    exact climbs.ends
  beyond hops more := by
    cases hops with
    | zero => omega
    | succ hops =>
        rw [ancestor?_succ hops found]
        exact climbs.beyond hops (by omega)
  younger hops owner reached := by
    cases hops with
    | zero =>
        cases reached
        exact Nat.le_refl _
    | succ hops =>
        rw [ancestor?_succ hops found] at reached
        exact Nat.lt_of_le_of_lt (climbs.younger hops owner reached) older

theorem Nearest.own {name : String} (bound : store.Binds frame name) :
    store.Nearest frame name frame :=
  ⟨0, rfl, bound, fun _ fewer => absurd fewer (Nat.not_lt_zero _)⟩

/-- Where a frame does not bind a name itself, its parent decides. -/
theorem nearest_iff_of_parent {name : String} {owner : FrameId} (free : ¬ store.Binds frame name)
    (found : store.parent? frame = some parent) :
    store.Nearest frame name owner ↔ store.Nearest parent name owner := by
  constructor
  · rintro ⟨hops, reached, bound, nearer⟩
    cases hops with
    | zero =>
        cases reached
        exact absurd bound free
    | succ hops =>
        rw [ancestor?_succ hops found] at reached
        refine ⟨hops, reached, bound, ?_⟩
        intro fewer less between passed
        apply nearer (fewer + 1) (by omega) between
        rw [ancestor?_succ fewer found]
        exact passed
  · rintro ⟨hops, reached, bound, nearer⟩
    refine ⟨hops + 1, (ancestor?_succ hops found).trans reached, bound, ?_⟩
    intro fewer less between passed
    cases fewer with
    | zero =>
        cases passed
        exact free
    | succ fewer =>
        rw [ancestor?_succ fewer found] at passed
        exact nearer fewer (by omega) between passed

theorem not_nearest_of_root {name : String} {owner : FrameId} (free : ¬ store.Binds frame name)
    (root : store.parent? frame = none) : ¬ store.Nearest frame name owner := by
  rintro ⟨hops, reached, bound, _⟩
  cases hops with
  | zero =>
      cases reached
      exact free bound
  | succ hops =>
      rw [ancestor?_succ_of_root hops root] at reached
      cases reached

/-- Every frame was created after its parent. -/
def Aged (store : Store) : Prop :=
  ∀ frame parent, store.parent? frame = some parent → parent < frame

/-- A search that may look at more frames than the number of the first one is not cut short. -/
theorem Aged.ownerWithin?_eq_some_iff (aged : store.Aged) {owner : FrameId} (name : String)
    {limit : Nat} (enough : frame < limit) :
    store.ownerWithin? name limit frame = some owner ↔ store.Nearest frame name owner := by
  induction limit generalizing frame with
  | zero => exact absurd enough (Nat.not_lt_zero frame)
  | succ limit ih =>
      unfold ownerWithin?
      cases own : store.local? frame name with
      | some value =>
          have bound := binds_of_local? own
          constructor
          · intro same
            cases same
            exact .own bound
          · rintro ⟨hops, reached, _, nearer⟩
            cases hops with
            | zero => exact reached
            | succ hops => exact absurd bound (nearer 0 (Nat.succ_pos hops) frame rfl)
      | none =>
          have free : ¬ store.Binds frame name := by
            unfold Binds
            rw [own]
            exact Bool.false_ne_true
          dsimp only
          cases found : store.parent? frame with
          | none =>
              constructor
              · intro impossible
                cases impossible
              · intro nearest
                exact absurd nearest (not_nearest_of_root free found)
          | some parent =>
              dsimp only
              rw [nearest_iff_of_parent free found]
              exact ih (Nat.lt_of_lt_of_le (aged frame parent found) (Nat.le_of_lt_succ enough))

theorem Aged.owner?_eq_some_iff (aged : store.Aged) {owner : FrameId} (name : String) :
    store.owner? frame name = some owner ↔ store.Nearest frame name owner :=
  aged.ownerWithin?_eq_some_iff name (Nat.lt_succ_self frame)

end Store

namespace Machine.WellFormed

variable {machine : Machine}

/-- Every chain leads to the global frame. -/
theorem climbs (formed : machine.WellFormed) {frame : FrameId}
    (created : frame < machine.store.frames.size) :
    ∃ depth, machine.store.Climbs machine.globals frame depth := by
  induction frame using Nat.strongRecOn with
  | ind frame ih =>
      by_cases top : frame = machine.globals
      · rw [top]
        exact ⟨0, .root formed.root⟩
      · obtain ⟨parent, found, older⟩ := formed.older frame created top
        obtain ⟨depth, climbs⟩ := ih parent older (Nat.lt_trans older created)
        exact ⟨depth + 1, climbs.child found older⟩

theorem aged (formed : machine.WellFormed) : machine.store.Aged :=
  fun _ _ found => formed.parent_lt found

theorem fenced (formed : machine.WellFormed) : machine.Fenced fun _ => True where
  formed := formed
  active := trivial
  globals := trivial
  parents _ _ _ _ := trivial
  values _ _ _ _ _ _ _ := trivial
  unborn _ _ := trivial

end Machine.WellFormed

/-! ### Histories -/

/-- The later machine is well formed and has the frames of the earlier one, with their parents and
with all names that they bound. -/
structure Machine.Matures (machine later : Machine) : Prop where
  formed : later.WellFormed
  globals : later.globals = machine.globals
  grown : machine.store.Extends later.store

namespace Machine.Matures

variable {machine middle later : Machine}

theorem refl (formed : machine.WellFormed) : machine.Matures machine :=
  ⟨formed, rfl, .refl _⟩

theorem trans (first : machine.Matures middle) (second : middle.Matures later) :
    machine.Matures later :=
  ⟨second.formed, second.globals.trans first.globals, first.grown.trans second.grown⟩

theorem of_proceeds {region : FrameId → Prop} (proceeds : machine.Proceeds region later) :
    machine.Matures later :=
  ⟨proceeds.fenced.formed, proceeds.globals, proceeds.grown⟩

theorem eqExceptJournal (formed : machine.WellFormed) (sameRest : machine.EqExceptJournal later) :
    machine.Matures later := by
  rw [sameRest]
  exact of_proceeds (.of_same_frames formed.fenced rfl rfl rfl)

/-- A frame has the parent with which it was made. -/
theorem parent?_eq (formed : machine.WellFormed) (matures : machine.Matures later)
    {frame : FrameId} (created : frame < machine.store.frames.size) :
    later.store.parent? frame = machine.store.parent? frame := by
  by_cases top : frame = machine.globals
  · rw [top, formed.root, ← matures.globals]
    exact matures.formed.root
  · obtain ⟨parent, found, _⟩ := formed.older frame created top
    rw [found]
    exact matures.grown.parent frame parent found

end Machine.Matures

/-- The point starts on a well-formed machine, and the values that it is given close over frames
that exist. -/
abbrev Point.Formed (point : Point) : Prop := (confinement fun _ => True).Admits point

/-- Each point hands a mature heap to the points it leads to. -/
theorem Point.Formed.reach {point place : Point} (formed : point.Formed)
    (reaches : point.Reaches place) : place.Formed ∧ point.machine.Matures place.machine := by
  obtain ⟨formed', globals, grown⟩ := RunLaws.Admits.reach formed reaches
  exact ⟨formed', formed'.fit.formed, globals, grown⟩

theorem Starts.matures {fuel : Nat} {machine : Machine} {statements : List Stmt} {point : Point}
    (starts : Starts fuel machine statements point) (formed : machine.WellFormed) :
    point.Formed ∧ machine.Matures point.machine := by
  obtain ⟨formed', globals, grown⟩ := (confinement fun _ => True).starts starts
    (fun _ _ => trivial) formed.fenced
  exact ⟨formed', formed'.fit.formed, globals, grown⟩

/-- One use of a machine, with the machine that it ends with or one that it passes. -/
inductive Machine.Leads : Machine → Machine → Prop
  | evaluated {machine later : Machine} {fuel : Nat} {expr : Expr} :
      (evaluate fuel expr machine).state? = some later → Leads machine later
  | executed {machine later : Machine} {fuel : Nat} {stmt : Stmt} :
      (execute fuel stmt machine).state? = some later → Leads machine later
  | ran {machine later : Machine} {fuel : Nat} {source : String} {status : Status} :
      runSource fuel source machine = some (status, later) → Leads machine later
  | evaluating {machine : Machine} {fuel : Nat} {expr : Expr} {place : Point} :
      Point.Reaches ⟨fuel, .evaluate expr, machine, []⟩ place → Leads machine place.machine
  | executing {machine : Machine} {fuel : Nat} {stmt : Stmt} {place : Point} :
      Point.Reaches ⟨fuel, .execute stmt, machine, []⟩ place → Leads machine place.machine
  | running {machine : Machine} {fuel : Nat} {source : String} {place : Point} :
      Occurs fuel source machine place → Leads machine place.machine
  | supplied {machine : Machine} (name : String) (native : Native) :
      Leads machine ({ machine with store := (machine.store.makeNative native).2 }.defineGlobal
        name (machine.store.makeNative native).1)

/-- The second machine comes from the first by any number of uses. -/
abbrev Machine.LeadsTo : Machine → Machine → Prop := Relation.ReflTransGen Machine.Leads

theorem runSource_matures {fuel : Nat} {source : String} {machine later : Machine} {status : Status}
    (formed : machine.WellFormed) (ran : runSource fuel source machine = some (status, later)) :
    machine.Matures later := by
  cases runSource_ran ran with
  | unscanned _ sameRest | idle _ _ sameRest | refused _ _ sameRest =>
      exact .eqExceptJournal formed sameRest
  | @executed tokens begun ended _ fault _ _ _ sameRest ends sameRest' =>
      have first := Machine.Matures.eqExceptJournal formed sameRest
      have second := Machine.Matures.of_proceeds
        (((confinement _).executeEach fuel (fun _ _ => trivial) first.formed.fenced).grows
          ends.state?)
      exact (first.trans second).trans (.eqExceptJournal second.formed sameRest')

theorem Machine.Leads.matures {machine later : Machine} (leads : machine.Leads later)
    (formed : machine.WellFormed) : machine.Matures later := by
  cases leads with
  | evaluated left =>
      exact .of_proceeds (((confinement _).evaluate _ trivial formed.fenced).grows left)
  | executed left =>
      exact .of_proceeds (((confinement _).execute _ trivial formed.fenced).grows left)
  | ran ran => exact runSource_matures formed ran
  | @evaluating fuel expr _ reaches =>
      have start : Point.Formed ⟨fuel, .evaluate expr, machine, []⟩ :=
        ⟨formed.fenced, trivial, trivial⟩
      exact (start.reach reaches).2
  | @executing fuel stmt _ reaches =>
      have start : Point.Formed ⟨fuel, .execute stmt, machine, []⟩ :=
        ⟨formed.fenced, trivial, trivial⟩
      exact (start.reach reaches).2
  | running occurs =>
      obtain ⟨statements, begun, start, begins, starts, reaches⟩ := occurs
      have first := Machine.Matures.eqExceptJournal formed (begin?_scoped begins).2
      have second := starts.matures first.formed
      exact (first.trans second.2).trans (second.1.reach reaches).2
  | supplied name native =>
      have identified : machine.Proceeds (fun _ => True)
          { machine with store := (machine.store.makeNative native).2 } :=
        .of_same_frames formed.fenced rfl rfl rfl
      have within : Value.HeldIn (fun _ => True) (machine.store.makeNative native).1
          (machine.store.makeNative native).2 := .of_closures_eq_nil rfl
      have bound := identified.fenced.define ⟨formed.globals, trivial⟩ name within
      exact .of_proceeds (identified.trans bound)

theorem Machine.LeadsTo.matures {machine later : Machine} (leads : machine.LeadsTo later)
    (formed : machine.WellFormed) : machine.Matures later := by
  induction leads with
  | refl => exact .refl formed
  | tail _ use ih => exact ih.trans (use.matures ih.formed)

theorem Machine.new_wellFormed (sink : Sink) (readings : Readings) (journal : Journal) :
    (Machine.new sink readings journal).WellFormed := by
  have only : ∀ frame, frame < 1 → frame = 0 := by
    intro frame created
    omega
  refine ⟨Nat.zero_lt_one, Nat.zero_lt_one, rfl, ?_, ?_⟩
  · intro frame created apart
    exact absurd (only frame created) apart
  · intro frame name value found
    let bare : Store := ⟨#[⟨[], none⟩], 1⟩
    change (bare.define 0 Native.clock.name (.native 0 .clock)).local? frame name = _ at found
    rcases Store.local?_define_cases found with new | old
    · rw [new]
      exact .of_closures_eq_nil rfl
    · cases frame with
      | zero => cases old
      | succ frame => cases old

/-- However a machine has been used: the global frame has no parent and every other frame one that
is older; functions in stored values, also inside lists, close over frames that exist; every chain
leads to the global frame and ends there; and looking a name up along a chain gives the nearest
frame that binds it, if there is one.  Whatever it is used for later, the global frame remains the
same, frames keep their parents, and names stay bound. -/
theorem frames_stay_rooted {sink : Sink} {readings : Readings} {journal : Journal}
    {machine : Machine} (history : (Machine.new sink readings journal).LeadsTo machine) :
    (machine.store.parent? machine.globals = none ∧
      ∀ frame, frame < machine.store.frames.size → frame ≠ machine.globals →
        ∃ parent, machine.store.parent? frame = some parent ∧ parent < frame) ∧
    (∀ frame name value, machine.store.local? frame name = some value →
      ∀ closure, closure ∈ value.closures → closure.2 < machine.store.frames.size) ∧
    (∀ frame, frame < machine.store.frames.size →
      (∃ depth, machine.store.Climbs machine.globals frame depth) ∧
      ∀ name owner, machine.store.owner? frame name = some owner ↔
        machine.store.Nearest frame name owner) ∧
    ∀ later, machine.LeadsTo later → later.globals = machine.globals ∧
      (∀ frame, frame < machine.store.frames.size →
        frame < later.store.frames.size ∧
          later.store.parent? frame = machine.store.parent? frame) ∧
      ∀ frame name, machine.store.Binds frame name → later.store.Binds frame name := by
  have formed := (history.matures (Machine.new_wellFormed sink readings journal)).formed
  refine ⟨⟨formed.root, formed.older⟩, formed.values, ?_, ?_⟩
  · intro frame created
    exact ⟨formed.climbs created, fun name _ => formed.aged.owner?_eq_some_iff name⟩
  · intro later leads
    have matures := leads.matures formed
    refine ⟨matures.globals, ?_, matures.grown.binds⟩
    intro frame created
    exact ⟨Nat.lt_of_lt_of_le created matures.grown.size, matures.parent?_eq formed created⟩

/-- A text that keeps a function inside a list, and with it the frame of a call. -/
def keeping : String :=
  "fun f() \x7b var n; fun g() \x7b return n; \x7d return [g]; \x7d var kept = f();"

/-- A block that assigns a variable further out than there are frames. -/
def misplaced : Stmt :=
  .block [.expression (.assign ⟨.mark .identifier, "n", 1⟩ (.literal .nil) (some 5))]

/-- The text is run, and then the block fails in a frame of its own.  The function in the list
closes over the frame of the call, and the chain of the block leads to the global frame. -/
theorem frames_stay_rooted_misplaced :
    ∃ machine, (Machine.new ⟨"", none, false⟩ (fun _ => .ok 0) .silent).LeadsTo machine ∧
      machine.store.frames.size = 3 ∧
      (∃ value, machine.store.local? 0 "kept" = some value ∧ value.closures.map Prod.snd = [1] ∧
        1 < machine.store.frames.size) ∧
      ∃ depth, machine.store.Climbs machine.globals 2 depth := by
  have checked : (runSource 40 keeping (Machine.new ⟨"", none, false⟩ (fun _ => .ok 0) .silent)).any
      (fun ran => (execute 5 misplaced ran.2).failure?.any fun failed =>
        decide (failed.2.store.frames.size = 3 ∧
          (failed.2.store.local? 0 "kept").map (fun value => value.closures.map Prod.snd) =
            some [1])) = true := by
    decide +kernel
  obtain ⟨⟨status, later⟩, ran, fails⟩ := (Option.any_eq_true _ _).mp checked
  obtain ⟨⟨fault, last⟩, failed, holds⟩ := (Option.any_eq_true _ _).mp fails
  obtain ⟨size, kept⟩ := of_decide_eq_true holds
  obtain ⟨value, found, closures⟩ := Option.map_eq_some_iff.mp kept
  have left : (execute 5 misplaced later).state? = some last := by
    rw [Outcome.of_failure? failed]
    rfl
  have history : (Machine.new ⟨"", none, false⟩ (fun _ => .ok 0) .silent).LeadsTo last :=
    .head (.ran ran) (.single (.executed left))
  obtain ⟨_, closed, walks, _⟩ := frames_stay_rooted history
  have member : 1 ∈ value.closures.map Prod.snd := by
    rw [closures]
    exact List.mem_singleton.mpr rfl
  obtain ⟨closure, inside, same⟩ := List.mem_map.mp member
  have created := closed 0 "kept" value found closure inside
  rw [same] at created
  exact ⟨last, history, size, ⟨value, found, closures, created⟩,
    (walks 2 (by rw [size]; decide)).1⟩

end LexicalScript
