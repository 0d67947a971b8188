import LexicalScript.Proofs.ReferenceValues

/-!
A machine beside the reference.

A paired state is a machine, a state of the reference, and a placement that gives the names of local
frames their locations.  In a matching one the two hold the same: the global frame and the table of
globals agree name by name, and a placed name agrees with the cell at its location, where two
names never share a location.  Frames that grow after a function was made do not disturb it: the
function is linked to an environment through the names that were there when it was made.
-/

set_option autoImplicit false

namespace LexicalScript

open Reference (Datum Environment Location Place State)

/-- The locations of the names of local frames. -/
abbrev Placement := FrameId → String → Option Location

/-- The frames from a frame outwards hold the names of the scopes at the locations that the
environment gives them. -/
inductive Linked (places : Placement) (store : Store) (globals : FrameId) :
    FrameId → Scopes → Environment → Prop
  | top : Linked places store globals globals [] []
  | nest {frame parent : FrameId} {locals : Environment} {scopes : Scopes}
      {environment : Environment} : store.parent? frame = some parent →
      (∀ name location, (name, location) ∈ locals → places frame name = some location) →
      Linked places store globals parent scopes environment →
      Linked places store globals frame (locals.map Prod.fst :: scopes) (locals ++ environment)

namespace Linked

variable {places places' : Placement} {store later : Store} {globals frame : FrameId}
  {scopes : Scopes} {environment : Environment}

theorem mono (linked : Linked places store globals frame scopes environment)
    (kept : ∀ frame name location, places frame name = some location →
      places' frame name = some location)
    (parents : ∀ frame parent, store.parent? frame = some parent →
      later.parent? frame = some parent) :
    Linked places' later globals frame scopes environment := by
  induction linked with
  | top => exact .top
  | nest found placed _ ih =>
      refine .nest (parents _ _ found) ?_ ih
      intro name location member
      exact kept _ _ _ (placed name location member)

theorem lt_size (linked : Linked places store globals frame scopes environment)
    (rooted : globals < store.frames.size) : frame < store.frames.size := by
  cases linked with
  | top => exact rooted
  | nest found _ _ => exact Store.lt_size_of_parent? found

/-- The environment holds a name exactly if the scopes do, and its location is the one that the
frame at the name's distance gives it. -/
theorem locate_lookup (linked : Linked places store globals frame scopes environment)
    (name : String) :
    (scopes.locate name = none ∧ environment.lookup name = none) ∨
    ∃ hops owner location, scopes.locate name = some hops ∧
      environment.lookup name = some location ∧ store.ancestor? frame hops = some owner ∧
      places owner name = some location := by
  induction linked with
  | top => exact Or.inl ⟨rfl, rfl⟩
  | @nest frame parent locals scopes environment found placed _ ih =>
      unfold Scopes.locate
      rw [List.findIdx?_cons, List.lookup_append]
      cases own : locals.lookup name with
      | some location =>
          obtain ⟨before, after, split, _⟩ := List.lookup_eq_some_iff.mp own
          have member : (name, location) ∈ locals := by
            rw [split]
            exact List.mem_append_right before List.mem_cons_self
          have declared : (locals.map Prod.fst).contains name = true := by
            rw [List.contains_iff_mem]
            exact List.mem_map_of_mem member
          rw [if_pos declared]
          exact Or.inr ⟨0, frame, location, rfl, rfl, rfl, placed name location member⟩
      | none =>
          have undeclared : ¬(locals.map Prod.fst).contains name = true := by
            rw [List.contains_iff_mem]
            intro member
            obtain ⟨entry, inside, same⟩ := List.mem_map.mp member
            have different := List.lookup_eq_none_iff.mp own entry inside
            rw [same, bne_self_eq_false] at different
            cases different
          rw [if_neg undeclared, Option.none_or]
          rcases ih with ⟨absent, missing⟩ | ⟨hops, owner, location, located, held, reached, at'⟩
          · unfold Scopes.locate at absent
            rw [absent]
            exact Or.inl ⟨rfl, missing⟩
          · unfold Scopes.locate at located
            rw [located]
            refine Or.inr ⟨hops + 1, owner, location, rfl, held, ?_, at'⟩
            rw [Store.ancestor?, found]
            exact reached

theorem eq_globals (linked : Linked places store globals frame [] environment) :
    frame = globals := by
  cases linked
  rfl

/-- A scope of its own lies behind every frame but the global one. -/
theorem ne_globals {scope : List String}
    (linked : Linked places store globals frame (scope :: scopes) environment)
    (root : store.parent? globals = none) : frame ≠ globals := by
  cases linked with
  | nest found _ _ =>
      rintro rfl
      cases root.symm.trans found

/-- A name that the frame has come to hold may be added to scope and environment. -/
theorem declare {scope : List String} {name : String} {location : Location}
    (linked : Linked places store globals frame (scope :: scopes) environment)
    (kept : ∀ frame name location, places frame name = some location →
      places' frame name = some location)
    (placed : places' frame name = some location) :
    Linked places' store globals frame ((name :: scope) :: scopes)
      ((name, location) :: environment) := by
  cases linked with
  | @nest _ parent locals _ outer found inside linked =>
      have inside' : ∀ other second, (other, second) ∈ (name, location) :: locals →
          places' frame other = some second := by
        intro other second member
        rcases List.mem_cons.mp member with same | earlier
        · cases same
          exact placed
        · exact kept _ _ _ (inside other second earlier)
      exact Linked.nest found inside' (linked.mono kept fun _ _ found => found)

end Linked

/-! ### Paired states -/

/-- A machine and a state of the reference, with the locations of the machine's local names. -/
structure PairedState where
  places : Placement
  machine : Machine
  state : State

namespace PairedState

/-- The frame of a function is linked to the environment, under the scopes that its body was
resolved under. -/
def closing (pair : PairedState) : Closing := fun declaration closure environment =>
  ∃ scopes, Linked pair.places pair.machine.store pair.machine.globals closure scopes
      environment ∧ (parameterNames declaration.parameters).Nodup ∧
    Stmt.ScopedAll (parameterNames declaration.parameters :: scopes) declaration.body

theorem closing_mono (pair later : PairedState)
    (globals : later.machine.globals = pair.machine.globals)
    (parents : ∀ frame parent, pair.machine.store.parent? frame = some parent →
      later.machine.store.parent? frame = some parent)
    (kept : ∀ frame name location, pair.places frame name = some location →
      later.places frame name = some location)
    {declaration : Declaration} {closure : FrameId} {environment : Environment}
    (closed : pair.closing declaration closure environment) :
    later.closing declaration closure environment := by
  obtain ⟨scopes, linked, distinct, placed⟩ := closed
  refine ⟨scopes, ?_, distinct, placed⟩
  rw [globals]
  exact linked.mono kept parents

structure Matches (pair : PairedState) : Prop where
  fresh : pair.state.fresh = pair.machine.store.fresh
  sink : pair.state.sink = pair.machine.sink
  clock : pair.state.clock = pair.machine.clock
  rooted : pair.machine.globals < pair.machine.store.frames.size
  top : pair.machine.store.parent? pair.machine.globals = none
  table : ∀ name, CellsAgree pair.closing
    (pair.machine.store.local? pair.machine.globals name) (pair.state.globals.lookup name)
  cells : ∀ frame name location, pair.places frame name = some location →
    ∃ cell, pair.state.heap[location]? = some cell ∧
      CellsAgree pair.closing (pair.machine.store.local? frame name) cell
  inner : ∀ frame name location, pair.places frame name = some location →
    frame ≠ pair.machine.globals ∧ frame < pair.machine.store.frames.size
  apart : ∀ frame name frame' name' location, pair.places frame name = some location →
    pair.places frame' name' = some location → frame = frame' ∧ name = name'
  covered : ∀ frame name, frame ≠ pair.machine.globals → pair.places frame name = none →
    pair.machine.store.local? frame name = none

/-- What a run of both sides keeps.  Among the frames that existed before, only the active one gets
new names, and only the `fresh` ones. -/
structure Advances (pair : PairedState) (fresh : List String) (later : PairedState) : Prop where
  matched : later.Matches
  globals : later.machine.globals = pair.machine.globals
  active : later.machine.active = pair.machine.active
  parents : ∀ frame parent, pair.machine.store.parent? frame = some parent →
    later.machine.store.parent? frame = some parent
  size : pair.machine.store.frames.size ≤ later.machine.store.frames.size
  kept : ∀ frame name location, pair.places frame name = some location →
    later.places frame name = some location
  frugal : ∀ frame name location, frame < pair.machine.store.frames.size →
    later.places frame name = some location →
    pair.places frame name = some location ∨ (frame = pair.machine.active ∧ name ∈ fresh)

namespace Advances

variable {pair middle later : PairedState} {fresh : List String}

theorem refl (matched : pair.Matches) : pair.Advances fresh pair where
  matched := matched
  globals := rfl
  active := rfl
  parents _ _ found := found
  size := Nat.le_refl _
  kept _ _ _ placed := placed
  frugal _ _ _ _ placed := Or.inl placed

theorem trans (first : pair.Advances fresh middle) (second : middle.Advances fresh later) :
    pair.Advances fresh later where
  matched := second.matched
  globals := second.globals.trans first.globals
  active := second.active.trans first.active
  parents frame parent found := second.parents frame parent (first.parents frame parent found)
  size := Nat.le_trans first.size second.size
  kept frame name location placed :=
    second.kept frame name location (first.kept frame name location placed)
  frugal frame name location old placed := by
    rcases second.frugal frame name location (Nat.lt_of_lt_of_le old first.size) placed with
      earlier | new
    · exact first.frugal frame name location old earlier
    · rw [first.active] at new
      exact Or.inr new

theorem mono {other : List String} (advances : pair.Advances fresh later)
    (included : ∀ name, name ∈ fresh → name ∈ other) : pair.Advances other later where
  matched := advances.matched
  globals := advances.globals
  active := advances.active
  parents := advances.parents
  size := advances.size
  kept := advances.kept
  frugal frame name location old placed := by
    rcases advances.frugal frame name location old placed with earlier | new
    · exact Or.inl earlier
    · exact Or.inr ⟨new.1, included name new.2⟩

/-- Functions stay linked to their environments. -/
theorem linked (advances : pair.Advances fresh later) {frame : FrameId} {scopes : Scopes}
    {environment : Environment}
    (linked : Linked pair.places pair.machine.store pair.machine.globals frame scopes
      environment) :
    Linked later.places later.machine.store later.machine.globals frame scopes environment := by
  rw [advances.globals]
  exact linked.mono advances.kept advances.parents

theorem closing (advances : pair.Advances fresh later) {declaration : Declaration}
    {closure : FrameId} {environment : Environment}
    (closed : pair.closing declaration closure environment) :
    later.closing declaration closure environment :=
  closing_mono pair later advances.globals advances.parents advances.kept closed

theorem agrees (advances : pair.Advances fresh later) {value : Value} {datum : Datum}
    (agrees : value.Agrees pair.closing datum) : value.Agrees later.closing datum :=
  agrees.mono fun _ _ _ closed => advances.closing closed

theorem agreesAll (advances : pair.Advances fresh later) {values : List Value}
    {data : List Datum} (agrees : Value.AgreesAll pair.closing values data) :
    Value.AgreesAll later.closing values data :=
  agrees.mono fun _ _ _ closed => advances.closing closed

end Advances

/-! ### Changing both sides -/

namespace Matches

variable {pair : PairedState} {fresh : List String}

/-- Steps under the same placement.  Frames may be added, and the global frame and the placed names
may hold other values, as long as both sides go on agreeing. -/
theorem update (matched : pair.Matches) {machine : Machine} {state : State}
    (globals : machine.globals = pair.machine.globals)
    (active : machine.active = pair.machine.active)
    (size : pair.machine.store.frames.size ≤ machine.store.frames.size)
    (parents : ∀ frame, frame < pair.machine.store.frames.size →
      machine.store.parent? frame = pair.machine.store.parent? frame)
    (fresh' : state.fresh = machine.store.fresh) (sink : state.sink = machine.sink)
    (clock : state.clock = machine.clock)
    (table : ∀ name, CellsAgree pair.closing
      (machine.store.local? pair.machine.globals name) (state.globals.lookup name))
    (cells : ∀ frame name location, pair.places frame name = some location →
      ∃ cell, state.heap[location]? = some cell ∧
        CellsAgree pair.closing (machine.store.local? frame name) cell)
    (covered : ∀ frame name, frame ≠ pair.machine.globals → pair.places frame name = none →
      machine.store.local? frame name = none) :
    pair.Advances fresh ⟨pair.places, machine, state⟩ := by
  have parents' : ∀ frame parent, pair.machine.store.parent? frame = some parent →
      machine.store.parent? frame = some parent := by
    intro frame parent found
    rw [parents frame (Store.lt_size_of_parent? found)]
    exact found
  have weaker : ∀ declaration closure environment,
      pair.closing declaration closure environment →
        closing ⟨pair.places, machine, state⟩ declaration closure environment :=
    fun _ _ _ closed => closing_mono pair ⟨pair.places, machine, state⟩ globals parents'
      (fun _ _ _ placed => placed) closed
  have kept : Matches ⟨pair.places, machine, state⟩ := by
    refine ⟨fresh', sink, clock, ?_, ?_, ?_, ?_, ?_, matched.apart, ?_⟩
    · rw [globals]
      exact Nat.lt_of_lt_of_le matched.rooted size
    · rw [globals, parents _ matched.rooted]
      exact matched.top
    · intro name
      rw [globals]
      exact (table name).mono weaker
    · intro frame name location placed
      obtain ⟨cell, held, agrees⟩ := cells frame name location placed
      exact ⟨cell, held, agrees.mono weaker⟩
    · intro frame name location placed
      obtain ⟨outside, created⟩ := matched.inner frame name location placed
      rw [globals]
      exact ⟨outside, Nat.lt_of_lt_of_le created size⟩
    · rw [globals]
      exact covered
  exact ⟨kept, globals, active, parents', size, fun _ _ _ placed => placed,
    fun _ _ _ _ placed => Or.inl placed⟩

/-- Steps that touch neither frames nor cells. -/
theorem rest (matched : pair.Matches) {machine : Machine} {state : State}
    (globals : machine.globals = pair.machine.globals)
    (active : machine.active = pair.machine.active)
    (frames : machine.store.frames = pair.machine.store.frames)
    (heap : state.heap = pair.state.heap) (table : state.globals = pair.state.globals)
    (fresh' : state.fresh = machine.store.fresh) (sink : state.sink = machine.sink)
    (clock : state.clock = machine.clock) :
    pair.Advances fresh ⟨pair.places, machine, state⟩ := by
  have local? : machine.store.local? = pair.machine.store.local? := by
    unfold Store.local?
    rw [frames]
  have parent? : machine.store.parent? = pair.machine.store.parent? := by
    unfold Store.parent?
    rw [frames]
  refine matched.update globals active (Nat.le_of_eq (congrArg Array.size frames.symm))
    (fun _ _ => by rw [parent?]) fresh' sink clock ?_ ?_ ?_
  · rw [local?, table]
    exact matched.table
  · rw [local?, heap]
    exact matched.cells
  · rw [local?]
    exact matched.covered

end Matches

/-- Stores in a name of a local frame, and in its cell. -/
def storeLocal (pair : PairedState) (owner : FrameId) (name : String) (location : Location)
    (value : Value) (datum : Datum) : PairedState where
  places := pair.places
  machine := { pair.machine with store := pair.machine.store.define owner name value }
  state := { pair.state with heap := pair.state.heap.set location (some datum) }

/-- Stores in a global on both sides. -/
def storeGlobal (pair : PairedState) (name : String) (value : Value) (datum : Datum) :
    PairedState where
  places := pair.places
  machine := pair.machine.defineGlobal name value
  state := { pair.state with globals := (name, datum) :: pair.state.globals }

/-- Gives a name of a local frame an empty cell. -/
def place (pair : PairedState) (frame : FrameId) (name : String) : PairedState where
  places := fun other second =>
    if other = frame ∧ second = name then some pair.state.heap.length
    else pair.places other second
  machine := pair.machine
  state := { pair.state with heap := pair.state.heap ++ [none] }

/-- Makes a frame, of which the reference knows nothing. -/
def extend (pair : PairedState) (parent : FrameId) : PairedState where
  places := pair.places
  machine := { pair.machine with store := (pair.machine.store.create (some parent)).2 }
  state := pair.state

namespace Matches

variable {pair : PairedState} {fresh : List String}

theorem storeLocal (matched : pair.Matches) {owner : FrameId} {name : String}
    {location : Location} {value : Value} {datum : Datum}
    (placed : pair.places owner name = some location)
    (agrees : value.Agrees pair.closing datum) :
    pair.Advances fresh (pair.storeLocal owner name location value datum) := by
  obtain ⟨notGlobal, created⟩ := matched.inner owner name location placed
  obtain ⟨old, held, _⟩ := matched.cells owner name location placed
  have bound : location < pair.state.heap.length := (List.getElem?_eq_some_iff.mp held).1
  refine matched.update rfl rfl (Nat.le_of_eq (Store.size_define _ _ _ _).symm)
    (fun _ _ => Store.parent?_define _ _ _ _ _) matched.fresh matched.sink matched.clock ?_ ?_ ?_
  · intro other
    rw [Store.local?_define_of_ne _ (Or.inl notGlobal.symm)]
    exact matched.table other
  · intro frame other second secondPlaced
    by_cases same : frame = owner ∧ other = name
    · obtain ⟨rfl, rfl⟩ := same
      cases placed.symm.trans secondPlaced
      rw [List.getElem?_set_self bound, Store.local?_define_self _ created]
      exact ⟨_, rfl, .full agrees⟩
    · have elsewhere : location ≠ second := by
        intro shared
        subst shared
        exact same (matched.apart frame other owner name location secondPlaced placed)
      have different : frame ≠ owner ∨ other ≠ name := Decidable.not_and_iff_or_not.mp same
      rw [List.getElem?_set_ne elsewhere, Store.local?_define_of_ne _ different]
      exact matched.cells frame other second secondPlaced
  · intro frame other outside absent
    have different : frame ≠ owner ∨ other ≠ name := by
      apply Decidable.not_and_iff_or_not.mp
      rintro ⟨rfl, rfl⟩
      cases placed.symm.trans absent
    rw [Store.local?_define_of_ne _ different]
    exact matched.covered frame other outside absent

theorem storeGlobal (matched : pair.Matches) (name : String) {value : Value} {datum : Datum}
    (agrees : value.Agrees pair.closing datum) :
    pair.Advances fresh (pair.storeGlobal name value datum) := by
  refine matched.update rfl rfl (Nat.le_of_eq (Store.size_define _ _ _ _).symm)
    (fun _ _ => Store.parent?_define _ _ _ _ _) matched.fresh matched.sink matched.clock ?_ ?_ ?_
  · intro other
    change CellsAgree _ ((pair.machine.store.define pair.machine.globals name value).local?
      pair.machine.globals other) _
    by_cases same : other = name
    · subst same
      rw [Store.local?_define_self _ matched.rooted, List.lookup_cons_self]
      exact .full agrees
    · rw [Store.local?_define_of_ne _ (Or.inr same), List.lookup_cons, beq_false_of_ne same]
      exact matched.table other
  · intro frame other location placed
    obtain ⟨cell, held, cellAgrees⟩ := matched.cells frame other location placed
    refine ⟨cell, held, ?_⟩
    change CellsAgree _
      ((pair.machine.store.define pair.machine.globals name value).local? frame other) cell
    rw [Store.local?_define_of_ne _ (Or.inl (matched.inner frame other location placed).1)]
    exact cellAgrees
  · intro frame other outside absent
    change (pair.machine.store.define pair.machine.globals name value).local? frame other = none
    rw [Store.local?_define_of_ne _ (Or.inl outside)]
    exact matched.covered frame other outside absent

theorem place (matched : pair.Matches) {name : String}
    (inside : pair.machine.active ≠ pair.machine.globals)
    (created : pair.machine.active < pair.machine.store.frames.size)
    (absent : pair.places pair.machine.active name = none) (declared : name ∈ fresh) :
    pair.Advances fresh (pair.place pair.machine.active name) := by
  have still : ∀ frame other location, pair.places frame other = some location →
      (pair.place pair.machine.active name).places frame other = some location := by
    intro frame other location placed
    have different : ¬(frame = pair.machine.active ∧ other = name) := by
      rintro ⟨rfl, rfl⟩
      cases absent.symm.trans placed
    exact (if_neg different).trans placed
  have below : ∀ frame other location, pair.places frame other = some location →
      location < pair.state.heap.length := by
    intro frame other location placed
    obtain ⟨cell, held, _⟩ := matched.cells frame other location placed
    exact (List.getElem?_eq_some_iff.mp held).1
  -- A placed name is an old one at its old location, or the new one at the end of the heap.
  have split : ∀ frame other location,
      (pair.place pair.machine.active name).places frame other = some location →
      (frame = pair.machine.active ∧ other = name ∧ location = pair.state.heap.length) ∨
        pair.places frame other = some location := by
    intro frame other location placed
    change (if frame = pair.machine.active ∧ other = name then some pair.state.heap.length
      else pair.places frame other) = some location at placed
    split at placed
    · rename_i same
      exact Or.inl ⟨same.1, same.2, (Option.some.inj placed).symm⟩
    · exact Or.inr placed
  have weaker : ∀ declaration closure environment,
      pair.closing declaration closure environment →
        (pair.place pair.machine.active name).closing declaration closure environment :=
    fun _ _ _ closed => closing_mono pair (pair.place pair.machine.active name) rfl
      (fun _ _ found => found) still closed
  have kept : (pair.place pair.machine.active name).Matches := by
    refine ⟨matched.fresh, matched.sink, matched.clock, matched.rooted, matched.top, ?_, ?_, ?_, ?_,
      ?_⟩
    · exact fun other => (matched.table other).mono weaker
    · intro frame other location placed
      change ∃ cell, (pair.state.heap ++ [none])[location]? = some cell ∧
        CellsAgree _ (pair.machine.store.local? frame other) cell
      rcases split frame other location placed with ⟨rfl, rfl, rfl⟩ | old
      · rw [List.getElem?_concat_length, matched.covered _ _ inside absent]
        exact ⟨none, rfl, .empty⟩
      · obtain ⟨cell, held, agree⟩ := matched.cells frame other location old
        rw [List.getElem?_append_left (below frame other location old)]
        exact ⟨cell, held, agree.mono weaker⟩
    · intro frame other location placed
      rcases split frame other location placed with ⟨rfl, rfl, _⟩ | old
      · exact ⟨inside, created⟩
      · exact matched.inner frame other location old
    · intro frame other frame' other' location placed placed'
      rcases split frame other location placed with ⟨rfl, rfl, last⟩ | old
      · rcases split frame' other' location placed' with ⟨rfl, rfl, _⟩ | old'
        · exact ⟨rfl, rfl⟩
        · exact absurd last (Nat.ne_of_lt (below frame' other' location old'))
      · rcases split frame' other' location placed' with ⟨rfl, rfl, last⟩ | old'
        · exact absurd last (Nat.ne_of_lt (below frame other location old))
        · exact matched.apart frame other frame' other' location old old'
    · intro frame other outside unplaced
      refine matched.covered frame other outside ?_
      cases placed : pair.places frame other with
      | none => rfl
      | some location => cases (still frame other location placed).symm.trans unplaced
  refine ⟨kept, rfl, rfl, fun _ _ found => found, Nat.le_refl _, still, ?_⟩
  intro frame other location _ placed
  rcases split frame other location placed with ⟨rfl, rfl, _⟩ | old
  · exact Or.inr ⟨rfl, declared⟩
  · exact Or.inl old

theorem extend (matched : pair.Matches) (parent : FrameId) :
    pair.Advances fresh (pair.extend parent) := by
  have parents : ∀ frame, frame < pair.machine.store.frames.size →
      (pair.machine.store.create (some parent)).2.parent? frame =
        pair.machine.store.parent? frame := by
    intro frame old
    rw [Store.parent?_create, if_neg (Nat.ne_of_lt old)]
  have same : (pair.machine.store.create (some parent)).2.local? =
      pair.machine.store.local? := by
    funext frame name
    exact Store.local?_create _ _ _ _
  refine matched.update rfl rfl (pair.machine.store.extends_create (some parent)).size parents
    matched.fresh matched.sink matched.clock ?_ ?_ ?_
  · rw [same]
    exact matched.table
  · rw [same]
    exact matched.cells
  · rw [same]
    exact matched.covered

end Matches

end PairedState

end LexicalScript
