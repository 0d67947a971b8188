import LexicalScript.Proofs.RunRules
import LexicalScript.Proofs.ScopedRuns

/-!
The heap of frames under arbitrary code.

A heap is well formed when the global frame is its only root, every other frame is younger than its
parent, and every function in a stored value closes over a frame that exists.  A region is a set of
frames that cannot be left: with a frame it holds the parent and whatever the functions in that
frame close over.  Whatever tree is run on a well-formed machine, with whatever depths, and however
the run ends, the heap stays well formed, parents and bound names stay, and only frames of the
region of the active and the global frame change.
-/

set_option autoImplicit false

namespace LexicalScript

/-! ### Values and regions -/

/-- Every function in the value closes over a frame of the region. -/
def Value.Within (region : FrameId → Prop) (value : Value) : Prop :=
  ∀ closure, closure ∈ value.closures → region closure.2

/-- Every value of the list is within the region. -/
def Value.AllWithin (region : FrameId → Prop) (values : List Value) : Prop :=
  ∀ value, value ∈ values → value.Within region

namespace Value.Within

variable {region other : FrameId → Prop}

theorem mono {value : Value} (included : ∀ frame, region frame → other frame)
    (within : value.Within region) : value.Within other :=
  fun closure member => included closure.2 (within closure member)

theorem of_closures_eq_nil {value : Value} (none : value.closures = []) :
    value.Within region := by
  intro closure member
  rw [none] at member
  cases member

theorem of_list {identity : Identity} {elements : List Value}
    (within : Value.AllWithin region elements) :
    (Value.list identity elements).Within region := by
  intro closure member
  obtain ⟨value, element, inside⟩ := Value.mem_closuresAll.mp member
  exact within value element closure inside

theorem element {identity : Identity} {elements : List Value} {value : Value}
    (within : (Value.list identity elements).Within region) (member : value ∈ elements) :
    value.Within region :=
  fun closure inside => within closure (Value.mem_closuresAll.mpr ⟨value, member, inside⟩)

theorem of_callable {value : Value} {declaration : Declaration} {closure : FrameId}
    (within : value.Within region)
    (found : value.callable? = some (.function declaration closure)) : region closure := by
  cases value with
  | function identity declaration' closure' =>
      cases found
      exact within _ (List.mem_singleton.mpr rfl)
  | _ => cases found

end Value.Within

theorem Value.AllWithin.mono {region other : FrameId → Prop} {values : List Value}
    (included : ∀ frame, region frame → other frame) (within : Value.AllWithin region values) :
    Value.AllWithin other values :=
  fun value member => (within value member).mono included

/-! ### Well-formed heaps -/

/-- The global frame is the only root, every other frame is younger than its parent, and functions
in stored values close over frames that exist. -/
structure Machine.WellFormed (machine : Machine) : Prop where
  active : machine.active < machine.store.frames.size
  globals : machine.globals < machine.store.frames.size
  root : machine.store.parent? machine.globals = none
  older : ∀ frame, frame < machine.store.frames.size → frame ≠ machine.globals →
    ∃ parent, machine.store.parent? frame = some parent ∧ parent < frame
  values : ∀ frame name value, machine.store.local? frame name = some value →
    value.Within (· < machine.store.frames.size)

namespace Machine.WellFormed

variable {machine : Machine}

theorem parent_lt (formed : machine.WellFormed) {frame parent : FrameId}
    (found : machine.store.parent? frame = some parent) : parent < frame := by
  have apart : frame ≠ machine.globals := by
    intro same
    rw [same, formed.root] at found
    cases found
  obtain ⟨other, found', older⟩ := formed.older frame (Store.lt_size_of_parent? found) apart
  rw [Option.some.inj (found.symm.trans found')]
  exact older

theorem define (formed : machine.WellFormed) (owner : FrameId) (name : String) {value : Value}
    (within : value.Within (· < machine.store.frames.size)) :
    { machine with store := machine.store.define owner name value }.WellFormed where
  active := by
    dsimp only
    rw [Store.size_define]
    exact formed.active
  globals := by
    dsimp only
    rw [Store.size_define]
    exact formed.globals
  root := by
    dsimp only
    rw [Store.parent?_define]
    exact formed.root
  older frame younger apart := by
    dsimp only at younger apart ⊢
    rw [Store.size_define] at younger
    rw [Store.parent?_define]
    exact formed.older frame younger apart
  values frame other stored found := by
    dsimp only
    rw [Store.size_define]
    rcases Store.local?_define_cases found with new | old
    · rw [new]
      exact within
    · exact formed.values frame other stored old

theorem create (formed : machine.WellFormed) {parent : FrameId}
    (created : parent < machine.store.frames.size) :
    { machine with store := (machine.store.create (some parent)).2 }.WellFormed where
  active := Nat.lt_of_lt_of_le formed.active (machine.store.extends_create (some parent)).size
  globals := Nat.lt_of_lt_of_le formed.globals (machine.store.extends_create (some parent)).size
  root := by
    dsimp only
    rw [Store.parent?_create, if_neg (Nat.ne_of_lt formed.globals)]
    exact formed.root
  older frame younger apart := by
    dsimp only at younger apart ⊢
    rw [Store.size_create] at younger
    rw [Store.parent?_create]
    by_cases new : frame = machine.store.frames.size
    · rw [if_pos new]
      exact ⟨parent, rfl, new ▸ created⟩
    · rw [if_neg new]
      exact formed.older frame (by omega) apart
  values frame name value found := by
    dsimp only at found ⊢
    rw [Store.local?_create] at found
    have within := formed.values frame name value found
    have grown := machine.store.extends_create (some parent)
    exact within.mono fun _ earlier => Nat.lt_of_lt_of_le earlier grown.size

end Machine.WellFormed

/-- A well-formed machine whose active and global frame lie in the region, which cannot be left.
Frames that do not exist yet belong to every region. -/
structure Machine.Fenced (machine : Machine) (region : FrameId → Prop) : Prop where
  formed : machine.WellFormed
  active : region machine.active
  globals : region machine.globals
  parents : ∀ frame parent, region frame → machine.store.parent? frame = some parent →
    region parent
  values : ∀ frame name value, region frame → machine.store.local? frame name = some value →
    value.Within region
  unborn : ∀ frame, machine.store.frames.size ≤ frame → region frame

/-- The frame exists and lies in the region. -/
def Store.Holds (store : Store) (region : FrameId → Prop) (frame : FrameId) : Prop :=
  frame < store.frames.size ∧ region frame

/-- The run from the first machine to the second left everything outside the region alone, and kept
parents and bound names everywhere. -/
structure Machine.Proceeds (machine : Machine) (region : FrameId → Prop) (later : Machine) :
    Prop where
  fenced : later.Fenced region
  globals : later.globals = machine.globals
  active : later.active = machine.active
  grown : machine.store.Extends later.store
  untouched : ∀ frame, ¬ region frame →
    later.store.frames[frame]? = machine.store.frames[frame]?

theorem Store.Extends.holds {store later : Store} (grown : store.Extends later)
    {region : FrameId → Prop} (frame : FrameId) (held : store.Holds region frame) :
    later.Holds region frame :=
  ⟨Nat.lt_of_lt_of_le held.1 grown.size, held.2⟩

namespace Machine.Proceeds

variable {machine middle later : Machine} {region : FrameId → Prop}

theorem refl (fenced : machine.Fenced region) : machine.Proceeds region machine where
  fenced := fenced
  globals := rfl
  active := rfl
  grown := .refl _
  untouched _ _ := rfl

theorem trans (first : machine.Proceeds region middle) (second : middle.Proceeds region later) :
    machine.Proceeds region later where
  fenced := second.fenced
  globals := second.globals.trans first.globals
  active := second.active.trans first.active
  grown := first.grown.trans second.grown
  untouched frame outside :=
    (second.untouched frame outside).trans (first.untouched frame outside)

theorem of_same_frames (fenced : machine.Fenced region)
    (globals : later.globals = machine.globals) (active : later.active = machine.active)
    (frames : later.store.frames = machine.store.frames) : machine.Proceeds region later := by
  obtain ⟨⟨frames', fresh'⟩, globals', active', sink', clock', journal'⟩ := later
  cases globals
  cases active
  cases frames
  obtain ⟨formed, insideActive, insideGlobals, parents, values, unborn⟩ := fenced
  exact {
    fenced := ⟨⟨formed.active, formed.globals, formed.root, formed.older, formed.values⟩,
      insideActive, insideGlobals, parents, values, unborn⟩
    globals := rfl
    active := rfl
    grown := ⟨fun _ _ found => found, fun _ _ bound => bound, Nat.le_refl _⟩
    untouched := fun _ _ => rfl }

end Machine.Proceeds

namespace Machine.Fenced

variable {machine : Machine} {region : FrameId → Prop}

theorem holds_active (fenced : machine.Fenced region) :
    machine.store.Holds region machine.active :=
  ⟨fenced.formed.active, fenced.active⟩

theorem stored (fenced : machine.Fenced region) {frame : FrameId} (inside : region frame)
    {name : String} {value : Value} (found : machine.store.local? frame name = some value) :
    value.Within (machine.store.Holds region) :=
  fun closure member => ⟨fenced.formed.values frame name value found closure member,
    fenced.values frame name value inside found closure member⟩

/-- Going out from a frame of the region, one stays in it. -/
theorem ancestor (fenced : machine.Fenced region) {frame owner : FrameId} {hops : Nat}
    (held : machine.store.Holds region frame)
    (reached : machine.store.ancestor? frame hops = some owner) :
    machine.store.Holds region owner := by
  induction hops generalizing frame with
  | zero =>
      cases reached
      exact held
  | succ hops ih =>
      rw [Store.ancestor?] at reached
      cases found : machine.store.parent? frame with
      | none =>
          rw [found] at reached
          cases reached
      | some parent =>
          rw [found] at reached
          have earlier := fenced.formed.parent_lt found
          have inside : region parent := fenced.parents frame parent held.2 found
          exact ih ⟨Nat.lt_trans earlier held.1, inside⟩ reached

theorem target (fenced : machine.Fenced region) {name : Token} {depth : Option Nat}
    {owner : FrameId} (reached : Exec.target? machine name depth = some owner) :
    machine.store.Holds region owner := by
  cases depth with
  | some hops => exact fenced.ancestor fenced.holds_active reached
  | none =>
      have own : machine.store.owner? machine.globals name.lexeme = some owner := reached
      rw [Store.owner?_of_root fenced.formed.root] at own
      obtain ⟨_, _, same⟩ := Option.map_eq_some_iff.mp own
      subst same
      exact ⟨fenced.formed.globals, fenced.globals⟩

theorem define (fenced : machine.Fenced region) {owner : FrameId} {value : Value}
    (held : machine.store.Holds region owner) (name : String)
    (within : value.Within (machine.store.Holds region)) :
    machine.Proceeds region
      { machine with store := machine.store.define owner name value } := by
  have formed := fenced.formed.define owner name (within.mono fun _ inside => inside.1)
  refine ⟨⟨formed, fenced.active, fenced.globals, ?parents, ?values, ?unborn⟩, rfl, rfl,
    machine.store.extends_define held.1 name value, ?untouched⟩
  case parents =>
    dsimp only
    intro frame parent inside found
    rw [Store.parent?_define] at found
    exact fenced.parents frame parent inside found
  case values =>
    intro frame other stored inside found
    rcases Store.local?_define_cases found with new | old
    · rw [new]
      exact within.mono fun _ inside => inside.2
    · exact fenced.values frame other stored inside old
  case unborn =>
    dsimp only
    intro frame later
    rw [Store.size_define] at later
    exact fenced.unborn frame later
  case untouched =>
    intro frame outside
    have different : owner ≠ frame := fun same => outside (same ▸ held.2)
    dsimp only [Store.define]
    rw [Array.getElem?_modify, if_neg different]

theorem create (fenced : machine.Fenced region) {parent : FrameId}
    (held : machine.store.Holds region parent) :
    machine.Proceeds region
      { machine with store := (machine.store.create (some parent)).2 } := by
  refine ⟨⟨fenced.formed.create held.1, fenced.active, fenced.globals, ?parents, ?values, ?unborn⟩,
    rfl, rfl, machine.store.extends_create (some parent), ?untouched⟩
  case parents =>
    dsimp only
    intro frame other inside found
    rw [Store.parent?_create] at found
    by_cases new : frame = machine.store.frames.size
    · rw [if_pos new] at found
      cases found
      exact held.2
    · rw [if_neg new] at found
      exact fenced.parents frame other inside found
  case values =>
    dsimp only
    intro frame name value inside found
    rw [Store.local?_create] at found
    exact fenced.values frame name value inside found
  case unborn =>
    dsimp only
    intro frame later
    rw [Store.size_create] at later
    exact fenced.unborn frame (Nat.le_of_succ_le later)
  case untouched =>
    intro frame outside
    have old : frame < machine.store.frames.size := by
      apply Nat.lt_of_not_le
      intro new
      exact outside (fenced.unborn frame new)
    dsimp only [Store.create]
    rw [Array.getElem?_push, if_neg (Nat.ne_of_lt old)]

theorem enter (fenced : machine.Fenced region) {frame : FrameId}
    (held : machine.store.Holds region frame) :
    { machine with active := frame }.Fenced region where
  formed :=
    ⟨held.1, fenced.formed.globals, fenced.formed.root, fenced.formed.older, fenced.formed.values⟩
  active := held.2
  globals := fenced.globals
  parents := fenced.parents
  values := fenced.values
  unborn := fenced.unborn

theorem bindArguments (fenced : machine.Fenced region) {frame : FrameId}
    (held : machine.store.Holds region frame) (parameters : List Token) {arguments : List Value}
    (within : Value.AllWithin (machine.store.Holds region) arguments) :
    machine.Proceeds region
      { machine with store := machine.store.bindArguments frame parameters arguments } := by
  induction parameters generalizing machine arguments with
  | nil => exact .refl fenced
  | cons parameter rest ih =>
      cases arguments with
      | nil => exact .refl fenced
      | cons argument others =>
          have first := fenced.define held parameter.lexeme (within argument List.mem_cons_self)
          have remaining : Value.AllWithin (machine.store.Holds region) others :=
            fun value member => within value (List.mem_cons_of_mem _ member)
          exact first.trans (ih first.fenced (first.grown.holds frame held)
            (remaining.mono first.grown.holds))

end Machine.Fenced

/-- What happens with another frame active is seen from outside with the old one active again. -/
theorem Machine.Proceeds.leave {machine created later : Machine} {region : FrameId → Prop}
    {frame : FrameId} (first : machine.Proceeds region created)
    (inside : { created with active := frame }.Proceeds region later) :
    machine.Proceeds region { later with active := machine.active } where
  fenced := by
    have started := first.fenced.holds_active
    rw [first.active] at started
    exact inside.fenced.enter (inside.grown.holds _ started)
  globals := inside.globals.trans first.globals
  active := rfl
  grown := first.grown.trans inside.grown
  untouched other outside := (inside.untouched other outside).trans (first.untouched other outside)

/-- The value is within the part of the region that exists. -/
abbrev Value.HeldIn (region : FrameId → Prop) (value : Value) (store : Store) : Prop :=
  value.Within (store.Holds region)

abbrev Value.AllHeldIn (region : FrameId → Prop) (values : List Value) (store : Store) : Prop :=
  Value.AllWithin (store.Holds region) values

/-! ### Frames of blocks and calls -/

namespace Machine.Fenced

variable {machine : Machine} {region : FrameId → Prop}

theorem holds_new (fenced : machine.Fenced region) (parent : FrameId) :
    (machine.store.create (some parent)).2.Holds region machine.store.frames.size := by
  refine ⟨?_, fenced.unborn _ (Nat.le_refl _)⟩
  rw [Store.size_create]
  exact Nat.lt_succ_self _

theorem enterBlock (fenced : machine.Fenced region) : machine.enterBlock.Fenced region :=
  (fenced.create fenced.holds_active).fenced.enter (fenced.holds_new machine.active)

theorem prepare (fenced : machine.Fenced region) {closure : FrameId}
    (held : machine.store.Holds region closure) (parameters : List Token) {arguments : List Value}
    (within : Value.AllHeldIn region arguments machine.store) :
    machine.Proceeds region
      { machine with
        store := (machine.store.create (some closure)).2.bindArguments machine.store.frames.size
          parameters arguments } := by
  have created := fenced.create held
  have bound := created.fenced.bindArguments (fenced.holds_new closure) parameters
    (within.mono created.grown.holds)
  exact created.trans bound

theorem enterCall (fenced : machine.Fenced region) {closure : FrameId}
    (held : machine.store.Holds region closure) (declaration : Declaration)
    {arguments : List Value} (within : Value.AllHeldIn region arguments machine.store) :
    (machine.enterCall declaration closure arguments).Fenced region := by
  have created := fenced.create held
  have new := fenced.holds_new closure
  have bound := created.fenced.bindArguments new declaration.parameters
    (within.mono created.grown.holds)
  exact bound.fenced.enter (bound.grown.holds _ new)

end Machine.Fenced

/-! ### Rules -/

/-- The laws of runs that stay in a region. -/
def confinement (region : FrameId → Prop) : RunLaws where
  fit machine := machine.Fenced region
  grows machine later := machine.Proceeds region later
  passes machine later := later.globals = machine.globals ∧ machine.store.Extends later.store
  value value machine := value.HeldIn region machine.store
  callable callable machine := ∀ declaration closure, callable = .function declaration closure →
    machine.store.Holds region closure
  expr _ := True
  stmt _ := True
  exprParts _ _ _ := trivial
  stmtExprs _ _ _ := trivial
  stmtParts _ _ _ := trivial
  refl := .refl
  trans := .trans
  kept := Machine.Proceeds.fenced
  passing proceeds := ⟨proceeds.globals, proceeds.grown⟩
  passingOn first second := ⟨second.1.trans first.1, first.2.trans second.2⟩
  quiet := .of_same_frames
  define name fenced within reached := by
    refine fenced.define ?_ name within
    rcases reached with rfl | ⟨token, depth, reached⟩
    · exact fenced.holds_active
    · exact fenced.target reached
  enterBlock fenced :=
    have created := fenced.create fenced.holds_active
    ⟨fenced.enterBlock, ⟨rfl, created.grown⟩, fun _ => created.leave⟩
  enterCall fenced held within :=
    have prepared := fenced.prepare (held _ _ rfl) _ within
    ⟨fenced.enterCall (held _ _ rfl) _ within, ⟨rfl, prepared.grown⟩, fun _ => prepared.leave⟩
  older proceeds := Value.Within.mono proceeds.grown.holds
  outside _ := id
  plain := by
    rintro machine value (plain | rfl)
    · exact .of_closures_eq_nil plain.closures_eq_nil
    · exact .of_closures_eq_nil rfl
  list _ := .of_list
  element := .element
  function := by
    intro machine name parameters body identity fenced _ closure member
    cases List.mem_singleton.mp member
    exact fenced.holds_active
  stored fenced reached := fenced.stored (fenced.target reached).2
  called within found declaration closure same :=
    within.of_callable (found.trans (congrArg some same))
  body _ _ _ := trivial

end LexicalScript
