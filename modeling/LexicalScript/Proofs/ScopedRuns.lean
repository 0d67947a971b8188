import LexicalScript.Proofs.RuleSteps

/-!
Runs of scoped code.

Code runs under the scopes it was resolved in: the active frame stands for them, every stored
function closes over a frame that stands for the scopes of its body, and a variable that is being
initialized is on record.  Each point of a run hands this to the points it enters, and what it
leaves has the frames of before.  In these it binds no names but those that it declares in the
active one and those that are being initialized.
-/

set_option autoImplicit false

namespace LexicalScript

/-! ### Functions inside values -/

mutual

/-- The functions in a value, also those inside lists, with the frames they close over. -/
def Value.closures : Value → List (Declaration × FrameId)
  | .list _ elements => Value.closuresAll elements
  | .function _ declaration closure => [(declaration, closure)]
  | _ => []

def Value.closuresAll : List Value → List (Declaration × FrameId)
  | [] => []
  | value :: rest => value.closures ++ Value.closuresAll rest

end

theorem Value.mem_closuresAll {values : List Value} {closure : Declaration × FrameId} :
    closure ∈ Value.closuresAll values ↔ ∃ value, value ∈ values ∧ closure ∈ value.closures := by
  induction values with
  | nil => simp [Value.closuresAll]
  | cons value rest ih => simp [Value.closuresAll, ih]

/-- The body of a function was resolved under scopes that its closure stands for. -/
def Rooted (store : Store) (globals : FrameId) (closure : Declaration × FrameId) : Prop :=
  ∃ scopes, Chain store globals closure.2 scopes ∧
    Stmt.ScopedAll (parameterNames closure.1.parameters :: scopes) closure.1.body

/-- Every function in the value is rooted. -/
def Value.Sound (store : Store) (globals : FrameId) (value : Value) : Prop :=
  ∀ closure, closure ∈ value.closures → Rooted store globals closure

theorem Rooted.mono {store later : Store} {globals : FrameId} {closure : Declaration × FrameId}
    (grown : store.Extends later) (rooted : Rooted store globals closure) :
    Rooted later globals closure := by
  obtain ⟨scopes, chain, placed⟩ := rooted
  exact ⟨scopes, chain.mono grown, placed⟩

namespace Value.Sound

variable {store later : Store} {globals : FrameId}

theorem mono {value : Value} (grown : store.Extends later) (sound : value.Sound store globals) :
    value.Sound later globals :=
  fun closure member => (sound closure member).mono grown

theorem of_closures_eq_nil {value : Value} (none : value.closures = []) :
    value.Sound store globals := by
  intro closure member
  rw [none] at member
  cases member

theorem of_list {identity : Identity} {elements : List Value}
    (sound : ∀ value, value ∈ elements → value.Sound store globals) :
    (Value.list identity elements).Sound store globals := by
  intro closure member
  obtain ⟨value, element, inside⟩ := Value.mem_closuresAll.mp member
  exact sound value element closure inside

theorem element {identity : Identity} {elements : List Value} {value : Value}
    (sound : (Value.list identity elements).Sound store globals) (member : value ∈ elements) :
    value.Sound store globals :=
  fun closure inside => sound closure (Value.mem_closuresAll.mpr ⟨value, member, inside⟩)

theorem of_callable {value : Value} {declaration : Declaration} {closure : FrameId}
    (sound : value.Sound store globals)
    (found : value.callable? = some (.function declaration closure)) :
    Rooted store globals (declaration, closure) := by
  cases value with
  | function identity declaration' closure' =>
      cases found
      exact sound _ (List.mem_singleton.mpr rfl)
  | _ => cases found

end Value.Sound

theorem Value.Plain.closures_eq_nil {value : Value} (plain : value.Plain) :
    value.closures = [] := by
  cases value with
  | bool | number | string => rfl
  | _ => cases plain

/-! ### New names in old frames -/

/-- In the frames that the machine has, only the given names are bound anew. -/
structure Machine.Spares (machine : Machine) (allowed : List (FrameId × String))
    (later : Machine) : Prop where
  size : machine.store.frames.size ≤ later.store.frames.size
  frugal : ∀ frame name, frame < machine.store.frames.size → later.store.Binds frame name →
    machine.store.Binds frame name ∨ (frame, name) ∈ allowed

namespace Machine.Spares

variable {machine middle later : Machine} {allowed : List (FrameId × String)}

theorem of_same_frames (same : later.store.frames = machine.store.frames) :
    machine.Spares allowed later := by
  refine ⟨Nat.le_of_eq (by rw [same]), fun frame name _ bound => Or.inl ?_⟩
  unfold Store.Binds Store.local? at bound ⊢
  rw [← same]
  exact bound

theorem trans (first : machine.Spares allowed middle) (second : middle.Spares allowed later) :
    machine.Spares allowed later := by
  refine ⟨Nat.le_trans first.size second.size, fun frame name created bound => ?_⟩
  rcases second.frugal frame name (Nat.lt_of_lt_of_le created first.size) bound with
    earlier | member
  · exact first.frugal frame name created earlier
  · exact Or.inr member

/-- Names that are allowed in frames made meanwhile do not matter. -/
theorem enclose {inner : List (FrameId × String)} (first : machine.Spares allowed middle)
    (second : middle.Spares inner later)
    (outer : ∀ frame name, (frame, name) ∈ inner → frame < machine.store.frames.size →
      (frame, name) ∈ allowed) : machine.Spares allowed later := by
  refine ⟨Nat.le_trans first.size second.size, fun frame name created bound => ?_⟩
  rcases second.frugal frame name (Nat.lt_of_lt_of_le created first.size) bound with
    earlier | member
  · exact first.frugal frame name created earlier
  · exact Or.inr (outer frame name member created)

theorem mono {more : List (FrameId × String)} (spares : machine.Spares allowed later)
    (included : ∀ listed, listed ∈ allowed → listed ∈ more) : machine.Spares more later := by
  refine ⟨spares.size, fun frame name created bound => ?_⟩
  rcases spares.frugal frame name created bound with earlier | member
  · exact Or.inl earlier
  · exact Or.inr (included _ member)

theorem define {owner : FrameId} {name : String} (created : owner < machine.store.frames.size)
    (permitted : machine.store.Binds owner name ∨ (owner, name) ∈ allowed) (value : Value) :
    machine.Spares allowed { machine with store := machine.store.define owner name value } := by
  refine ⟨(machine.store.extends_define created name value).size, fun frame other _ bound => ?_⟩
  rcases (Store.binds_define created name value frame other).mp bound with ⟨rfl, rfl⟩ | earlier
  · exact permitted
  · exact Or.inl earlier

end Machine.Spares

/-- All frames of the list exist. -/
def Machine.Covers (machine : Machine) (listed : List (FrameId × String)) : Prop :=
  ∀ frame name, (frame, name) ∈ listed → frame < machine.store.frames.size

theorem Machine.Spares.covers {machine later : Machine} {allowed : List (FrameId × String)}
    (spares : machine.Spares allowed later) {listed : List (FrameId × String)}
    (covers : machine.Covers listed) : later.Covers listed :=
  fun frame name member => Nat.lt_of_lt_of_le (covers frame name member) spares.size

/-! ### Sound machines -/

/-- The global and the active frame exist, the global one has no parent, and all stored values are
sound. -/
structure Machine.Sound (machine : Machine) : Prop where
  rooted : machine.globals < machine.store.frames.size
  present : machine.active < machine.store.frames.size
  top : machine.store.parent? machine.globals = none
  values : ∀ frame name value, machine.store.local? frame name = some value →
    value.Sound machine.store machine.globals

/-- What a run from the first machine to the second keeps. -/
structure Machine.Evolves (machine : Machine) (allowed : List (FrameId × String))
    (later : Machine) : Prop where
  sound : later.Sound
  globals : later.globals = machine.globals
  active : later.active = machine.active
  grown : machine.store.Extends later.store
  spares : machine.Spares allowed later

namespace Machine.Evolves

variable {machine middle later : Machine} {allowed : List (FrameId × String)}

theorem refl (sound : machine.Sound) : machine.Evolves allowed machine :=
  ⟨sound, rfl, rfl, .refl _, .of_same_frames rfl⟩

theorem trans (first : machine.Evolves allowed middle) (second : middle.Evolves allowed later) :
    machine.Evolves allowed later where
  sound := second.sound
  globals := second.globals.trans first.globals
  active := second.active.trans first.active
  grown := first.grown.trans second.grown
  spares := first.spares.trans second.spares

theorem of_same_frames (sound : machine.Sound) (globals : later.globals = machine.globals)
    (active : later.active = machine.active)
    (frames : later.store.frames = machine.store.frames) : machine.Evolves allowed later := by
  have local? : later.store.local? = machine.store.local? := by
    unfold Store.local?
    rw [frames]
  have parent? : later.store.parent? = machine.store.parent? := by
    unfold Store.parent?
    rw [frames]
  have grown : machine.store.Extends later.store := by
    refine ⟨?_, ?_, Nat.le_of_eq (by rw [frames])⟩
    · rw [parent?]
      exact fun _ _ found => found
    · unfold Store.Binds
      rw [local?]
      exact fun _ _ bound => bound
  refine ⟨⟨?_, ?_, ?_, ?_⟩, globals, active, grown, .of_same_frames frames⟩
  · rw [globals, frames]
    exact sound.rooted
  · rw [active, frames]
    exact sound.present
  · rw [parent?, globals]
    exact sound.top
  · rw [local?, globals]
    exact fun frame name value found => (sound.values frame name value found).mono grown

end Machine.Evolves

namespace Machine.Sound

variable {machine : Machine}

/-- A value may be bound where its name is bound already, or where it is allowed.  It need be sound
only with that binding in place, so a function may refer to itself. -/
theorem define (sound : machine.Sound) {owner : FrameId} {name : String} {value : Value}
    {allowed : List (FrameId × String)} (created : owner < machine.store.frames.size)
    (valueSound : value.Sound (machine.store.define owner name value) machine.globals)
    (permitted : machine.store.Binds owner name ∨ (owner, name) ∈ allowed) :
    machine.Evolves allowed { machine with store := machine.store.define owner name value } := by
  have grown := machine.store.extends_define created name value
  refine ⟨⟨?_, ?_, ?_, ?_⟩, rfl, rfl, grown, .define created permitted value⟩
  · exact Nat.lt_of_lt_of_le sound.rooted grown.size
  · exact Nat.lt_of_lt_of_le sound.present grown.size
  · change (machine.store.define owner name value).parent? machine.globals = none
    rw [Store.parent?_define]
    exact sound.top
  · intro frame other stored found
    change (machine.store.define owner name value).local? frame other = some stored at found
    by_cases same : frame = owner ∧ other = name
    · obtain ⟨rfl, rfl⟩ := same
      rw [Store.local?_define_self _ created] at found
      cases found
      exact valueSound
    · have different : frame ≠ owner ∨ other ≠ name := by
        by_cases sameFrame : frame = owner
        · exact Or.inr fun sameName => same ⟨sameFrame, sameName⟩
        · exact Or.inl sameFrame
      rw [Store.local?_define_of_ne _ different] at found
      exact (sound.values frame other stored found).mono grown

end Machine.Sound

/-! ### New frames -/

/-- The entered machine has a new frame active, and old frames bind what they bound. -/
structure Machine.Opens (machine entered : Machine) : Prop where
  sound : entered.Sound
  globals : entered.globals = machine.globals
  active : machine.store.frames.size ≤ entered.active
  grown : machine.store.Extends entered.store
  spares : machine.Spares [] entered

/-- What happens with a new frame active is seen from outside as the making of that frame. -/
theorem Machine.Opens.leave {machine entered later : Machine}
    {allowed inner : List (FrameId × String)} (opens : machine.Opens entered)
    (present : machine.active < machine.store.frames.size) (inside : entered.Evolves inner later)
    (outer : ∀ frame name, (frame, name) ∈ inner → frame < machine.store.frames.size →
      (frame, name) ∈ allowed) :
    machine.Evolves allowed { later with active := machine.active } where
  sound := ⟨inside.sound.rooted,
    Nat.lt_of_lt_of_le present (Nat.le_trans opens.grown.size inside.grown.size),
    inside.sound.top, inside.sound.values⟩
  globals := inside.globals.trans opens.globals
  active := rfl
  grown := opens.grown.trans inside.grown
  spares := by
    have left := (opens.spares.mono fun _ listed => nomatch listed).enclose inside.spares outer
    exact ⟨left.size, left.frugal⟩

theorem Machine.Sound.create {machine : Machine} (sound : machine.Sound) (parent : FrameId) :
    machine.Opens { machine with
      store := (machine.store.create (some parent)).2
      active := machine.store.frames.size } := by
  have grown := machine.store.extends_create (some parent)
  refine ⟨⟨Nat.lt_of_lt_of_le sound.rooted grown.size, ?_, ?_, ?_⟩, rfl, Nat.le_refl _, grown,
    grown.size, ?_⟩
  · exact Nat.lt_of_lt_of_eq (Nat.lt_succ_self _) (Store.size_create _ _).symm
  · change (machine.store.create (some parent)).2.parent? machine.globals = none
    rw [Store.parent?_create, if_neg (Nat.ne_of_lt sound.rooted)]
    exact sound.top
  · intro frame name value found
    change (machine.store.create (some parent)).2.local? frame name = some value at found
    rw [Store.local?_create] at found
    exact (sound.values frame name value found).mono grown
  · intro frame name _ bound
    unfold Store.Binds at bound ⊢
    rw [Store.local?_create] at bound
    exact Or.inl bound

/-- A new frame inside the innermost of a chain lengthens the chain by an empty scope. -/
theorem Chain.create {store : Store} {globals parent : FrameId} {scopes : Scopes}
    (chain : Chain store globals parent scopes) :
    Chain (store.create (some parent)).2 globals store.frames.size ([] :: scopes) := by
  have found : (store.create (some parent)).2.parent? store.frames.size = some parent := by
    rw [Store.parent?_create, if_pos rfl]
  refine .nest found ?_ (chain.mono (store.extends_create (some parent)))
  intro name member
  cases member

theorem Machine.Sound.bindArguments {entered : Machine} (sound : entered.Sound)
    (parameters : List Token) (arguments : List Value)
    (argumentsSound : ∀ value, value ∈ arguments → value.Sound entered.store entered.globals) :
    entered.Evolves (parameters.map fun parameter => (entered.active, parameter.lexeme))
      { entered with
        store := entered.store.bindArguments entered.active parameters arguments } := by
  induction parameters generalizing entered arguments with
  | nil => exact .refl sound
  | cons parameter rest ih =>
      cases arguments with
      | nil => exact .refl sound
      | cons argument others =>
          have grown := entered.store.extends_define sound.present parameter.lexeme argument
          have listed : (entered.active, parameter.lexeme) ∈
              (parameter :: rest).map fun parameter => (entered.active, parameter.lexeme) :=
            List.mem_cons_self
          have first := sound.define sound.present
            ((argumentsSound argument List.mem_cons_self).mono grown) (Or.inr listed)
          have second := ih first.sound others
            fun value member => (argumentsSound value (List.mem_cons_of_mem _ member)).mono grown
          exact first.trans { second with
            spares := second.spares.mono fun name member => List.mem_cons_of_mem _ member }

/-- Binding the parameters of a call, seen from the frame just made for it. -/
theorem Machine.Sound.parameters {machine : Machine} (sound : machine.Sound)
    (declaration : Declaration) (closure : FrameId) {arguments : List Value}
    (argumentsSound : ∀ value, value ∈ arguments → value.Sound machine.store machine.globals) :
    { machine with
      store := (machine.store.create (some closure)).2
      active := machine.store.frames.size : Machine }.Evolves
        (declaration.parameters.map fun parameter => (machine.store.frames.size, parameter.lexeme))
        (machine.enterCall declaration closure arguments) := by
  have opens := sound.create closure
  exact opens.sound.bindArguments declaration.parameters arguments
    fun value member => (argumentsSound value member).mono opens.grown

theorem Machine.Sound.enterCall {machine : Machine} (sound : machine.Sound)
    (declaration : Declaration) (closure : FrameId) {arguments : List Value}
    (argumentsSound : ∀ value, value ∈ arguments → value.Sound machine.store machine.globals) :
    machine.Opens (machine.enterCall declaration closure arguments) := by
  have opens := sound.create closure
  have bound := sound.parameters declaration closure argumentsSound
  refine ⟨bound.sound, rfl, Nat.le_refl _, opens.grown.trans bound.grown,
    opens.spares.enclose bound.spares fun frame name listed older => ?_⟩
  obtain ⟨parameter, _, same⟩ := List.mem_map.mp listed
  cases same
  exact absurd older (Nat.lt_irrefl _)

/-! ### Frames that stand for scopes -/

/-- The machine is sound, and its active frame stands for the scopes. -/
structure Machine.Ready (machine : Machine) (globals : FrameId) (scopes : Scopes) : Prop where
  sound : machine.Sound
  top : machine.globals = globals
  chain : Chain machine.store globals machine.active scopes

namespace Machine.Ready

variable {machine later : Machine} {globals : FrameId} {scopes : Scopes}
  {allowed : List (FrameId × String)}

theorem evolve (ready : machine.Ready globals scopes) (evolves : machine.Evolves allowed later) :
    later.Ready globals scopes where
  sound := evolves.sound
  top := evolves.globals.trans ready.top
  chain := by
    rw [evolves.active]
    exact ready.chain.mono evolves.grown

theorem extend {stmt : Stmt} (ready : machine.Ready globals scopes)
    (bound : ∀ name, stmt.declared? = some name →
      machine.store.Binds machine.active name.lexeme) :
    machine.Ready globals (stmt.extend scopes) where
  sound := ready.sound
  top := ready.top
  chain := by
    unfold Stmt.extend
    cases declares : stmt.declared? with
    | none => exact ready.chain
    | some name => exact ready.chain.declare (bound name declares)

end Machine.Ready

theorem Machine.Ready.enterBlock {machine : Machine} {globals : FrameId} {scopes : Scopes}
    (ready : machine.Ready globals scopes) : machine.enterBlock.Ready globals ([] :: scopes) :=
  ⟨(ready.sound.create machine.active).sound, ready.top, ready.chain.create⟩

theorem Machine.Ready.enterCall {machine : Machine} {globals closure : FrameId} {scopes : Scopes}
    {declaration : Declaration} {arguments : List Value} (sound : machine.Sound)
    (top : machine.globals = globals) (chain : Chain machine.store globals closure scopes)
    (counted : arguments.length = declaration.parameters.length)
    (argumentsSound : ∀ value, value ∈ arguments → value.Sound machine.store globals) :
    (machine.enterCall declaration closure arguments).Ready globals
      (parameterNames declaration.parameters :: scopes) := by
  subst top
  have bound := sound.parameters declaration closure argumentsSound
  refine ⟨bound.sound, bound.globals, ?_⟩
  refine (chain.create.mono bound.grown).rescope ?_
  intro name member
  obtain ⟨parameter, parameterMember, same⟩ := List.mem_map.mp (List.mem_reverse.mp member)
  subst same
  refine Store.binds_bindArguments ?_ counted parameterMember
  exact Nat.lt_of_lt_of_eq (Nat.lt_succ_self _) (Store.size_create _ _).symm

/-- The machine stands for the scopes, and the pending variable is on record for its frame. -/
structure Machine.Placed (machine : Machine) (initializing : List (FrameId × String))
    (scopes : Scopes) (pending : Option String) : Prop where
  ready : machine.Ready machine.globals scopes
  awaited : ∀ name, pending = some name → (machine.active, name) ∈ initializing

theorem Machine.Placed.evolve {machine later : Machine} {initializing : List (FrameId × String)}
    {scopes : Scopes} {pending : Option String} {allowed : List (FrameId × String)}
    (placed : machine.Placed initializing scopes pending)
    (evolves : machine.Evolves allowed later) : later.Placed initializing scopes pending where
  ready := by
    rw [evolves.globals]
    exact placed.ready.evolve evolves
  awaited name waits := by
    rw [evolves.active]
    exact placed.awaited name waits

/-- The task of the point is scoped, under scopes that its machine stands for. -/
def Point.Scoped (point : Point) : Prop :=
  match point.task with
  | .evaluate expr => ∃ scopes pending,
      point.machine.Placed point.initializing scopes pending ∧
        expr.Scoped (scopes.awaiting pending) pending
  | .evaluateAll exprs => ∃ scopes pending,
      point.machine.Placed point.initializing scopes pending ∧
        Expr.ScopedAll (scopes.awaiting pending) pending exprs
  | .assign name depth _ => ∃ scopes pending,
      point.machine.Placed point.initializing scopes pending ∧
        depth = (scopes.awaiting pending).locate name.lexeme
  | .call _ _ _ => point.machine.Sound
  | .invoke callable arguments _ =>
      point.machine.Sound ∧ arguments.length = callable.arity
  | .execute stmt => ∃ scopes,
      point.machine.Ready point.machine.globals scopes ∧ stmt.Scoped scopes
  | .cycle condition body => ∃ scopes,
      point.machine.Ready point.machine.globals scopes ∧ condition.Scoped scopes none ∧
        body.declared? = none ∧ body.Scoped scopes
  | .executeAll statements => ∃ scopes,
      point.machine.Ready point.machine.globals scopes ∧ Stmt.ScopedAll scopes statements

/-- The task of the point is scoped and is given sound values, and the frames of the variables that
are being initialized exist. -/
structure Point.Sound (point : Point) : Prop where
  stands : point.Scoped
  supplied : point.task.Supplied fun value =>
    value.Sound point.machine.store point.machine.globals
  covers : point.machine.Covers point.initializing

/-! ### Names that a point may bind -/

/-- The names that statements declare in the scope they stand in. -/
def Stmt.declaredNames (statements : List Stmt) : List String :=
  statements.filterMap fun stmt => stmt.declared?.map Token.lexeme

theorem Stmt.declaredNames_cons (stmt : Stmt) (rest : List Stmt) :
    Stmt.declaredNames (stmt :: rest) = Stmt.declaredNames [stmt] ++ Stmt.declaredNames rest :=
  List.filterMap_append (l := [stmt])

theorem Stmt.not_mem_declaredNames {stmt : Stmt} (plain : stmt.declared? = none) (name : String) :
    name ∉ Stmt.declaredNames [stmt] := by
  simp [Stmt.declaredNames, plain]

theorem Stmt.mem_declaredNames_singleton {stmt : Stmt} {name : String} :
    name ∈ Stmt.declaredNames [stmt] ↔
      ∃ token, stmt.declared? = some token ∧ token.lexeme = name := by
  simp [Stmt.declaredNames]

/-- The names that a task declares in the active frame. -/
def Task.declaredNames : Task → List String
  | .execute stmt => Stmt.declaredNames [stmt]
  | .executeAll statements => Stmt.declaredNames statements
  | _ => []

/-- Names in the active frame. -/
def Machine.named (machine : Machine) (names : List String) : List (FrameId × String) :=
  names.map fun name => (machine.active, name)

/-- The names that doing the task may bind in frames that are there. -/
def Point.allowed (point : Point) : List (FrameId × String) :=
  point.machine.named point.task.declaredNames ++ point.initializing

/-! ### Points that a sound point enters -/

/-- A declaration ends with the binding of its name. -/
theorem execute_defines {fuel : Nat} {stmt : Stmt} {machine later : Machine} {flow : Flow}
    {name : Token} (ended : execute fuel stmt machine = .value flow later)
    (declares : stmt.declared? = some name) :
    ∃ (store : Store) (value : Value),
      later.store = store.define later.active name.lexeme value := by
  cases fuel with
  | zero => cases ended
  | succ fuel =>
      cases stmt with
      | var token initializer =>
          cases declares
          cases initializer with
          | none =>
              cases ended
              exact ⟨_, _, rfl⟩
          | some expr =>
              change (evaluate fuel expr >>= fun value => _) machine = _ at ended
              rw [Attempt.bind_apply] at ended
              cases initialized : evaluate fuel expr machine with
              | value value middle =>
                  rw [initialized] at ended
                  cases ended
                  exact ⟨_, _, rfl⟩
              | failure fault middle | exhausted =>
                  rw [initialized] at ended
                  cases ended
      | function token parameters body =>
          cases declares
          cases ended
          exact ⟨_, _, rfl⟩
      | _ => cases declares

theorem Machine.Evolves.binds {fuel : Nat} {stmt : Stmt} {machine later : Machine} {flow : Flow}
    {allowed : List (FrameId × String)} {name : Token}
    (evolves : machine.Evolves allowed later) (created : machine.active < machine.store.frames.size)
    (ended : execute fuel stmt machine = .value flow later)
    (declares : stmt.declared? = some name) : later.store.Binds machine.active name.lexeme := by
  obtain ⟨store, value, defined⟩ := execute_defines ended declares
  have kept : later.store.frames.size = store.frames.size := by
    rw [defined, Store.size_define]
  rw [evolves.active] at defined
  rw [defined]
  refine (Store.binds_define ?_ name.lexeme value _ _).mpr (Or.inl ⟨rfl, rfl⟩)
  rw [← kept]
  exact Nat.lt_of_lt_of_le created evolves.grown.size

theorem Machine.Ready.placed {machine : Machine} {scopes : Scopes}
    (ready : machine.Ready machine.globals scopes) (initializing : List (FrameId × String)) :
    machine.Placed initializing scopes none :=
  ⟨ready, fun _ waits => nomatch waits⟩

theorem Machine.Ready.later {machine later : Machine} {scopes : Scopes}
    {allowed : List (FrameId × String)} (ready : machine.Ready machine.globals scopes)
    (evolves : machine.Evolves allowed later) : later.Ready later.globals scopes := by
  rw [evolves.globals]
  exact ready.evolve evolves

section Bodies

variable {fuel : Nat} {machine : Machine} {initializing : List (FrameId × String)}

theorem Point.Scoped.enterBlock {body : List Stmt}
    (stands : Point.Scoped ⟨fuel + 1, .execute (.block body), machine, initializing⟩) :
    Point.Scoped ⟨fuel, .executeAll body, machine.enterBlock, initializing⟩ := by
  obtain ⟨scopes, ready, scope⟩ := stands
  exact ⟨[] :: scopes, ready.enterBlock, scope⟩

theorem Point.Scoped.enterBody {declaration : Declaration} {closure : FrameId}
    {arguments : List Value} {paren : Token}
    (stands : Point.Scoped ⟨fuel + 1, .invoke (.function declaration closure) arguments paren,
      machine, initializing⟩)
    (supplied : (Task.invoke (.function declaration closure) arguments paren).Supplied fun value =>
      value.Sound machine.store machine.globals) :
    Point.Scoped ⟨fuel, .executeAll declaration.body,
      (machine.note (.functionCalled declaration.name.lexeme)).enterCall declaration closure
        arguments, initializing⟩ := by
  obtain ⟨sound, counted⟩ := stands
  obtain ⟨⟨callee, calleeSound, called⟩, argumentsSound⟩ := supplied
  obtain ⟨scopes, chain, scope⟩ := calleeSound.of_callable called
  refine ⟨_, Machine.Ready.enterCall ?_ rfl chain counted argumentsSound, scope⟩
  exact ⟨sound.rooted, sound.present, sound.top, sound.values⟩

end Bodies

/-- A point that starts on what the point before it leaves is scoped. -/
theorem Point.Sound.scoped {point part : Point} {allowed : List (FrameId × String)}
    (sound : point.Sound) (enters : point.Enters part)
    (evolves : point.machine.Evolves allowed part.machine) : part.Scoped := by
  obtain ⟨stands, supplied, _⟩ := sound
  cases enters with
  | grouping | unary | elements =>
      obtain ⟨scopes, pending, placed, scope⟩ := stands
      exact ⟨scopes, pending, placed, scope⟩
  | binaryLeft | logicalLeft | assigned | callee | object | firstValue =>
      obtain ⟨scopes, pending, placed, scope⟩ := stands
      exact ⟨scopes, pending, placed, scope.1⟩
  | binaryRight | logicalRight | assign | arguments | position | otherValues =>
      obtain ⟨scopes, pending, placed, scope⟩ := stands
      exact ⟨scopes, pending, placed.evolve evolves, scope.2⟩
  | call => exact evolves.sound
  | invoke found counted => exact ⟨evolves.sound, counted⟩
  | body => exact stands.enterBody supplied
  | expression | print | returned =>
      obtain ⟨scopes, ready, scope⟩ := stands
      exact ⟨scopes, none, ready.placed _, scope⟩
  | test | cycleTest =>
      obtain ⟨scopes, ready, scope⟩ := stands
      exact ⟨scopes, none, ready.placed _, scope.1⟩
  | initializer =>
      obtain ⟨scopes, ready, scope⟩ := stands
      refine ⟨scopes, some _, ⟨ready, ?_⟩, scope.2⟩
      intro name waits
      cases waits
      exact List.mem_cons_self
  | block => exact stands.enterBlock
  | thenBranch =>
      obtain ⟨scopes, ready, scope⟩ := stands
      exact ⟨scopes, ready.later evolves, scope.2.1.2⟩
  | elseBranch =>
      obtain ⟨scopes, ready, scope⟩ := stands
      exact ⟨scopes, ready.later evolves, scope.2.2.2⟩
  | loop =>
      obtain ⟨scopes, ready, scope⟩ := stands
      exact ⟨scopes, ready, scope⟩
  | cycleBody =>
      obtain ⟨scopes, ready, scope, plain, bodyScope⟩ := stands
      exact ⟨scopes, ready.later evolves, bodyScope⟩
  | cycleAgain =>
      obtain ⟨scopes, ready, scope⟩ := stands
      exact ⟨scopes, ready.later evolves, scope⟩
  | firstStatement =>
      obtain ⟨scopes, ready, scope⟩ := stands
      exact ⟨scopes, ready, scope.1⟩
  | otherStatements ended =>
      obtain ⟨scopes, ready, scope⟩ := stands
      refine ⟨_, (ready.later evolves).extend fun name declares => ?_, scope.2⟩
      rw [evolves.active]
      exact evolves.binds ready.sound.present ended declares

/-- A variable that is assigned with a depth is bound in the frame at that depth, or is being
initialized there. -/
theorem Point.Scoped.assigns {fuel : Nat} {name : Token} {hops : Nat} {value : Value}
    {machine : Machine} {initializing : List (FrameId × String)}
    (stands : Point.Scoped ⟨fuel, .assign name (some hops) value, machine, initializing⟩) :
    ∃ owner, machine.store.ancestor? machine.active hops = some owner ∧
      (machine.store.Binds owner name.lexeme ∨ (owner, name.lexeme) ∈ initializing) := by
  obtain ⟨scopes, pending, placed, located⟩ := stands
  obtain ⟨owner, reached, bound | ⟨own, _, waits⟩⟩ :=
    placed.ready.chain.ancestor_of_locate_awaiting located.symm
  · exact ⟨owner, reached, Or.inl bound⟩
  · subst own
    exact ⟨_, reached, Or.inr (placed.awaited _ waits)⟩

theorem Point.Scoped.sound {point : Point} (stands : point.Scoped) : point.machine.Sound := by
  obtain ⟨fuel, task, machine, initializing⟩ := point
  cases task with
  | evaluate | evaluateAll | assign =>
      obtain ⟨_, _, placed, _⟩ := stands
      exact placed.ready.sound
  | call => exact stands
  | invoke => exact stands.1
  | execute | cycle | executeAll =>
      obtain ⟨_, ready, _⟩ := stands
      exact ready.sound

/-- Names that a part may bind may be bound by the point itself, unless the part has a frame of its
own. -/
theorem Point.Enters.allowed {point part : Point} (enters : point.Enters part)
    (stands : point.Scoped) {frame : FrameId} {name : String}
    (active : part.machine.active = point.machine.active ∨ frame ≠ part.machine.active)
    (listed : (frame, name) ∈ part.allowed) : (frame, name) ∈ point.allowed := by
  rcases List.mem_append.mp listed with declared | initialized
  · obtain ⟨_, member, same⟩ := List.mem_map.mp declared
    cases same
    have own := active.resolve_right (not_not_intro rfl)
    refine List.mem_append_left _ (List.mem_map.mpr ⟨name, ?_, by rw [own]⟩)
    cases enters with
    | block | body => exact absurd own (Nat.ne_of_gt stands.sound.present)
    | thenBranch =>
        obtain ⟨_, _, _, ⟨plain, _⟩, _⟩ := stands
        exact absurd member (Stmt.not_mem_declaredNames plain name)
    | elseBranch =>
        obtain ⟨_, _, _, _, plain, _⟩ := stands
        exact absurd member (Stmt.not_mem_declaredNames plain name)
    | cycleBody =>
        obtain ⟨_, _, _, plain, _⟩ := stands
        exact absurd member (Stmt.not_mem_declaredNames plain name)
    | firstStatement =>
        change name ∈ Stmt.declaredNames (_ :: _)
        rw [Stmt.declaredNames_cons]
        exact List.mem_append_left _ member
    | otherStatements =>
        change name ∈ Stmt.declaredNames (_ :: _)
        rw [Stmt.declaredNames_cons]
        exact List.mem_append_right _ member
    | _ => cases member
  · cases enters with
    | initializer =>
        rcases List.mem_cons.mp initialized with same | listed
        · cases same
          exact List.mem_append_left _ List.mem_cons_self
        · exact List.mem_append_right _ listed
    | _ => exact List.mem_append_right _ initialized

theorem Point.Enters.covers {point part : Point} (enters : point.Enters part)
    (sound : point.Sound) (spares : point.machine.Spares point.allowed part.machine) :
    part.machine.Covers part.initializing := by
  cases enters with
  | initializer =>
      intro frame name listed
      rcases List.mem_cons.mp listed with same | listed
      · cases same
        exact sound.stands.sound.present
      · exact sound.covers frame name listed
  | _ => exact spares.covers sound.covers

/-! ### Basic steps -/

/-- However the step ends, the machine evolves, and the values that the result gives are sound. -/
def Exec.Keeps {α : Type} (action : Exec α) (machine : Machine)
    (allowed : List (FrameId × String)) (gives : α → Value → Prop) : Prop :=
  (action machine).Meets
    (fun result later => machine.Evolves allowed later ∧
      ∀ value, gives result value → value.Sound later.store later.globals)
    (fun _ later => machine.Evolves allowed later)

namespace Exec

variable {α β : Type} {machine : Machine} {allowed : List (FrameId × String)}
  {gives : α → Value → Prop}

theorem Keeps.of_state {action : Exec α} {later : Machine}
    (kept : action.Keeps machine allowed gives) (left : (action machine).state? = some later) :
    machine.Evolves allowed later :=
  (Outcome.Meets.mono kept (fun _ _ both => both.1) fun _ _ evolves => evolves).of_state? left

theorem Keeps.mono {action : Exec α} {more : List (FrameId × String)}
    (kept : action.Keeps machine allowed gives)
    (included : ∀ listed, listed ∈ allowed → listed ∈ more) : action.Keeps machine more gives := by
  refine Outcome.Meets.mono kept ?_ fun _ later evolves =>
    { evolves with spares := evolves.spares.mono included }
  rintro result later ⟨evolves, sound⟩
  exact ⟨{ evolves with spares := evolves.spares.mono included }, sound⟩

theorem Keeps.bind {first : Exec α} {next : α → Exec β} {gives' : β → Value → Prop}
    (kept : first.Keeps machine allowed gives)
    (after : ∀ result later, first machine = .value result later →
      (next result).Keeps later allowed gives') :
    (first >>= next).Keeps machine allowed gives' := by
  unfold Keeps at kept ⊢
  rw [Attempt.bind_apply]
  cases ended : first machine with
  | value result later =>
      rw [ended] at kept
      refine Outcome.Meets.mono (after result later ended) ?_
        fun _ final evolves => kept.1.trans evolves
      rintro result' final ⟨evolves, sound⟩
      exact ⟨kept.1.trans evolves, sound⟩
  | failure fault later =>
      rw [ended] at kept
      exact kept
  | exhausted => trivial

end Exec

theorem Value.Obtained.sound {held : Value → Prop} {machine : Machine} {value : Value}
    (found : value.Obtained held machine) (sound : machine.Sound)
    (values : ∀ value, held value → value.Sound machine.store machine.globals) :
    value.Sound machine.store machine.globals := by
  induction found with
  | held found => exact values _ found
  | plain plain =>
      refine .of_closures_eq_nil ?_
      rcases plain with plain | rfl
      · exact plain.closures_eq_nil
      · rfl
  | stored _ bound => exact sound.values _ _ _ bound
  | element _ member ih => exact ih.element member
  | list _ ih => exact .of_list ih

section Steps

variable {α : Type} {point : Point} {held : Value → Prop} {machine : Machine} {action : Exec α}
  {gives : α → Value → Prop} {parts : Point → Prop} {allowed : List (FrameId × String)}

theorem QuietStep.keeps (step : QuietStep point held machine action gives) (sound : machine.Sound)
    (values : ∀ value, held value → value.Sound machine.store machine.globals) :
    action.Keeps machine allowed gives := by
  refine step.obtains.mono ?_ fun _ later same =>
    .of_same_frames sound same.globals same.active same.frames
  rintro result later ⟨same, each⟩
  have evolves : machine.Evolves allowed later :=
    .of_same_frames sound same.globals same.active same.frames
  refine ⟨evolves, fun value gives => ?_⟩
  rw [evolves.globals]
  exact ((each value gives).sound sound values).mono evolves.grown

theorem assign_keeps {fuel : Nat} {name : Token} {depth : Option Nat} {value : Value}
    {initializing : List (FrameId × String)}
    (sound : Point.Sound ⟨fuel, .assign name depth value, machine, initializing⟩)
    (valueSound : value.Sound machine.store machine.globals) :
    (Exec.assignVariable name depth value).Keeps machine
      (Point.allowed ⟨fuel, .assign name depth value, machine, initializing⟩) Nothing := by
  obtain ⟨_, _, placed, _⟩ := id sound.stands
  unfold Exec.Keeps Exec.assignVariable
  cases reached : Exec.target? machine name depth with
  | none => exact Machine.Evolves.of_same_frames placed.ready.sound rfl rfl rfl
  | some owner =>
      have permitted : machine.store.Binds owner name.lexeme ∨
          (owner, name.lexeme) ∈ initializing := by
        cases depth with
        | none => exact Or.inl (Store.binds_of_ownerWithin? reached)
        | some hops =>
            obtain ⟨other, found, permitted⟩ := sound.stands.assigns
            cases found.symm.trans reached
            exact permitted
      have created : owner < machine.store.frames.size := by
        rcases permitted with bound | listed
        · exact Store.lt_size_of_binds bound
        · exact sound.covers owner name.lexeme listed
      have grown := machine.store.extends_define created name.lexeme value
      exact ⟨placed.ready.sound.define created (valueSound.mono grown) permitted,
        fun _ none => none.elim⟩

/-- A declared name is bound in the frame that is active at the declaration. -/
theorem define_keeps {fuel : Nat} {stmt : Stmt} {start : Machine} {name : Token} {value : Value}
    {initializing : List (FrameId × String)} (created : start.active < start.store.frames.size)
    (evolves : start.Evolves allowed machine) (declares : stmt.declared? = some name)
    (valueSound : value.Sound (machine.store.define machine.active name.lexeme value)
      machine.globals) :
    (Exec.defineVariable name.lexeme value).Keeps machine
      (Point.allowed ⟨fuel, .execute stmt, start, initializing⟩) Nothing := by
  have listed : (machine.active, name.lexeme) ∈
      Point.allowed ⟨fuel, .execute stmt, start, initializing⟩ := by
    rw [evolves.active]
    refine List.mem_append_left _ (List.mem_map.mpr ⟨name.lexeme, ?_, rfl⟩)
    exact Stmt.mem_declaredNames_singleton.mpr ⟨name, declares, rfl⟩
  refine ⟨evolves.sound.define ?_ valueSound (Or.inr listed), fun _ none => none.elim⟩
  rw [evolves.active]
  exact Nat.lt_of_lt_of_le created evolves.grown.size

theorem declare_keeps {fuel : Nat} {name : Token} {parameters : List Token} {body : List Stmt}
    {start : Machine} {initializing : List (FrameId × String)}
    (stands : Point.Scoped ⟨fuel, .execute (.function name parameters body), start, initializing⟩)
    (evolves : start.Evolves allowed machine) :
    (Exec.makeFunction ⟨name, parameters, body⟩ >>= Exec.defineVariable name.lexeme).Keeps machine
      (Point.allowed ⟨fuel, .execute (.function name parameters body), start, initializing⟩)
      Nothing := by
  obtain ⟨scopes, ready, scope⟩ := id stands
  have made : (Exec.makeFunction ⟨name, parameters, body⟩).Keeps machine
      (Point.allowed ⟨fuel, .execute (.function name parameters body), start, initializing⟩)
      Nothing :=
    ⟨.of_same_frames evolves.sound rfl rfl rfl, fun _ none => none.elim⟩
  refine made.bind fun function later ended => ?_
  cases ended
  have evolves' : start.Evolves allowed { machine with
      store := (machine.store.makeFunction ⟨name, parameters, body⟩ machine.active).2 } :=
    evolves.trans (.of_same_frames evolves.sound rfl rfl rfl)
  have ready' := ready.later evolves'
  refine define_keeps ready.sound.present evolves' rfl ?_
  -- The function closes over the frame that is about to bind it.
  intro closure member
  cases List.mem_singleton.mp member
  refine ⟨scopes.declare name.lexeme, ?_, scope.2.2⟩
  refine (ready'.chain.mono (Store.extends_define _ ready'.sound.present _ _)).declare ?_
  exact (Store.binds_define ready'.sound.present _ _ _ _).mpr (Or.inl ⟨rfl, rfl⟩)

theorem BasicStep.keeps (step : BasicStep point held machine action gives) (sound : point.Sound)
    (evolves : point.machine.Evolves point.allowed machine)
    (values : ∀ value, held value → value.Sound machine.store machine.globals) :
    action.Keeps machine point.allowed gives := by
  cases step with
  | quiet step => exact step.keeps evolves.sound values
  | assign same found =>
      subst same
      exact assign_keeps sound (values _ found)
  | @define stmt name value task declares found =>
      obtain ⟨fuel, _, start, initializing⟩ := point
      cases task
      have created := sound.stands.sound.present
      have valueSound : value.Sound machine.store machine.globals := by
        rcases found with found | rfl
        · exact values value found
        · exact .of_closures_eq_nil rfl
      refine define_keeps created evolves declares (valueSound.mono ?_)
      refine machine.store.extends_define ?_ name.lexeme value
      rw [evolves.active]
      exact Nat.lt_of_lt_of_le created evolves.grown.size
  | declare task =>
      obtain ⟨fuel, _, start, initializing⟩ := point
      cases task
      exact declare_keeps sound.stands evolves

/-! ### Rules -/

theorem Exec.Keeps.enclose {creation : Exec FrameId} {entered : Machine}
    {inner : List (FrameId × String)}
    (created : creation machine =
      .value entered.active { entered with active := machine.active })
    (opens : machine.Opens entered) (present : machine.active < machine.store.frames.size)
    (inside : action.Keeps entered inner gives)
    (outer : ∀ frame name, (frame, name) ∈ inner → frame < machine.store.frames.size →
      (frame, name) ∈ allowed) :
    (creation >>= fun frame => Exec.within frame action).Keeps machine allowed gives := by
  unfold Exec.Keeps at inside ⊢
  rw [Attempt.bind_apply, created]
  dsimp only [Exec.within]
  cases ended : action entered with
  | value result later =>
      rw [ended] at inside
      exact ⟨opens.leave present inside.1 outer, inside.2⟩
  | failure fault later =>
      rw [ended] at inside
      exact opens.leave present inside outer
  | exhausted => trivial

/-- The part is sound, and on the way to it no names were bound but those that may be. -/
def Point.Leads (point part : Point) : Prop :=
  part.Sound ∧ point.machine.Spares point.allowed part.machine

/-- A rule that runs a body in a new frame. -/
theorem Point.Sound.steps_enclose {part : Point} {creation : Exec FrameId} (sound : point.Sound)
    (enters : point.Enters part) (opens : machine.Opens part.machine) (stands : part.Scoped)
    (supplied : part.task.Supplied fun value =>
      value.Sound part.machine.store part.machine.globals)
    (inner : ∀ part, point.Enters part → part.Sound →
      (part.task.run part.fuel).Keeps part.machine part.allowed part.task.Gives)
    (present : machine.active < machine.store.frames.size)
    (same : machine.store = point.machine.store)
    (created : creation machine =
      .value part.machine.active { part.machine with active := machine.active }) :
    (creation >>= fun frame => Exec.within frame (part.task.run part.fuel)).Keeps machine
        point.allowed part.task.Gives ∧
      ∀ place, place = part → point.Leads place := by
  have spares : point.machine.Spares point.allowed part.machine := by
    have opened : machine.Spares point.allowed part.machine :=
      opens.spares.mono fun _ listed => nomatch listed
    exact .trans (.of_same_frames (by rw [same])) opened
  have partSound : part.Sound := ⟨stands, supplied, enters.covers sound spares⟩
  refine ⟨.enclose created opens present (inner part enters partSound) ?_, ?_⟩
  · intro frame name listed older
    refine enters.allowed sound.stands (Or.inr ?_) listed
    exact Nat.ne_of_lt (Nat.lt_of_lt_of_le older opens.active)
  · rintro place rfl
    exact ⟨partSound, spares⟩

theorem Point.Sound.steps_keep (sound : point.Sound)
    (inner : ∀ part, point.Enters part → part.Sound →
      (part.task.run part.fuel).Keeps part.machine part.allowed part.task.Gives)
    (steps : RuleSteps point held machine action gives parts)
    (evolves : point.machine.Evolves point.allowed machine)
    (values : ∀ value, held value → value.Sound machine.store machine.globals) :
    action.Keeps machine point.allowed gives ∧ ∀ part, parts part → point.Leads part := by
  induction steps with
  | basic step => exact ⟨step.keeps sound evolves values, fun _ none => none.elim⟩
  | part enters supplied =>
      have part : Point.Sound _ := ⟨sound.scoped enters evolves, supplied.mono values,
        enters.covers sound evolves.spares⟩
      refine ⟨(inner _ enters part).mono fun _ =>
        enters.allowed sound.stands (Or.inl evolves.active), ?_⟩
      rintro place rfl
      exact ⟨part, evolves.spares⟩
  | bind _ _ ih ih' =>
      obtain ⟨kept, leads⟩ := ih evolves values
      have after (result) (later : Machine) (ended) := by
        obtain ⟨evolves', sound'⟩ := Outcome.Meets.of_value kept ended
        refine ih' result later ended (evolves.trans evolves') ?_
        rintro value (old | new)
        · rw [evolves'.globals]
          exact (values value old).mono evolves'.grown
        · exact sound' value new
      refine ⟨kept.bind fun result later ended => (after result later ended).1, ?_⟩
      rintro place (early | ⟨result, later, ended, late⟩)
      · exact leads place early
      · exact (after result later ended).2 place late
  | @block _ _ start _ _ same =>
      subst same
      exact sound.steps_enclose .block (sound.stands.sound.create start.active)
        sound.stands.enterBlock trivial inner evolves.sound.present rfl rfl
  | @body _ _ start declaration closure arguments _ _ same supplied =>
      subst same
      exact sound.steps_enclose .body
        (evolves.sound.enterCall declaration closure fun value member =>
          values value (supplied.2 value member)) (sound.stands.enterBody sound.supplied)
        trivial inner evolves.sound.present rfl rfl
  | fewer _ included ih =>
      obtain ⟨kept, leads⟩ := ih evolves values
      exact ⟨kept, fun place among => leads place (included place among)⟩

end Steps

theorem Point.Sound.keeps {point : Point} (sound : point.Sound) :
    (point.task.run point.fuel).Keeps point.machine point.allowed point.task.Gives := by
  induction point using Point.induction with
  | enter point ih =>
      exact (sound.steps_keep ih (point.ruleSteps sound.supplied) (.refl sound.stands.sound)
        fun _ => id).1

/-- Each point hands the invariant to the points it enters. -/
theorem Point.Sound.leads {point part : Point} (sound : point.Sound)
    (enters : point.Enters part) : point.Leads part :=
  (sound.steps_keep (fun _ _ => Point.Sound.keeps) (point.ruleSteps sound.supplied)
    (.refl sound.stands.sound) fun _ => id).2 part enters

theorem Point.Sound.enter {point part : Point} (sound : point.Sound)
    (enters : point.Enters part) : part.Sound :=
  (sound.leads enters).1

/-! ### Statements -/

theorem Machine.Ready.point {machine : Machine} {scopes : Scopes} {stmt : Stmt}
    (ready : machine.Ready machine.globals scopes) (scope : stmt.Scoped scopes) (fuel : Nat) :
    Point.Sound ⟨fuel, .execute stmt, machine, []⟩ :=
  ⟨⟨scopes, ready, scope⟩, trivial, fun _ _ listed => nomatch listed⟩

theorem Machine.Ready.execute {machine later : Machine} {scopes : Scopes} {stmt : Stmt} {fuel : Nat}
    {flow : Flow} (ready : machine.Ready machine.globals scopes) (scope : stmt.Scoped scopes)
    (ended : LexicalScript.execute fuel stmt machine = .value flow later) :
    later.Ready later.globals (stmt.extend scopes) := by
  have evolves := (Outcome.Meets.of_value (ready.point scope fuel).keeps ended).1
  refine (ready.later evolves).extend fun name declares => ?_
  rw [evolves.active]
  exact evolves.binds ready.sound.present ended declares

theorem Machine.named_cons (machine : Machine) (stmt : Stmt) (rest : List Stmt) :
    machine.named (Stmt.declaredNames (stmt :: rest)) =
      machine.named (Stmt.declaredNames [stmt]) ++ machine.named (Stmt.declaredNames rest) := by
  rw [Stmt.declaredNames_cons, named, List.map_append]
  rfl

theorem executeEach_keeps (fuel : Nat) {statements : List Stmt} {machine : Machine}
    {scopes : Scopes} (ready : machine.Ready machine.globals scopes)
    (placed : Stmt.ScopedAll scopes statements) :
    (executeEach fuel statements).Keeps machine (machine.named (Stmt.declaredNames statements))
      Nothing := by
  induction statements generalizing machine scopes with
  | nil => exact ⟨.refl ready.sound, fun _ none => none.elim⟩
  | cons stmt rest ih =>
      rw [Machine.named_cons]
      have first := (ready.point placed.1 fuel).keeps
      rw [Point.allowed, List.append_nil] at first
      refine (first.mono fun _ => List.mem_append_left _).bind fun flow later ended => ?_
      have others := ih (ready.execute placed.1 ended) placed.2
      rw [Machine.named, (Outcome.Meets.of_value first ended).1.active] at others
      exact others.mono fun _ => List.mem_append_right _

/-- A whole program that ends normally has bound everything that it declares. -/
theorem executeEach_binds {fuel : Nat} {statements : List Stmt} {machine later : Machine}
    {scopes : Scopes} {result : Unit} (ready : machine.Ready machine.globals scopes)
    (placed : Stmt.ScopedAll scopes statements)
    (ended : executeEach fuel statements machine = .value result later) {name : String}
    (declared : name ∈ Stmt.declaredNames statements) : later.store.Binds machine.active name := by
  induction statements generalizing machine scopes with
  | nil => cases declared
  | cons stmt rest ih =>
      obtain ⟨flow, middle, executed, others⟩ := Attempt.returns_of_bind ended
      have ready' := ready.execute placed.1 executed
      have first := (Outcome.Meets.of_value (ready.point placed.1 fuel).keeps executed).1
      rw [Stmt.declaredNames_cons] at declared
      rcases List.mem_append.mp declared with own | other
      · obtain ⟨token, declares, rfl⟩ := Stmt.mem_declaredNames_singleton.mp own
        have rest' := (executeEach_keeps fuel ready' placed.2).of_value others
        exact rest'.1.grown.binds _ _ (first.binds ready.sound.present executed declares)
      · rw [← first.active]
        exact ih ready' placed.2 others other

end LexicalScript
