import LexicalScript.Proofs.PairedStates

/-!
Steps of the machine beside steps of the reference.

The two are run from a matching paired state with the same fuel.  Either both end with a result, or
both end with a fault that reads the same, or both run out of fuel; and in the first two cases the
paired state that they end in matches again.
-/

set_option autoImplicit false

namespace LexicalScript

open Reference (Datum Environment Location Place State Run)

/-- The faults read the same: message and line of an error of the program, or the failure to
write. -/
def Fault.Same : Fault → Fault → Prop
  | .runtime error, .runtime error' =>
      error.cause.message = error'.cause.message ∧ error.line = error'.line
  | .output error, .output error' => error = error'
  | _, _ => False

namespace PairedState

/-- The paired state with another frame active. -/
def enter (pair : PairedState) (frame : FrameId) : PairedState :=
  { pair with machine := { pair.machine with active := frame } }

theorem Matches.enter {pair : PairedState} (matched : pair.Matches) (frame : FrameId) :
    (pair.enter frame).Matches :=
  ⟨matched.fresh, matched.sink, matched.clock, matched.rooted, matched.top, matched.table,
    matched.cells, matched.inner, matched.apart, matched.covered⟩

/-- What happens with a new frame active is seen from outside as the making of that frame. -/
theorem Advances.leave {pair created later : PairedState} {frame : FrameId}
    {names fresh : List String} (made : pair.Advances [] created)
    (newer : pair.machine.store.frames.size ≤ frame)
    (inside : (created.enter frame).Advances names later) :
    pair.Advances fresh (later.enter pair.machine.active) where
  matched := inside.matched.enter _
  globals := inside.globals.trans made.globals
  active := rfl
  parents above parent found := inside.parents above parent (made.parents above parent found)
  size := Nat.le_trans made.size inside.size
  kept other name location placed :=
    inside.kept other name location (made.kept other name location placed)
  frugal other name location old placed := by
    rcases inside.frugal other name location (Nat.lt_of_lt_of_le old made.size) placed with
      earlier | new
    · rcases made.frugal other name location old earlier with before | none
      · exact Or.inl before
      · cases none.2
    · have same : other = frame := new.1
      omega

/-- The active frame holds the names of the scopes as the environment does. -/
structure Reads (pair : PairedState) (scopes : Scopes) (environment : Environment) : Prop where
  matched : pair.Matches
  linked : Linked pair.places pair.machine.store pair.machine.globals pair.machine.active
    scopes environment

/-- The active frame is the one of the innermost scope, which holds all names placed in it. -/
structure Stands (pair : PairedState) (scopes : Scopes) (place : Place) : Prop where
  reads : pair.Reads scopes place.environment
  level : scopes = [] ↔ place = .top
  own : ∀ name location, pair.places pair.machine.active name = some location →
    ∃ scope outer, scopes = scope :: outer ∧ name ∈ scope

variable {pair later : PairedState} {scopes : Scopes} {environment : Environment} {place : Place}

theorem Reads.advance {fresh : List String} (reads : pair.Reads scopes environment)
    (advances : pair.Advances fresh later) : later.Reads scopes environment where
  matched := advances.matched
  linked := by
    rw [advances.active]
    exact advances.linked reads.linked

theorem Stands.advance (stands : pair.Stands scopes place) (advances : pair.Advances [] later) :
    later.Stands scopes place where
  reads := stands.reads.advance advances
  level := stands.level
  own name location placed := by
    rw [advances.active] at placed
    have created := stands.reads.linked.lt_size stands.reads.matched.rooted
    rcases advances.frugal _ _ _ created placed with old | none
    · exact stands.own name location old
    · cases none.2

end PairedState

/-- What a name stands for, looked up with a depth or else in the global frame. -/
def Machine.find? (machine : Machine) (name : String) : Option Nat → Option Value
  | some hops =>
      (machine.store.ancestor? machine.active hops).bind fun owner =>
        machine.store.local? owner name
  | none => machine.store.local? machine.globals name

/-- Looked up with its depth, a name stands for what the environment says. -/
theorem PairedState.Reads.find_agrees {pair : PairedState} {scopes : Scopes}
    {environment : Environment} (reads : pair.Reads scopes environment) (name : String) :
    CellsAgree pair.closing (pair.machine.find? name (scopes.locate name))
      (pair.state.find? environment name) := by
  unfold Machine.find? Reference.State.find?
  rcases reads.linked.locate_lookup name with
    ⟨absent, missing⟩ | ⟨hops, owner, location, found, held, reached, placed⟩
  · rw [absent, missing]
    exact reads.matched.table name
  · obtain ⟨cell, kept, agree⟩ := reads.matched.cells owner name location placed
    rw [found, held]
    dsimp only
    rw [reached, kept, Option.bind_some, Option.join_some]
    exact agree

theorem PairedState.Matches.identify {pair : PairedState} (matched : pair.Matches)
    (fresh : List String) (next : Identity) :
    pair.Advances fresh ⟨pair.places,
      { pair.machine with store := { pair.machine.store with fresh := next } },
      { pair.state with fresh := next }⟩ :=
  matched.rest rfl rfl rfl rfl rfl rfl matched.sink matched.clock

/-! ### Steps side by side -/

/-- The outcomes agree, and the paired state that they are reached in matches. -/
inductive PairedState.Ends {α β : Type} (pair : PairedState) (fresh : List String)
    (agree : PairedState → α → β → Prop) : Outcome Fault Machine α → Outcome Fault State β → Prop
  | value {later : PairedState} {result : α} {result' : β} : pair.Advances fresh later →
      agree later result result' →
      PairedState.Ends pair fresh agree (.value result later.machine) (.value result' later.state)
  | failure {later : PairedState} {fault fault' : Fault} : pair.Advances fresh later →
      fault.Same fault' →
      PairedState.Ends pair fresh agree (.failure fault later.machine) (.failure fault' later.state)
  | exhausted : PairedState.Ends pair fresh agree .exhausted .exhausted

/-- The step and its counterpart end alike, and leave a paired state that matches. -/
def Exec.Mirrors {α β : Type} (action : Exec α) (reference : Run β) (pair : PairedState)
    (fresh : List String) (agree : PairedState → α → β → Prop) : Prop :=
  pair.Ends fresh agree (action pair.machine) (reference pair.state)

/-- What is reached from a paired state that the first one advances to is reached from the first
one. -/
theorem PairedState.Ends.after {α β : Type} {pair middle : PairedState} {fresh : List String}
    {agree : PairedState → α → β → Prop} {outcome : Outcome Fault Machine α}
    {outcome' : Outcome Fault State β} (advances : pair.Advances fresh middle)
    (ends : middle.Ends fresh agree outcome outcome') :
    pair.Ends fresh agree outcome outcome' := by
  cases ends with
  | value advances' holds => exact .value (advances.trans advances') holds
  | failure advances' same => exact .failure (advances.trans advances') same
  | exhausted => exact .exhausted

theorem PairedState.Ends.mono {α β : Type} {pair : PairedState} {fresh other : List String}
    {agree agree' : PairedState → α → β → Prop} {outcome : Outcome Fault Machine α}
    {outcome' : Outcome Fault State β} (ends : pair.Ends fresh agree outcome outcome')
    (included : ∀ name, name ∈ fresh → name ∈ other)
    (weaker : ∀ later result result', pair.Advances fresh later → agree later result result' →
      agree' later result result') : pair.Ends other agree' outcome outcome' := by
  cases ends with
  | value advances holds => exact .value (advances.mono included) (weaker _ _ _ advances holds)
  | failure advances same => exact .failure (advances.mono included) same
  | exhausted => exact .exhausted

namespace Exec

variable {α α' β β' : Type} {pair : PairedState} {fresh : List String}
  {agree : PairedState → α → α' → Prop} {agree' : PairedState → β → β' → Prop}

theorem Mirrors.pure {result : α} {result' : α'} (matched : pair.Matches)
    (holds : agree pair result result') :
    (Pure.pure result : Exec α).Mirrors (Pure.pure result') pair fresh agree :=
  .value (.refl matched) holds

theorem Mirrors.bind {first : Exec α} {first' : Run α'} {next : α → Exec β}
    {next' : α' → Run β'} (mirrors : first.Mirrors first' pair fresh agree)
    (after : ∀ later result result', pair.Advances fresh later → agree later result result' →
      (next result).Mirrors (next' result') later fresh agree') :
    (first >>= next).Mirrors (first' >>= next') pair fresh agree' := by
  unfold Mirrors at mirrors ⊢
  rw [Attempt.bind_apply, Attempt.bind_apply]
  generalize first pair.machine = outcome, first' pair.state = outcome' at mirrors ⊢
  cases mirrors with
  | value advances holds => exact .after advances (after _ _ _ advances holds)
  | failure advances same => exact .failure advances same
  | exhausted => exact .exhausted

/-- The first step may place no names, the others may. -/
theorem Mirrors.bindStill {first : Exec α} {first' : Run α'} {next : α → Exec β}
    {next' : α' → Run β'} (mirrors : first.Mirrors first' pair [] agree)
    (after : ∀ later result result', pair.Advances [] later → agree later result result' →
      (next result).Mirrors (next' result') later fresh agree') :
    (first >>= next).Mirrors (first' >>= next') pair fresh agree' := by
  have none : ∀ name, name ∈ ([] : List String) → name ∈ fresh := fun _ member => nomatch member
  have wider : first.Mirrors first' pair fresh
      (fun later result result' => pair.Advances [] later ∧ agree later result result') :=
    PairedState.Ends.mono mirrors none fun _ _ _ advances holds => ⟨advances, holds⟩
  exact wider.bind fun later result result' _ holds => after later result result' holds.1 holds.2

/-- The reference may go on to rearrange its result. -/
theorem Mirrors.rearrange {action : Exec α} {reference : Run α'} {arrange : α' → β'}
    {after : PairedState → α → β' → Prop} (mirrors : action.Mirrors reference pair [] agree)
    (holds : ∀ later result result', pair.Advances [] later → agree later result result' →
      after later result (arrange result')) :
    action.Mirrors (reference >>= fun result' => Pure.pure (arrange result')) pair fresh
      after := by
  have rearranged : (action >>= Pure.pure).Mirrors
      (reference >>= fun result' => Pure.pure (arrange result')) pair fresh after :=
    mirrors.bindStill fun later result result' advances agrees =>
      .pure advances.matched (holds later result result' advances agrees)
  rw [bind_pure] at rearranged
  exact rearranged

/-- Steps of one side only, to a paired state that still matches. -/
theorem Mirrors.start {action : Exec α} {reference : Run α'} {action' : Exec α}
    {reference' : Run α'} {middle : PairedState} (advances : pair.Advances fresh middle)
    (same : action' pair.machine = action middle.machine)
    (same' : reference' pair.state = reference middle.state)
    (mirrors : action.Mirrors reference middle fresh agree) :
    action'.Mirrors reference' pair fresh agree := by
  unfold Mirrors
  rw [same, same']
  exact .after advances mirrors

theorem Mirrors.note {action : Exec α} {reference : Run α'} {event : Event}
    (matched : pair.Matches)
    (mirrors : ∀ later, pair.Advances [] later → action.Mirrors reference later fresh agree) :
    (Exec.note event >>= fun _ => action).Mirrors reference pair fresh agree := by
  have noted : ∀ names, pair.Advances names
      ⟨pair.places, pair.machine.note event, pair.state⟩ :=
    fun names => matched.rest rfl rfl rfl rfl rfl matched.fresh matched.sink matched.clock
  exact .start (noted fresh) rfl rfl (mirrors _ (noted []))

theorem raise_mirrors {error error' : RuntimeError} (matched : pair.Matches)
    (message : error.cause.message = error'.cause.message) (line : error.line = error'.line) :
    (raise error : Exec α).Mirrors (Reference.raise error') pair fresh agree := by
  have noted : pair.Advances fresh
      ⟨pair.places, pair.machine.note (.runtimeError error), pair.state⟩ :=
    matched.rest rfl rfl rfl rfl rfl matched.fresh matched.sink matched.clock
  exact .failure noted ⟨message, line⟩

theorem ofExcept_mirrors {result : Except RuntimeError Value}
    {result' : Except RuntimeError Datum} (matched : pair.Matches)
    (agrees : ResultsAgree pair.closing result result') :
    (ofExcept result).Mirrors (Reference.ofExcept result') pair fresh
      (fun later value datum => value.Agrees later.closing datum) := by
  cases agrees with
  | ok agrees => exact .pure matched agrees
  | error => exact raise_mirrors matched rfl rfl

theorem write_mirrors (matched : pair.Matches) (text : String) :
    (write text).Mirrors (Reference.write text) pair fresh (fun _ _ _ => True) := by
  unfold Mirrors write Reference.write
  rw [matched.sink]
  cases pair.machine.sink.write text with
  | mk error sink =>
      have written : pair.Advances fresh
          ⟨pair.places, { pair.machine with sink := sink }, { pair.state with sink := sink }⟩ :=
        matched.rest rfl rfl rfl rfl rfl matched.fresh rfl matched.clock
      cases error with
      | none => exact .value written trivial
      | some error => exact .failure written rfl

theorem readClock_mirrors (matched : pair.Matches) (line : Nat) :
    (readClock line).Mirrors (Reference.readClock line) pair fresh
      (fun later value datum => value.Agrees later.closing datum) := by
  unfold Mirrors Exec.readClock Reference.readClock
  rw [matched.clock]
  obtain ⟨reading, clock⟩ := pair.machine.clock.read
  have taken : pair.Advances fresh ⟨pair.places, { pair.machine with clock := clock },
      { pair.state with clock := clock }⟩ :=
    matched.rest rfl rfl rfl rfl rfl matched.fresh matched.sink rfl
  cases reading with
  | ok seconds => exact .value taken .number
  | error problem => exact .after taken (raise_mirrors taken.matched rfl rfl)

theorem takeReply_mirrors {arguments : List Value} {arguments' : List Datum}
    (matched : pair.Matches) (all : Value.AgreesAll pair.closing arguments arguments')
    (reply : Reply) :
    (takeReply arguments reply).Mirrors (Reference.takeReply arguments' reply) pair fresh
      (fun later value datum => value.Agrees later.closing datum) := by
  obtain ⟨agrees, next⟩ := reply.build_agrees all pair.machine.store.fresh
  have taken := matched.identify fresh (reply.build arguments pair.machine.store.fresh).2
  unfold Mirrors Exec.takeReply Reference.takeReply
  dsimp only
  rw [matched.fresh, next]
  exact .value taken (taken.agrees agrees)

theorem makeList_mirrors {values : List Value} {data : List Datum} (matched : pair.Matches)
    (agrees : Value.AgreesAll pair.closing values data) :
    (makeList values).Mirrors (Reference.makeList data) pair fresh
      (fun later value datum => value.Agrees later.closing datum) := by
  change pair.Ends fresh _ _ (.value (Datum.list pair.state.fresh data)
    { pair.state with fresh := pair.state.fresh + 1 })
  rw [matched.fresh]
  have taken := matched.identify fresh (pair.machine.store.fresh + 1)
  exact .value taken (.list (taken.agreesAll agrees))

theorem makeFunction_mirrors {declaration : Declaration} {next : Value → Exec β}
    {next' : Identity → Run β'} (matched : pair.Matches)
    (after : ∀ later identity, pair.Advances [] later →
      (next (.function identity declaration pair.machine.active)).Mirrors (next' identity) later
        fresh agree') :
    (makeFunction declaration >>= next).Mirrors (Reference.identify >>= next') pair fresh
      agree' := by
  have same : (Reference.identify >>= next') pair.state = next' pair.machine.store.fresh
      { pair.state with fresh := pair.machine.store.fresh + 1 } := by
    rw [← matched.fresh]
    rfl
  have taken (names : List String) := matched.identify names (pair.machine.store.fresh + 1)
  exact .start (taken fresh) rfl same (after _ _ (taken []))

/-- What a name is looked up to be: a value on both sides, or undefined on both. -/
theorem found_mirrors {found : Option Value} {found' : Option Datum} {name : Token}
    {depth : Option Nat} (matched : pair.Matches)
    (agree : CellsAgree pair.closing found found') :
    (ofExcept (match found with
      | some value => .ok value
      | none => .error (Store.undefinedVariable name depth))).Mirrors
      (fun state => match found' with
        | some datum => .value datum state
        | none => Reference.raise (Store.undefinedVariable name none) state) pair fresh
      (fun later value datum => value.Agrees later.closing datum) := by
  cases agree with
  | full agrees => exact .pure matched agrees
  | empty => exact raise_mirrors matched rfl rfl

theorem readVariable_eq {machine : Machine}
    (top : machine.store.parent? machine.globals = none) (name : Token) (depth : Option Nat) :
    readVariable name depth machine = ofExcept (match machine.find? name.lexeme depth with
      | some value => .ok value
      | none => .error (Store.undefinedVariable name depth)) machine := by
  unfold readVariable Machine.find?
  cases depth with
  | some hops => rfl
  | none => exact congrArg (fun result => ofExcept result machine) (Store.get_of_root top name)

theorem read_mirrors {scopes : Scopes} {environment : Environment} {name : Token}
    {depth : Option Nat} (reads : pair.Reads scopes environment)
    (located : depth = scopes.locate name.lexeme) :
    (readVariable name depth).Mirrors (Reference.read environment name) pair fresh
      (fun later value datum => value.Agrees later.closing datum) := by
  unfold Mirrors
  rw [readVariable_eq reads.matched.top, located]
  exact found_mirrors reads.matched (reads.find_agrees name.lexeme)

theorem assign_mirrors {scopes : Scopes} {environment : Environment} {name : Token}
    {depth : Option Nat} {value : Value} {datum : Datum}
    (reads : pair.Reads scopes environment) (located : depth = scopes.locate name.lexeme)
    (agrees : value.Agrees pair.closing datum) :
    (assignVariable name depth value).Mirrors (Reference.assign environment name datum) pair fresh
      (fun _ _ _ => True) := by
  have matched := reads.matched
  unfold Mirrors assignVariable Reference.assign
  rcases reads.linked.locate_lookup name.lexeme with
    ⟨absent, missing⟩ | ⟨hops, owner, location, found, held, reached, placed⟩
  · rw [located, absent, missing]
    dsimp only [target?]
    rw [Store.owner?_of_root matched.top]
    have table := matched.table name.lexeme
    generalize pair.machine.store.local? pair.machine.globals name.lexeme = bound at table ⊢
    generalize pair.state.globals.lookup name.lexeme = bound' at table ⊢
    cases table with
    | empty => exact raise_mirrors matched rfl rfl
    | full _ => exact .value (matched.storeGlobal name.lexeme agrees) trivial
  · rw [located, found, held]
    dsimp only [target?]
    rw [reached]
    exact .value (matched.storeLocal placed agrees) trivial

end Exec

/-! ### New names and new frames -/

/-- Statements end alike, and what they return agrees. -/
inductive FlowsAgree (closing : Closing) : Flow → Reference.Flow → Prop
  | normal : FlowsAgree closing .normal .normal
  | returned {value : Value} {datum : Datum} : value.Agrees closing datum →
      FlowsAgree closing (.returned value) (.returned datum)

namespace PairedState

variable {pair : PairedState} {scopes : Scopes} {scope : List String} {environment : Environment}

/-- A name that is new in its scope gets a cell of its own. -/
theorem Stands.declare {name : String} {fresh : List String}
    (stands : pair.Stands (scope :: scopes) (.inside environment)) (new : name ∉ scope)
    (declared : name ∈ fresh) :
    pair.Advances fresh (pair.place pair.machine.active name) ∧
      (pair.place pair.machine.active name).places pair.machine.active name =
        some pair.state.heap.length ∧
      (pair.place pair.machine.active name).Stands ((name :: scope) :: scopes)
        (.inside ((name, pair.state.heap.length) :: environment)) := by
  have matched := stands.reads.matched
  have linked := stands.reads.linked
  have absent : pair.places pair.machine.active name = none := by
    cases placed : pair.places pair.machine.active name with
    | none => rfl
    | some location =>
        obtain ⟨_, _, same, member⟩ := stands.own name location placed
        cases same
        exact absurd member new
  have advances : pair.Advances fresh (pair.place pair.machine.active name) :=
    matched.place (linked.ne_globals matched.top) (linked.lt_size matched.rooted) absent declared
  have placed : (pair.place pair.machine.active name).places pair.machine.active name =
      some pair.state.heap.length := if_pos ⟨rfl, rfl⟩
  refine ⟨advances, placed, ⟨advances.matched, ?_⟩, ?_, ?_⟩
  · exact linked.declare advances.kept placed
  · exact ⟨fun empty => (nomatch empty), fun top => (nomatch top)⟩
  · intro other location held
    refine ⟨name :: scope, scopes, rfl, ?_⟩
    change (if pair.machine.active = pair.machine.active ∧ other = name then
      some pair.state.heap.length else pair.places pair.machine.active other) =
        some location at held
    split at held
    · rename_i same
      exact List.mem_cons.mpr (Or.inl same.2)
    · obtain ⟨_, _, same, member⟩ := stands.own other location held
      cases same
      exact List.mem_cons_of_mem _ member

/-- A new frame adds a scope without names, and leaves the environment as it is. -/
theorem Matches.enterFrame {parent : FrameId} (matched : pair.Matches)
    (linked : Linked pair.places pair.machine.store pair.machine.globals parent scopes
      environment) :
    ((pair.extend parent).enter pair.machine.store.frames.size).Stands ([] :: scopes)
      (.inside environment) := by
  have extended : pair.Advances [] (pair.extend parent) := matched.extend parent
  refine ⟨⟨extended.matched.enter _, ?_⟩, ?_, ?_⟩
  · have found : (pair.machine.store.create (some parent)).2.parent?
        pair.machine.store.frames.size = some parent := by
      rw [Store.parent?_create, if_pos rfl]
    have none : ∀ name location, (name, location) ∈ ([] : Environment) →
        pair.places pair.machine.store.frames.size name = some location := by
      intro name location member
      cases member
    exact Linked.nest found none (extended.linked linked)
  · exact ⟨fun empty => (nomatch empty), fun top => (nomatch top)⟩
  · intro name location placed
    exact absurd (matched.inner _ _ _ placed).2 (Nat.lt_irrefl _)

/-- A name that is new in its scope gets a cell with a value. -/
theorem Stands.declareValue {name : String} {fresh : List String} {value : Value} {datum : Datum}
    (stands : pair.Stands (scope :: scopes) (.inside environment)) (new : name ∉ scope)
    (declared : name ∈ fresh)
    (agrees : value.Agrees (pair.place pair.machine.active name).closing datum) :
    pair.Advances fresh ((pair.place pair.machine.active name).storeLocal pair.machine.active
        name pair.state.heap.length value datum) ∧
      ((pair.place pair.machine.active name).storeLocal pair.machine.active name
        pair.state.heap.length value datum).Stands ((name :: scope) :: scopes)
        (.inside ((name, pair.state.heap.length) :: environment)) := by
  obtain ⟨advances, placed, stands'⟩ := stands.declare new declared
  refine ⟨advances.trans (advances.matched.storeLocal placed agrees), ?_⟩
  exact stands'.advance (advances.matched.storeLocal placed agrees)

/-- Parameters get cells with their arguments, one by one. -/
theorem Stands.bindParameters {parameters : List Token} {arguments : List Value}
    {data : List Datum} (stands : pair.Stands (scope :: scopes) (.inside environment))
    (agrees : Value.AgreesAll pair.closing arguments data)
    (counted : arguments.length = parameters.length)
    (distinct : (parameters.map Token.lexeme).Nodup)
    (new : ∀ name, name ∈ parameters.map Token.lexeme → name ∉ scope) :
    ∃ later environment', pair.Advances (parameters.map Token.lexeme) later ∧
      later.machine = { pair.machine with
        store := pair.machine.store.bindArguments pair.machine.active parameters arguments } ∧
      Reference.bindParameters parameters data environment pair.state =
        .value environment' later.state ∧
      later.Stands ((parameterNames parameters ++ scope) :: scopes) (.inside environment') := by
  induction parameters generalizing pair scope environment arguments data with
  | nil => exact ⟨pair, environment, .refl stands.reads.matched, rfl, rfl, stands⟩
  | cons parameter rest ih =>
      cases agrees with
      | nil => cases counted
      | @cons argument datum others others' first following =>
          obtain ⟨unrepeated, distinct'⟩ := List.nodup_cons.mp distinct
          have declared : parameter.lexeme ∈ (parameter :: rest).map Token.lexeme :=
            List.mem_cons_self
          have placed := (stands.declare (new _ declared) declared).1
          obtain ⟨advances, stands'⟩ := stands.declareValue (new _ declared) declared
            (placed.agrees first)
          have new' : ∀ name, name ∈ rest.map Token.lexeme → name ∉ parameter.lexeme :: scope := by
            intro name member inside
            rcases List.mem_cons.mp inside with same | old
            · exact unrepeated (same ▸ member)
            · exact new name (List.mem_cons_of_mem _ member) old
          obtain ⟨later, environment', advances', machine, state, last⟩ :=
            ih stands' (advances.agreesAll following) (Nat.succ.inj counted) distinct' new'
          refine ⟨later, environment', ?_, machine, state, ?_⟩
          · exact advances.trans (advances'.mono fun name member => List.mem_cons_of_mem _ member)
          · have names : parameterNames (parameter :: rest) ++ scope =
                parameterNames rest ++ parameter.lexeme :: scope := by
              simp [parameterNames]
            rw [names]
            exact last

end PairedState

namespace Exec

variable {α β : Type} {pair : PairedState} {fresh : List String}

/-- Code that runs in a frame of its own: the frame is made and left by the machine alone. -/
theorem within_mirrors {creation : Exec FrameId} {body : Exec Flow}
    {reference reference' : Run Reference.Flow} {inner : PairedState} {names : List String}
    (inside : body.Mirrors reference inner names
      (fun later flow flow' => FlowsAgree later.closing flow flow'))
    (made : pair.Advances [] (inner.enter pair.machine.active))
    (newer : pair.machine.store.frames.size ≤ inner.machine.active)
    (created : creation pair.machine =
      .value inner.machine.active (inner.enter pair.machine.active).machine)
    (prepared : reference' pair.state = reference inner.state) :
    (creation >>= fun frame => within frame body).Mirrors reference' pair fresh
      (fun later flow flow' => FlowsAgree later.closing flow flow') := by
  unfold Mirrors at inside ⊢
  rw [Attempt.bind_apply, created, prepared]
  dsimp only [within, PairedState.enter]
  generalize body inner.machine = outcome, reference inner.state = outcome' at inside ⊢
  cases inside with
  | @value later _ _ advances agree =>
      have left : pair.Advances fresh (later.enter pair.machine.active) :=
        made.leave newer advances
      exact .value left agree
  | @failure later _ _ advances same =>
      have left : pair.Advances fresh (later.enter pair.machine.active) :=
        made.leave newer advances
      exact .failure left same
  | exhausted => exact .exhausted

end Exec

end LexicalScript
