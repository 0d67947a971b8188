import LexicalScript.Attempt
import LexicalScript.Journal

/-!
The machine that runs programs, and its primitive steps.

A machine holds the store of frames with the global and the active one, the sink for printed text,
the readings of its clock, and the journal.  Rules that enter a frame leave it again however they
end.
-/

set_option autoImplicit false

namespace LexicalScript

/-- What a clock gives each time it is read: the seconds, or what went wrong. -/
abbrev Readings := Nat → Except String Float

/-- A clock by its readings, and how many of them have been taken. -/
structure Clock where
  readings : Readings
  taken : Nat

def Clock.read (clock : Clock) : Except String Float × Clock :=
  (clock.readings clock.taken, { clock with taken := clock.taken + 1 })

structure Machine where
  store : Store
  globals : FrameId
  active : FrameId
  sink : Sink
  clock : Clock
  journal : Journal

namespace Machine

def note (machine : Machine) (event : Event) : Machine :=
  { machine with journal := machine.journal.record event }

def noteAll (machine : Machine) (events : Unit → List Event) : Machine :=
  { machine with journal := machine.journal.recordAll events }

/-- A machine whose global frame binds the clock and nothing else. -/
def new (sink : Sink) (readings : Readings) (journal : Journal) : Machine :=
  let (globals, store) := Store.empty.create none
  let (clock, store) := store.makeNative .clock
  { store := store.define globals Native.clock.name clock
    globals := globals
    active := globals
    sink := sink
    clock := ⟨readings, 0⟩
    journal := (journal.record .machineCreated).record (.nativeDefined Native.clock.name) }

def defineGlobal (machine : Machine) (name : String) (value : Value) : Machine :=
  { machine with store := machine.store.define machine.globals name value }

def globalNames (machine : Machine) : List String := machine.store.names machine.globals

end Machine

abbrev Exec (α : Type) : Type := Attempt Fault Machine α

namespace Exec

@[inline]
def note (event : Event) : Exec Unit := fun machine => .value () (machine.note event)

def raise {α : Type} (error : RuntimeError) : Exec α := fun machine =>
  .failure (.runtime error) (machine.note (.runtimeError error))

@[inline]
def ofExcept {α : Type} : Except RuntimeError α → Exec α
  | .ok result => pure result
  | .error error => raise error

def write (text : String) : Exec Unit := fun machine =>
  match machine.sink.write text with
  | (none, sink) => .value () { machine with sink := sink }
  | (some error, sink) => .failure (.output error) { machine with sink := sink }

/-- The value of a name: hops out from the active frame if the depth is known, else global. -/
def readVariable (name : Token) (depth : Option Nat) : Exec Value := fun machine =>
  let result := match depth with
    | some hops => machine.store.getAt machine.active hops name
    | none => machine.store.get machine.globals name
  ofExcept result machine

/-- The frame in which a name is assigned: hops out from the active frame if the depth is known,
else the global frame if it binds the name. -/
def target? (machine : Machine) (name : Token) : Option Nat → Option FrameId
  | some hops => machine.store.ancestor? machine.active hops
  | none => machine.store.owner? machine.globals name.lexeme

def assignVariable (name : Token) (depth : Option Nat) (value : Value) : Exec Unit := fun machine =>
  match target? machine name depth with
  | some owner =>
      .value () { machine with store := machine.store.define owner name.lexeme value }
  | none => raise (Store.undefinedVariable name depth) machine

theorem assignVariable_some (name : Token) (hops : Nat) (value : Value) (machine : Machine) :
    assignVariable name (some hops) value machine =
      match machine.store.assignAt machine.active hops name value with
      | .ok store => .value () { machine with store := store }
      | .error error => raise error machine := by
  simp only [assignVariable, target?, Store.assignAt]
  cases machine.store.ancestor? machine.active hops with
  | none => rfl
  | some owner => rfl

theorem assignVariable_none (name : Token) (value : Value) (machine : Machine) :
    assignVariable name none value machine =
      match machine.store.assign machine.globals name value with
      | .ok store => .value () { machine with store := store }
      | .error error => raise error machine := by
  simp only [assignVariable, target?, Store.assign]
  cases machine.store.owner? machine.globals name.lexeme with
  | none => rfl
  | some owner => rfl

def defineVariable (name : String) (value : Value) : Exec Unit := fun machine =>
  .value () { machine with store := machine.store.define machine.active name value }

def makeList (elements : List Value) : Exec Value := fun machine =>
  let (value, store) := machine.store.makeList elements
  .value value { machine with store := store }

def makeFunction (declaration : Declaration) : Exec Value := fun machine =>
  let (value, store) := machine.store.makeFunction declaration machine.active
  .value value { machine with store := store }

/-- The seconds that the clock reads, or an error at the line. -/
def readClock (line : Nat) : Exec Value := fun machine =>
  let (reading, clock) := machine.clock.read
  let result := (reading.map Value.number).mapError fun problem =>
    RuntimeError.mk (.native ("Clock error: " ++ problem)) line
  ofExcept result { machine with clock := clock }

/-- The value that the host replies with. -/
def takeReply (arguments : List Value) (reply : Reply) : Exec Value := fun machine =>
  let (value, fresh) := reply.build arguments machine.store.fresh
  .value value { machine with store := { machine.store with fresh := fresh } }

def nestedFrame : Exec FrameId := fun machine =>
  let (frame, store) := machine.store.create (some machine.active)
  .value frame { machine with store := store }

/-- Makes a frame inside the closure of a function and binds its parameters to arguments there.
Arguments without a parameter are dropped, and parameters without an argument stay unbound. -/
def callFrame (declaration : Declaration) (closure : FrameId) (arguments : List Value) :
    Exec FrameId := fun machine =>
  let (frame, store) := machine.store.create (some closure)
  let store := (declaration.parameters.zip arguments).foldl
    (fun store (parameter, argument) => store.define frame parameter.lexeme argument) store
  .value frame { machine with store := store }

/-- Runs a body with another frame active, and makes the old one active again however it ends. -/
@[inline]
def within {α : Type} (frame : FrameId) (body : Exec α) : Exec α := fun machine =>
  let outer := machine.active
  match body { machine with active := frame } with
  | .value result machine => .value result { machine with active := outer }
  | .failure fault machine => .failure fault { machine with active := outer }
  | .exhausted => .exhausted

end Exec

end LexicalScript
