import LexicalScript.Value

/-!
The store of frames.

A frame binds names to values and may have a parent.  Frames are numbered in order of creation and
never removed, and every frame is created after its parent.  A name is found either along the
chain of parents or in the frame that lies a given number of hops out.
-/

set_option autoImplicit false

namespace LexicalScript

/-! ### Errors of a run -/

inductive RuntimeCause where
  /-- A name without a binding, looked for along the chain or the given number of hops out. -/
  | undefinedVariable (name : String) (hops : Option Nat)
  | operandNotNumber
  | operandsNotNumbers
  | operandsNotAddable
  | divisionByZero
  | unaryOperator (lexeme : String)
  | binaryOperator (lexeme : String)
  | notCallable
  | arity (expected actual : Nat)
  | notIndexable
  | indexNotNumber
  | indexOutOfBounds
  /-- A native function failed with a message of its own. -/
  | native (message : String)
  deriving DecidableEq, Repr

def RuntimeCause.message : RuntimeCause → String
  | .undefinedVariable name _ => "Undefined variable '" ++ name ++ "'."
  | .operandNotNumber => "Operand must be a number."
  | .operandsNotNumbers => "Operands must be numbers."
  | .operandsNotAddable => "Operands must be two numbers or two strings."
  | .divisionByZero => "Division by zero."
  | .unaryOperator lexeme => "Invalid unary operator '" ++ lexeme ++ "'."
  | .binaryOperator lexeme => "Invalid binary operator '" ++ lexeme ++ "'."
  | .notCallable => "Can only call functions."
  | .arity expected actual => s!"Expected {expected} arguments but got {actual}."
  | .notIndexable => "Only lists have indices."
  | .indexNotNumber => "Index must be a number."
  | .indexOutOfBounds => "Index out of bounds."
  | .native message => message

structure RuntimeError where
  cause : RuntimeCause
  line : Nat
  deriving DecidableEq, Repr

/-! ### Frames -/

/-- Names with their values, in order of first binding. -/
abbrev Bindings := List (String × Value)

def Bindings.get? (bindings : Bindings) (name : String) : Option Value :=
  bindings.lookup name

def Bindings.insert (name : String) (value : Value) : Bindings → Bindings
  | [] => [(name, value)]
  | (other, old) :: rest =>
      if other = name then (name, value) :: rest else (other, old) :: insert name value rest

namespace Bindings

theorem get?_insert_self (name : String) (value : Value) (bindings : Bindings) :
    (insert name value bindings).get? name = some value := by
  induction bindings with
  | nil => simp [insert, get?]
  | cons entry rest ih =>
      obtain ⟨other, old⟩ := entry
      unfold insert
      split
      · simp [get?]
      · rename_i different
        have unequal : (name == other) = false := beq_false_of_ne (Ne.symm different)
        simpa [get?, List.lookup_cons, unequal] using ih

theorem get?_insert_of_ne {name other : String} (different : other ≠ name) (value : Value)
    (bindings : Bindings) : (insert name value bindings).get? other = bindings.get? other := by
  have unequal : (other == name) = false := beq_false_of_ne different
  induction bindings with
  | nil => simp [insert, get?, List.lookup_cons, unequal]
  | cons entry rest ih =>
      obtain ⟨first, old⟩ := entry
      unfold insert
      split
      · rename_i same
        subst same
        simp [get?, List.lookup_cons, unequal]
      · cases found : other == first with
        | true => simp [get?, List.lookup_cons, found]
        | false => simpa [get?, List.lookup_cons, found] using ih

end Bindings

structure Frame where
  bindings : Bindings
  parent : Option FrameId
  deriving Repr

/-- All frames, and the next unused object identity. -/
structure Store where
  frames : Array Frame
  fresh : Identity
  deriving Repr

namespace Store

def empty : Store := ⟨#[], 0⟩

def create (store : Store) (parent : Option FrameId) : FrameId × Store :=
  (store.frames.size, { store with frames := store.frames.push ⟨[], parent⟩ })

def identify (store : Store) : Identity × Store :=
  (store.fresh, { store with fresh := store.fresh + 1 })

def parent? (store : Store) (frame : FrameId) : Option FrameId :=
  store.frames[frame]?.bind Frame.parent

def local? (store : Store) (frame : FrameId) (name : String) : Option Value :=
  store.frames[frame]?.bind fun found => found.bindings.get? name

def names (store : Store) (frame : FrameId) : List String :=
  match store.frames[frame]? with
  | none => []
  | some found => found.bindings.map Prod.fst

def define (store : Store) (frame : FrameId) (name : String) (value : Value) : Store :=
  { store with
    frames := store.frames.modify frame fun found =>
      { found with bindings := Bindings.insert name value found.bindings } }

def ancestor? (store : Store) (frame : FrameId) : Nat → Option FrameId
  | 0 => some frame
  | hops + 1 =>
      match store.parent? frame with
      | none => none
      | some parent => store.ancestor? parent hops

/-- The nearest frame along the chain that binds a name, looking at no more than `limit` frames. -/
def ownerWithin? (store : Store) (name : String) : Nat → FrameId → Option FrameId
  | 0, _ => none
  | limit + 1, frame =>
      match store.local? frame name with
      | some _ => some frame
      | none =>
          match store.parent? frame with
          | none => none
          | some parent => store.ownerWithin? name limit parent

/-- The nearest frame along the chain that binds a name.  Parents are older than their frames, so a
chain has no more frames than the number of its first one admits. -/
def owner? (store : Store) (frame : FrameId) (name : String) : Option FrameId :=
  store.ownerWithin? name (frame + 1) frame

def undefinedVariable (name : Token) (hops : Option Nat) : RuntimeError :=
  ⟨.undefinedVariable name.lexeme hops, name.line⟩

def get (store : Store) (frame : FrameId) (name : Token) : Except RuntimeError Value :=
  match (store.owner? frame name.lexeme).bind fun owner => store.local? owner name.lexeme with
  | some value => .ok value
  | none => .error (undefinedVariable name none)

/-- Replaces the nearest binding of a name along the chain. -/
def assign (store : Store) (frame : FrameId) (name : Token) (value : Value) :
    Except RuntimeError Store :=
  match store.owner? frame name.lexeme with
  | some owner => .ok (store.define owner name.lexeme value)
  | none => .error (undefinedVariable name none)

def getAt (store : Store) (frame : FrameId) (hops : Nat) (name : Token) :
    Except RuntimeError Value :=
  match (store.ancestor? frame hops).bind fun owner => store.local? owner name.lexeme with
  | some value => .ok value
  | none => .error (undefinedVariable name (some hops))

/-- Binds a name in the frame a number of hops out, whether it is bound there or not. -/
def assignAt (store : Store) (frame : FrameId) (hops : Nat) (name : Token) (value : Value) :
    Except RuntimeError Store :=
  match store.ancestor? frame hops with
  | some owner => .ok (store.define owner name.lexeme value)
  | none => .error (undefinedVariable name (some hops))

def makeList (store : Store) (elements : List Value) : Value × Store :=
  let (identity, store) := store.identify
  (.list identity elements, store)

def makeNative (store : Store) (native : Native) : Value × Store :=
  let (identity, store) := store.identify
  (.native identity native, store)

def makeFunction (store : Store) (declaration : Declaration) (closure : FrameId) :
    Value × Store :=
  let (identity, store) := store.identify
  (.function identity declaration closure, store)

/-! ### Laws of frames -/

theorem size_define (store : Store) (frame : FrameId) (name : String) (value : Value) :
    (store.define frame name value).frames.size = store.frames.size := by
  simp [define]

theorem parent?_define (store : Store) (frame other : FrameId) (name : String) (value : Value) :
    (store.define frame name value).parent? other = store.parent? other := by
  unfold parent? define
  rw [Array.getElem?_modify]
  split
  · cases store.frames[other]? <;> rfl
  · rfl

theorem local?_define_self (store : Store) {frame : FrameId} (created : frame < store.frames.size)
    (name : String) (value : Value) :
    (store.define frame name value).local? frame name = some value := by
  unfold local? define
  rw [Array.getElem?_modify, if_pos rfl, Array.getElem?_eq_getElem created]
  exact Bindings.get?_insert_self name value _

theorem local?_define_of_ne (store : Store) {frame other : FrameId} {name second : String}
    (different : other ≠ frame ∨ second ≠ name) (value : Value) :
    (store.define frame name value).local? other second = store.local? other second := by
  unfold local? define
  rw [Array.getElem?_modify]
  split
  · rename_i same
    have unequal : second ≠ name := different.resolve_left (fun apart => apart same.symm)
    cases store.frames[other]? with
    | none => rfl
    | some found => exact Bindings.get?_insert_of_ne unequal value found.bindings
  · rfl

theorem parent?_create (store : Store) (parent : Option FrameId) (frame : FrameId) :
    (store.create parent).2.parent? frame =
      if frame = store.frames.size then parent else store.parent? frame := by
  unfold parent? create
  rw [Array.getElem?_push]
  split <;> rfl

theorem local?_create (store : Store) (parent : Option FrameId) (frame : FrameId) (name : String) :
    (store.create parent).2.local? frame name = store.local? frame name := by
  unfold local? create
  rw [Array.getElem?_push]
  split
  · rename_i same
    rw [same, Array.getElem?_size]
    rfl
  · rfl

end Store

end LexicalScript
