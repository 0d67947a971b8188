/-!
Where printed text goes.

A sink takes text up to and including a given number of line feeds and refuses every character after
that; a sink without such a bound takes everything.  Flushing a sink may fail as well.
-/

set_option autoImplicit false

namespace LexicalScript

inductive IoError where
  | sinkFull
  | flushFailed
  /-- A stream of text held octets that are not UTF-8. -/
  | invalidText
  | notFound
  | isDirectory
  /-- Any other failure of the operating system, with its own message. -/
  | host (message : String)
  deriving DecidableEq, Repr

def IoError.message : IoError → String
  | .sinkFull => "sink full"
  | .flushFailed => "flush failed"
  | .invalidText => "stream did not contain valid UTF-8"
  | .notFound => "No such file or directory (os error 2)"
  | .isDirectory => "Is a directory (os error 21)"
  | .host message => message

/-- The text taken so far, how many more line feeds are taken, and whether flushing fails. -/
structure Sink where
  accepted : String
  capacity : Option Nat
  flushFails : Bool
  deriving DecidableEq, Repr

/-- The part of a text up to and including a number of line feeds, and how many of them are left. -/
def admitted : Nat → List Char → List Char × Nat
  | 0, _ => ([], 0)
  | capacity + 1, [] => ([], capacity + 1)
  | capacity + 1, char :: rest =>
      let (taken, left) := admitted (if char = '\n' then capacity else capacity + 1) rest
      (char :: taken, left)

theorem admitted_isPrefix (capacity : Nat) (text : List Char) :
    (admitted capacity text).1 <+: text := by
  induction text generalizing capacity with
  | nil => cases capacity <;> exact List.prefix_rfl
  | cons char rest ih =>
      cases capacity with
      | zero => exact List.nil_prefix
      | succ capacity => exact (List.prefix_cons_inj char).mpr (ih _)

theorem count_admitted (capacity : Nat) (text : List Char) :
    (admitted capacity text).1.count '\n' + (admitted capacity text).2 = capacity := by
  induction text generalizing capacity with
  | nil =>
      cases capacity with
      | zero => rfl
      | succ capacity => exact Nat.zero_add _
  | cons char rest ih =>
      cases capacity with
      | zero => rfl
      | succ capacity =>
          by_cases feed : char = '\n'
          · subst feed
            have inner := ih capacity
            simp only [admitted, if_pos, List.count_cons_self]
            omega
          · have inner := ih (capacity + 1)
            simp only [admitted, if_neg feed, List.count_cons_of_ne feed]
            exact inner

namespace Sink

def unbounded : Sink := ⟨"", none, false⟩

/-- Takes as much of a text as the sink admits, and fails if that is not all of it. -/
def write (sink : Sink) (text : String) : Option IoError × Sink :=
  match sink.capacity with
  | none => (none, { sink with accepted := sink.accepted ++ text })
  | some capacity =>
      let characters := text.toList
      let (taken, left) := admitted capacity characters
      let sink :=
        { sink with accepted := sink.accepted ++ String.ofList taken, capacity := some left }
      if taken.length = characters.length then (none, sink) else (some .sinkFull, sink)

def flush (sink : Sink) : Option IoError :=
  if sink.flushFails then some .flushFailed else none

def drain (sink : Sink) : String × Sink :=
  (sink.accepted, { sink with accepted := "" })

end Sink

end LexicalScript
