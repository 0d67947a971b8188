import LexicalScript.Session
import LexicalScript.Text.Blank

/-!
The prompt: source texts read line by line.

Each line is run as a text of its own, and its diagnostics are written to the console.  Blank
lines are passed over, and a line that says `exit` or `quit` ends the prompt, as the end of the
input does.  The console is either a text of its own, which takes everything, or the sink that the
program prints to.
-/

set_option autoImplicit false

namespace LexicalScript

/-- A machine with its console; without a text of its own the console is the machine's sink. -/
structure Terminal where
  machine : Machine
  console : Option String

abbrev Prompting (α : Type) : Type := Attempt IoError Terminal α

namespace Prompting

def say (text : String) : Prompting Unit := fun terminal =>
  match terminal.console with
  | some written => .value () { terminal with console := some (written ++ text) }
  | none =>
      let (error, sink) := terminal.machine.sink.write text
      let terminal := { terminal with machine := { terminal.machine with sink := sink } }
      match error with
      | none => .value () terminal
      | some error => .failure error terminal

def flush : Prompting Unit := fun terminal =>
  match terminal.console with
  | some _ => .value () terminal
  | none =>
      match terminal.machine.sink.flush with
      | none => .value () terminal
      | some error => .failure error terminal

def ask : Prompting Unit := do
  say "> "
  flush

def runLine (fuel : Nat) (line : String) : Prompting Status := fun terminal =>
  match runSource fuel line terminal.machine with
  | some (status, machine) => .value status { terminal with machine := machine }
  | none => .exhausted

def tell : List Diagnostic → Prompting Unit
  | [] => return ()
  | diagnostic :: rest => do
      say (diagnostic.text ++ "\n")
      tell rest

def isFarewell (line : List Char) : Bool :=
  Text.sameIgnoringCase line "exit".toList || Text.sameIgnoringCase line "quit".toList

/-- Runs a line, unless it is blank or ends the prompt, and says whether the prompt goes on.  Where
no line is left, the open prompt is closed. -/
def hear (fuel : Nat) : Option (List UInt8) → Prompting Bool
  | none => do
      say "\n"
      return false
  | some octets => do
      match Text.Utf8.decode octets with
      | .error _ => Attempt.fail .invalidText
      | .ok characters =>
          let line := Text.trim characters
          if line.isEmpty then return true
          else if isFarewell line then return false
          else
            let status ← runLine fuel (String.ofList line)
            tell status.diagnostics
            return true

def converse (fuel : Nat) : List (List UInt8) → Prompting Unit
  | [] => do
      ask
      let _ ← hear fuel none
      return ()
  | line :: rest => do
      ask
      if ← hear fuel (some line) then converse fuel rest else return ()

def note (event : Event) : Prompting Unit := fun terminal =>
  .value () { terminal with machine := terminal.machine.note event }

end Prompting

def holdPrompt (fuel : Nat) (input : List UInt8) : Prompting Unit := do
  Prompting.note .promptStarted
  Prompting.converse fuel (Text.lines input)
  Prompting.note .promptClosed

end LexicalScript
