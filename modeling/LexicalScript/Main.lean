import LexicalScript.CommandLine
import Std.Time.DateTime.Timestamp

/-!
The program: reads what the command line asks for, and writes what it answers.

Files and the clock are read before a command is carried out.  At the prompt, each line is read,
carried out and answered before the next one, with a fresh reading of the clock.
-/

set_option autoImplicit false

namespace LexicalScript

def IoError.ofHost : IO.Error → IoError
  | .noFileOrDirectory .. => .notFound
  | .inappropriateType .. => .isDirectory
  | error => .host error.toString

def readHostFile (path : String) : IO (Except IoError (List UInt8)) := do
  try
    let octets ← IO.FS.readBinFile path
    return .ok octets.toList
  catch error => return .error (.ofHost error)

def createHostFile (path : String) : IO (Option IoError) := do
  try
    IO.FS.writeFile path ""
    return none
  catch error => return some (.ofHost error)

def hostReading : IO (Except String Float) := do
  let now ← Std.Time.Timestamp.now
  let nanoseconds := now.toNanosecondsSinceUnixEpoch.val
  if nanoseconds < 0 then return .error "second time provided was later than self"
  else return .ok (Float.ofInt nanoseconds / 1000000000)

def Command.path? : Command → Option String
  | .tokenize path _ => some path
  | .parse path => some path
  | .evaluate path => some path
  | .run path => some path
  | .prompt => none

def gatherFiles (invocation : Invocation) : IO Files := do
  let created ← match invocation.log with
    | none => pure none
    | some path => createHostFile path
  let contents ← match invocation.command.path? with
    | none => pure (.error .notFound)
    | some path => readHostFile path
  return ⟨fun _ => contents, fun _ => created⟩

def Journal.text (journal : Journal) : String :=
  CommandLine.asLines (journal.events.toList.map fun event =>
    let (_, component, message) := event.entry
    "[" ++ component.name ++ "] - " ++ message)

def finish (log : Option String) : Option Completion → IO UInt32
  | none => do
      IO.eprintln "error: recursion too deep"
      return 1
  | some completion => do
      (← IO.getStdout).putStr completion.output
      (← IO.getStderr).putStr completion.errors
      match log with
      | none => pure ()
      | some path => IO.FS.writeFile path completion.journal.text
      return UInt32.ofNat completion.exit

/-- The next line of a stream, if there is one, given octets that were read before. -/
partial def nextLine (stream : IO.FS.Stream) (pending : List UInt8) :
    IO (Option (List UInt8) × List UInt8) := do
  match pending.dropWhile (· ≠ 10) with
  | _ :: rest => return ((Text.lines (pending.takeWhile (· ≠ 10) ++ [10])).head?, rest)
  | [] =>
      let chunk ← stream.read 4096
      if chunk.isEmpty then return ((Text.lines pending).head?, [])
      else nextLine stream (pending ++ chunk.toList)

def showOutput (terminal : Terminal) : IO Terminal := do
  let (text, sink) := terminal.machine.sink.drain
  let stdout ← IO.getStdout
  stdout.putStr text
  stdout.flush
  return { terminal with machine := { terminal.machine with sink := sink } }

def showStep {α : Type} (step : Prompting α) (terminal : Terminal) :
    IO (Except Completion (α × Terminal)) := do
  match step terminal with
  | .value result terminal => return .ok (result, ← showOutput terminal)
  | .failure error terminal =>
      let terminal ← showOutput terminal
      return .error
        (CommandLine.failed "Prompt failed" error.message "" terminal.machine.journal)
  | .exhausted =>
      return .error ⟨1, "", "error: recursion too deep\n", terminal.machine.journal⟩

partial def promptHost (stdin : IO.FS.Stream) (pending : List UInt8) (terminal : Terminal) :
    IO Completion := do
  match ← showStep Prompting.ask terminal with
  | .error completion => return completion
  | .ok (_, terminal) =>
      let (line, pending) ← nextLine stdin pending
      let reading ← hostReading
      let terminal :=
        { terminal with machine := { terminal.machine with clock := ⟨fun _ => reading, 0⟩ } }
      match ← showStep (Prompting.hear ampleFuel line) terminal with
      | .error completion => return completion
      | .ok (true, terminal) => promptHost stdin pending terminal
      | .ok (false, terminal) =>
          return ⟨0, "", "", (terminal.machine.note .promptClosed).journal⟩

def startPrompt (log : Option String) : IO UInt32 := do
  let journal := match log with
    | none => Journal.silent
    | some _ => Journal.keeping .debug
  let machine := (Machine.new .unbounded (fun _ => .ok 0) journal).note .promptStarted
  let completion ← promptHost (← IO.getStdin) [] ⟨machine, none⟩
  finish log (some completion)

def answerRequest (request : Request) : IO UInt32 := do
  match request with
  | .version =>
      (← IO.getStdout).putStr CommandLine.versionText
      return 0
  | .invoke invocation =>
      let files ← gatherFiles invocation
      let log := invocation.log.filter fun path => (files.create path).isNone
      if invocation.command = .prompt ∧ log = invocation.log then startPrompt log
      else
        let reading ← hostReading
        finish log (CommandLine.respond ampleFuel (fun _ => reading) files [] request)

end LexicalScript

def main (arguments : List String) : IO UInt32 := do
  match LexicalScript.Request.ofArguments? arguments with
  | none =>
      IO.eprintln "error: unexpected arguments"
      return 2
  | some request => LexicalScript.answerRequest request
