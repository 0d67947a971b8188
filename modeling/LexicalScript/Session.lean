import LexicalScript.Machine.Evaluate
import LexicalScript.Parser.Statement
import LexicalScript.Scope

/-!
Running source texts one after the other on one machine.

A text with a lexical error is not run at all.  Parse errors are reported and the statements that
did parse are run.  A resolve error prevents the run, and a fault ends it.  What one text declares
is there for the next.  Every function gives nothing exactly when the fuel did not suffice.
-/

set_option autoImplicit false

namespace LexicalScript

/-- A depth of recursion that no run on a real machine reaches. -/
def ampleFuel : Nat := 1000000000000000000

structure Status where
  static : List Diagnostic
  fault : Option Fault
  deriving Repr

namespace Status

def isOk (status : Status) : Bool := status.static.isEmpty && status.fault.isNone

/-- Every diagnostic, static ones first. -/
def diagnostics (status : Status) : List Diagnostic :=
  status.static ++ (status.fault.map Fault.diagnostic).toList

def staticExit : Nat := 65

def runtimeExit : Nat := 70

def exitCode (status : Status) : Nat :=
  if status.fault.isSome then runtimeExit
  else if status.static.isEmpty then 0
  else staticExit

end Status

def scanEvents (source : String) : List Event :=
  let items := scan source
  let ending := match splitItems items with
    | (tokens, none) => [Event.scanned tokens.length]
    | (_, some _) => []
  .scanning source.utf8ByteSize :: Event.ofItems items ++ ending

/-- Runs statements on a machine and gives the status with the static errors found before. -/
def runStatements (fuel : Nat) (errors : List Diagnostic) (statements : List Stmt)
    (machine : Machine) : Option (Status × Machine) :=
  let resolved := (Resolver.ofGlobals machine.globalNames).resolve statements
  let machine := machine.noteAll fun _ => resolved.notes.map .resolver
  match resolved.error with
  | some error => some (⟨errors ++ [.resolve error], none⟩, machine)
  | none =>
      match interpret fuel resolved.statements machine with
      | .value _ machine => some (⟨errors, none⟩, machine)
      | .failure fault machine => some (⟨errors, some fault⟩, machine.note (.runFailed fault))
      | .exhausted => none

def runSource (fuel : Nat) (source : String) (machine : Machine) : Option (Status × Machine) :=
  let machine := machine.noteAll fun _ => scanEvents source
  match tokens? source with
  | .error error => some (⟨[.lexical error], none⟩, machine)
  | .ok tokens =>
      let parsed := Parser.program tokens
      let machine := machine.noteAll fun _ => parsed.notes.map .parser
      let errors := parsed.errors.map Diagnostic.parse
      if parsed.statements.isEmpty then some (⟨errors, none⟩, machine.note .nothingToRun)
      else runStatements fuel errors parsed.statements machine

def runContents (fuel : Nat) (path : String) (contents : Except IoError (List UInt8))
    (machine : Machine) : Option (Except Diagnostic Status × Machine) :=
  let machine := machine.note (.readingFile path)
  match contents with
  | .error error => some (.error (.transfer error), machine)
  | .ok octets =>
      match Text.Utf8.decode octets with
      | .error fault => some (.error (.encoding fault), machine)
      | .ok characters =>
          let machine := machine.note (.fileRead path octets.length)
          (runSource fuel (String.ofList characters) machine).map fun (status, machine) =>
            (.ok status, machine)

def readExpression (source : String) : Except Diagnostic Expr × (Unit → List Event) :=
  match tokens? source with
  | .error error => (.error (.lexical error), fun _ => scanEvents source)
  | .ok tokens =>
      let (result, notes) := Parser.single tokens
      (result.mapError Diagnostic.parse, fun _ => scanEvents source ++ notes.map .parser)

end LexicalScript
