import LexicalScript.Prompt
import LexicalScript.Tree.Printer

/-!
The command line: what the program does with its arguments, given the files it can read and its
standard input.
-/

set_option autoImplicit false

namespace LexicalScript

inductive Command where
  | tokenize (path : String) (json : Bool)
  | parse (path : String)
  | evaluate (path : String)
  | run (path : String)
  | prompt
  deriving DecidableEq, Repr

structure Invocation where
  command : Command
  log : Option String
  deriving DecidableEq, Repr

inductive Request where
  | version
  | invoke (invocation : Invocation)
  deriving DecidableEq, Repr

structure Arguments where
  operands : List String
  json : Bool
  log : Option String
  version : Bool

/-- Sorts arguments; nothing if an option is unknown or lacks its value. -/
def Arguments.sort (sorted : Arguments) : List String → Option Arguments
  | [] => some sorted
  | "--json" :: rest => sort { sorted with json := true } rest
  | "--version" :: rest => sort { sorted with version := true } rest
  | "-V" :: rest => sort { sorted with version := true } rest
  | "--log" :: path :: rest => sort { sorted with log := some path } rest
  | argument :: rest =>
      if "--log=".toList.isPrefixOf argument.toList then
        sort { sorted with log := some (String.ofList (argument.toList.drop 6)) } rest
      else if argument.startsWith "-" then none
      else sort { sorted with operands := sorted.operands ++ [argument] } rest

def Command.ofOperands? (json : Bool) : List String → Option Command
  | ["tokenize", path] => some (.tokenize path json)
  | ["parse", path] => if json then none else some (.parse path)
  | ["evaluate", path] => if json then none else some (.evaluate path)
  | ["run", path] => if json then none else some (.run path)
  | ["repl"] => if json then none else some .prompt
  | [] => if json then none else some .prompt
  | _ => none

def Request.ofArguments? (arguments : List String) : Option Request :=
  (Arguments.sort ⟨[], false, none, false⟩ arguments).bind fun sorted =>
    if sorted.version then some .version
    else (Command.ofOperands? sorted.json sorted.operands).map fun command =>
      .invoke ⟨command, sorted.log⟩

/-- The files around the program: what reading one gives, and why creating one fails. -/
structure Files where
  read : String → Except IoError (List UInt8)
  create : String → Option IoError

structure Completion where
  exit : Nat
  output : String
  errors : String
  journal : Journal

namespace CommandLine

def versionText : String := "rox 0.1.0\n"

def failureText (attempt cause : String) : String :=
  "Error: " ++ attempt ++ "\n\nCaused by:\n    " ++ cause ++ "\n"

def failed (attempt cause output : String) (journal : Journal) : Completion :=
  ⟨1, output, failureText attempt cause, journal⟩

def asLines (texts : List String) : String :=
  String.join (texts.map (· ++ "\n"))

def readText (files : Files) (path : String) : Except IoError String :=
  match files.read path with
  | .error error => .error error
  | .ok octets =>
      match Text.Utf8.decode octets with
      | .error _ => .error .invalidText
      | .ok characters => .ok (String.ofList characters)

def tokenize (json : Bool) (source : String) (journal : Journal) : Completion :=
  let items := scan source
  let tokens := items.filterMap fun
    | .ok token => some (if json then token.json else token.text)
    | .error _ => none
  let errors := items.filterMap fun
    | .ok _ => none
    | .error error => some (Diagnostic.lexical error).text
  { exit := if errors.isEmpty then 0 else Status.staticExit
    output := asLines tokens
    errors := asLines errors
    journal := journal.recordAll fun _ => scanEvents source }

def parse (source : String) (journal : Journal) : Completion :=
  let journal := journal.recordAll fun _ => scanEvents source
  match tokens? source with
  | .error error =>
      ⟨Status.staticExit, "", asLines [(Diagnostic.lexical error).text], journal⟩
  | .ok tokens =>
      let parsed := Parser.program tokens
      { exit := if parsed.isClean then 0 else Status.staticExit
        output := asLines (parsed.statements.map Stmt.text)
        errors := asLines (parsed.errors.map fun error => (Diagnostic.parse error).text)
        journal := journal.recordAll fun _ => parsed.notes.map .parser }

def evaluateSource (fuel : Nat) (readings : Readings) (source : String) (journal : Journal) :
    Option Completion :=
  let (result, events) := readExpression source
  let journal := journal.recordAll events
  match result with
  | .error diagnostic => some ⟨Status.staticExit, "", asLines [diagnostic.text], journal⟩
  | .ok expr =>
      match evaluate fuel expr (Machine.new .unbounded readings journal) with
      | .value value machine =>
          some ⟨0, machine.sink.accepted ++ value.text ++ "\n", "", machine.journal⟩
      | .failure fault machine =>
          some ⟨Status.runtimeExit, machine.sink.accepted, asLines [fault.diagnostic.text],
            machine.journal⟩
      | .exhausted => none

def run (fuel : Nat) (readings : Readings) (files : Files) (path : String) (journal : Journal) :
    Option Completion :=
  (runContents fuel path (files.read path) (Machine.new .unbounded readings journal)).map
    fun (result, machine) =>
      match result with
      | .error diagnostic =>
          failed ("Failed to run " ++ Text.quote path) diagnostic.text machine.sink.accepted
            machine.journal
      | .ok status =>
          ⟨status.exitCode, machine.sink.accepted, asLines (status.diagnostics.map Diagnostic.text),
            machine.journal⟩

/-- Runs the prompt over the standard input; its console is the standard output. -/
def prompt (fuel : Nat) (readings : Readings) (input : List UInt8) (journal : Journal) :
    Option Completion :=
  match holdPrompt fuel input ⟨Machine.new .unbounded readings journal, none⟩ with
  | .value _ terminal => some ⟨0, terminal.machine.sink.accepted, "", terminal.machine.journal⟩
  | .failure error terminal =>
      some (failed "Prompt failed" error.message terminal.machine.sink.accepted
        terminal.machine.journal)
  | .exhausted => none

def withText (files : Files) (path : String) (journal : Journal)
    (next : String → Option Completion) : Option Completion :=
  match readText files path with
  | .ok source => next source
  | .error error =>
      some (failed ("Failed to read file " ++ Text.quote path) error.message "" journal)

def carryOut (fuel : Nat) (readings : Readings) (files : Files) (input : List UInt8)
    (journal : Journal) : Command → Option Completion
  | .tokenize path json =>
      withText files path journal fun source => some (tokenize json source journal)
  | .parse path => withText files path journal fun source => some (parse source journal)
  | .evaluate path =>
      withText files path journal fun source => evaluateSource fuel readings source journal
  | .run path => run fuel readings files path journal
  | .prompt => prompt fuel readings input journal

def respond (fuel : Nat) (readings : Readings) (files : Files) (input : List UInt8) :
    Request → Option Completion
  | .version => some ⟨0, versionText, "", .silent⟩
  | .invoke ⟨command, none⟩ => carryOut fuel readings files input .silent command
  | .invoke ⟨command, some path⟩ =>
      match files.create path with
      | some error =>
          some (failed ("Failed to create log file " ++ Text.quote path) error.message "" .silent)
      | none => carryOut fuel readings files input (.keeping .debug) command

end CommandLine

end LexicalScript
