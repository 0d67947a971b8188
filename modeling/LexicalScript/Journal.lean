import LexicalScript.Diagnostic
import LexicalScript.Parser.State

/-!
The record of what every phase does.

Phases take notes as events.  An event has a severity, the part of the program it comes from, and a
message; a journal keeps the events from a given severity on, in order.
-/

set_option autoImplicit false

namespace LexicalScript

inductive Severity where
  | trace
  | debug
  | info
  | warn
  deriving DecidableEq, Repr

namespace Severity

def rank : Severity → Nat
  | .trace => 0
  | .debug => 1
  | .info => 2
  | .warn => 3

def name : Severity → String
  | .trace => "TRACE"
  | .debug => "DEBUG"
  | .info => "INFO"
  | .warn => "WARN"

end Severity

inductive Component where
  | token
  | scanner
  | error
  | parser
  | resolver
  | interpreter
  | callable
  | session
  deriving DecidableEq, Repr

def Component.name : Component → String
  | .token => "token"
  | .scanner => "scanner"
  | .error => "error"
  | .parser => "parser"
  | .resolver => "resolver"
  | .interpreter => "interpreter"
  | .callable => "callable"
  | .session => "session"

/-- The full name of a component, under which its events are filed. -/
def Component.target (component : Component) : String := "rox::" ++ component.name

inductive Event where
  | scanning (octets : Nat)
  | recognized (token : Token)
  | tokenCreated (token : Token)
  | lexicalError (error : LexicalError)
  | scanned (tokens : Nat)
  | parser (note : Parser.Note)
  | resolver (note : ResolveNote)
  | machineCreated
  | nativeDefined (name : String)
  | interpreting (statements : Nat)
  | interpreted
  | variableDefined (name : String) (value : Value)
  | functionDefined (name : String) (parameters : Nat)
  | callRefused (typeName : String)
  | indexRefused (typeName : String)
  | nativeCalled (name : String)
  | functionCalled (name : String)
  | returned (name : String) (value : Value)
  | runtimeError (error : RuntimeError)
  | nothingToRun
  | runFailed (fault : Fault)
  | readingFile (path : String)
  | fileRead (path : String) (octets : Nat)
  | promptStarted
  | promptClosed
  deriving Repr

/-- The events of a scan that yields the given items: what is seen up to the first error. -/
def Event.ofItems : List Item → List Event
  | [] => []
  | .error error :: _ => [.lexicalError error]
  | .ok token :: rest =>
      if token.is .endOfInput then .tokenCreated token :: ofItems rest
      else .recognized token :: .tokenCreated token :: ofItems rest

def tokenMessage (token : Token) : String :=
  "Creating new token: type=" ++ token.kind.journalText ++ ", lexeme=" ++ token.lexeme ++
    ", line=" ++ toString token.line

def errorMessage (phase : String) (line : Nat) (message : String) : String :=
  "Creating " ++ phase ++ " error: line=" ++ toString line ++ ", msg=" ++ message

def Parser.Note.entry : Parser.Note → Severity × Component × String
  | .created count => (.info, .parser, s!"Parser created with {count} tokens")
  | .closed token => (.trace, .token, tokenMessage token)
  | .beginning => (.info, .parser, "Beginning parse phase")
  | .beginningExpression => (.info, .parser, "Parsing a single expression")
  | .entering line => (.debug, .parser, s!"Entering declaration at line {line}")
  | .parsedFunction name count =>
      (.debug, .parser, s!"Parsed function '{name}' with {count} parameter(s)")
  | .desugaring line => (.debug, .parser, s!"Desugaring for loop at line {line}")
  | .failed error =>
      (.debug, .error, "Creating Parse error: line=" ++ toString error.token.line ++
        ", location=" ++ Text.quote error.token.location ++ ", msg=" ++ error.cause.message)
  | .synchronized start stop =>
      (.debug, .parser, s!"Synchronized from line {start} to line {stop}")
  | .finished statements errors =>
      (.info, .parser, s!"Parsed {statements} statement(s) with {errors} error(s)")

def ResolveNote.entry : ResolveNote → Severity × Component × String
  | .beginning count =>
      (.info, .resolver, s!"Beginning resolve pass over {count} statement(s)")
  | .resolved name (some depth) => (.debug, .resolver, s!"Resolved '{name}' at depth {depth}")
  | .resolved name none => (.debug, .resolver, s!"Resolved '{name}' as global")
  | .failed error => (.debug, .error, errorMessage "Resolve" error.line error.cause.message)

def Event.entry : Event → Severity × Component × String
  | .scanning octets => (.info, .scanner, s!"Scanner created over {octets} bytes")
  | .recognized token =>
      (.trace, .scanner,
        "Scanned token (" ++ token.kind.journalText ++ ") on line " ++ toString token.line)
  | .tokenCreated token => (.trace, .token, tokenMessage token)
  | .lexicalError error => (.debug, .error, errorMessage "Lex" error.line error.fault.message)
  | .scanned count => (.debug, .scanner, s!"Scanned {count} tokens")
  | .parser note => note.entry
  | .resolver note => note.entry
  | .machineCreated => (.info, .interpreter, "Initializing Interpreter")
  | .nativeDefined name => (.debug, .interpreter, s!"Defining native function '{name}'")
  | .interpreting count => (.debug, .interpreter, s!"Interpreting {count} statements")
  | .interpreted => (.info, .interpreter, "Interpretation completed successfully")
  | .variableDefined name value =>
      (.debug, .interpreter, "Defining variable '" ++ name ++ "' = " ++ value.text)
  | .functionDefined name count =>
      (.debug, .interpreter, s!"Defining function '{name}' with {count} parameters")
  | .callRefused typeName => (.debug, .interpreter, s!"Attempted to call a {typeName}")
  | .indexRefused typeName => (.debug, .interpreter, s!"Attempted to index a {typeName}")
  | .nativeCalled name => (.debug, .callable, s!"Calling native function '{name}'")
  | .functionCalled name => (.debug, .callable, s!"Calling user-defined function '{name}'")
  | .returned name value =>
      (.debug, .interpreter, "'" ++ name ++ "' returned " ++ value.text)
  | .runtimeError error =>
      (.debug, .error, errorMessage "Runtime" error.line error.cause.message)
  | .nothingToRun => (.debug, .session, "Nothing to run")
  | .runFailed fault => (.warn, .session, "Runtime error: " ++ fault.diagnostic.text)
  | .readingFile path => (.info, .session, "Reading file: " ++ Text.quote path)
  | .fileRead path octets =>
      (.info, .session, "Read " ++ toString octets ++ " bytes from " ++ Text.quote path)
  | .promptStarted => (.info, .session, "Starting prompt")
  | .promptClosed => (.info, .session, "Prompt closed")

def Event.severity (event : Event) : Severity := event.entry.1

/-- A record of events: the severity from which on they are kept, if they are kept at all, and the
events. -/
structure Journal where
  threshold : Option Severity
  events : Array Event
  deriving Repr

namespace Journal

def silent : Journal := ⟨none, #[]⟩

def keeping (threshold : Severity) : Journal := ⟨some threshold, #[]⟩

def record (journal : Journal) (event : Event) : Journal :=
  match journal.threshold with
  | none => journal
  | some threshold =>
      if threshold.rank ≤ event.severity.rank then
        { journal with events := journal.events.push event }
      else journal

/-- Keeps events in order.  They are worked out only if the journal keeps any. -/
def recordAll (journal : Journal) (events : Unit → List Event) : Journal :=
  match journal.threshold with
  | none => journal
  | some _ => (events ()).foldl record journal

end Journal

end LexicalScript
