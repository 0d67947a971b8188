import LexicalScript.Parser.Error
import LexicalScript.Scope
import LexicalScript.Sink
import LexicalScript.Store
import LexicalScript.Text.Utf8
import LexicalScript.Token.Scan

/-!
Diagnostics: everything that a user may be told about, with its text.
-/

set_option autoImplicit false

namespace LexicalScript

inductive Diagnostic where
  | lexical (error : LexicalError)
  | parse (error : ParseError)
  | resolve (error : ResolveError)
  | runtime (error : RuntimeError)
  | transfer (error : IoError)
  | encoding (fault : Text.Utf8.Fault)
  deriving Repr

/-- The text of a static error: its line, the place in the line if one is given, and the message. -/
def staticText (line : Nat) (place message : String) : String :=
  "[line " ++ toString line ++ "] Error" ++ place ++ ": " ++ message

def Diagnostic.text : Diagnostic → String
  | .lexical error => staticText error.line "" error.fault.message
  | .parse error => staticText error.token.line error.token.location error.cause.message
  | .resolve error => staticText error.line "" error.cause.message
  | .runtime error => error.cause.message ++ "\n[line " ++ toString error.line ++ "]"
  | .transfer error => error.message
  | .encoding fault => fault.message

/-- What stops a run: an error of the program, or a failure to write its output. -/
inductive Fault where
  | runtime (error : RuntimeError)
  | output (error : IoError)
  deriving DecidableEq, Repr

def Fault.diagnostic : Fault → Diagnostic
  | .runtime error => .runtime error
  | .output error => .transfer error

end LexicalScript
