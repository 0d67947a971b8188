import LexicalScript.Text.Hidden

/-!
Quoted forms of text.

Two forms are in use: the form of the record of a run, which shows hidden characters by their code
point in braces, and the form of JSON, which escapes the control characters below the space.
-/

set_option autoImplicit false

namespace LexicalScript.Text

def hexDigits (number : Nat) : List Char := Nat.toDigits 16 number

def quoteChar (char : Char) : List Char :=
  match char with
  | '"' => ['\\', '"']
  | '\\' => ['\\', '\\']
  | '\n' => ['\\', 'n']
  | '\r' => ['\\', 'r']
  | '\t' => ['\\', 't']
  | '\x00' => ['\\', '0']
  | other =>
      if isHidden other then
        ['\\', 'u', '\x7b'] ++ hexDigits other.toNat ++ ['\x7d']
      else [other]

/-- A text in quotes as the record of a run shows it. -/
def quote (text : String) : String :=
  String.ofList ('"' :: text.toList.flatMap quoteChar ++ ['"'])

def jsonChar (char : Char) : List Char :=
  match char with
  | '"' => ['\\', '"']
  | '\\' => ['\\', '\\']
  | '\n' => ['\\', 'n']
  | '\r' => ['\\', 'r']
  | '\t' => ['\\', 't']
  | '\x08' => ['\\', 'b']
  | '\x0c' => ['\\', 'f']
  | other =>
      if other.toNat < 0x20 then
        ['\\', 'u', '0', '0'] ++ (if other.toNat < 0x10 then ['0'] else []) ++
          hexDigits other.toNat
      else [other]

def jsonString (text : String) : String :=
  String.ofList ('"' :: text.toList.flatMap jsonChar ++ ['"'])

end LexicalScript.Text
