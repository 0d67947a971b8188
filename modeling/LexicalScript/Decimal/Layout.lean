import LexicalScript.Decimal

/-!
Text of double precision numbers.

A `Layout` records the decisions of one printed form: which numbers are written positionally,
whether a whole number keeps a point, how an exponent is signed, and which way a tie of the
shortest digits goes.  The forms that the language and its tools use are values of that record,
together with the two exact forms for whole numbers.
-/

set_option autoImplicit false

namespace LexicalScript

structure Layout where
  /-- The least leading exponent that is still written positionally, if there is one. -/
  least : Option Int
  /-- The greatest leading exponent that is still written positionally, if there is one. -/
  greatest : Option Int
  /-- Whether a whole number written positionally ends in `.0`. -/
  keepPoint : Bool
  /-- Whether a positive exponent is written with a sign. -/
  signedExponent : Bool
  tie : Decimal.Tie

namespace Layout

def plain : Layout := ⟨none, none, false, false, .up⟩

/-- The form used in records of a run: positional from `1e-4` up to below `1e16`. -/
def journal : Layout := ⟨some (-4), some 15, true, false, .up⟩

/-- The form used in JSON: positional from `1e-5` up to below `1e16`, signed exponents. -/
def json : Layout := ⟨some (-5), some 15, true, true, .toEven⟩

def isPositional (layout : Layout) (exponent : Int) : Bool :=
  layout.least.all (· ≤ exponent) && layout.greatest.all (exponent ≤ ·)

def positional (layout : Layout) (digits : List Char) : Int → List Char
  | .ofNat exponent =>
      let whole := digits.take (exponent + 1)
      let fraction := digits.drop (exponent + 1)
      let padded := whole ++ List.replicate (exponent + 1 - whole.length) '0'
      if fraction.isEmpty then
        if layout.keepPoint then padded ++ ['.', '0'] else padded
      else padded ++ '.' :: fraction
  | .negSucc exponent => ['0', '.'] ++ List.replicate exponent '0' ++ digits

def scientific (layout : Layout) (digits : List Char) (exponent : Int) : List Char :=
  let mantissa := match digits with
    | [] => []
    | [digit] => [digit]
    | digit :: rest => digit :: '.' :: rest
  let mark := if layout.signedExponent && decide (0 ≤ exponent) then ['e', '+'] else ['e']
  mantissa ++ mark ++ (toString exponent).toList

def magnitudeText (layout : Layout) (magnitude : Dyadic) : String :=
  let decimal := Decimal.shortest layout.tie magnitude
  let digits := Nat.toDigits 10 decimal.digits
  String.ofList
    (if magnitude.mantissa = 0 || layout.isPositional decimal.exponent then
      layout.positional digits decimal.exponent
    else layout.scientific digits decimal.exponent)

end Layout

namespace Reading

def signText (negative : Bool) : String := if negative then "-" else ""

def text (layout : Layout) : Reading → String
  | .finite negative magnitude => signText negative ++ layout.magnitudeText magnitude
  | .infinite negative => signText negative ++ "inf"
  | .notANumber => "NaN"

/-- Whole numbers are written exactly and followed by `suffix`; all others take their plain text. -/
def exactText (suffix : String) : Reading → String
  | .finite negative magnitude =>
      if magnitude.isIntegral then
        signText negative ++ toString magnitude.floor ++ suffix
      else text .plain (.finite negative magnitude)
  | other => text .plain other

end Reading

/-- The plain text of a number: its shortest digits, never with an exponent. -/
def plainText (number : Float) : String :=
  (Reading.ofFloat number).text .plain

def valueText (number : Float) : String :=
  (Reading.ofFloat number).exactText ""

def literalText (number : Float) : String :=
  (Reading.ofFloat number).exactText ".0"

/-- The text of a number in a listing of tokens.  Whole numbers below `2 ^ 63` are written exactly
with a point, and zero has no sign there. -/
def tokenText (number : Float) : String :=
  match Reading.ofFloat number with
  | .finite negative magnitude =>
      if magnitude.isIntegral && decide (magnitude.floor < Nat.pow 2 63) then
        Reading.signText (negative && decide (magnitude.floor ≠ 0)) ++
          toString magnitude.floor ++ ".0"
      else Reading.text .plain (.finite negative magnitude)
  | other => other.text .plain

def journalText (number : Float) : String :=
  (Reading.ofFloat number).text .journal

/-- The text of a number in JSON, which has no infinite numbers. -/
def jsonText (number : Float) : String :=
  match Reading.ofFloat number with
  | .finite negative magnitude => Reading.text .json (.finite negative magnitude)
  | _ => "null"

end LexicalScript
