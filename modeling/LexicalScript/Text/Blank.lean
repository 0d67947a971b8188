/-!
Blank characters and lines of text.

The blanks are the characters with the Unicode property White_Space.  `trim` removes them from both
ends of a text, and `lines` cuts a sequence of octets where a line ends.
-/

set_option autoImplicit false

namespace LexicalScript.Text

/-- Whether a character has the property White_Space. -/
def isBlank (char : Char) : Bool :=
  let code := char.toNat
  (0x09 ≤ code && code ≤ 0x0D) || code == 0x20 || code == 0x85 || code == 0xA0 ||
    code == 0x1680 || (0x2000 ≤ code && code ≤ 0x200A) || code == 0x2028 || code == 0x2029 ||
    code == 0x202F || code == 0x205F || code == 0x3000

def trim (text : List Char) : List Char :=
  (((text.dropWhile isBlank).reverse).dropWhile isBlank).reverse

/-- Whether two texts agree up to the case of ASCII letters. -/
def sameIgnoringCase (left right : List Char) : Bool :=
  left.map Char.toLower == right.map Char.toLower

/-- The lines of a sequence of octets, given the octets of the current line so far in reverse. -/
def linesFrom (pending : List UInt8) : List UInt8 → List (List UInt8)
  | [] => if pending.isEmpty then [] else [pending.reverse]
  | octet :: rest =>
      if octet = 10 then
        (match pending with
          | 13 :: before => before.reverse
          | all => all.reverse) :: linesFrom [] rest
      else linesFrom (octet :: pending) rest

/-- The lines of a sequence of octets.  A line ends at a line feed, one carriage return before it is
dropped with it, and a last line without a line feed counts if it is not empty. -/
def lines (octets : List UInt8) : List (List UInt8) :=
  linesFrom [] octets

end LexicalScript.Text
