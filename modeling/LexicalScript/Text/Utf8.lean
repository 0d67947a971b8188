/-!
Decoding of UTF-8 with the place and the kind of the first fault.

Overlong forms, surrogates and code points above `U+10FFFF` are refused at their second octet, so
the table of leading octets carries the range that the second octet must lie in.
-/

set_option autoImplicit false

namespace LexicalScript.Text.Utf8

/-- Why a sequence of octets is no UTF-8 text.  `start` is the length of the longest valid part in
front of the fault. -/
inductive Fault where
  /-- The `length` octets at `start` begin a character that the octet after them cannot continue. -/
  | invalid (length start : Nat)
  /-- The octets end within a character. -/
  | incomplete (start : Nat)
  deriving DecidableEq, Repr

def Fault.message : Fault → String
  | .invalid length start =>
      s!"invalid utf-8 sequence of {length} bytes from index {start}"
  | .incomplete start => s!"incomplete utf-8 byte sequence from index {start}"

/-- What a leading octet announces: how many octets follow, the range of the first of them, and the
bits that the leading octet contributes. -/
structure Lead where
  following : Nat
  low : Nat
  high : Nat
  bits : Nat

def lead? (octet : Nat) : Option Lead :=
  if octet < 0x80 then some ⟨0, 0, 0, octet⟩
  else if octet < 0xC2 then none
  else if octet < 0xE0 then some ⟨1, 0x80, 0xBF, octet - 0xC0⟩
  else if octet = 0xE0 then some ⟨2, 0xA0, 0xBF, 0⟩
  else if octet = 0xED then some ⟨2, 0x80, 0x9F, 0xD⟩
  else if octet < 0xF0 then some ⟨2, 0x80, 0xBF, octet - 0xE0⟩
  else if octet = 0xF0 then some ⟨3, 0x90, 0xBF, 0⟩
  else if octet < 0xF4 then some ⟨3, 0x80, 0xBF, octet - 0xF0⟩
  else if octet = 0xF4 then some ⟨3, 0x80, 0x8F, 4⟩
  else none

/-- Where the decoder stands: between characters, or inside one that began at `start`, of which
`read` octets are read, `following` are due, the next within `low` to `high`. -/
inductive Place where
  | between
  | inside (start read following low high bits : Nat)

/-- Decodes from a place, `index` octets into the text; `decoded` holds the characters so far in
reverse. -/
def decodeFrom (decoded : List Char) (index : Nat) (place : Place) :
    List UInt8 → Except Fault (List Char)
  | [] =>
      match place with
      | .between => .ok decoded.reverse
      | .inside start .. => .error (.incomplete start)
  | octet :: rest =>
      let code := octet.toNat
      match place with
      | .between =>
          match lead? code with
          | none => .error (.invalid 1 index)
          | some ⟨0, _, _, bits⟩ =>
              decodeFrom (Char.ofNat bits :: decoded) (index + 1) .between rest
          | some ⟨following, low, high, bits⟩ =>
              decodeFrom decoded (index + 1) (.inside index 1 following low high bits) rest
      | .inside start read following low high bits =>
          if low ≤ code ∧ code ≤ high then
            let value := bits * 64 + (code - 0x80)
            if following ≤ 1 then
              decodeFrom (Char.ofNat value :: decoded) (index + 1) .between rest
            else
              decodeFrom decoded (index + 1)
                (.inside start (read + 1) (following - 1) 0x80 0xBF value) rest
          else .error (.invalid read start)

def decode (octets : List UInt8) : Except Fault (List Char) :=
  decodeFrom [] 0 .between octets

end LexicalScript.Text.Utf8
