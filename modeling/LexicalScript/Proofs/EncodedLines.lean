import LexicalScript.Proofs.Octets
import LexicalScript.Text.Blank
import LexicalScript.Text.Utf8

/-!
The lines of an encoded text.

A text is cut into lines at its line feeds.  Cutting the octets of its UTF-8 form gives the octets
of its lines, because the octets of a line feed and of a carriage return are part of no other
character, and decoding those octets gives the lines back.
-/

set_option autoImplicit false

namespace LexicalScript

/-- The octets of a text in UTF-8. -/
def utf8 (text : List Char) : List UInt8 := text.flatMap String.utf8EncodeChar

theorem utf8_cons (char : Char) (rest : List Char) :
    utf8 (char :: rest) = String.utf8EncodeChar char ++ utf8 rest := rfl

/-! ### Decoding -/

namespace Text.Utf8

section

variable (decoded : List Char) (index start read : Nat) (rest : List UInt8)

theorem decodeFrom_narrow {code : Nat} (small : code < 128) :
    decodeFrom decoded index .between (UInt8.ofNat code :: rest) =
      decodeFrom (Char.ofNat code :: decoded) (index + 1) .between rest := by
  have same : (UInt8.ofNat code).toNat = code :=
    UInt8.toNat_ofNat_of_lt' (Nat.lt_trans small (by decide))
  have lead : lead? code = some ⟨0, 0, 0, code⟩ := if_pos small
  rw [decodeFrom]
  simp only [same, lead]

theorem decodeFrom_lead {code following low high bits : Nat} (small : code < 256)
    (lead : lead? code = some ⟨following + 1, low, high, bits⟩) :
    decodeFrom decoded index .between (UInt8.ofNat code :: rest) =
      decodeFrom decoded (index + 1) (.inside index 1 (following + 1) low high bits) rest := by
  have same : (UInt8.ofNat code).toNat = code := UInt8.toNat_ofNat_of_lt' small
  rw [decodeFrom]
  simp only [same, lead]

theorem decodeFrom_inner {code following low high bits : Nat} (small : code < 256)
    (above : low ≤ code) (below : code ≤ high) :
    decodeFrom decoded index (.inside start read (following + 2) low high bits)
        (UInt8.ofNat code :: rest) =
      decodeFrom decoded (index + 1)
        (.inside start (read + 1) (following + 1) 0x80 0xBF (bits * 64 + (code - 0x80))) rest := by
  have same : (UInt8.ofNat code).toNat = code := UInt8.toNat_ofNat_of_lt' small
  rw [decodeFrom]
  simp only [same]
  rw [if_pos ⟨above, below⟩, if_neg (by omega)]
  rfl

theorem decodeFrom_last {code low high bits : Nat} (small : code < 256)
    (above : low ≤ code) (below : code ≤ high) :
    decodeFrom decoded index (.inside start read 1 low high bits) (UInt8.ofNat code :: rest) =
      decodeFrom (Char.ofNat (bits * 64 + (code - 0x80)) :: decoded) (index + 1) .between rest := by
  have same : (UInt8.ofNat code).toNat = code := UInt8.toNat_ofNat_of_lt' small
  rw [decodeFrom]
  simp only [same]
  rw [if_pos ⟨above, below⟩, if_pos (by omega)]

end

theorem lead?_of_two {code : Nat} (above : 0x7F < code) (below : code ≤ 0x7FF) :
    lead? (code / 64 % 32 + 192) = some ⟨1, 0x80, 0xBF, code / 64⟩ := by
  unfold lead?
  have bits : code / 64 % 32 + 192 - 0xC0 = code / 64 := by omega
  rw [if_neg (by omega), if_neg (by omega), if_pos (by omega), bits]

/-- A leading octet of three leaves its second octet the range that keeps the form short and away
from the surrogates. -/
theorem lead?_of_three {code : Nat} (above : 0x7FF < code) (below : code ≤ 0xFFFF)
    (legal : code < 0xD800 ∨ 0xDFFF < code) :
    ∃ low high, lead? (code / 4096 % 16 + 224) = some ⟨2, low, high, code / 4096⟩ ∧
      low ≤ code / 64 % 64 + 128 ∧ code / 64 % 64 + 128 ≤ high := by
  unfold lead?
  rw [if_neg (by omega), if_neg (by omega), if_neg (by omega)]
  by_cases first : code / 4096 = 0
  · rw [if_pos (by omega), first]
    exact ⟨_, _, rfl, by omega, by omega⟩
  · rw [if_neg (by omega)]
    by_cases surrogate : code / 4096 = 0xD
    · rw [if_pos (by omega), surrogate]
      exact ⟨_, _, rfl, by omega, by omega⟩
    · have bits : code / 4096 % 16 + 224 - 0xE0 = code / 4096 := by omega
      rw [if_neg (by omega), if_pos (by omega), bits]
      exact ⟨_, _, rfl, by omega, by omega⟩

/-- A leading octet of four leaves its second octet the range that keeps the form short and the
number below `0x110000`. -/
theorem lead?_of_four {code : Nat} (above : 0xFFFF < code) (legal : code < 0x110000) :
    ∃ low high, lead? (code / 262144 % 8 + 240) = some ⟨3, low, high, code / 262144⟩ ∧
      low ≤ code / 4096 % 64 + 128 ∧ code / 4096 % 64 + 128 ≤ high := by
  unfold lead?
  rw [if_neg (by omega), if_neg (by omega), if_neg (by omega), if_neg (by omega),
    if_neg (by omega), if_neg (by omega)]
  by_cases first : code / 262144 = 0
  · rw [if_pos (by omega), first]
    exact ⟨_, _, rfl, by omega, by omega⟩
  · rw [if_neg (by omega)]
    by_cases last : code / 262144 = 4
    · rw [if_neg (by omega), if_pos (by omega), last]
      exact ⟨_, _, rfl, by omega, by omega⟩
    · have bits : code / 262144 % 8 + 240 - 0xF0 = code / 262144 := by omega
      rw [if_pos (by omega), bits]
      exact ⟨_, _, rfl, by omega, by omega⟩

theorem decodeFrom_encoded (decoded : List Char) (index : Nat) (char : Char) (rest : List UInt8) :
    ∃ next, decodeFrom decoded index .between (String.utf8EncodeChar char ++ rest) =
      decodeFrom (char :: decoded) next .between rest := by
  have legal : char.val.toNat < 0xD800 ∨ (0xDFFF < char.val.toNat ∧ char.val.toNat < 0x110000) :=
    char.valid
  have again : Char.ofNat char.val.toNat = char := Char.ofNat_toNat char
  unfold String.utf8EncodeChar
  dsimp only
  generalize char.val.toNat = code at legal again
  subst again
  split
  · next narrow =>
    rw [List.singleton_append, decodeFrom_narrow _ _ _ (by omega)]
    exact ⟨_, rfl⟩
  · split
    · next above below =>
      have value : code / 64 * 64 + (code % 64 + 128 - 0x80) = code := by omega
      rw [List.cons_append, List.singleton_append,
        decodeFrom_lead _ _ _ (by omega) (lead?_of_two (by omega) below),
        decodeFrom_last _ _ _ _ _ (by omega) (by omega) (by omega), value]
      exact ⟨_, rfl⟩
    · split
      · next above below =>
        obtain ⟨low, high, lead, least, most⟩ :=
          @lead?_of_three code (by omega) below (by omega)
        have value : (code / 4096 * 64 + (code / 64 % 64 + 128 - 0x80)) * 64 +
            (code % 64 + 128 - 0x80) = code := by omega
        rw [List.cons_append, List.cons_append, List.singleton_append,
          decodeFrom_lead _ _ _ (by omega) lead,
          decodeFrom_inner _ _ _ _ _ (by omega) least most,
          decodeFrom_last _ _ _ _ _ (by omega) (by omega) (by omega), value]
        exact ⟨_, rfl⟩
      · next above =>
        obtain ⟨low, high, lead, least, most⟩ :=
          @lead?_of_four code (by omega) (by omega)
        have value : ((code / 262144 * 64 + (code / 4096 % 64 + 128 - 0x80)) * 64 +
            (code / 64 % 64 + 128 - 0x80)) * 64 + (code % 64 + 128 - 0x80) = code := by omega
        rw [List.cons_append, List.cons_append, List.cons_append, List.singleton_append,
          decodeFrom_lead _ _ _ (by omega) lead,
          decodeFrom_inner _ _ _ _ _ (by omega) least most,
          decodeFrom_inner _ _ _ _ _ (by omega) (by omega) (by omega),
          decodeFrom_last _ _ _ _ _ (by omega) (by omega) (by omega), value]
        exact ⟨_, rfl⟩

theorem decodeFrom_utf8 (decoded text : List Char) (index : Nat) :
    decodeFrom decoded index .between (utf8 text) = .ok (decoded.reverse ++ text) := by
  induction text generalizing decoded index with
  | nil => simp [utf8, decodeFrom]
  | cons char rest ih =>
    obtain ⟨next, read⟩ := decodeFrom_encoded decoded index char (utf8 rest)
    rw [utf8_cons, read, ih, List.reverse_cons, List.append_assoc, List.singleton_append]

theorem decode_utf8 (text : List Char) : decode (utf8 text) = .ok text :=
  decodeFrom_utf8 [] text 0

end Text.Utf8

/-! ### Lines -/

/-- A line without the carriage return in front of its line feed. -/
def dropReturn (line : List Char) : List Char :=
  if line.getLast? = some '\r' then line.dropLast else line

/-- The lines among the parts of a text between its line feeds.  Every part but the last is ended by
a line feed, and the last counts if it is not empty. -/
def endedLines : List (List Char) → List (List Char)
  | [] => []
  | [last] => if last.isEmpty then [] else [last]
  | part :: next :: rest => dropReturn part :: endedLines (next :: rest)

/-- The lines of a text. -/
def textLines (text : List Char) : List (List Char) := endedLines (text.splitOn '\n')

example : textLines "one\r\n\ntwo\r".toList = ["one".toList, [], "two\r".toList] := by decide

/-- An octet below 128 is part of no character but its own. -/
theorem utf8EncodeChar_of_mem {char : Char} {octet : UInt8} (narrow : octet.toNat < 128)
    (member : octet ∈ String.utf8EncodeChar char) : char = Char.ofUInt8 octet := by
  have inside : Char.ofUInt8 octet ∈ charOctets char := List.mem_map_of_mem member
  have short : ¬ IsWide char := fun wide =>
    absurd (isWide_of_mem_charOctets wide inside) (Nat.not_le_of_lt narrow)
  rw [charOctets_narrow short, List.mem_singleton] at inside
  exact inside.symm

theorem linesFrom_append (pending front rest : List UInt8) (inner : 10 ∉ front) :
    Text.linesFrom pending (front ++ rest) = Text.linesFrom (front.reverse ++ pending) rest := by
  induction front generalizing pending with
  | nil => rfl
  | cons octet front ih =>
    rw [List.mem_cons, not_or] at inner
    have collected : Text.linesFrom pending (octet :: (front ++ rest)) =
        Text.linesFrom (octet :: pending) (front ++ rest) := if_neg (Ne.symm inner.1)
    rw [List.cons_append, collected, ih _ inner.2, List.reverse_cons, List.append_assoc,
      List.singleton_append]

theorem linesFrom_feed (pending rest : List UInt8) (plain : pending.head? ≠ some 13) :
    Text.linesFrom pending (10 :: rest) = pending.reverse :: Text.linesFrom [] rest := by
  rw [Text.linesFrom.eq_3]
  · rfl
  · rintro before rfl
    exact plain rfl

/-- A line feed ends the line, without the carriage return in front of it. -/
theorem linesFrom_utf8_feed (line : List Char) (rest : List UInt8) :
    Text.linesFrom (utf8 line).reverse (10 :: rest) =
      utf8 (dropReturn line) :: Text.linesFrom [] rest := by
  rcases List.eq_nil_or_concat line with rfl | ⟨front, last, rfl⟩
  · rfl
  have ending : utf8 (front ++ [last]) = utf8 front ++ String.utf8EncodeChar last := by
    simp [utf8]
  rw [List.concat_eq_append]
  by_cases carriage : last = '\r'
  · subst carriage
    have single : String.utf8EncodeChar '\r' = [13] := by decide
    have shorter : dropReturn (front ++ ['\r']) = front := by simp [dropReturn]
    rw [ending, single, List.reverse_append, shorter]
    exact congrArg (· :: Text.linesFrom [] rest) (List.reverse_reverse (utf8 front))
  · have whole : dropReturn (front ++ [last]) = front ++ [last] := by simp [dropReturn, carriage]
    rw [linesFrom_feed, List.reverse_reverse, whole]
    intro present
    rw [List.head?_reverse, ending, List.getLast?_append, Option.or_of_isSome (by simp)] at present
    exact carriage (utf8EncodeChar_of_mem (by decide) (List.mem_of_getLast? present))

/-- Cutting the octets of a text, after those of an unfinished line, gives the octets of its
lines. -/
theorem linesFrom_utf8 {text part : List Char} {parts : List (List Char)}
    (cut : text.splitOn '\n' = part :: parts) (pending : List Char) :
    Text.linesFrom (utf8 pending).reverse (utf8 text) =
      (endedLines ((pending ++ part) :: parts)).map utf8 := by
  induction text generalizing pending part parts with
  | nil =>
    rw [List.splitOn_nil] at cut
    cases cut
    rw [List.append_nil]
    cases pending with
    | nil => rfl
    | cons char rest => simp [Text.linesFrom, utf8, endedLines]
  | cons char rest ih =>
    obtain ⟨next, later, again⟩ := List.exists_cons_of_ne_nil (List.splitOn_ne_nil '\n' rest)
    rw [List.splitOn_cons_eq_if_modifyHead, again] at cut
    by_cases feed : char = '\n'
    · subst feed
      cases cut
      have single : String.utf8EncodeChar '\n' = [10] := by decide
      rw [utf8_cons, single, List.singleton_append, linesFrom_utf8_feed, List.append_nil]
      exact congrArg (utf8 (dropReturn pending) :: ·) (ih again [])
    · rw [if_neg (by simpa using feed)] at cut
      cases cut
      have inner : 10 ∉ String.utf8EncodeChar char := fun present =>
        feed (utf8EncodeChar_of_mem (by decide) present)
      have longer : (String.utf8EncodeChar char).reverse ++ (utf8 pending).reverse =
          (utf8 (pending ++ [char])).reverse := by
        simp [utf8]
      rw [utf8_cons, linesFrom_append _ _ _ inner, longer, ih again, List.append_assoc,
        List.singleton_append]

theorem lines_utf8 (text : List Char) : Text.lines (utf8 text) = (textLines text).map utf8 := by
  obtain ⟨part, parts, cut⟩ := List.exists_cons_of_ne_nil (List.splitOn_ne_nil '\n' text)
  unfold textLines
  rw [cut]
  exact linesFrom_utf8 cut []

theorem lines_bytes (source : String) :
    Text.lines source.toByteArray.data.toList = (textLines source.toList).map utf8 := by
  rw [bytes_eq]
  exact lines_utf8 source.toList

end LexicalScript
