import LexicalScript.Token.Scan
import Mathlib.Data.List.Count

/-!
Texts as octets.

In UTF-8 a character below 128 is one octet with its own number, and all octets of another character
are 128 or more.  So a class of characters that does not tell the latter apart can be looked for
among the octets.  An octet is written as the character that has its number.
-/

set_option autoImplicit false

namespace LexicalScript

/-- The octets of a character. -/
def charOctets (char : Char) : List Char := (String.utf8EncodeChar char).map Char.ofUInt8

/-- The octets of a text. -/
def octets (text : List Char) : List Char := text.flatMap charOctets

/-- The octets that a source is stored as. -/
def buffer (source : String) : List Char := source.toByteArray.data.toList.map Char.ofUInt8

/-- A character of more than one octet. -/
def IsWide (char : Char) : Prop := 128 ≤ char.val.toNat

instance (char : Char) : Decidable (IsWide char) := inferInstanceAs (Decidable (_ ≤ _))

theorem IsWide.ne {char : Char} (wide : IsWide char) (other : Char) (narrow : ¬ IsWide other) :
    char ≠ other := by
  intro same
  rw [same] at wide
  exact narrow wide

theorem charOctets_narrow {char : Char} (narrow : ¬ IsWide char) : charOctets char = [char] := by
  unfold IsWide at narrow
  unfold charOctets String.utf8EncodeChar
  dsimp only
  rw [if_pos (by omega), List.map_singleton]
  congr 1
  apply Char.ext
  apply UInt32.toNat.inj
  change (UInt8.toUInt32 _).toNat = _
  rw [UInt8.toNat_toUInt32, UInt8.toNat_ofNat']
  omega

theorem isWide_of_mem_charOctets {char octet : Char} (wide : IsWide char)
    (member : octet ∈ charOctets char) : IsWide octet := by
  unfold IsWide at wide
  obtain ⟨byte, inside, rfl⟩ := List.mem_map.mp member
  suffices large : 128 ≤ byte.toNat from large
  unfold String.utf8EncodeChar at inside
  dsimp only at inside
  rw [if_neg (by omega)] at inside
  split at inside
  · simp only [List.mem_cons, List.not_mem_nil, or_false] at inside
    rcases inside with rfl | rfl <;> simp only [UInt8.toNat_ofNat'] <;> omega
  · split at inside
    · simp only [List.mem_cons, List.not_mem_nil, or_false] at inside
      rcases inside with rfl | rfl | rfl <;> simp only [UInt8.toNat_ofNat'] <;> omega
    · simp only [List.mem_cons, List.not_mem_nil, or_false] at inside
      rcases inside with rfl | rfl | rfl | rfl <;> simp only [UInt8.toNat_ofNat'] <;> omega

theorem length_charOctets (char : Char) : (charOctets char).length = char.utf8Size := by
  simp [charOctets]

theorem charOctets_ne_nil (char : Char) : charOctets char ≠ [] := by
  simp [charOctets]

theorem octets_cons (char : Char) (rest : List Char) :
    octets (char :: rest) = charOctets char ++ octets rest := rfl

theorem length_octets_cons (char : Char) (rest : List Char) :
    (octets (char :: rest)).length = char.utf8Size + (octets rest).length := by
  rw [octets_cons, List.length_append, length_charOctets]

theorem octets_narrow {char : Char} (narrow : ¬ IsWide char) (rest : List Char) :
    octets (char :: rest) = char :: octets rest := by
  rw [octets_cons, charOctets_narrow narrow, List.singleton_append]

theorem octets_append (text more : List Char) :
    octets (text ++ more) = octets text ++ octets more :=
  List.flatMap_append

theorem octets_eq_nil_iff {text : List Char} : octets text = [] ↔ text = [] := by
  cases text with
  | nil => exact ⟨fun _ => rfl, fun _ => rfl⟩
  | cons char rest =>
      rw [octets_cons]
      simp [charOctets_ne_nil]

/-! ### The octets of a source -/

theorem bytes_eq (source : String) :
    source.toByteArray.data.toList = source.toList.flatMap String.utf8EncodeChar := by
  obtain ⟨text, rfl⟩ := source.exists_eq_ofList
  simp [List.utf8Encode]

theorem buffer_eq (source : String) : buffer source = octets source.toList := by
  unfold buffer octets
  rw [bytes_eq, List.map_flatMap]
  rfl

theorem length_buffer (source : String) : (buffer source).length = source.utf8ByteSize := by
  simp [buffer]

theorem utf8ByteSize_ofList (text : List Char) :
    (String.ofList text).utf8ByteSize = (octets text).length := by
  rw [← length_buffer, buffer_eq, String.toList_ofList]

/-! ### Classes of characters among octets -/

section

variable {accepts : Char → Bool} {wide : Bool}
  (uniform : ∀ char, IsWide char → accepts char = wide)

include uniform

/-- The octets of a character are in a class exactly if the character is. -/
theorem accepts_charOctets {char octet : Char} (member : octet ∈ charOctets char) :
    accepts octet = accepts char := by
  by_cases isWide : IsWide char
  · rw [uniform char isWide, uniform octet (isWide_of_mem_charOctets isWide member)]
  · rw [charOctets_narrow isWide] at member
    rw [List.mem_singleton.mp member]

theorem takeWhile_octets (text : List Char) :
    (octets text).takeWhile accepts = octets (text.takeWhile accepts) := by
  induction text with
  | nil => rfl
  | cons char rest ih =>
      rw [octets_cons, List.takeWhile_cons]
      cases accepted : accepts char with
      | true =>
          have all : ∀ octet, octet ∈ charOctets char → accepts octet = true := by
            intro octet member
            rw [accepts_charOctets uniform member, accepted]
          rw [List.takeWhile_append_of_pos all, ih]
          rfl
      | false =>
          obtain ⟨octet, others, split⟩ := List.exists_cons_of_ne_nil (charOctets_ne_nil char)
          have first : accepts octet = false := by
            rw [accepts_charOctets uniform (split ▸ List.mem_cons_self), accepted]
          rw [split, List.cons_append, List.takeWhile_cons, first]
          rfl

theorem head_octets (last : accepts '\x00' = false) (text : List Char) :
    accepts ((octets text).headD '\x00') = text.head?.any accepts := by
  cases text with
  | nil => exact last
  | cons char rest =>
      obtain ⟨octet, others, split⟩ := List.exists_cons_of_ne_nil (charOctets_ne_nil char)
      have member : octet ∈ charOctets char := split ▸ List.mem_cons_self
      rw [octets_cons, split]
      exact accepts_charOctets uniform member

end

theorem count_octets (text : List Char) : (octets text).count '\n' = text.count '\n' := by
  induction text with
  | nil => rfl
  | cons char rest ih =>
      rw [octets_cons, List.count_append, ih]
      by_cases isWide : IsWide char
      · have absent : '\n' ∉ charOctets char := fun member =>
          absurd (isWide_of_mem_charOctets isWide member) (by decide)
        rw [List.count_eq_zero.mpr absent, List.count_cons_of_ne (isWide.ne '\n' (by decide)),
          Nat.zero_add]
      · rw [charOctets_narrow isWide, ← List.count_append, List.singleton_append]

theorem ofUInt8_injective : Function.Injective Char.ofUInt8 := by
  intro byte other same
  apply UInt8.toNat.inj
  exact congrArg (fun char => char.val.toNat) same

/-- The line feeds among the first octets of a source. -/
theorem count_bytes (source : String) {before rest : List Char}
    (split : source.toList = before ++ rest) :
    (source.toByteArray.data.toList.take (octets before).length).count 10 = before.count '\n' := by
  have counted := List.count_map_of_injective
    (source.toByteArray.data.toList.take (octets before).length) _ ofUInt8_injective 10
  rw [← counted, List.map_take]
  change ((buffer source).take _).count '\n' = _
  rw [buffer_eq, split, octets_append, List.take_left, count_octets]

/-! ### Parts of a source -/

/-- The text between two places, if both are between characters. -/
def slice? (source : String) (start stop : Nat) : Option String :=
  if valid : String.Pos.Raw.IsValid source ⟨start⟩ ∧ String.Pos.Raw.IsValid source ⟨stop⟩ then
    if start ≤ stop then
      some (source.extract (source.pos ⟨start⟩ valid.1) (source.pos ⟨stop⟩ valid.2))
    else none
  else none

theorem isValid_octets {source : String} {before rest : List Char}
    (split : source.toList = before ++ rest) :
    String.Pos.Raw.IsValid source ⟨(octets before).length⟩ := by
  rw [String.Pos.Raw.isValid_iff_exists_append]
  refine ⟨String.ofList before, String.ofList rest, ?_, ?_⟩
  · rw [← String.ofList_append, ← split, String.ofList_toList]
  · rw [← utf8ByteSize_ofList]
    rfl

theorem slice?_eq {source : String} {before text rest : List Char}
    (split : source.toList = before ++ text ++ rest) :
    slice? source (octets before).length (octets (before ++ text)).length =
      some (String.ofList text) := by
  have start := isValid_octets (split.trans (List.append_assoc _ _ _))
  have stop := isValid_octets split
  have le : (octets before).length ≤ (octets (before ++ text)).length := by
    rw [octets_append, List.length_append]
    omega
  unfold slice?
  rw [dif_pos ⟨start, stop⟩, if_pos le]
  congr 1
  apply String.toByteArray_inj.mp
  have whole : source = String.ofList before ++ (String.ofList text ++ String.ofList rest) := by
    rw [← String.ofList_append, ← String.ofList_append, ← List.append_assoc, ← split,
      String.ofList_toList]
  have behind : ∀ first last : ByteArray, (first ++ last).extract first.size
      (first.size + (String.ofList text).utf8ByteSize) =
        last.extract 0 (String.ofList text).utf8ByteSize :=
    fun first last => ByteArray.extract_append_size_add (i := 0)
  rw [String.toByteArray_extract, String.offset_pos, String.offset_pos]
  rw [← utf8ByteSize_ofList, ← utf8ByteSize_ofList, String.ofList_append,
    String.utf8ByteSize_append, whole, String.toByteArray_append, String.toByteArray_append]
  exact (behind _ _).trans (ByteArray.extract_append_eq_left rfl)

end LexicalScript
