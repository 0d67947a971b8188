import LexicalScript.Prompt
import Mathlib.Data.List.Forall2

/-!
What trimming leaves of a line, and which lines end a prompt.

Both are given by characters alone.  A trimmed line is what stands between the white space at the
ends of a text, and a prompt ends at one of the spellings of two words, which are listed.
-/

set_option autoImplicit false

namespace LexicalScript

/-! ### White space at the ends -/

/-- The code points with the Unicode property White_Space. -/
def whiteSpace : List Nat :=
  [0x09, 0x0A, 0x0B, 0x0C, 0x0D, 0x20, 0x85, 0xA0, 0x1680, 0x2000, 0x2001, 0x2002, 0x2003, 0x2004,
    0x2005, 0x2006, 0x2007, 0x2008, 0x2009, 0x200A, 0x2028, 0x2029, 0x202F, 0x205F, 0x3000]

theorem isBlank_iff {char : Char} : Text.isBlank char = true ↔ char.toNat ∈ whiteSpace := by
  simp only [Text.isBlank, whiteSpace, Bool.or_eq_true, Bool.and_eq_true, decide_eq_true_eq,
    beq_iff_eq, List.mem_cons, List.not_mem_nil, or_false]
  omega

/-- The text is the line with white space around it, and the line has none at its ends. -/
structure Trims (text line : List Char) : Prop where
  around : ∃ front back, text = front ++ line ++ back ∧
    ∀ char, char ∈ front ++ back → char.toNat ∈ whiteSpace
  first : ∀ char, line.head? = some char → char.toNat ∉ whiteSpace
  last : ∀ char, line.getLast? = some char → char.toNat ∉ whiteSpace

theorem isBlank_of_mem_takeWhile {text : List Char} {char : Char}
    (member : char ∈ text.takeWhile Text.isBlank) : char.toNat ∈ whiteSpace :=
  isBlank_iff.mp (List.all_eq_true.mp List.all_takeWhile char member)

theorem head?_dropWhile_isBlank {text : List Char} {char : Char}
    (head : (text.dropWhile Text.isBlank).head? = some char) : char.toNat ∉ whiteSpace := by
  have kept := List.head?_dropWhile_not Text.isBlank text
  rw [head] at kept
  exact fun blank => Bool.false_ne_true (kept.symm.trans (isBlank_iff.mpr blank))

theorem dropWhile_isBlank_eq {text : List Char}
    (plain : ∀ char, text.head? = some char → char.toNat ∉ whiteSpace) :
    text.dropWhile Text.isBlank = text := by
  cases text with
  | nil => rfl
  | cons char rest =>
      rw [List.dropWhile_cons_of_neg]
      exact fun blank => plain char rfl (isBlank_iff.mp blank)

theorem trims_trim (text : List Char) : Trims text (Text.trim text) := by
  let rest := (text.dropWhile Text.isBlank).reverse
  have split : text = text.takeWhile Text.isBlank ++ text.dropWhile Text.isBlank :=
    List.takeWhile_append_dropWhile.symm
  have split' : text.dropWhile Text.isBlank =
      Text.trim text ++ (rest.takeWhile Text.isBlank).reverse := by
    have whole : rest.takeWhile Text.isBlank ++ rest.dropWhile Text.isBlank = rest :=
      List.takeWhile_append_dropWhile
    have turned := congrArg List.reverse whole
    rw [List.reverse_append, List.reverse_reverse] at turned
    exact turned.symm
  refine ⟨⟨text.takeWhile Text.isBlank, (rest.takeWhile Text.isBlank).reverse, ?_, ?_⟩, ?_, ?_⟩
  · rw [List.append_assoc, ← split', ← split]
  · intro char member
    rcases List.mem_append.mp member with front | back
    · exact isBlank_of_mem_takeWhile front
    · exact isBlank_of_mem_takeWhile (List.mem_reverse.mp back)
  · intro char head
    apply @head?_dropWhile_isBlank text
    rw [split', List.head?_append, head]
    rfl
  · intro char last
    rw [Text.trim, List.getLast?_reverse] at last
    exact head?_dropWhile_isBlank last

theorem Trims.eq_trim {text line : List Char} (trims : Trims text line) :
    line = Text.trim text := by
  obtain ⟨⟨front, back, rfl, blank⟩, first, last⟩ := trims
  have spaces : ∀ char, char ∈ front → Text.isBlank char = true := fun char member =>
    isBlank_iff.mpr (blank char (List.mem_append_left back member))
  have spaces' : ∀ char, char ∈ back.reverse → Text.isBlank char = true := fun char member =>
    isBlank_iff.mpr (blank char (List.mem_append_right front (List.mem_reverse.mp member)))
  have behind : (back.reverse ++ line.reverse).dropWhile Text.isBlank = line.reverse := by
    rw [List.dropWhile_append_of_pos spaces']
    apply dropWhile_isBlank_eq
    rw [List.head?_reverse]
    exact last
  unfold Text.trim
  rw [List.append_assoc, List.dropWhile_append_of_pos spaces]
  cases line with
  | nil =>
      have none : (back ++ []).dropWhile Text.isBlank = [] := by
        apply List.dropWhile_append_of_pos
        exact fun char member => spaces' char (List.mem_reverse.mpr member)
      rw [List.append_nil] at none
      rw [List.nil_append, none]
      rfl
  | cons char rest =>
      rw [@dropWhile_isBlank_eq (char :: rest ++ back) first, List.reverse_append, behind,
        List.reverse_reverse]

/-- Every text has one trimmed line. -/
theorem forall₂_trims_iff {texts lines : List (List Char)} :
    List.Forall₂ Trims texts lines ↔ lines = texts.map Text.trim := by
  constructor
  · intro trims
    induction trims with
    | nil => rfl
    | cons first _ ih => rw [first.eq_trim, ih, List.map_cons]
  · rintro rfl
    exact List.forall₂_map_right_iff.mpr (List.forall₂_same.mpr fun text _ => trims_trim text)

/-! ### The words that end a prompt -/

/-- The ways to write a word whose letters are given small and capital. -/
def spellings : List (Char × Char) → List (List Char)
  | [] => [[]]
  | (small, capital) :: letters =>
      (spellings letters).flatMap fun rest => [small :: rest, capital :: rest]

/-- The lines that end a prompt. -/
def farewells : List (List Char) :=
  spellings [('e', 'E'), ('x', 'X'), ('i', 'I'), ('t', 'T')] ++
    spellings [('q', 'Q'), ('u', 'U'), ('i', 'I'), ('t', 'T')]

/-- Whether the first is a small letter and the second its capital. -/
def isCased (letter : Char × Char) : Bool :=
  letter.2.toNat + 32 == letter.1.toNat && 97 ≤ letter.1.toNat && letter.1.toNat ≤ 122

theorem toLower_eq_iff {small capital : Char} (cased : isCased (small, capital) = true)
    {char : Char} : char.toLower = small ↔ char = small ∨ char = capital := by
  simp only [isCased, Bool.and_eq_true, beq_iff_eq, decide_eq_true_eq] at cased
  rw [← Char.toNat_inj, ← @Char.toNat_inj char small, ← Char.toNat_inj]
  unfold Char.toLower
  split
  · next capitals =>
      have bounds : 65 ≤ char.toNat ∧ char.toNat ≤ 90 := capitals
      have moved : (char.val + 32).toNat = char.toNat + 32 := by
        rw [UInt32.toNat_add]
        exact Nat.mod_eq_of_lt (by change char.toNat + 32 < _; omega)
      change (char.val + 32).toNat = small.toNat ↔ _
      omega
  · next other =>
      have outside : ¬ (65 ≤ char.toNat ∧ char.toNat ≤ 90) := other
      omega

theorem map_toLower_eq_iff {letters : List (Char × Char)} (cased : letters.all isCased = true)
    {line : List Char} :
    line.map Char.toLower = letters.map Prod.fst ↔ line ∈ spellings letters := by
  induction letters generalizing line with
  | nil => simp [spellings]
  | cons letter letters ih =>
      obtain ⟨small, capital⟩ := letter
      rw [List.all_cons, Bool.and_eq_true] at cased
      cases line with
      | nil => simp [spellings]
      | cons char line =>
          simp only [List.map_cons, List.cons.injEq, toLower_eq_iff cased.1, ih cased.2, spellings,
            List.mem_flatMap, List.mem_cons, List.not_mem_nil, or_false]
          constructor
          · rintro ⟨rfl | rfl, member⟩
            · exact ⟨line, member, Or.inl ⟨rfl, rfl⟩⟩
            · exact ⟨line, member, Or.inr ⟨rfl, rfl⟩⟩
          · rintro ⟨_, member, ⟨same, rfl⟩ | ⟨same, rfl⟩⟩
            · exact ⟨Or.inl same, member⟩
            · exact ⟨Or.inr same, member⟩

theorem isFarewell_iff {line : List Char} :
    Prompting.isFarewell line = true ↔ line ∈ farewells := by
  simp only [Prompting.isFarewell, Text.sameIgnoringCase, Bool.or_eq_true, beq_iff_eq, farewells,
    List.mem_append]
  apply or_congr
  · exact @map_toLower_eq_iff [('e', 'E'), ('x', 'X'), ('i', 'I'), ('t', 'T')] (by decide) line
  · exact @map_toLower_eq_iff [('q', 'Q'), ('u', 'U'), ('i', 'I'), ('t', 'T')] (by decide) line

end LexicalScript
