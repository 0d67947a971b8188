import LexicalScript.Proofs.OctetReader
import Mathlib.Data.List.Forall2

/-!
Stray characters.

A character with no use outside strings and comments is reported and passed over.  It goes on with
no token and begins none, so it divides what stands around it just as a space does.  A source in
which a space stands in place of every character that was reported has the same tokens on the same
lines.
-/

set_option autoImplicit false

namespace LexicalScript

/-! ### Characters without a use -/

/-- A character that has no use outside strings and comments. -/
structure IsStray (char : Char) : Prop where
  notSeparator : isSeparator char = false
  notPunctuation : punctuation? char = none
  notComparison : comparison? char = none
  notSlash : char ≠ '/'
  notQuote : char ≠ '"'
  notDigit : char.isDigit = false
  notNameStart : isNameStart char = false

namespace IsStray

variable {char : Char}

theorem first_eq (stray : IsStray char) (rest : List Char) :
    Piece.first char rest = ⟨[char], .fault (.unexpected char)⟩ :=
  (Piece.Begins.unexpected stray.notSeparator stray.notPunctuation stray.notComparison
    stray.notSlash stray.notQuote stray.notDigit stray.notNameStart).eq_first.symm

/-- Only stray characters are reported. -/
theorem of_first {rest : List Char} {reported : Char}
    (fault : (Piece.first char rest).content = .fault (.unexpected reported)) : IsStray char := by
  have begins := Piece.first_begins char rest
  generalize Piece.first char rest = piece at begins fault
  cases begins with
  | unexpected separator punctuation comparison slash quote digit start =>
      exact ⟨separator, punctuation, comparison, slash, quote, digit, start⟩
  | string =>
      unfold Piece.string at fault
      split at fault <;> cases fault
  | comparison =>
      unfold Piece.comparison at fault
      split at fault <;> cases fault
  | slash =>
      unfold Piece.slash at fault
      split at fault <;> cases fault
  | blank => cases fault
  | punctuation => cases fault
  | number => cases fault
  | word => cases fault

/-- A stray character goes on with no token, and ends no comment. -/
theorem stops (stray : IsStray char) :
    char ≠ '=' ∧ char ≠ '.' ∧ char ≠ '\n' ∧ isNamePart char = false := by
  refine ⟨?_, ?_, ?_, ?_⟩
  · rintro rfl
    cases stray.notComparison
  · rintro rfl
    cases stray.notPunctuation
  · rintro rfl
    cases stray.notSeparator
  · rw [Bool.eq_false_iff]
    intro part
    rcases Pattern.isNamePart_iff.mp part with start | digit
    · rw [stray.notNameStart] at start
      cases start
    · rw [stray.notDigit] at digit
      cases digit

end IsStray

/-- A character stays, or is stray and gives way to a space. -/
inductive Replaces : Char → Char → Prop
  | same (char : Char) : Replaces char char
  | stray {char : Char} : IsStray char → Replaces char ' '

/-- Stray characters replaced by spaces here and there. -/
abbrev ReplacesAll : List Char → List Char → Prop := List.Forall₂ Replaces

theorem ReplacesAll.refl (text : List Char) : ReplacesAll text text :=
  List.forall₂_same.mpr fun char _ => .same char

theorem ReplacesAll.append {text text' more more' : List Char} (replaced : ReplacesAll text text')
    (others : ReplacesAll more more') : ReplacesAll (text ++ more) (text' ++ more') :=
  List.rel_append replaced others

/-- A class of characters that does not tell a stray character from a space. -/
def Blind (accepts : Char → Bool) : Prop := ∀ char, IsStray char → accepts char = accepts ' '

theorem blind_isDigit : Blind Char.isDigit := fun _ stray => stray.notDigit

theorem blind_isNamePart : Blind isNamePart := fun _ stray => stray.stops.2.2.2

theorem blind_inLine : Blind (· ≠ '\n') := fun _ stray => decide_eq_true stray.stops.2.2.1

/-- A run of characters of such a class ends where it ended. -/
theorem takeWhile_replaced {accepts : Char → Bool} (blind : Blind accepts)
    {run more more' : List Char} (replaced : ReplacesAll more more')
    (whole : (run ++ more).takeWhile accepts = run) :
    (run ++ more').takeWhile accepts = run := by
  induction run with
  | nil =>
      cases replaced with
      | nil => rfl
      | @cons char char' rest rest' first _ =>
          have refused : accepts char = false := by
            cases accepted : accepts char with
            | false => rfl
            | true => simp [accepted] at whole
          have refused' : accepts char' = false := by
            cases first with
            | same => exact refused
            | stray stray => rw [← blind char stray, refused]
          simp [refused']
  | cons char run ih =>
      simp only [List.cons_append, List.takeWhile_cons] at whole ⊢
      split at whole
      · rename_i accepted
        rw [if_pos accepted, ih (List.cons.inj whole).2]
      · cases whole

/-- A space never stands where a mark was looked for in vain. -/
theorem head?_replaced {mark : Char} (other : mark ≠ ' ') {more more' : List Char}
    (replaced : ReplacesAll more more') (absent : more.head? ≠ some mark) :
    more'.head? ≠ some mark := by
  cases replaced with
  | nil => exact absent
  | cons first _ =>
      cases first with
      | same => exact absent
      | stray _ => simpa using other.symm

/-! ### Pieces in front of stray characters -/

theorem fractionDigits_of_head {text : List Char} (absent : text.head? ≠ some '.') :
    fractionDigits text = [] := by
  cases text with
  | nil => rfl
  | cons char rest =>
      have other : char ≠ '.' := by simpa using absent
      simp [fractionDigits, other]

/-- A fraction has the same digits when stray characters behind it give way to spaces. -/
theorem fractionDigits_replaced {text more more' : List Char} (replaced : ReplacesAll more more')
    (split : text = Cursor.fractionText text ++ more) :
    fractionDigits (Cursor.fractionText text ++ more') = fractionDigits text := by
  unfold Cursor.fractionText at split ⊢
  cases found : fractionDigits text with
  | cons digit others =>
      have whole : ((digit :: others) ++ more).takeWhile Char.isDigit = digit :: others := by
        rw [found] at split
        have digits := congrArg fractionDigits split
        rw [found] at digits
        exact digits.symm
      exact takeWhile_replaced blind_isDigit replaced whole
  | nil =>
      rw [found] at split
      obtain rfl : text = more := split
      -- A point may stand in front of a stray character, but never in its place.
      by_cases point : more'.head? = some '.'
      · cases replaced with
        | nil => rfl
        | @cons char char' rest rest' first behind =>
            obtain rfl : char' = '.' := by simpa using point
            cases first with
            | same =>
                have none : ([] ++ rest).takeWhile Char.isDigit = [] := found
                exact takeWhile_replaced blind_isDigit behind none
      · exact fractionDigits_of_head point

namespace Piece

variable {tail more more' : List Char} (replaced : ReplacesAll more more')

theorem comparison_of_head (char : Char) (short long : Mark) {rest : List Char}
    (absent : rest.head? ≠ some '=') :
    comparison char short long rest = ⟨[char], .token (.mark short)⟩ := by
  cases rest with
  | nil => rfl
  | cons next rest =>
      have other : next ≠ '=' := by simpa using absent
      simp [comparison, other]

theorem slash_of_head {rest : List Char} (absent : rest.head? ≠ some '/') :
    slash rest = ⟨['/'], .token (.mark .slash)⟩ := by
  cases rest with
  | nil => rfl
  | cons next rest =>
      have other : next ≠ '/' := by simpa using absent
      simp [slash, other]

theorem number_split (digit : Char) {whole behind : List Char}
    (digits : (whole ++ behind).takeWhile Char.isDigit = whole) :
    number digit (whole ++ behind) =
      ⟨digit :: whole ++ Cursor.fractionText behind,
        .token (.number (Decimal.read (digit :: whole) (fractionDigits behind)))⟩ := by
  have rest : (whole ++ behind).dropWhile Char.isDigit = behind := by
    have parts := List.takeWhile_append_dropWhile (p := Char.isDigit) (l := whole ++ behind)
    rw [digits] at parts
    exact List.append_cancel_left parts
  have text := Cursor.text_number digit (whole ++ behind)
  rw [digits, rest] at text
  rw [← text]
  unfold number
  rw [digits, rest]

include replaced

theorem number_replaced (digit : Char)
    (covers : (number digit (tail ++ more)).text = digit :: tail) :
    number digit (tail ++ more') = number digit (tail ++ more) := by
  obtain ⟨whole, behind, digits, cut⟩ : ∃ whole behind,
      (whole ++ behind).takeWhile Char.isDigit = whole ∧ tail ++ more = whole ++ behind := by
    refine ⟨_, (tail ++ more).dropWhile Char.isDigit, ?_, List.takeWhile_append_dropWhile.symm⟩
    rw [List.takeWhile_append_dropWhile]
  have own := number_split digit digits
  rw [cut, own] at covers
  obtain rfl : whole ++ Cursor.fractionText behind = tail := (List.cons.inj covers).2
  have split : behind = Cursor.fractionText behind ++ more := by
    rw [List.append_assoc] at cut
    exact (List.append_cancel_left cut).symm
  have replaced' : ReplacesAll behind (Cursor.fractionText behind ++ more') := by
    have kept := ReplacesAll.append (ReplacesAll.refl (Cursor.fractionText behind)) replaced
    rwa [← split] at kept
  have digits' := takeWhile_replaced blind_isDigit replaced' digits
  have fraction := fractionDigits_replaced replaced split
  rw [cut, own, List.append_assoc, number_split digit digits', fraction]
  unfold Cursor.fractionText at fraction ⊢
  rw [fraction]

theorem comparison_replaced (char : Char) (short long : Mark)
    (covers : (comparison char short long (tail ++ more)).text = char :: tail) :
    comparison char short long (tail ++ more') = comparison char short long (tail ++ more) := by
  cases tail with
  | nil =>
      have absent : more.head? ≠ some '=' := by
        intro present
        obtain ⟨rest, rfl⟩ := List.head?_eq_some_iff.mp present
        cases covers
      rw [List.nil_append, List.nil_append, comparison_of_head char short long absent,
        comparison_of_head char short long (head?_replaced (by decide) replaced absent)]
  | cons next rest =>
      by_cases equals : next = '='
      · subst equals
        rfl
      · rw [List.cons_append, comparison_of_head char short long (by simpa using equals)] at covers
        cases covers

theorem slash_replaced (covers : (slash (tail ++ more)).text = '/' :: tail) :
    slash (tail ++ more') = slash (tail ++ more) := by
  cases tail with
  | nil =>
      have absent : more.head? ≠ some '/' := by
        intro present
        obtain ⟨rest, rfl⟩ := List.head?_eq_some_iff.mp present
        cases covers
      rw [List.nil_append, List.nil_append, slash_of_head absent,
        slash_of_head (head?_replaced (by decide) replaced absent)]
  | cons next words =>
      by_cases comment : next = '/'
      · subst comment
        have inLine : (words ++ more).takeWhile (· ≠ '\n') = words :=
          (List.cons.inj (List.cons.inj covers).2).2
        simp only [List.cons_append, slash]
        rw [inLine, takeWhile_replaced blind_inLine replaced inLine]
      · rw [List.cons_append, slash_of_head (by simpa using comment)] at covers
        cases covers

theorem string_replaced (covers : (string (tail ++ more)).text = '"' :: tail) :
    string (tail ++ more') = string (tail ++ more) := by
  unfold string at covers ⊢
  cases found : stringBody? (tail ++ more) with
  | some body =>
      rw [found] at covers
      have ends : tail = body ++ ['"'] := (List.cons.inj covers).2.symm
      have text := Pattern.mem_stringText_of_stringBody? found
      have again := Pattern.stringBody?_of_mem_stringText text more'
      rw [ends, List.append_assoc, List.singleton_append, again]
  | none =>
      rw [found] at covers
      have nothing : more = [] := List.append_right_eq_self.mp (List.cons.inj covers).2
      subst nothing
      rw [List.forall₂_nil_left_iff.mp replaced, found]

theorem word_replaced (char : Char) (covers : (word char (tail ++ more)).text = char :: tail) :
    word char (tail ++ more') = word char (tail ++ more) := by
  have run : (tail ++ more).takeWhile isNamePart = tail := (List.cons.inj covers).2
  unfold word
  rw [run, takeWhile_replaced blind_isNamePart replaced run]

/-- A piece does not change when stray characters behind it give way to spaces. -/
theorem first_replaced (char : Char) (covers : (first char (tail ++ more)).text = char :: tail) :
    first char (tail ++ more') = first char (tail ++ more) := by
  have begins := first_begins char (tail ++ more)
  generalize first char (tail ++ more) = piece at begins covers
  symm
  cases begins with
  | blank separator => exact Begins.eq_first (.blank separator)
  | punctuation found => exact Begins.eq_first (.punctuation found)
  | comparison found =>
      rw [← comparison_replaced replaced char _ _ covers]
      exact Begins.eq_first (.comparison found)
  | slash same =>
      subst same
      rw [← slash_replaced replaced covers]
      exact Begins.eq_first (.slash rfl)
  | string same =>
      subst same
      rw [← string_replaced replaced covers]
      exact Begins.eq_first (.string rfl)
  | number digit =>
      rw [← number_replaced replaced char covers]
      exact Begins.eq_first (.number digit)
  | word start =>
      rw [← word_replaced replaced char covers]
      exact Begins.eq_first (.word start)
  | unexpected separator punctuation comparison slash quote digit start =>
      exact Begins.eq_first (.unexpected separator punctuation comparison slash quote digit start)

end Piece

/-! ### Stray characters as blanks -/

/-- Whether a piece is a stray character. -/
def Piece.isStray (piece : Piece) : Bool :=
  match piece.content with
  | .fault (.unexpected _) => true
  | _ => false

/-- The piece, or a blank in place of a stray character. -/
def Piece.blanked (piece : Piece) : Piece := if piece.isStray then ⟨[' '], .blank⟩ else piece

/-- A source with its stray characters replaced by spaces. -/
def blanked (source : List Char) : List Char :=
  (pieces source).flatMap fun piece => piece.blanked.text

/-- The first piece is a stray character exactly if its first character is one. -/
theorem Piece.first_of_isStray {char : Char} {rest : List Char}
    (stray : (first char rest).isStray = true) :
    IsStray char ∧ first char rest = ⟨[char], .fault (.unexpected char)⟩ := by
  unfold isStray at stray
  split at stray
  · rename_i fault
    have found := IsStray.of_first fault
    exact ⟨found, found.first_eq rest⟩
  · cases stray

theorem blanked_covered {char : Char} {tail left : List Char}
    (covers : (Piece.first char (tail ++ left)).text = char :: tail) :
    blanked (char :: (tail ++ left)) =
      (Piece.first char (tail ++ left)).blanked.text ++ blanked left := by
  unfold blanked
  rw [pieces_covered covers, List.flatMap_cons]

theorem replacesAll_blanked (source : List Char) : ReplacesAll source (blanked source) := by
  induction source using piecewise with
  | nil => exact .nil
  | cons char tail left covers ih =>
      rw [blanked_covered covers]
      unfold Piece.blanked
      split
      · rename_i isStray
        obtain ⟨stray, alone⟩ := Piece.first_of_isStray isStray
        rw [alone] at covers
        cases covers
        exact .cons (.stray stray) ih
      · rw [covers]
        exact (ReplacesAll.refl (char :: tail)).append ih

/-- The pieces are those of the source, with blanks in place of stray characters. -/
theorem pieces_blanked (source : List Char) :
    pieces (blanked source) = (pieces source).map Piece.blanked := by
  induction source using piecewise with
  | nil => rfl
  | cons char tail left covers ih =>
      rw [blanked_covered covers, pieces_covered covers, List.map_cons, ← ih]
      unfold Piece.blanked
      split
      · have space : Piece.first ' ' ([] ++ blanked left) = ⟨[' '], .blank⟩ :=
          (Piece.Begins.eq_first (.blank rfl)).symm
        have cut := pieces_covered (congrArg Piece.text space)
        rwa [space] at cut
      · have same := Piece.first_replaced (replacesAll_blanked left) char covers
        rw [covers, ← same]
        exact pieces_covered (same ▸ covers)

/-- Whether an item reports an unexpected character. -/
def isReport : Item → Bool
  | .error ⟨.unexpected _, _⟩ => true
  | _ => false

/-- Blanks in place of stray characters take the reports away and nothing else. -/
theorem itemsFrom_blanked (line : Nat) (source : List Char) :
    itemsFrom line (pieces (blanked source)) =
      (itemsFrom line (pieces source)).filter (!isReport ·) := by
  rw [pieces_blanked]
  induction source using piecewise generalizing line with
  | nil => rfl
  | cons char tail left covers ih =>
      rw [pieces_covered covers, List.map_cons]
      cases isStray : (Piece.first char (tail ++ left)).isStray with
      | true =>
          obtain ⟨stray, alone⟩ := Piece.first_of_isStray isStray
          have inLine : (⟨[char], .fault (.unexpected char)⟩ : Piece).lineFeeds = 0 :=
            List.count_cons_of_ne stray.stops.2.2.1
          rw [Piece.blanked, isStray, if_pos rfl, alone]
          simp only [itemsFrom, inLine]
          exact ih line
      | false =>
          rw [Piece.blanked, isStray, if_neg Bool.false_ne_true]
          unfold Piece.isStray at isStray
          unfold itemsFrom
          dsimp only
          rw [ih]
          split
          · rfl
          · rfl
          · rename_i fault found
            cases fault with
            | unexpected reported =>
                rw [found] at isStray
                cases isStray
            | unterminatedString => rfl

/-! ### The characters that a reader reports -/

/-- The places behind the characters that calls of a reader report. -/
def reportedEnds (calls : List (Item × Cursor)) : List Nat :=
  (calls.filter fun call => isReport call.1).map fun call => call.2.position

/-- A text that starts at a place, with spaces for the characters that end at one of the given
places. -/
def spaced (ends : List Nat) : Nat → List Char → List Char
  | _, [] => []
  | place, char :: rest =>
      let next := place + char.utf8Size
      (if next ∈ ends then ' ' else char) :: spaced ends next rest

/-- The places behind the stray characters of a text that starts at a place. -/
def strayEnds (place : Nat) : List Piece → List Nat
  | [] => []
  | piece :: rest =>
      let next := place + (octets piece.text).length
      if piece.isStray then next :: strayEnds next rest else strayEnds next rest

section

variable {ends : List Nat} {place : Nat}

theorem spaced_append (text more : List Char) :
    spaced ends place (text ++ more) =
      spaced ends place text ++ spaced ends (place + (octets text).length) more := by
  induction text generalizing place with
  | nil => rfl
  | cons char rest ih =>
      rw [length_octets_cons, ← Nat.add_assoc, List.cons_append, spaced, spaced, ih,
        List.cons_append]

theorem spaced_eq_self {text : List Char}
    (apart : ∀ stop, stop ∈ ends → stop ≤ place ∨ place + (octets text).length < stop) :
    spaced ends place text = text := by
  induction text generalizing place with
  | nil => rfl
  | cons char rest ih =>
      have positive := char.utf8Size_pos
      rw [length_octets_cons, ← Nat.add_assoc] at apart
      have kept : place + char.utf8Size ∉ ends := by
        intro member
        have := apart _ member
        omega
      rw [spaced, if_neg kept, ih]
      intro stop member
      have := apart stop member
      omega

theorem lt_of_mem_strayEnds {source : List Char} {stop : Nat}
    (member : stop ∈ strayEnds place (pieces source)) : place < stop := by
  induction source using piecewise generalizing place with
  | nil => cases member
  | cons char tail left covers ih =>
      have some' : 0 < (octets (char :: tail)).length :=
        List.length_pos_iff.mpr (mt octets_eq_nil_iff.mp (List.cons_ne_nil _ _))
      rw [pieces_covered covers, strayEnds, covers] at member
      split at member
      · rcases List.mem_cons.mp member with rfl | later
        · omega
        · have := ih later
          omega
      · have := ih member
        omega

/-- Spaces for the stray characters, wherever else there are places in front of the text. -/
theorem spaced_strayEnds {source : List Char}
    (known : ∀ stop, place < stop → (stop ∈ ends ↔ stop ∈ strayEnds place (pieces source))) :
    spaced ends place source = blanked source := by
  induction source using piecewise generalizing place with
  | nil => rfl
  | cons char tail left covers ih =>
      rw [blanked_covered covers, Piece.blanked]
      rw [pieces_covered covers, strayEnds, covers] at known
      split at known
      · rename_i isStray
        obtain ⟨-, alone⟩ := Piece.first_of_isStray isStray
        rw [alone] at covers
        cases covers
        have positive := char.utf8Size_pos
        rw [length_octets_cons, show (octets []).length = 0 from rfl, Nat.add_zero] at known
        have reported : place + char.utf8Size ∈ ends :=
          (known _ (by omega)).mpr List.mem_cons_self
        rw [if_pos isStray, List.nil_append, spaced, if_pos reported, ih]
        · rfl
        · intro stop beyond
          rw [known stop (by omega), List.mem_cons, or_iff_right (by omega)]
      · rename_i notStray
        rw [if_neg notStray, covers, ← List.cons_append, spaced_append, ih, spaced_eq_self]
        · intro stop member
          by_cases beyond : place < stop
          · exact Or.inr (lt_of_mem_strayEnds ((known stop beyond).mp member))
          · exact Or.inl (Nat.le_of_not_lt beyond)
        · intro stop beyond
          exact known stop (by omega)

end

/-- The characters that a reader reports are the stray ones. -/
theorem reportedEnds_callsFrom (source : String) (cursor : Cursor) (pieces : List Piece) :
    reportedEnds (callsFrom source cursor pieces) = strayEnds cursor.position pieces := by
  induction pieces generalizing cursor with
  | nil => rfl
  | cons piece rest ih =>
      obtain ⟨text, content⟩ := piece
      have later : reportedEnds (callsFrom source (cursor.opened.past text) rest) =
          strayEnds (cursor.position + (octets text).length) rest := ih _
      cases content with
      | blank => exact later
      | token kind => exact later
      | fault fault =>
          cases fault with
          | unexpected reported => exact congrArg (List.cons _) later
          | unterminatedString => exact later

/-- A reader that finds spaces in place of the characters that it reports yields all other items
again, and reports nothing. -/
theorem stray_characters_act_as_blanks (source : String) :
    ∃ calls, Calls source ⟨0, 0, 1⟩ calls ∧ calls.map Prod.fst = scan source ∧
      let spaces := String.ofList (spaced (reportedEnds calls) 0 source.toList)
      (∀ item, item ∈ scan spaces → isReport item = false) ∧
      scan spaces = (scan source).filter (!isReport ·) := by
  have ends := reportedEnds_callsFrom source ⟨0, 0, 1⟩ (pieces source.toList)
  refine ⟨_, (Cursor.Between.start source).calls, map_fst_callsFrom _ _ _, ?_⟩
  intro spaces
  have text : spaces.toList = blanked source.toList := by
    rw [String.toList_ofList]
    exact spaced_strayEnds fun stop _ => by rw [ends]
  have same : scan spaces = (scan source).filter (!isReport ·) := by
    rw [scan, text, itemsFrom_blanked]
    rfl
  refine ⟨?_, same⟩
  intro item member
  rw [same] at member
  exact Bool.not_eq_true' _ ▸ (List.mem_filter.mp member).2

/-- A character of two octets is reported at one place and stands in a string at another. -/
example : reportedEnds [(.error ⟨.unexpected 'é', 1⟩, ⟨1, 3, 1⟩)] = [3] ∧
    spaced [3] 0 "aéb \"é\"".toList = "a b \"é\"".toList := by
  decide

end LexicalScript
