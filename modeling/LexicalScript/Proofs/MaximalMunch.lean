import LexicalScript.Proofs.OctetReader

/-!
Scanning is a maximal munch.

The rule says what is taken from the start of a text: a blank, a comment, the longest lexeme, or a
fault where no lexeme stands.  It compares whole lexemes and looks at no single character ahead.
Applied again and again to what is left, it yields the items of a scan and no others.
-/

set_option autoImplicit false

namespace LexicalScript

open Pattern

theorem LexicalFault.message_injective {fault other : LexicalFault}
    (same : fault.message = other.message) : fault = other := by
  have apart (char : Char) : (unexpected char).message ≠ unterminatedString.message := by
    intro equal
    have lengths : ("Unexpected character: " ++ char.toString).length =
        "Unterminated string.".length := congrArg String.length equal
    rw [String.length_append, show "Unexpected character: ".length = 22 by decide,
      show "Unterminated string.".length = 20 by decide] at lengths
    omega
  cases fault with
  | unexpected char =>
      cases other with
      | unexpected char' =>
          have chars : char.toString = char'.toString := (String.append_right_inj _).mp same
          rw [show char = char' by simpa using chars]
      | unterminatedString => exact absurd same (apart char)
  | unterminatedString =>
      cases other with
      | unexpected char => exact absurd same.symm (apart char)
      | unterminatedString => rfl

/-! ### The rule -/

namespace Munch

/-- The texts that are passed over from their start: those that begin with a blank or with the two
slashes of a comment. -/
inductive Skipped : List Char → Prop
  | blank {char : Char} {rest : List Char} : char ∈ [' ', '\r', '\t', '\n'] →
      Skipped (char :: rest)
  | comment {rest : List Char} : Skipped ('/' :: '/' :: rest)

/-- The text begins with the lexeme of a token. -/
def Offers (source lexeme : List Char) : Prop := lexeme ∈ tokens ∧ lexeme <+: source

/-- What the rule takes from the start of a text. -/
inductive Takes : List Char → Piece → Prop
  | blank {char : Char} {rest : List Char} : char ∈ [' ', '\r', '\t', '\n'] →
      Takes (char :: rest) ⟨[char], .blank⟩
  | comment {words rest : List Char} : '\n' ∉ words → (rest = [] ∨ ∃ below, rest = '\n' :: below) →
      Takes ('/' :: '/' :: (words ++ rest)) ⟨'/' :: '/' :: words, .blank⟩
  | token {source lexeme : List Char} {kind : Kind} : ¬ Skipped source → Offers source lexeme →
      (∀ other, Offers source other → other.length ≤ lexeme.length) → Denotes lexeme kind →
      Takes source ⟨lexeme, .token kind⟩
  | unterminated {rest : List Char} {fault : LexicalFault} :
      (∀ other, ¬ Offers ('"' :: rest) other) → fault.message = "Unterminated string." →
      Takes ('"' :: rest) ⟨'"' :: rest, .fault fault⟩
  | unexpected {char : Char} {rest : List Char} {fault : LexicalFault} :
      ¬ Skipped (char :: rest) → (∀ other, ¬ Offers (char :: rest) other) → char ≠ '"' →
      fault.message = "Unexpected character: " ++ char.toString →
      Takes (char :: rest) ⟨[char], .fault fault⟩

/-- The rule applied to a text until nothing is left: the texts that it takes and the items that it
yields, from the line on which the text begins.  An item stands on the line on which its text
ends. -/
inductive Yields : Nat → List Char → List (List Char) → List Item → Prop
  | finish {line : Nat} : Yields line [] [] [.ok (Token.endOfInput line)]
  | skip {line : Nat} {text rest : List Char} {spans : List (List Char)} {items : List Item} :
      Takes (text ++ rest) ⟨text, .blank⟩ → Yields (line + text.count '\n') rest spans items →
      Yields line (text ++ rest) (text :: spans) items
  | token {line : Nat} {text rest : List Char} {kind : Kind} {spans : List (List Char)}
      {items : List Item} :
      Takes (text ++ rest) ⟨text, .token kind⟩ →
      Yields (line + text.count '\n') rest spans items →
      Yields line (text ++ rest) (text :: spans)
        (.ok ⟨kind, String.ofList text, line + text.count '\n'⟩ :: items)
  | fault {line : Nat} {text rest : List Char} {fault : LexicalFault}
      {spans : List (List Char)} {items : List Item} :
      Takes (text ++ rest) ⟨text, .fault fault⟩ →
      Yields (line + text.count '\n') rest spans items →
      Yields line (text ++ rest) (text :: spans)
        (.error ⟨fault, line + text.count '\n'⟩ :: items)

/-! ### The rule takes the first piece -/

theorem isSeparator_iff {char : Char} :
    isSeparator char = true ↔ char ∈ [' ', '\r', '\t', '\n'] := by
  simp [isSeparator, or_assoc]

/-- A text is passed over exactly where its first piece is blank. -/
theorem skipped_iff {char : Char} {rest : List Char} :
    Skipped (char :: rest) ↔ (Piece.first char rest).content = .blank := by
  constructor
  · rintro (blank | _)
    · rw [← Piece.Begins.eq_first (.blank (isSeparator_iff.mpr blank))]
    · rfl
  · have begins := Piece.first_begins char rest
    generalize Piece.first char rest = piece at begins
    intro isBlank
    cases begins with
    | blank separator => exact .blank (isSeparator_iff.mp separator)
    | slash same =>
        subst same
        unfold Piece.slash at isBlank
        split at isBlank
        · exact .comment
        · cases isBlank
    | comparison =>
        unfold Piece.comparison at isBlank
        split at isBlank <;> cases isBlank
    | string =>
        unfold Piece.string at isBlank
        split at isBlank <;> cases isBlank
    | punctuation => cases isBlank
    | number => cases isBlank
    | word => cases isBlank
    | unexpected => cases isBlank

theorem not_skipped {char : Char} {rest : List Char}
    (solid : (Piece.first char rest).content ≠ .blank) : ¬ Skipped (char :: rest) :=
  mt skipped_iff.mp solid

theorem offers_first {char : Char} {rest : List Char} {kind : Kind}
    (isToken : (Piece.first char rest).content = .token kind) :
    Offers (char :: rest) (Piece.first char rest).text :=
  ⟨mem_tokens.mpr ⟨kind, Piece.first_denotes isToken⟩, Piece.text_first_isPrefix char rest⟩

/-- Where a text is not passed over, its first piece covers every lexeme that it offers. -/
theorem first_covers_offered {char : Char} {rest lexeme : List Char} {kind : Kind}
    (kept : ¬ Skipped (char :: rest)) (offered : lexeme <+: char :: rest)
    (denotes : Denotes lexeme kind) : (Piece.first char rest).Covers lexeme kind := by
  obtain ⟨more, same⟩ := offered
  refine Piece.first_covers denotes same ?_
  rintro ⟨words, opening⟩
  rw [← opening] at kept
  exact kept .comment

theorem not_offers_of_fault {char : Char} {rest : List Char} {fault : LexicalFault}
    (isFault : (Piece.first char rest).content = .fault fault) (lexeme : List Char) :
    ¬ Offers (char :: rest) lexeme := by
  rintro ⟨member, offered⟩
  obtain ⟨kind, denotes⟩ := mem_tokens.mp member
  have kept : ¬ Skipped (char :: rest) := not_skipped (by rw [isFault]; nofun)
  obtain ⟨own, isToken, -⟩ := (first_covers_offered kept offered denotes).token
  rw [isFault] at isToken
  cases isToken

theorem fault_of_not_offers {char : Char} {rest : List Char} (kept : ¬ Skipped (char :: rest))
    (none : ∀ lexeme, ¬ Offers (char :: rest) lexeme) :
    ∃ fault, (Piece.first char rest).content = .fault fault := by
  cases content : (Piece.first char rest).content with
  | blank => exact absurd (skipped_iff.mpr content) kept
  | token kind => exact absurd (offers_first content) (none _)
  | fault fault => exact ⟨fault, rfl⟩

theorem takeWhile_line (rest : List Char) : '\n' ∉ rest.takeWhile (· ≠ '\n') ∧
    (rest.dropWhile (· ≠ '\n') = [] ∨ ∃ below, rest.dropWhile (· ≠ '\n') = '\n' :: below) := by
  induction rest with
  | nil => simp
  | cons char rest ih =>
      by_cases same : char = '\n'
      · simp [same]
      · simpa [same, Ne.symm same] using ih

theorem takes_first (char : Char) (rest : List Char) :
    Takes (char :: rest) (Piece.first char rest) := by
  cases content : (Piece.first char rest).content with
  | token kind =>
      have kept : ¬ Skipped (char :: rest) := not_skipped (by rw [content]; nofun)
      have longest : ∀ other, Offers (char :: rest) other →
          other.length ≤ (Piece.first char rest).text.length := by
        rintro other ⟨member, offered⟩
        obtain ⟨own, denotes⟩ := mem_tokens.mp member
        exact (first_covers_offered kept offered denotes).long
      have taken := Takes.token kept (offers_first content) longest (Piece.first_denotes content)
      rwa [← content] at taken
  | blank =>
      cases skipped_iff.mpr content with
      | blank blank =>
          rw [← Piece.Begins.eq_first (.blank (isSeparator_iff.mpr blank))]
          exact .blank blank
      | @comment rest =>
          have taken := Takes.comment (takeWhile_line rest).1 (takeWhile_line rest).2
          rwa [List.takeWhile_append_dropWhile] at taken
  | fault fault =>
      have none := not_offers_of_fault content
      have kept : ¬ Skipped (char :: rest) := not_skipped (by rw [content]; nofun)
      rcases Piece.first_of_fault content with ⟨rfl, same⟩ | ⟨quote, same⟩
      · rw [same]
        exact .unterminated none rfl
      · rw [same]
        exact .unexpected kept none quote rfl

/-- The rule leaves no choice. -/
theorem Takes.eq_first {char : Char} {rest : List Char} {piece : Piece}
    (takes : Takes (char :: rest) piece) : piece = Piece.first char rest := by
  generalize same : char :: rest = source at takes
  cases takes with
  | blank blank =>
      obtain ⟨rfl, rfl⟩ := List.cons.inj same
      exact Piece.Begins.eq_first (.blank (isSeparator_iff.mpr blank))
  | @comment words below inLine ends =>
      obtain ⟨rfl, rfl⟩ := List.cons.inj same
      have all : ∀ other, other ∈ words → decide (other ≠ '\n') = true := by
        rintro other member
        simp only [decide_eq_true_eq]
        rintro rfl
        exact inLine member
      have stop : below.takeWhile (· ≠ '\n') = [] := by
        rcases ends with rfl | ⟨lower, rfl⟩ <;> rfl
      change _ = Piece.mk ('/' :: '/' :: (words ++ below).takeWhile (· ≠ '\n')) .blank
      rw [List.takeWhile_append_of_pos all, stop, List.append_nil]
  | @token _ lexeme kind kept offered longest denotes =>
      subst same
      have covered := first_covers_offered kept offered.2 denotes
      obtain ⟨own, isToken, ownKind⟩ := covered.token
      have short := longest _ (offers_first isToken)
      have sameText : (Piece.first char rest).text = lexeme :=
        (List.prefix_of_prefix_length_le (Piece.text_first_isPrefix char rest) offered.2 short
          |>.eq_of_length_le covered.long)
      rw [ownKind sameText] at isToken
      rw [← sameText, ← isToken]
  | @unterminated rest fault none message =>
      obtain ⟨rfl, rfl⟩ := List.cons.inj same
      have own : fault = .unterminatedString := LexicalFault.message_injective message
      have kept : ¬ Skipped ('"' :: rest) := by
        rw [skipped_iff, ← Piece.Begins.eq_first (.string rfl)]
        unfold Piece.string
        split <;> nofun
      obtain ⟨found, isFault⟩ := fault_of_not_offers kept none
      rcases Piece.first_of_fault isFault with ⟨-, taken⟩ | ⟨notQuote, -⟩
      · rw [taken, own]
      · exact absurd rfl notQuote
  | @unexpected char rest fault kept none quote message =>
      obtain ⟨rfl, rfl⟩ := List.cons.inj same
      have own : fault = .unexpected char := LexicalFault.message_injective message
      obtain ⟨found, isFault⟩ := fault_of_not_offers kept none
      rcases Piece.first_of_fault isFault with ⟨isQuote, -⟩ | ⟨-, taken⟩
      · exact absurd isQuote quote
      · rw [taken, own]

/-! ### The rule yields the scan -/

theorem Takes.ne_nil {source : List Char} {piece : Piece} (takes : Takes source piece) :
    source ≠ [] := by
  cases takes with
  | token kept offered longest denotes =>
      rintro rfl
      rw [List.prefix_nil.mp offered.2] at denotes
      exact denotes.ne_nil rfl
  | blank => exact List.cons_ne_nil _ _
  | comment => exact List.cons_ne_nil _ _
  | unterminated => exact List.cons_ne_nil _ _
  | unexpected => exact List.cons_ne_nil _ _

theorem Takes.pieces_eq {text rest : List Char} {content : Content}
    (takes : Takes (text ++ rest) ⟨text, content⟩) :
    pieces (text ++ rest) = ⟨text, content⟩ :: pieces rest := by
  obtain ⟨char, tail, same⟩ := List.exists_cons_of_ne_nil takes.ne_nil
  rw [same] at takes
  have cut := pieces_cons char tail
  rw [← takes.eq_first, ← same, List.drop_left] at cut
  exact cut

theorem Yields.eq_pieces {line : Nat} {source : List Char} {spans : List (List Char)}
    {items : List Item} (yields : Yields line source spans items) :
    spans = (pieces source).map Piece.text ∧ items = itemsFrom line (pieces source) := by
  induction yields with
  | finish => exact ⟨rfl, rfl⟩
  | skip takes _ ih =>
      rw [takes.pieces_eq, List.map_cons, ← ih.1]
      exact ⟨rfl, ih.2⟩
  | token takes _ ih =>
      rw [takes.pieces_eq, List.map_cons, ← ih.1]
      exact ⟨rfl, congrArg _ ih.2⟩
  | fault takes _ ih =>
      rw [takes.pieces_eq, List.map_cons, ← ih.1]
      exact ⟨rfl, congrArg _ ih.2⟩

theorem yields_pieces (line : Nat) (source : List Char) :
    Yields line source ((pieces source).map Piece.text) (itemsFrom line (pieces source)) := by
  induction source using piecewise generalizing line with
  | nil => exact .finish
  | cons char tail left covers ih =>
      have takes := takes_first char (tail ++ left)
      have cut := pieces_covered covers
      rw [← List.cons_append] at takes cut ⊢
      generalize Piece.first char (tail ++ left) = piece at covers takes cut
      obtain ⟨text, content⟩ := piece
      cases covers
      rw [cut]
      have later := ih (line + (char :: tail).count '\n')
      cases content with
      | blank => exact .skip takes later
      | token kind => exact .token takes later
      | fault fault => exact .fault takes later

end Munch

theorem text_ne_nil_of_mem_piecesFrom {covered : Nat} {source : List Char} {piece : Piece}
    (member : piece ∈ piecesFrom covered source) : piece.text ≠ [] := by
  obtain ⟨char, rest, rfl⟩ := exists_first_of_mem_piecesFrom member
  exact Piece.text_first_ne_nil char rest

/-- A reader yields a scan.  The scan is what the rule of the longest lexeme yields and nothing
else, and the texts that the rule takes make up the source. -/
theorem scan_is_maximal_munch (source : String) :
    (∀ items, ReaderYields source items ↔ items = scan source) ∧
    (∀ spans items, Munch.Yields 1 source.toList spans items ↔
      spans = (pieces source.toList).map Piece.text ∧ items = scan source) ∧
    ((pieces source.toList).map Piece.text).flatten = source.toList ∧
    [] ∉ (pieces source.toList).map Piece.text := by
  refine ⟨reader_yields_scan source, ?_, ?_, ?_⟩
  · intro spans items
    constructor
    · intro yields
      exact yields.eq_pieces
    · rintro ⟨rfl, rfl⟩
      exact Munch.yields_pieces 1 source.toList
  · rw [← List.flatMap_def]
    exact flatMap_text_pieces source.toList
  · intro member
    obtain ⟨piece, within, empty⟩ := List.mem_map.mp member
    exact text_ne_nil_of_mem_piecesFrom within empty

/-- A text with a keyword, a name that begins with one, a comparison, a number in front of a point,
a string with a quote in it and a comment. -/
def mixedText : String := "var varied==12.5.\"a\\\"b\"//c"

theorem scan_is_maximal_munch_mixedText :
    Munch.Yields 1 mixedText.toList
      (["var", " ", "varied", "==", "12.5", ".", "\"a\\\"b\"", "//c"].map String.toList)
      [.ok ⟨.mark .varWord, "var", 1⟩, .ok ⟨.mark .identifier, "varied", 1⟩,
        .ok ⟨.mark .equalEqual, "==", 1⟩,
        .ok ⟨.number (Decimal.read "12".toList "5".toList), "12.5", 1⟩, .ok ⟨.mark .dot, ".", 1⟩,
        .ok ⟨.string "a\"b", "\"a\\\"b\"", 1⟩, .ok (Token.endOfInput 1)] :=
  ((scan_is_maximal_munch mixedText).2.1 _ _).mpr ⟨by decide +kernel, by rfl⟩

end LexicalScript
