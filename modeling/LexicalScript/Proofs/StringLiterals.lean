import LexicalScript.Proofs.OctetReader

/-!
Strings and their literals.

The end of a string is found by passing over a backslash together with the character behind it.
The value of a string is found by another rule, which passes over the backslash alone where the two
are no escape.  Both rules pair the backslashes in the same way, from left to right.  A text in
quotes with a backslash in front of each backslash and each quote is therefore a literal of that
text.
-/

set_option autoImplicit false

namespace LexicalScript

open Pattern

/-- A part of the text of a string: a character that stands for itself, or a backslash and the
character behind it. -/
inductive Part where
  | plain (char : Char)
  | pair (char : Char)
  deriving DecidableEq, Repr

namespace Part

def text : Part → List Char
  | .plain char => [char]
  | .pair char => ['\\', char]

/-- What a part stands for. -/
def value : Part → List Char
  | .plain char => [char]
  | .pair 'n' => ['\n']
  | .pair 't' => ['\t']
  | .pair '"' => ['"']
  | .pair '\\' => ['\\']
  | .pair char => ['\\', char]

/-- A part that a string can have. -/
def Fits : Part → Prop
  | .plain char => char ≠ '"' ∧ char ≠ '\\'
  | .pair _ => True

end Part

/-- The parts of a text from left to right, unless it ends in a backslash without a partner. -/
def parts? : List Char → Option (List Part)
  | [] => some []
  | ['\\'] => none
  | '\\' :: char :: rest => (parts? rest).map (.pair char :: ·)
  | char :: rest => (parts? rest).map (.plain char :: ·)

theorem unescape_plain {char : Char} (ordinary : char ≠ '\\') (rest : List Char) :
    unescape (char :: rest) = char :: unescape rest :=
  unescape.eq_6 char rest (fun _ same _ => ordinary same) (fun _ same _ => ordinary same)
    (fun _ same _ => ordinary same) (fun _ same _ => ordinary same)

/-- Where a backslash begins no escape, the character behind it is no backslash and is read on its
own.  The two are kept as they are. -/
theorem unescape_pair (char : Char) (rest : List Char) :
    unescape ('\\' :: char :: rest) = (Part.pair char).value ++ unescape rest := by
  unfold Part.value
  split
  case h_1 same => cases same
  case h_2 same =>
    cases same
    rfl
  case h_3 same =>
    cases same
    rfl
  case h_4 same =>
    cases same
    rfl
  case h_5 same =>
    cases same
    rfl
  case h_6 other newline tab quote guard same =>
    cases same
    rw [unescape.eq_6, unescape_plain]
    · rfl
    · exact guard
    all_goals
      rintro tail - same
      cases same
    · exact newline rfl
    · exact tab rfl
    · exact quote rfl
    · exact guard rfl

theorem exists_parts {body : List Char} (member : body ∈ stringText) :
    ∃ parts : List Part, body = parts.flatMap Part.text ∧ ∀ part, part ∈ parts → part.Fits := by
  obtain ⟨words, rfl, all⟩ := Language.mem_kstar.mp member
  clear member
  induction words with
  | nil => exact ⟨[], rfl, nofun⟩
  | cons word others ih =>
      obtain ⟨parts, same, fit⟩ := ih fun other within =>
        all other (List.mem_cons_of_mem word within)
      have whole : ∀ part : Part, word = part.text → part.Fits →
          ∃ parts : List Part, (word :: others).flatten = parts.flatMap Part.text ∧
            ∀ part, part ∈ parts → part.Fits := by
        intro part isWord fits
        refine ⟨part :: parts, ?_, ?_⟩
        · rw [List.flatten_cons, List.flatMap_cons, isWord, same]
        · intro other inside
          rcases List.mem_cons.mp inside with rfl | later
          · exact fits
          · exact fit other later
      rcases all word List.mem_cons_self with ⟨char, ordinary, rfl⟩ | escape
      · exact whole (.plain char) rfl ordinary
      · obtain ⟨guard, tail, rfl, ⟨char, _, rfl⟩, rfl⟩ := mem_oneOf_mul.mp escape
        exact whole (.pair char) rfl trivial

section

variable {parts : List Part} (fit : ∀ part, part ∈ parts → part.Fits)

include fit

theorem parts?_flatMap : parts? (parts.flatMap Part.text) = some parts := by
  induction parts with
  | nil => rfl
  | cons part others ih =>
      have read := ih fun other inside => fit other (List.mem_cons_of_mem part inside)
      rw [List.flatMap_cons]
      cases part with
      | plain char =>
          have ordinary := fit _ List.mem_cons_self
          change parts? (char :: others.flatMap Part.text) = _
          rw [parts?.eq_4, read]
          · rfl
          · exact fun same => absurd same ordinary.2
          · exact fun _ _ same _ => absurd same ordinary.2
      | pair char =>
          change parts? ('\\' :: char :: others.flatMap Part.text) = _
          rw [parts?.eq_3, read]
          rfl

theorem unescape_flatMap :
    unescape (parts.flatMap Part.text) = parts.flatMap Part.value := by
  induction parts with
  | nil => rfl
  | cons part others ih =>
      have read := ih fun other inside => fit other (List.mem_cons_of_mem part inside)
      rw [List.flatMap_cons, List.flatMap_cons]
      cases part with
      | plain char =>
          have ordinary := fit _ List.mem_cons_self
          change unescape (char :: others.flatMap Part.text) = _
          rw [unescape_plain ordinary.2, read]
          rfl
      | pair char =>
          change unescape ('\\' :: char :: others.flatMap Part.text) = _
          rw [unescape_pair, read]

/-- The backslashes at the end of the text of a string are pairs. -/
theorem even_guards :
    ((parts.flatMap Part.text).reverse.takeWhile (· = '\\')).length % 2 = 0 := by
  induction parts using List.reverseRecOn with
  | nil => rfl
  | append_singleton others part ih =>
      have even := ih fun other inside => fit other (List.mem_append_left _ inside)
      have fits : part.Fits := fit part (List.mem_append_right _ List.mem_cons_self)
      rw [List.flatMap_append, List.flatMap_singleton, List.reverse_append]
      cases part with
      | plain char => simp [Part.text, fits.2]
      | pair char =>
          by_cases guard : char = '\\'
          · simp only [Part.text, guard, List.reverse_cons, List.reverse_nil, List.nil_append,
              List.cons_append, decide_true, List.takeWhile_cons_of_pos, List.length_cons]
            omega
          · simp [Part.text, guard]

end

/-! ### Literals -/

/-- A text with a backslash in front of each backslash and each quote. -/
def escaped (text : List Char) : List Char :=
  text.flatMap fun char => if char = '\\' ∨ char = '"' then ['\\', char] else [char]

/-- The literal of a string. -/
def literal (text : String) : String :=
  String.ofList ('"' :: escaped text.toList ++ ['"'])

theorem escaped_mem_stringText (text : List Char) : escaped text ∈ stringText := by
  induction text with
  | nil => exact Language.nil_mem_kstar _
  | cons char rest ih =>
      unfold escaped at ih ⊢
      rw [List.flatMap_cons]
      split
      · exact guarded_mem_stringText ih
      · rename_i ordinary
        exact cons_mem_stringText (fun same => ordinary (Or.inr same))
          (fun same => ordinary (Or.inl same)) ih

theorem unescape_escaped (text : List Char) : unescape (escaped text) = text := by
  induction text with
  | nil => rfl
  | cons char rest ih =>
      unfold escaped at ih ⊢
      rw [List.flatMap_cons]
      split
      · rename_i special
        rw [List.cons_append, List.singleton_append, unescape_pair, ih]
        rcases special with rfl | rfl <;> rfl
      · rename_i ordinary
        rw [List.singleton_append, unescape_plain fun same => ordinary (Or.inl same), ih]

theorem count_escaped (text : List Char) : (escaped text).count '\n' = text.count '\n' := by
  induction text with
  | nil => rfl
  | cons char rest ih =>
      unfold escaped at ih ⊢
      rw [List.flatMap_cons, List.count_append, ih]
      split <;> simp [List.count_cons, Nat.add_comm]

theorem first_literal (text : String) :
    Piece.first '"' (escaped text.toList ++ ['"']) =
      ⟨'"' :: escaped text.toList ++ ['"'], .token (.string text)⟩ := by
  rw [← Piece.Begins.eq_first (.string rfl)]
  unfold Piece.string
  rw [stringBody?_of_mem_stringText (escaped_mem_stringText _) []]
  simp only [unescape_escaped, String.ofList_toList]

theorem scan_literal (text : String) :
    scan (literal text) =
      [.ok ⟨.string text, literal text, 1 + text.toList.count '\n'⟩,
        .ok (Token.endOfInput (1 + text.toList.count '\n'))] := by
  have cut : pieces ('"' :: escaped text.toList ++ ['"']) =
      [⟨'"' :: escaped text.toList ++ ['"'], .token (.string text)⟩] := by
    rw [List.cons_append, pieces_cons, first_literal, ← List.cons_append, List.drop_length]
    rfl
  have feeds : ('"' :: escaped text.toList ++ ['"']).count '\n' = text.toList.count '\n' := by
    rw [List.count_append, List.count_cons_of_ne (by decide), count_escaped]
    rfl
  unfold scan
  rw [show (literal text).toList = _ from String.toList_ofList, cut]
  simp only [itemsFrom, Piece.lineFeeds, feeds]
  rfl

/-- A reader yields a scan.  Every string has a literal, which is scanned as one token.  The value
of any string token is the text between its quotes, with its backslash pairs read from left to
right; no backslash is left over at the end. -/
theorem strings_have_literals :
    (∀ source items, ReaderYields source items ↔ items = scan source) ∧
    (∀ text : String, scan (literal text) =
      [.ok ⟨.string text, literal text, 1 + text.toList.count '\n'⟩,
        .ok (Token.endOfInput (1 + text.toList.count '\n'))]) ∧
    ∀ (source : String) (token : Token) (value : String), .ok token ∈ scan source →
      token.kind = .string value →
      ∃ body parts, token.lexeme = String.ofList ('"' :: body ++ ['"']) ∧
        parts? body = some parts ∧ Part.plain '"' ∉ parts ∧
        value = String.ofList (parts.flatMap Part.value) ∧
        (body.reverse.takeWhile (· = '\\')).length % 2 = 0 := by
  refine ⟨reader_yields_scan, scan_literal, ?_⟩
  intro source token value member isString
  rcases denotes_of_mem_scan member with ⟨-, last⟩ | denotes
  · cases last.symm.trans isString
  · rw [isString] at denotes
    generalize lexeme : token.lexeme.toList = text at denotes
    cases denotes with
    | @string body inside =>
        obtain ⟨parts, rfl, fit⟩ := exists_parts inside
        refine ⟨_, parts, ?_, parts?_flatMap fit, ?_, ?_, even_guards fit⟩
        · rw [List.cons_append, ← lexeme, String.ofList_toList]
        · exact fun quote => (fit _ quote).1 rfl
        · rw [unescape_flatMap fit]

/-- A text with the string that is written between quotes as a, an unknown pair, two backslashes, a
guarded quote and a line feed. -/
def pairedText : String := "x = \"a\\qé\\\\\\\"\\n\";"

/-- The item is the string of that text. -/
def isPaired : Item → Bool
  | .ok ⟨.string value, _, _⟩ => decide (value = "a\\qé\\\"\n")
  | _ => false

/-- The unknown pair is kept, and the second backslash guards no quote. -/
theorem strings_have_literals_pairedText :
    scan (literal "\\\"\n") =
      [.ok ⟨.string "\\\"\n", literal "\\\"\n", 2⟩, .ok (Token.endOfInput 2)] ∧
    ∃ token value body parts, .ok token ∈ scan pairedText ∧ token.kind = .string value ∧
      value = "a\\qé\\\"\n" ∧ token.lexeme = String.ofList ('"' :: body ++ ['"']) ∧
      parts? body = some parts ∧ value = String.ofList (parts.flatMap Part.value) := by
  refine ⟨strings_have_literals.2.1 _, ?_⟩
  have found : (scan pairedText).any isPaired = true := by decide +kernel
  obtain ⟨item, member, isString⟩ := List.any_eq_true.mp found
  unfold isPaired at isString
  split at isString
  · rename_i value lexeme line
    obtain ⟨body, parts, same, read, _, meant, _⟩ :=
      strings_have_literals.2.2 pairedText _ value member rfl
    exact ⟨_, value, body, parts, member, rfl, of_decide_eq_true isString, same, read, meant⟩
  · cases isString

end LexicalScript
