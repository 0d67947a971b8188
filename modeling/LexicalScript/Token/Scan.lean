import LexicalScript.Token

/-!
Scanning of source text into tokens.

A source is first cut into pieces: blanks, tokens and faults, each with the text it covers.  Where
a piece ends depends on the text alone and not on lines.  Lines are added in a second step, which
counts the line feeds of the pieces; an item stands on the line on which its piece ends.  A fault
does not stop the scan.
-/

set_option autoImplicit false

namespace LexicalScript

inductive LexicalFault where
  | unexpected (char : Char)
  | unterminatedString
  deriving DecidableEq, Repr

def LexicalFault.message : LexicalFault → String
  | .unexpected char => "Unexpected character: " ++ char.toString
  | .unterminatedString => "Unterminated string."

structure LexicalError where
  fault : LexicalFault
  line : Nat
  deriving DecidableEq, Repr

/-! ### Pieces of source text -/

inductive Content where
  | blank
  | token (kind : Kind)
  | fault (fault : LexicalFault)
  deriving Repr

structure Piece where
  text : List Char
  content : Content
  deriving Repr

def punctuation? : Char → Option Mark
  | '(' => some .leftParen
  | ')' => some .rightParen
  | '\x7b' => some .leftBrace
  | '\x7d' => some .rightBrace
  | '[' => some .leftBracket
  | ']' => some .rightBracket
  | ',' => some .comma
  | '.' => some .dot
  | '-' => some .minus
  | '+' => some .plus
  | ';' => some .semicolon
  | '*' => some .star
  | _ => none

/-- The marks that an equals sign may lengthen: the mark without and with it. -/
def comparison? : Char → Option (Mark × Mark)
  | '!' => some (.bang, .bangEqual)
  | '=' => some (.equal, .equalEqual)
  | '<' => some (.less, .lessEqual)
  | '>' => some (.greater, .greaterEqual)
  | _ => none

def isSeparator (char : Char) : Bool :=
  char == ' ' || char == '\r' || char == '\t' || char == '\n'

def isNameStart (char : Char) : Bool := char.isAlpha || char == '_'

def isNamePart (char : Char) : Bool := char.isAlphanum || char == '_'

/-- The text up to the closing quote of a string, if there is one.  A backslash guards the character
after it. -/
def stringBody? : List Char → Option (List Char)
  | [] => none
  | '"' :: _ => some []
  | '\\' :: guarded :: rest => (stringBody? rest).map ('\\' :: guarded :: ·)
  | char :: rest => (stringBody? rest).map (char :: ·)

/-- The value of a string from the text between its quotes.  A backslash that starts none of the
four escapes stands for itself. -/
def unescape : List Char → List Char
  | [] => []
  | '\\' :: 'n' :: rest => '\n' :: unescape rest
  | '\\' :: 't' :: rest => '\t' :: unescape rest
  | '\\' :: '"' :: rest => '"' :: unescape rest
  | '\\' :: '\\' :: rest => '\\' :: unescape rest
  | char :: rest => char :: unescape rest

/-- The fraction digits after a point, empty unless a digit follows the point. -/
def fractionDigits : List Char → List Char
  | '.' :: rest => rest.takeWhile Char.isDigit
  | _ => []

namespace Piece

def string (rest : List Char) : Piece :=
  match stringBody? rest with
  | some body =>
      ⟨'"' :: body ++ ['"'], .token (.string (String.ofList (unescape body)))⟩
  | none => ⟨'"' :: rest, .fault .unterminatedString⟩

def number (digit : Char) (rest : List Char) : Piece :=
  let whole := digit :: rest.takeWhile Char.isDigit
  let fraction := fractionDigits (rest.dropWhile Char.isDigit)
  ⟨if fraction.isEmpty then whole else whole ++ '.' :: fraction,
    .token (.number (Decimal.read whole fraction))⟩

def word (char : Char) (rest : List Char) : Piece :=
  let text := char :: rest.takeWhile isNamePart
  ⟨text, .token (.mark ((Mark.ofKeyword? (String.ofList text)).getD .identifier))⟩

def slash : List Char → Piece
  | '/' :: rest => ⟨'/' :: '/' :: rest.takeWhile (· ≠ '\n'), .blank⟩
  | _ => ⟨['/'], .token (.mark .slash)⟩

def comparison (char : Char) (short long : Mark) : List Char → Piece
  | '=' :: _ => ⟨[char, '='], .token (.mark long)⟩
  | _ => ⟨[char], .token (.mark short)⟩

def first (char : Char) (rest : List Char) : Piece :=
  if isSeparator char then ⟨[char], .blank⟩
  else match punctuation? char with
  | some mark => ⟨[char], .token (.mark mark)⟩
  | none =>
      match comparison? char with
      | some (short, long) => comparison char short long rest
      | none =>
          if char = '/' then slash rest
          else if char = '"' then string rest
          else if char.isDigit then number char rest
          else if isNameStart char then word char rest
          else ⟨[char], .fault (.unexpected char)⟩

def lineFeeds (piece : Piece) : Nat := piece.text.count '\n'

end Piece

/-- The pieces of a source of which the first `covered` characters belong to an earlier piece. -/
def piecesFrom : Nat → List Char → List Piece
  | _, [] => []
  | covered + 1, _ :: rest => piecesFrom covered rest
  | 0, char :: rest =>
      let piece := Piece.first char rest
      piece :: piecesFrom (piece.text.length - 1) rest

def pieces (source : List Char) : List Piece := piecesFrom 0 source

/-! ### Items with lines -/

abbrev Item := Except LexicalError Token

/-- The items of pieces that start on the given line, closed by the end of the input. -/
def itemsFrom (line : Nat) : List Piece → List Item
  | [] => [.ok (Token.endOfInput line)]
  | piece :: rest =>
      let line := line + piece.lineFeeds
      match piece.content with
      | .blank => itemsFrom line rest
      | .token kind => .ok ⟨kind, String.ofList piece.text, line⟩ :: itemsFrom line rest
      | .fault fault => .error ⟨fault, line⟩ :: itemsFrom line rest

def scan (source : String) : List Item := itemsFrom 1 (pieces source.toList)

/-- The tokens in front of the first error, and that error if there is one. -/
def splitItems : List Item → List Token × Option LexicalError
  | [] => ([], none)
  | .error error :: _ => ([], some error)
  | .ok token :: rest =>
      let (tokens, error) := splitItems rest
      (token :: tokens, error)

def tokens? (source : String) : Except LexicalError (List Token) :=
  match splitItems (scan source) with
  | (tokens, none) => .ok tokens
  | (_, some error) => .error error

/-! ### The pieces tile the source -/

theorem eq_append_of_stringBody? {source body : List Char}
    (found : stringBody? source = some body) :
    ∃ rest, source = body ++ '"' :: rest := by
  fun_induction stringBody? source generalizing body with
  | case1 => cases found
  | case2 rest =>
      cases found
      exact ⟨rest, rfl⟩
  | case3 guarded rest ih =>
      obtain ⟨inner, innerFound, rfl⟩ := Option.map_eq_some_iff.mp found
      obtain ⟨tail, same⟩ := ih innerFound
      exact ⟨tail, by rw [same]; rfl⟩
  | case4 char rest _ _ ih =>
      obtain ⟨inner, innerFound, rfl⟩ := Option.map_eq_some_iff.mp found
      obtain ⟨tail, same⟩ := ih innerFound
      exact ⟨tail, by rw [same]; rfl⟩

theorem isPrefix_of_fractionDigits {source : List Char} (present : fractionDigits source ≠ []) :
    '.' :: fractionDigits source <+: source := by
  unfold fractionDigits at present ⊢
  split
  · exact (List.prefix_cons_inj '.').mpr (List.takeWhile_prefix _)
  · rename_i other
    split at present
    · exact absurd rfl (other _)
    · exact absurd rfl present

namespace Piece

theorem text_string_isPrefix (rest : List Char) : (string rest).text <+: '"' :: rest := by
  unfold string
  split
  · rename_i body found
    obtain ⟨tail, same⟩ := eq_append_of_stringBody? found
    exact ⟨tail, by simp [same]⟩
  · exact List.prefix_rfl

theorem text_number_isPrefix (digit : Char) (rest : List Char) :
    (number digit rest).text <+: digit :: rest := by
  unfold number
  dsimp only
  split
  · exact (List.prefix_cons_inj digit).mpr (List.takeWhile_prefix _)
  · rename_i present
    have behind : '.' :: fractionDigits (rest.dropWhile Char.isDigit) <+:
        rest.dropWhile Char.isDigit :=
      isPrefix_of_fractionDigits (by simpa using present)
    obtain ⟨tail, same⟩ := behind
    refine ⟨tail, ?_⟩
    rw [List.append_assoc, same, List.cons_append, List.takeWhile_append_dropWhile]

theorem text_word_isPrefix (char : Char) (rest : List Char) :
    (word char rest).text <+: char :: rest :=
  (List.prefix_cons_inj char).mpr (List.takeWhile_prefix _)

theorem text_slash_isPrefix (rest : List Char) : (slash rest).text <+: '/' :: rest := by
  unfold slash
  split
  · rw [List.prefix_cons_inj, List.prefix_cons_inj]
    exact List.takeWhile_prefix _
  · exact ⟨rest, rfl⟩

theorem text_comparison_isPrefix (char : Char) (short long : Mark) (rest : List Char) :
    (comparison char short long rest).text <+: char :: rest := by
  unfold comparison
  split
  · exact ⟨_, rfl⟩
  · exact ⟨rest, rfl⟩

theorem text_first_isPrefix (char : Char) (rest : List Char) :
    (first char rest).text <+: char :: rest := by
  have alone : [char] <+: char :: rest := ⟨rest, rfl⟩
  unfold first
  split
  · exact alone
  · split
    · exact alone
    · split
      · exact text_comparison_isPrefix char _ _ rest
      · split
        · rename_i same
          exact same ▸ text_slash_isPrefix rest
        · split
          · rename_i same
            exact same ▸ text_string_isPrefix rest
          · split
            · exact text_number_isPrefix char rest
            · split
              · exact text_word_isPrefix char rest
              · exact alone

theorem text_first_ne_nil (char : Char) (rest : List Char) : (first char rest).text ≠ [] := by
  unfold first string number word slash comparison
  dsimp only
  repeat' split
  all_goals simp

end Piece

theorem exists_first_of_mem_piecesFrom {covered : Nat} {source : List Char} {piece : Piece}
    (member : piece ∈ piecesFrom covered source) :
    ∃ char rest, piece = Piece.first char rest := by
  fun_induction piecesFrom covered source with
  | case1 => cases member
  | case2 covered char rest ih => exact ih member
  | case3 char rest first ih =>
      rcases List.mem_cons.mp member with rfl | later
      · exact ⟨char, rest, rfl⟩
      · exact ih later

/-- Characters that belong to an earlier piece play no part. -/
theorem piecesFrom_eq_drop (covered : Nat) (source : List Char) :
    piecesFrom covered source = pieces (source.drop covered) := by
  induction source generalizing covered with
  | nil => simp [piecesFrom, pieces]
  | cons char rest ih =>
      cases covered with
      | zero => rfl
      | succ covered =>
          rw [piecesFrom, List.drop_succ_cons]
          exact ih covered

theorem pieces_cons (char : Char) (rest : List Char) :
    pieces (char :: rest) =
      Piece.first char rest ::
        pieces ((char :: rest).drop (Piece.first char rest).text.length) := by
  have nonempty := List.length_pos_iff.mpr (Piece.text_first_ne_nil char rest)
  rw [pieces, piecesFrom]
  rw [piecesFrom_eq_drop]
  obtain ⟨length, same⟩ : ∃ length, (Piece.first char rest).text.length = length + 1 :=
    ⟨_, (Nat.succ_pred_eq_of_pos nonempty).symm⟩
  rw [same, List.drop_succ_cons, Nat.add_sub_cancel]

/-- Nothing is lost and nothing is read twice: the texts of the pieces make up the source. -/
theorem flatMap_text_pieces (source : List Char) :
    (pieces source).flatMap Piece.text = source := by
  induction size : source.length using Nat.strongRecOn generalizing source with
  | _ length ih =>
      cases source with
      | nil => rfl
      | cons char rest =>
          obtain ⟨tail, same⟩ := Piece.text_first_isPrefix char rest
          have left : (char :: rest).drop (Piece.first char rest).text.length = tail := by
            rw [← same, List.drop_left]
          have shorter : tail.length < length := by
            have nonempty := List.length_pos_iff.mpr (Piece.text_first_ne_nil char rest)
            have lengths := congrArg List.length same
            rw [List.length_append] at lengths
            omega
          rw [pieces_cons, left, List.flatMap_cons, ih tail.length shorter tail rfl, same]

end LexicalScript
