import LexicalScript.Proofs.JoinedTexts
import LexicalScript.Proofs.MaximalMunch

/-!
Tokens laid out anew.

A lexeme alone determines the kind of its token and the value that the token carries.  Behind a
lexeme a separator never goes on with it, so the lexemes of a source are found again whatever
separators are put between them.
-/

set_option autoImplicit false

namespace LexicalScript

open Pattern

/-! ### Lexemes by themselves -/

theorem Pattern.Denotes.no_comment {lexeme : List Char} {kind : Kind}
    (denotes : Denotes lexeme kind) : ¬ ['/', '/'] <+: lexeme := by
  rintro ⟨words, same⟩
  cases denotes with
  | fixed listed =>
      rw [← same] at listed
      rcases mem_fixedMarks.mp listed with
        ⟨char, -, single⟩ | ⟨char, short, long, -, ⟨single, -⟩ | ⟨double, -⟩⟩ | ⟨single, -⟩
      · cases single
      · cases single
      · cases double
      · cases single
  | string => cases same
  | integer whole =>
      have slash : '/' ∈ lexeme := same ▸ List.mem_cons_self
      exact absurd ((mem_digits.mp whole).2 '/' slash) (by decide)
  | decimal isWhole =>
      obtain ⟨nonempty, all⟩ := mem_digits.mp isWhole
      obtain ⟨head, tail, rfl⟩ := List.exists_cons_of_ne_nil nonempty
      have slash : '/' = head := (List.cons.inj same).1
      exact absurd (all '/' (slash ▸ List.mem_cons_self)) (by decide)
  | keyword name =>
      obtain ⟨head, tail, start, -, rfl⟩ := mem_names.mp name
      cases same
      exact absurd start (by decide)
  | identifier name =>
      obtain ⟨head, tail, start, -, rfl⟩ := mem_names.mp name
      cases same
      exact absurd start (by decide)

/-- A lexeme is cut off whole from a text that consists of nothing else. -/
theorem Pattern.Denotes.first_eq {char : Char} {rest : List Char} {kind : Kind}
    (denotes : Denotes (char :: rest) kind) :
    Piece.first char rest = ⟨char :: rest, .token kind⟩ := by
  have covered := Piece.first_covers denotes (List.append_nil _) denotes.no_comment
  obtain ⟨own, isToken, ownKind⟩ := covered.token
  have sameText : (Piece.first char rest).text = char :: rest :=
    (Piece.text_first_isPrefix char rest).eq_of_length_le covered.long
  rw [ownKind sameText] at isToken
  rw [← isToken, ← sameText]

theorem Pattern.Denotes.kind_eq {lexeme : List Char} {kind kind' : Kind}
    (denotes : Denotes lexeme kind) (denotes' : Denotes lexeme kind') : kind = kind' := by
  obtain ⟨char, rest, rfl⟩ := List.exists_cons_of_ne_nil denotes.ne_nil
  cases denotes.first_eq.symm.trans denotes'.first_eq
  rfl

/-- The lexeme determines the kind of a token of any scan. -/
theorem kind_eq_of_lexeme_eq {source source' : String} {token token' : Token}
    (member : .ok token ∈ scan source) (member' : .ok token' ∈ scan source')
    (same : token.lexeme = token'.lexeme) : token.kind = token'.kind := by
  rcases denotes_of_mem_scan member with ⟨empty, last⟩ | denotes
  · rcases denotes_of_mem_scan member' with ⟨-, last'⟩ | denotes'
    · rw [last, last']
    · rw [← same, empty] at denotes'
      exact absurd rfl denotes'.ne_nil
  · rcases denotes_of_mem_scan member' with ⟨empty', -⟩ | denotes'
    · rw [same, empty'] at denotes
      exact absurd rfl denotes.ne_nil
    · rw [← same] at denotes'
      exact denotes.kind_eq denotes'

/-! ### Separators -/

/-- A blank, or a whole comment with the line feed behind it. -/
inductive Filler where
  | blank (char : Char) (separates : char ∈ [' ', '\t', '\r', '\n'])
  | comment (words : List Char) (inLine : '\n' ∉ words)

def Filler.text : Filler → List Char
  | .blank char _ => [char]
  | .comment words _ => '/' :: '/' :: words ++ ['\n']

/-- What is put between two lexemes: a blank, and then blanks and comments. -/
structure Separator where
  first : Char
  separates : first ∈ [' ', '\t', '\r', '\n']
  rest : List Filler

def Separator.text (separator : Separator) : List Char :=
  separator.first :: separator.rest.flatMap Filler.text

/-- The lexemes of tokens with a separator between any two. -/
def laidOut (separators : Nat → Separator) : List Token → List Char
  | [] => []
  | [token] => token.lexeme.toList
  | token :: next :: rest =>
      token.lexeme.toList ++ (separators 0).text ++
        laidOut (fun index => separators (index + 1)) (next :: rest)

/-! ### The pieces of a layout -/

theorem isSeparator_of_mem {char : Char} (separates : char ∈ [' ', '\t', '\r', '\n']) :
    isSeparator char = true := by
  simp only [List.mem_cons, List.not_mem_nil, or_false] at separates
  rcases separates with rfl | rfl | rfl | rfl <;> decide

theorem pieces_blank {char : Char} (separates : char ∈ [' ', '\t', '\r', '\n'])
    (more : List Char) : pieces (char :: more) = ⟨[char], .blank⟩ :: pieces more := by
  rw [pieces_cons, ← Piece.Begins.eq_first (.blank (isSeparator_of_mem separates))]
  rfl

theorem pieces_lexeme {lexeme : List Char} {kind : Kind} (denotes : Denotes lexeme kind) :
    pieces lexeme = [⟨lexeme, .token kind⟩] := by
  obtain ⟨char, rest, rfl⟩ := List.exists_cons_of_ne_nil denotes.ne_nil
  rw [pieces_cons, denotes.first_eq, List.drop_length]
  rfl

/-- A separator does not go on with the lexeme in front of it. -/
theorem pieces_lexeme_append {lexeme : List Char} {kind : Kind} (denotes : Denotes lexeme kind)
    {stop : Char} (separates : isSeparator stop = true) (more : List Char) :
    pieces (lexeme ++ stop :: more) = ⟨lexeme, .token kind⟩ :: pieces (stop :: more) := by
  obtain ⟨char, rest, rfl⟩ := List.exists_cons_of_ne_nil denotes.ne_nil
  have alone := denotes.first_eq
  have closed : (Piece.first char rest).content ≠ .fault .unterminatedString := by
    rw [alone]
    nofun
  have solid : (Piece.first char rest).content ≠ .blank := by
    rw [alone]
    nofun
  rw [List.cons_append, pieces_cons, Piece.first_append separates more char closed (Or.inr solid),
    alone, ← List.cons_append, List.drop_left]

/-- Pieces that yield nothing. -/
def Blank (pieces : List Piece) : Prop := ∀ piece, piece ∈ pieces → piece.content = .blank

theorem Blank.append {pieces others : List Piece} (blank : Blank pieces) (blank' : Blank others) :
    Blank (pieces ++ others) := by
  intro piece member
  rcases List.mem_append.mp member with first | second
  · exact blank piece first
  · exact blank' piece second

theorem Blank.faultless {pieces : List Piece} (blank : Blank pieces) : Faultless pieces := by
  intro piece member fault isFault
  cases (blank piece member).symm.trans isFault

theorem Blank.filterMap_token? {pieces : List Piece} (blank : Blank pieces) :
    pieces.filterMap Piece.token? = [] := by
  rw [List.filterMap_eq_nil_iff]
  intro piece member
  unfold Piece.token?
  rw [blank piece member]

theorem Blank.nil : Blank [] := nofun

theorem Blank.cons {pieces : List Piece} (blank : Blank pieces) (text : List Char) :
    Blank (⟨text, .blank⟩ :: pieces) := by
  intro piece member
  rcases List.mem_cons.mp member with rfl | later
  · rfl
  · exact blank piece later

theorem Filler.pieces_append (filler : Filler) (more : List Char) :
    ∃ blanks, Blank blanks ∧ pieces (filler.text ++ more) = blanks ++ pieces more := by
  cases filler with
  | blank char separates =>
      exact ⟨[⟨[char], .blank⟩], Blank.nil.cons _, pieces_blank separates more⟩
  | comment words inLine =>
      have taken : pieces (('/' :: '/' :: words) ++ '\n' :: more) =
          ⟨'/' :: '/' :: words, .blank⟩ :: pieces ('\n' :: more) :=
        Munch.Takes.pieces_eq (.comment inLine (.inr ⟨more, rfl⟩))
      rw [pieces_blank (by decide)] at taken
      refine ⟨[⟨'/' :: '/' :: words, .blank⟩, ⟨['\n'], .blank⟩], (Blank.nil.cons _).cons _, ?_⟩
      unfold Filler.text
      rw [List.append_assoc]
      exact taken

theorem Separator.pieces_append (separator : Separator) (more : List Char) :
    ∃ blanks, Blank blanks ∧ pieces (separator.text ++ more) = blanks ++ pieces more := by
  have fillers : ∀ rest : List Filler, ∃ blanks, Blank blanks ∧
      pieces (rest.flatMap Filler.text ++ more) = blanks ++ pieces more := by
    intro rest
    induction rest with
    | nil => exact ⟨[], Blank.nil, rfl⟩
    | cons filler rest ih =>
        obtain ⟨blanks, blank, cut⟩ := ih
        obtain ⟨first, blank', cut'⟩ := filler.pieces_append (rest.flatMap Filler.text ++ more)
        refine ⟨first ++ blanks, blank'.append blank, ?_⟩
        rw [List.flatMap_cons, List.append_assoc, cut', cut, List.append_assoc]
  obtain ⟨blanks, blank, cut⟩ := fillers separator.rest
  refine ⟨⟨[separator.first], .blank⟩ :: blanks, blank.cons _, ?_⟩
  rw [List.cons_append, ← cut]
  exact pieces_blank separator.separates _

theorem pieces_lexeme_separator {lexeme : List Char} {kind : Kind} (denotes : Denotes lexeme kind)
    (separator : Separator) (more : List Char) :
    ∃ blanks, Blank blanks ∧
      pieces (lexeme ++ separator.text ++ more) =
        ⟨lexeme, .token kind⟩ :: (blanks ++ pieces more) := by
  obtain ⟨blanks, blank, cut⟩ := separator.pieces_append more
  refine ⟨blanks, blank, ?_⟩
  rw [List.append_assoc, ← cut]
  exact pieces_lexeme_append denotes (isSeparator_of_mem separator.separates) _

theorem faultless_token {lexeme : List Char} {kind : Kind} {rest : List Piece}
    (faultless : Faultless rest) : Faultless (⟨lexeme, .token kind⟩ :: rest) := by
  intro piece member fault isFault
  rcases List.mem_cons.mp member with rfl | later
  · cases isFault
  · exact faultless piece later fault isFault

theorem token?_lexeme (token : Token) :
    Piece.token? ⟨token.lexeme.toList, .token token.kind⟩ = some (token.kind, token.lexeme) := by
  simp only [Piece.token?, String.ofList_toList]

/-- The pieces of a layout are the lexemes again, with blanks between them. -/
theorem pieces_laidOut {tokens : List Token}
    (all : ∀ token, token ∈ tokens → Denotes token.lexeme.toList token.kind)
    (separators : Nat → Separator) :
    Faultless (pieces (laidOut separators tokens)) ∧
      (pieces (laidOut separators tokens)).filterMap Piece.token? =
        tokens.map fun token => (token.kind, token.lexeme) := by
  fun_induction laidOut separators tokens with
  | case1 => exact ⟨nofun, rfl⟩
  | case2 separators token =>
      rw [pieces_lexeme (all token List.mem_cons_self), List.filterMap_cons, token?_lexeme]
      exact ⟨faultless_token nofun, rfl⟩
  | case3 separators token next rest ih =>
      obtain ⟨faultless, same⟩ := ih fun other inside => all other (List.mem_cons_of_mem _ inside)
      obtain ⟨blanks, blank, cut⟩ := pieces_lexeme_separator (all token List.mem_cons_self)
        (separators 0) (laidOut (fun index => separators (index + 1)) (next :: rest))
      rw [cut]
      constructor
      · apply faultless_token
        intro piece member fault isFault
        rcases List.mem_append.mp member with between | later
        · exact blank.faultless piece between fault isFault
        · exact faultless piece later fault isFault
      · rw [List.filterMap_cons, token?_lexeme, List.filterMap_append, blank.filterMap_token?, same]
        rfl

theorem denotes_of_mem_located {line : Nat} {source : List Char} {token : Token}
    (member : token ∈ located line (pieces source)) :
    Denotes token.lexeme.toList token.kind := by
  obtain ⟨piece, inside, content, lexeme⟩ := located_mem member
  rw [lexeme, String.toList_ofList]
  exact denotes_of_mem_piecesFrom inside content

/-- The lexemes of a source that scans without errors are found again in every layout, with the same
kinds and values.  The kind and the value of a token are determined by its lexeme, so tokens that
count as the same carry the same value. -/
theorem tokens_survive_layout :
    (∀ source scanned, tokens? source = .ok scanned →
      ∃ tokens line, scanned = tokens ++ [Token.endOfInput line] ∧
        ∀ separators : Nat → Separator, ∃ tokens' line',
          tokens? (String.ofList (laidOut separators tokens)) =
            .ok (tokens' ++ [Token.endOfInput line']) ∧
          tokens'.map (fun token => (token.kind, token.lexeme)) =
            tokens.map fun token => (token.kind, token.lexeme)) ∧
    (∀ source source' token token', .ok token ∈ scan source → .ok token' ∈ scan source' →
      token.lexeme = token'.lexeme → token.kind = token'.kind) ∧
    (∀ source source' token token', .ok token ∈ scan source → .ok token' ∈ scan source' →
      token.same token' = true → token.kind = token'.kind) := by
  refine ⟨?_, ?_, ?_⟩
  · intro source scanned ok
    obtain ⟨-, rfl⟩ := tokens?_eq_ok_iff.mp ok
    refine ⟨_, _, rfl, ?_⟩
    intro separators
    obtain ⟨faultless, same⟩ :=
      pieces_laidOut (fun token member => denotes_of_mem_located member) separators
    refine ⟨_, _, tokens?_eq_ok_iff.mpr ⟨?_, rfl⟩, ?_⟩
    · rw [String.toList_ofList]
      exact faultless
    · rw [map_located, String.toList_ofList]
      exact same
  · intro source source' token token' member member'
    exact kind_eq_of_lexeme_eq member member'
  · intro source source' token token' member member' same
    simp only [Token.same, Bool.and_eq_true, beq_iff_eq] at same
    exact kind_eq_of_lexeme_eq member member' same.1.2

/-- A text without blanks between its lexemes. -/
def crowded : String := "1.5/x<=\"//\";"

/-- A blank and a comment that holds a quote. -/
def remark : Separator :=
  ⟨'\t', by decide, [.comment ['"', '='] (by decide), .blank '\n' (by decide)]⟩

/-- The text is laid out anew with comments, next to a slash and in front of a string with slashes
in it. -/
theorem tokens_survive_layout_crowded :
    ∃ tokens line tokens' line',
      tokens? crowded = .ok (tokens ++ [Token.endOfInput line]) ∧
      tokens.map Token.lexeme = ["1.5", "/", "x", "<=", "\"//\"", ";"] ∧
      tokens? (String.ofList (laidOut (fun _ => remark) tokens)) =
        .ok (tokens' ++ [Token.endOfInput line']) ∧
      tokens'.map (fun token => (token.kind, token.lexeme)) =
        (tokens.map fun token => (token.kind, token.lexeme)) := by
  have checked : (match tokens? crowded with
    | .ok scanned => decide (scanned.map Token.lexeme =
        ["1.5", "/", "x", "<=", "\"//\"", ";"] ++ [""])
    | .error _ => false) = true := by
    decide +kernel
  split at checked
  · rename_i scanned ok
    obtain ⟨tokens, line, rfl, survive⟩ := tokens_survive_layout.1 crowded scanned ok
    obtain ⟨tokens', line', ok', same⟩ := survive fun _ => remark
    have lexemes := of_decide_eq_true checked
    rw [List.map_append] at lexemes
    exact ⟨tokens, line, tokens', line', ok, (List.append_inj' lexemes rfl).1, ok', same⟩
  · cases checked

end LexicalScript
