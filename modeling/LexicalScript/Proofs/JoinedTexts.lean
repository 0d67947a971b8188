import LexicalScript.Proofs.Renumbering
import LexicalScript.Proofs.TokenLanguage
import Mathlib.Algebra.Ring.Nat

/-!
Scanning two texts with a line feed between them.

Of all pieces only strings go on behind a line feed.  A text without faults is therefore cut into
the same pieces whatever stands behind a line feed at its end, and so is the text behind it.  The
tokens of the joined text are those of the two texts, the later ones on lines further down.  Of the
faults only a string that is left open at the line feed changes this.
-/

set_option autoImplicit false

namespace LexicalScript

/-! ### Pieces in front of a separator -/

section

variable {accepts : Char → Bool} {stop : Char} (stops : accepts stop = false)
  (text more : List Char)

include stops

theorem takeWhile_before :
    (text ++ stop :: more).takeWhile accepts = text.takeWhile accepts := by
  induction text with
  | nil => simp [stops]
  | cons char rest ih =>
      rw [List.cons_append, List.takeWhile_cons, List.takeWhile_cons, ih]

theorem dropWhile_before :
    (text ++ stop :: more).dropWhile accepts = text.dropWhile accepts ++ stop :: more := by
  induction text with
  | nil => simp [stops]
  | cons char rest ih =>
      rw [List.cons_append, List.dropWhile_cons, List.dropWhile_cons, ih]
      split <;> rfl

end

theorem stringBody?_append {source body : List Char} (found : stringBody? source = some body)
    (more : List Char) : stringBody? (source ++ more) = some body := by
  fun_induction stringBody? source generalizing body with
  | case1 => cases found
  | case2 rest => exact found
  | case3 guarded rest ih =>
      obtain ⟨inner, innerFound, rfl⟩ := Option.map_eq_some_iff.mp found
      simp only [List.cons_append, stringBody?, ih innerFound, Option.map_some]
  | case4 char rest quote guard ih =>
      obtain ⟨inner, innerFound, rfl⟩ := Option.map_eq_some_iff.mp found
      have whole := ih innerFound
      rw [List.cons_append, stringBody?.eq_4 _ _ quote, whole]
      · rfl
      · rintro guarded others rfl same
        cases rest with
        | nil => cases innerFound
        | cons next rest => exact guard next rest rfl rfl

namespace Piece

theorem separator_stops {stop : Char} (separates : isSeparator stop = true) :
    stop ≠ '=' ∧ stop ≠ '/' ∧ stop ≠ '.' ∧ stop.isDigit = false ∧ isNamePart stop = false := by
  simp only [isSeparator, Bool.or_eq_true, beq_iff_eq] at separates
  rcases separates with ((rfl | rfl) | rfl) | rfl <;> decide

section

variable {stop : Char} (separates : isSeparator stop = true) (more : List Char)

include separates

theorem comparison_append (char : Char) (short long : Mark) (rest : List Char) :
    comparison char short long (rest ++ stop :: more) = comparison char short long rest := by
  obtain ⟨other, -⟩ := separator_stops separates
  cases rest with
  | nil => simp [comparison, other]
  | cons next rest =>
      by_cases equals : next = '='
      · subst equals
        rfl
      · simp [comparison, equals]

/-- A slash is the same in front of any separator, and a comment in front of a line feed. -/
theorem slash_append {rest : List Char} (ends : stop = '\n' ∨ (slash rest).content ≠ .blank) :
    slash (rest ++ stop :: more) = slash rest := by
  obtain ⟨-, other, -⟩ := separator_stops separates
  cases rest with
  | nil => simp [slash, other]
  | cons next rest =>
      by_cases comment : next = '/'
      · subst comment
        rcases ends with rfl | kept
        · simp only [List.cons_append, slash]
          rw [takeWhile_before (by decide)]
        · exact absurd rfl kept
      · simp [slash, comment]

theorem number_append (digit : Char) (rest : List Char) :
    number digit (rest ++ stop :: more) = number digit rest := by
  obtain ⟨-, -, other, notDigit, -⟩ := separator_stops separates
  have fraction : ∀ source, fractionDigits (source ++ stop :: more) = fractionDigits source := by
    intro source
    cases source with
    | nil => simp [fractionDigits, other]
    | cons next rest =>
        by_cases point : next = '.'
        · subst point
          exact takeWhile_before notDigit rest more
        · simp [fractionDigits, point]
  unfold number
  rw [takeWhile_before notDigit, dropWhile_before notDigit, fraction]

theorem word_append (char : Char) (rest : List Char) :
    word char (rest ++ stop :: more) = word char rest := by
  obtain ⟨-, -, -, -, notPart⟩ := separator_stops separates
  unfold word
  rw [takeWhile_before notPart]

end

theorem string_append {rest : List Char}
    (closed : (string rest).content ≠ .fault .unterminatedString) (more : List Char) :
    string (rest ++ more) = string rest := by
  unfold string at closed ⊢
  cases found : stringBody? rest with
  | none =>
      rw [found] at closed
      exact absurd rfl closed
  | some body => rw [stringBody?_append found]

theorem first_append {stop : Char} (separates : isSeparator stop = true) (more : List Char)
    (char : Char) {rest : List Char}
    (closed : (first char rest).content ≠ .fault .unterminatedString)
    (ends : stop = '\n' ∨ (first char rest).content ≠ .blank) :
    first char (rest ++ stop :: more) = first char rest := by
  unfold first at closed ends ⊢
  split
  · rfl
  · rename_i separator
    rw [if_neg separator] at closed ends
    split
    · rfl
    · rename_i punctuation
      rw [punctuation] at closed ends
      split
      · exact comparison_append separates more char _ _ rest
      · rename_i comparison
        rw [comparison] at closed ends
        dsimp only at closed ends
        split
        · rename_i slash
          rw [if_pos slash] at ends
          exact slash_append separates more ends
        · rename_i slash
          rw [if_neg slash] at closed
          split
          · rename_i quote
            rw [if_pos quote] at closed
            exact string_append closed _
          · split
            · exact number_append separates more char rest
            · split
              · exact word_append separates more char rest
              · rfl

end Piece

/-- Pieces in front of a line feed do not depend on what stands behind it. -/
theorem piecesFrom_append (source more : List Char) {covered : Nat}
    (within : covered ≤ source.length)
    (closed : ∀ piece, piece ∈ piecesFrom covered source →
      piece.content ≠ .fault .unterminatedString) :
    piecesFrom covered (source ++ '\n' :: more) =
      piecesFrom covered source ++ ⟨['\n'], .blank⟩ :: pieces more := by
  induction source generalizing covered with
  | nil =>
      obtain rfl : covered = 0 := Nat.le_zero.mp within
      rfl
  | cons char rest ih =>
      cases covered with
      | succ covered => exact ih (Nat.le_of_succ_le_succ within) closed
      | zero =>
          have same := Piece.first_append (by decide) more char (closed _ List.mem_cons_self)
            (Or.inl rfl)
          have short : (Piece.first char rest).text.length - 1 ≤ rest.length := by
            have length := (Piece.text_first_isPrefix char rest).length_le
            rw [List.length_cons] at length
            omega
          have others := ih short fun piece member => closed piece (List.mem_cons_of_mem _ member)
          simp only [List.cons_append, piecesFrom, same, others]

theorem pieces_append {source : List Char} (more : List Char)
    (closed : ∀ piece, piece ∈ pieces source → piece.content ≠ .fault .unterminatedString) :
    pieces (source ++ '\n' :: more) = pieces source ++ ⟨['\n'], .blank⟩ :: pieces more :=
  piecesFrom_append source more (Nat.zero_le _) closed

/-! ### No piece is an end of input -/

theorem Mark.ofKeyword?_ne {word : List Char} {mark : Mark}
    (found : Mark.ofKeyword? (String.ofList word) = some mark) : mark ≠ .endOfInput := by
  rintro rfl
  have member := Pattern.ofKeyword?_eq_some_iff.mp found
  simp [Pattern.keywords] at member

theorem Piece.first_ne_endOfInput (char : Char) (rest : List Char) :
    (first char rest).content ≠ .token (.mark .endOfInput) := by
  intro ends
  unfold first at ends
  split at ends
  · cases ends
  · split at ends
    · rename_i mark found
      cases ends
      unfold punctuation? at found
      split at found <;> cases found
    · split at ends
      · rename_i short long found
        unfold comparison? at found
        unfold comparison at ends
        split at found <;> cases found <;> split at ends <;> cases ends
      · split at ends
        · unfold slash at ends
          split at ends <;> cases ends
        · split at ends
          · unfold string at ends
            split at ends <;> cases ends
          · split at ends
            · cases ends
            · split at ends
              · have keyword := Kind.mark.inj (Content.token.inj ends)
                cases found : Mark.ofKeyword?
                    (String.ofList (char :: rest.takeWhile isNamePart)) with
                | none =>
                    rw [found] at keyword
                    cases keyword
                | some mark =>
                    rw [found] at keyword
                    exact Mark.ofKeyword?_ne found keyword
              · cases ends

theorem piecesFrom_ne_endOfInput {source : List Char} {covered : Nat} {piece : Piece}
    (member : piece ∈ piecesFrom covered source) :
    piece.content ≠ .token (.mark .endOfInput) := by
  obtain ⟨char, rest, rfl⟩ := exists_first_of_mem_piecesFrom member
  exact Piece.first_ne_endOfInput char rest

/-! ### Tokens with lines -/

/-- How many line feeds the pieces cover. -/
def lineFeeds (pieces : List Piece) : Nat := (pieces.map Piece.lineFeeds).sum

theorem lineFeeds_cons (line : Nat) (piece : Piece) (rest : List Piece) :
    line + lineFeeds (piece :: rest) = line + piece.lineFeeds + lineFeeds rest := by
  unfold lineFeeds
  rw [List.map_cons, List.sum_cons, Nat.add_assoc]

theorem lineFeeds_append (pieces others : List Piece) :
    lineFeeds (pieces ++ others) = lineFeeds pieces + lineFeeds others := by
  unfold lineFeeds
  rw [List.map_append, List.sum_append]

theorem lineFeeds_pieces (source : List Char) : lineFeeds (pieces source) = source.count '\n' := by
  have counted := congrArg (List.count '\n') (flatMap_text_pieces source)
  rw [List.count_flatMap] at counted
  exact counted

/-- The tokens among pieces that start on the given line. -/
def located (line : Nat) : List Piece → List Token
  | [] => []
  | piece :: rest =>
      match piece.content with
      | .token kind =>
          ⟨kind, String.ofList piece.text, line + piece.lineFeeds⟩ ::
            located (line + piece.lineFeeds) rest
      | _ => located (line + piece.lineFeeds) rest

/-- No piece is a fault. -/
def Faultless (pieces : List Piece) : Prop :=
  ∀ piece, piece ∈ pieces → ∀ fault, piece.content ≠ .fault fault

/-- The kind and the lexeme of a piece that is a token. -/
def Piece.token? (piece : Piece) : Option (Kind × String) :=
  match piece.content with
  | .token kind => some (kind, String.ofList piece.text)
  | _ => none

theorem map_located (line : Nat) (pieces : List Piece) :
    (located line pieces).map (fun token => (token.kind, token.lexeme)) =
      pieces.filterMap Piece.token? := by
  induction pieces generalizing line with
  | nil => rfl
  | cons piece rest ih =>
      unfold located
      rw [List.filterMap_cons]
      cases content : piece.content with
      | token kind =>
          simp only [Piece.token?, content, List.map_cons, ih]
      | blank => simp only [Piece.token?, content, ih]
      | fault => simp only [Piece.token?, content, ih]

theorem located_mem {line : Nat} {pieces : List Piece} {token : Token}
    (member : token ∈ located line pieces) :
    ∃ piece, piece ∈ pieces ∧ piece.content = .token token.kind ∧
      token.lexeme = String.ofList piece.text := by
  have shown := List.mem_map_of_mem (f := fun token : Token => (token.kind, token.lexeme)) member
  rw [map_located] at shown
  obtain ⟨piece, inside, found⟩ := List.mem_filterMap.mp shown
  unfold Piece.token? at found
  split at found
  · rename_i kind content
    obtain ⟨rfl, lexeme⟩ := Prod.mk.inj (Option.some.inj found)
    exact ⟨piece, inside, content, lexeme.symm⟩
  · cases found

theorem located_add (line shift : Nat) (pieces : List Piece) :
    located (line + shift) pieces = (located line pieces).map (Token.renumber (· + shift)) := by
  induction pieces generalizing line with
  | nil => rfl
  | cons piece rest ih =>
      have moved : line + shift + piece.lineFeeds = line + piece.lineFeeds + shift :=
        Nat.add_right_comm _ _ _
      unfold located
      rw [moved, ih]
      split <;> rfl

theorem located_append (line : Nat) (pieces others : List Piece) :
    located line (pieces ++ others) =
      located line pieces ++ located (line + lineFeeds pieces) others := by
  induction pieces generalizing line with
  | nil => rfl
  | cons piece rest ih =>
      rw [lineFeeds_cons, List.cons_append, located, located, ih]
      split <;> rfl

theorem splitItems_faultless (line : Nat) {pieces : List Piece} (faultless : Faultless pieces) :
    splitItems (itemsFrom line pieces) =
      (located line pieces ++ [Token.endOfInput (line + lineFeeds pieces)], none) := by
  induction pieces generalizing line with
  | nil => rfl
  | cons piece rest ih =>
      have inner := ih (line + piece.lineFeeds) fun other member =>
        faultless other (List.mem_cons_of_mem _ member)
      rw [lineFeeds_cons]
      cases content : piece.content with
      | blank => simp only [itemsFrom, located, content, inner]
      | token kind =>
          simp only [itemsFrom, located, content, splitItems, inner, List.cons_append]
      | fault fault => exact absurd content (faultless piece List.mem_cons_self fault)

theorem faultless_of_splitItems {line : Nat} {pieces : List Piece}
    (clean : (splitItems (itemsFrom line pieces)).2 = none) : Faultless pieces := by
  induction pieces generalizing line with
  | nil =>
      intro piece member
      cases member
  | cons piece rest ih =>
      intro other member fault found
      cases content : piece.content with
      | fault fault =>
          simp only [itemsFrom, content, splitItems] at clean
          cases clean
      | blank =>
          simp only [itemsFrom, content] at clean
          rcases List.mem_cons.mp member with rfl | member
          · cases content.symm.trans found
          · exact ih clean other member fault found
      | token kind =>
          simp only [itemsFrom, content, splitItems] at clean
          rcases List.mem_cons.mp member with rfl | member
          · cases content.symm.trans found
          · exact ih clean other member fault found

/-- A text scans without an error exactly if it has no faults. -/
theorem tokens?_eq_ok_iff {source : String} {tokens : List Token} :
    tokens? source = .ok tokens ↔
      Faultless (pieces source.toList) ∧
      tokens = located 1 (pieces source.toList) ++
        [Token.endOfInput (1 + lineFeeds (pieces source.toList))] := by
  unfold tokens? scan
  constructor
  · intro scanned
    cases split : splitItems (itemsFrom 1 (pieces source.toList)) with
    | mk found error =>
        cases error with
        | some error =>
            rw [split] at scanned
            cases scanned
        | none =>
            have faultless := faultless_of_splitItems (congrArg Prod.snd split)
            rw [splitItems_faultless 1 faultless] at scanned
            exact ⟨faultless, (Except.ok.inj scanned).symm⟩
  · rintro ⟨faultless, rfl⟩
    rw [splitItems_faultless 1 faultless]

/-- A scan ends with an end of input and has none before. -/
theorem tokens?_ends {source : String} {tokens : List Token}
    (scanned : tokens? source = .ok tokens) :
    ∃ body line, tokens = body ++ [Token.endOfInput line] ∧
      ∀ token, token ∈ body → token.is .endOfInput = false := by
  obtain ⟨faultless, rfl⟩ := tokens?_eq_ok_iff.mp scanned
  refine ⟨_, _, rfl, ?_⟩
  intro token member
  obtain ⟨piece, inside, content, -⟩ := located_mem member
  have ordinary := piecesFrom_ne_endOfInput inside
  rw [content] at ordinary
  unfold Token.is
  split
  · rename_i mark kind
    apply decide_eq_false
    rintro rfl
    exact ordinary (congrArg Content.token kind)
  · rfl

theorem tokens?_joined {first second : String} {body tokens : List Token} {line : Nat}
    (scanned : tokens? first = .ok (body ++ [Token.endOfInput line]))
    (scanned' : tokens? second = .ok tokens) :
    tokens? (first ++ "\n" ++ second) =
      .ok (body ++ tokens.map (Token.renumber (· + (first.toList.count '\n' + 1)))) := by
  obtain ⟨faultless, same⟩ := tokens?_eq_ok_iff.mp scanned
  obtain ⟨faultless', rfl⟩ := tokens?_eq_ok_iff.mp scanned'
  obtain rfl := (List.append_inj' same rfl).1
  have cut : pieces (first ++ "\n" ++ second).toList =
      pieces first.toList ++ ⟨['\n'], .blank⟩ :: pieces second.toList := by
    have closed := pieces_append second.toList fun piece member =>
      faultless piece member .unterminatedString
    rw [← closed]
    congr 1
    simp
  rw [tokens?_eq_ok_iff, cut]
  constructor
  · intro piece member
    rcases List.mem_append.mp member with before | behind
    · exact faultless piece before
    · rcases List.mem_cons.mp behind with rfl | behind
      · exact fun fault => Content.noConfusion
      · exact faultless' piece behind
  · have feeds : lineFeeds (⟨['\n'], .blank⟩ :: pieces second.toList) =
        lineFeeds (pieces second.toList) + 1 := by
      have counted := lineFeeds_cons 0 ⟨['\n'], .blank⟩ (pieces second.toList)
      rw [Nat.zero_add, Nat.zero_add, Nat.add_comm] at counted
      exact counted
    have below : 1 + first.toList.count '\n' + 1 = 1 + (first.toList.count '\n' + 1) :=
      Nat.add_assoc _ _ _
    rw [located_append, lineFeeds_append, feeds, lineFeeds_pieces first.toList]
    change _ = located 1 (pieces first.toList) ++
      located (1 + first.toList.count '\n' + 1) (pieces second.toList) ++ _
    have last : 1 + lineFeeds (pieces second.toList) + (first.toList.count '\n' + 1) =
        1 + (first.toList.count '\n' + (lineFeeds (pieces second.toList) + 1)) := by omega
    rw [below, located_add, List.map_append, List.append_assoc, ← last]
    rfl

/-! ### Items with lines -/

def Item.renumber (lines : Nat → Nat) : Item → Item
  | .ok token => .ok (token.renumber lines)
  | .error error => .error { error with line := lines error.line }

theorem itemsFrom_add (line shift : Nat) (pieces : List Piece) :
    itemsFrom (line + shift) pieces = (itemsFrom line pieces).map (Item.renumber (· + shift)) := by
  induction pieces generalizing line with
  | nil => rfl
  | cons piece rest ih =>
      have moved : line + shift + piece.lineFeeds = line + piece.lineFeeds + shift :=
        Nat.add_right_comm _ _ _
      unfold itemsFrom
      dsimp only
      rw [moved, ih]
      split <;> rfl

/-- The items of pieces do not depend on what follows them, but for the end of the input. -/
theorem itemsFrom_append (line : Nat) (pieces : List Piece) :
    ∃ items, ∀ others, itemsFrom line (pieces ++ others) =
      items ++ itemsFrom (line + lineFeeds pieces) others := by
  induction pieces generalizing line with
  | nil => exact ⟨[], fun _ => rfl⟩
  | cons piece rest ih =>
      obtain ⟨items, same⟩ := ih (line + piece.lineFeeds)
      rw [lineFeeds_cons]
      cases content : piece.content with
      | blank =>
          refine ⟨items, fun others => ?_⟩
          simp only [List.cons_append, itemsFrom, content, same]
      | token kind =>
          refine ⟨.ok ⟨kind, String.ofList piece.text, line + piece.lineFeeds⟩ :: items,
            fun others => ?_⟩
          simp only [List.cons_append, itemsFrom, content, same]
      | fault fault =>
          refine ⟨.error ⟨fault, line + piece.lineFeeds⟩ :: items, fun others => ?_⟩
          simp only [List.cons_append, itemsFrom, content, same]

theorem exists_error_of_fault {pieces : List Piece} {piece : Piece} {fault : LexicalFault}
    (member : piece ∈ pieces) (isFault : piece.content = .fault fault) (line : Nat) :
    ∃ place, .error ⟨fault, place⟩ ∈ itemsFrom line pieces := by
  induction pieces generalizing line with
  | nil => cases member
  | cons first rest ih =>
      unfold itemsFrom
      dsimp only
      rcases List.mem_cons.mp member with rfl | later
      · rw [isFault]
        exact ⟨_, List.mem_cons_self⟩
      · obtain ⟨place, found⟩ := ih later (line + first.lineFeeds)
        split
        · exact ⟨place, found⟩
        · exact ⟨place, List.mem_cons_of_mem _ found⟩
        · exact ⟨place, List.mem_cons_of_mem _ found⟩

/-- A line feed divides a scan: the items of a text in which no string is left open stay as they
are, and those of the text behind the line feed move down. -/
theorem scan_divides_at_line_feeds (first second : String)
    (closed : ∀ error, .error error ∈ scan first → error.fault ≠ .unterminatedString) :
    ∃ items, scan first = items ++ [.ok (Token.endOfInput (1 + first.toList.count '\n'))] ∧
      scan (first ++ "\n" ++ second) =
        items ++ (scan second).map (Item.renumber (· + (first.toList.count '\n' + 1))) := by
  have cut : pieces (first ++ "\n" ++ second).toList =
      pieces first.toList ++ ⟨['\n'], .blank⟩ :: pieces second.toList := by
    rw [← pieces_append]
    · congr 1
      simp
    · intro piece member isFault
      obtain ⟨line, found⟩ := exists_error_of_fault member isFault 1
      exact closed _ found rfl
  obtain ⟨items, same⟩ := itemsFrom_append 1 (pieces first.toList)
  rw [lineFeeds_pieces] at same
  refine ⟨items, ?_, ?_⟩
  · rw [scan, ← List.append_nil (pieces first.toList), same]
    rfl
  · rw [scan, cut, same, scan, ← itemsFrom_add, ← Nat.add_assoc]
    rfl

/-- A text with a comment, a stray character and a number that a point follows. -/
def openEnded : String := "a // \"\n@ 1."

/-- The digits behind the line feed are no fraction, and a string that is left open there does not
matter. -/
theorem scan_divides_at_line_feeds_openEnded :
    ∃ items, scan openEnded = items ++ [.ok (Token.endOfInput 2)] ∧ items.length = 4 ∧
      scan (openEnded ++ "\n" ++ "5 \"") =
        items ++ (scan "5 \"").map (Item.renumber (· + 2)) := by
  have closed : (scan openEnded).all (fun item => match item with
      | .error error => decide (error.fault ≠ .unterminatedString)
      | .ok _ => true) = true := by
    decide +kernel
  obtain ⟨items, whole, joined⟩ := scan_divides_at_line_feeds openEnded "5 \""
    fun error member => of_decide_eq_true (List.all_eq_true.mp closed _ member)
  have length : (scan openEnded).length = 5 := by decide +kernel
  rw [whole, List.length_append] at length
  exact ⟨items, whole, Nat.succ.inj length, joined⟩

end LexicalScript
