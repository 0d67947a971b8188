import LexicalScript.Proofs.JoinedTexts
import LexicalScript.Proofs.Octets

/-!
A reader that moves over the octets of a source.

The reader has a place in the octets and a line, which it raises where it passes a line feed.  It
cannot see where a character ends: in a string it passes octet after octet, and behind a backslash
one octet more.  Reading outside the octets, and cutting a text inside a character, are failures.
On every source the reader yields the items of a scan, without a failure.
-/

set_option autoImplicit false

namespace LexicalScript

/-- The place of a reader: where the present item starts, the octet to be read next, and its
line. -/
structure Cursor where
  start : Nat
  position : Nat
  line : Nat
  deriving DecidableEq, Repr

namespace Cursor

/-! ### Single octets -/

section

variable (source : String) (cursor : Cursor)

def atEnd : Bool := source.utf8ByteSize ≤ cursor.position

/-- The octet at the cursor, which then stands behind it. -/
def advance : Option (Char × Cursor) := do
  let octet ← (buffer source)[cursor.position]?
  return (octet, { cursor with position := cursor.position + 1 })

/-- The octet at the cursor, or zero at the end. -/
def peek : Option Char :=
  if cursor.atEnd source then some '\x00' else (buffer source)[cursor.position]?

/-- The octet behind the one at the cursor, or zero at the end. -/
def peekNext : Option Char :=
  if source.utf8ByteSize ≤ cursor.position + 1 then some '\x00'
  else (buffer source)[cursor.position + 1]?

/-- Passes the octet at the cursor if it is the expected one. -/
def passIf (expected : Char) : Option (Bool × Cursor) := do
  if cursor.atEnd source then return (false, cursor)
  let octet ← cursor.peek source
  if octet = expected then
    let (_, later) ← cursor.advance source
    return (true, later)
  else return (false, cursor)

def nextLine : Cursor := { cursor with line := cursor.line + 1 }

end

/-! ### Loops over octets -/

/-- Passes octets while they are in a class. -/
def passWhile (source : String) (accepts : Char → Bool) (cursor : Cursor) : Option Cursor := do
  let octet ← cursor.peek source
  if accepts octet then
    let (_, later) ← cursor.advance source
    later |>.passWhile source accepts
  else return cursor
partial_fixpoint

/-- Passes the octets of a string, up to its closing quote or the end.  The octet behind a backslash
is passed whatever it is. -/
def passString (source : String) (cursor : Cursor) : Option Cursor := do
  if cursor.atEnd source then return cursor
  let octet ← cursor.peek source
  if octet = '"' then return cursor
  let (octet, later) ← cursor.advance source
  if octet = '\\' ∧ later.atEnd source = false then
    let (guarded, last) ← later.advance source
    (if guarded = '\n' then last.nextLine else last) |>.passString source
  else (if octet = '\n' then later.nextLine else later) |>.passString source
partial_fixpoint

/-! ### Items -/

section

variable (source : String) (cursor : Cursor)

/-- A mark, or the longer one with an equals sign. -/
def comparison (short long : Mark) : Option (Content × Cursor) := do
  let (equal, later) ← cursor.passIf source '='
  return (.token (.mark (if equal then long else short)), later)

/-- Passes the octets in front of the next line feed, or all octets if there is none. -/
def comment : Option Cursor :=
  if source.utf8ByteSize < cursor.position then none
  else
    match ((buffer source).drop cursor.position).idxOf? '\n' with
    | some distance => some { cursor with position := cursor.position + distance }
    | none => some { cursor with position := source.utf8ByteSize }

/-- A comment, or a slash that begins none. -/
def slash : Option (Content × Cursor) := do
  let (double, later) ← cursor.passIf source '/'
  if double then
    let last ← later.comment source
    return (.blank, last)
  else return (.token (.mark .slash), later)

def string : Option (Content × Cursor) := do
  let later ← cursor.passString source
  if later.atEnd source then return (.fault .unterminatedString, later)
  let (_, last) ← later.advance source
  let body ← slice? source (last.start + 1) (last.position - 1)
  return (.token (.string (String.ofList (unescape body.toList))), last)

/-- Passes a point and the digits behind it, if there is a digit. -/
def fraction : Option Cursor := do
  let point ← cursor.peek source
  let digit ← cursor.peekNext source
  if point = '.' ∧ digit.isDigit = true then
    let (_, later) ← cursor.advance source
    later.passWhile source Char.isDigit
  else return cursor

def number : Option (Content × Cursor) := do
  let whole ← cursor.passWhile source Char.isDigit
  let last ← whole.fraction source
  let lexeme ← slice? source last.start last.position
  let digits := lexeme.toList.takeWhile Char.isDigit
  let fraction := fractionDigits (lexeme.toList.dropWhile Char.isDigit)
  return (.token (.number (Decimal.read digits fraction)), last)

def word : Option (Content × Cursor) := do
  let last ← cursor.passWhile source isNamePart
  let lexeme ← slice? source last.start last.position
  return (.token (.mark ((Mark.ofKeyword? lexeme).getD .identifier)), last)

/-- The whole character of which an octet was read. -/
def unexpected : Option (Content × Cursor) := do
  let rest ← slice? source cursor.start source.utf8ByteSize
  let char := rest.toList.headD '\uFFFD'
  return (.fault (.unexpected char), { cursor with position := cursor.start + char.utf8Size })

/-- Reads a blank, a token or a fault. -/
def piece : Option (Content × Cursor) := do
  let (octet, later) ← cursor.advance source
  if octet = '\n' then return (.blank, later.nextLine)
  if isSeparator octet then return (.blank, later)
  match punctuation? octet with
  | some mark => return (.token (.mark mark), later)
  | none =>
      match comparison? octet with
      | some (short, long) => later.comparison source short long
      | none =>
          if octet = '/' then later.slash source
          else if octet = '"' then later.string source
          else if octet.isDigit then later.number source
          else if isNameStart octet then later.word source
          else later.unexpected source

end

/-- The next item of a source, if one is left.  Behind the end there is none. -/
def next (source : String) (cursor : Cursor) : Option (Option Item × Cursor) := do
  if source.utf8ByteSize < cursor.position then return (none, cursor)
  if cursor.position = source.utf8ByteSize then
    return (some (.ok (Token.endOfInput cursor.line)),
      { cursor with position := cursor.position + 1 })
  let (content, later) ← piece source { cursor with start := cursor.position }
  match content with
  | .blank => later |>.next source
  | .token kind => do
      let lexeme ← slice? source later.start later.position
      return (some (.ok ⟨kind, lexeme, later.line⟩), later)
  | .fault fault => return (some (.error ⟨fault, later.line⟩), later)
partial_fixpoint

/-! ### What single octets do -/

/-- The octets that are still to be read. -/
def ahead (source : String) (cursor : Cursor) : List Char := (buffer source).drop cursor.position

/-- The cursor behind some octets that are no line feeds. -/
def moved (cursor : Cursor) (count : Nat) : Cursor :=
  { cursor with position := cursor.position + count }

variable {source : String} {cursor : Cursor}

theorem ahead_moved (count : Nat) :
    (cursor.moved count).ahead source = (cursor.ahead source).drop count := by
  unfold ahead moved
  rw [List.drop_drop]

theorem moved_moved (count more : Nat) :
    (cursor.moved count).moved more = cursor.moved (count + more) := by
  unfold moved
  rw [Nat.add_assoc]

theorem atEnd_eq : cursor.atEnd source = (cursor.ahead source).isEmpty := by
  rw [Bool.eq_iff_iff, List.isEmpty_iff]
  unfold atEnd ahead
  rw [decide_eq_true_iff, List.drop_eq_nil_iff, length_buffer]

theorem head?_ahead : (cursor.ahead source).head? = (buffer source)[cursor.position]? :=
  List.head?_drop

theorem peek_eq : cursor.peek source = some ((cursor.ahead source).headD '\x00') := by
  unfold peek
  rw [atEnd_eq, ← head?_ahead]
  cases cursor.ahead source <;> rfl

theorem peekNext_eq :
    cursor.peekNext source = some ((cursor.ahead source).tail.headD '\x00') := by
  have ends : source.utf8ByteSize ≤ cursor.position + 1 ↔ (cursor.moved 1).ahead source = [] := by
    unfold ahead moved
    rw [List.drop_eq_nil_iff, length_buffer]
  unfold peekNext
  rw [← List.drop_one, ← ahead_moved]
  change (if _ then _ else (buffer source)[(cursor.moved 1).position]?) = _
  rw [← head?_ahead]
  cases split : (cursor.moved 1).ahead source with
  | nil =>
      rw [if_pos (ends.mpr split)]
      rfl
  | cons octet rest =>
      rw [if_neg (mt ends.mp (by simp [split]))]
      rfl

theorem advance_eq {octet : Char} {rest : List Char} (split : cursor.ahead source = octet :: rest) :
    cursor.advance source = some (octet, cursor.moved 1) := by
  unfold advance
  rw [← head?_ahead, split]
  rfl

theorem passIf_eq (expected : Char) :
    cursor.passIf source expected =
      some (if (cursor.ahead source).head? = some expected then (true, cursor.moved 1)
        else (false, cursor)) := by
  unfold passIf
  rw [atEnd_eq, peek_eq]
  cases split : cursor.ahead source with
  | nil => rfl
  | cons octet rest =>
      rw [advance_eq split]
      by_cases same : octet = expected <;> simp [same]

/-- A class that does not hold of zero is passed up to the first octet outside it. -/
theorem passWhile_eq {accepts : Char → Bool} (last : accepts '\x00' = false) :
    cursor.passWhile source accepts =
      some (cursor.moved ((cursor.ahead source).takeWhile accepts).length) := by
  generalize split : cursor.ahead source = octets
  induction octets generalizing cursor with
  | nil =>
      rw [passWhile, peek_eq, split]
      simp [last, moved]
  | cons octet rest ih =>
      rw [passWhile, peek_eq, split, advance_eq split]
      have behind : (cursor.moved 1).ahead source = rest := by
        rw [ahead_moved, split]
        rfl
      cases accepted : accepts octet with
      | true =>
          have others := ih behind
          rw [moved_moved, Nat.add_comm] at others
          simp only [Option.bind_eq_bind, Option.bind_some, List.headD_cons, accepted, if_true,
            others, List.takeWhile_cons_of_pos accepted, List.length_cons]
      | false => simp [accepted, moved]

/-! ### Strings -/

/-- The cursor behind a text. -/
def past (cursor : Cursor) (text : List Char) : Cursor :=
  { cursor with
    position := cursor.position + (octets text).length
    line := cursor.line + text.count '\n' }

theorem past_nil : cursor.past [] = cursor := rfl

theorem past_past (text more : List Char) :
    (cursor.past text).past more = cursor.past (text ++ more) := by
  unfold past
  rw [octets_append, List.length_append, List.count_append, Nat.add_assoc, Nat.add_assoc]

theorem past_eq_moved {text : List Char} (inLine : '\n' ∉ text) :
    cursor.past text = cursor.moved (octets text).length := by
  unfold past moved
  rw [List.count_eq_zero.mpr inLine, Nat.add_zero]

theorem ahead_past {text rest : List Char} (split : cursor.ahead source = octets (text ++ rest)) :
    (cursor.past text).ahead source = octets rest := by
  change (cursor.moved (octets text).length).ahead source = octets rest
  rw [ahead_moved, split, octets_append, List.drop_left]

theorem passString_nil (split : cursor.ahead source = []) :
    cursor.passString source = some cursor := by
  rw [passString, atEnd_eq, split]
  rfl

theorem passString_quote {rest : List Char} (split : cursor.ahead source = '"' :: rest) :
    cursor.passString source = some cursor := by
  rw [passString, atEnd_eq, peek_eq, split]
  rfl

theorem passString_guard {guarded : Char} {rest : List Char}
    (split : cursor.ahead source = '\\' :: guarded :: rest) :
    cursor.passString source =
      (if guarded = '\n' then (cursor.moved 2).nextLine else cursor.moved 2).passString source := by
  have behind : (cursor.moved 1).ahead source = guarded :: rest := by
    rw [ahead_moved, split]
    rfl
  rw [passString, atEnd_eq, peek_eq, advance_eq split, split]
  simp [atEnd_eq, behind, advance_eq behind, moved_moved]

theorem passString_other {octet : Char} {rest : List Char}
    (split : cursor.ahead source = octet :: rest) (notQuote : octet ≠ '"')
    (unguarded : octet = '\\' → rest = []) :
    cursor.passString source =
      (if octet = '\n' then (cursor.moved 1).nextLine else cursor.moved 1).passString source := by
  have behind : (cursor.moved 1).ahead source = rest := by
    rw [ahead_moved, split]
    rfl
  have plain : ¬ (octet = '\\' ∧ (cursor.moved 1).atEnd source = false) := by
    rintro ⟨guard, more⟩
    rw [atEnd_eq, behind, unguarded guard] at more
    cases more
  rw [passString, atEnd_eq, peek_eq, advance_eq split, split]
  simp [notQuote, plain]

/-- In a string an octet of 128 or more is nothing special. -/
theorem passString_wide {wides rest : List Char} (split : cursor.ahead source = wides ++ rest)
    (wide : ∀ octet, octet ∈ wides → IsWide octet) :
    cursor.passString source = (cursor.moved wides.length).passString source := by
  induction wides generalizing cursor with
  | nil => rfl
  | cons octet others ih =>
      have special := (wide octet List.mem_cons_self).ne
      have behind : (cursor.moved 1).ahead source = others ++ rest := by
        rw [ahead_moved, split]
        rfl
      rw [passString_other split (special '"' (by decide))
          (fun guard => absurd guard (special '\\' (by decide))),
        if_neg (special '\n' (by decide)),
        ih behind fun other member => wide other (List.mem_cons_of_mem _ member), moved_moved,
        Nat.add_comm]
      rfl

theorem past_narrow {char : Char} (narrow : ¬ IsWide char) :
    cursor.past [char] = if char = '\n' then (cursor.moved 1).nextLine else cursor.moved 1 := by
  unfold past
  rw [octets_narrow narrow]
  by_cases feed : char = '\n'
  · rw [if_pos feed, feed]
    rfl
  · rw [if_neg feed, List.count_cons_of_ne feed]
    rfl

theorem past_single (char : Char) (narrow : ¬ IsWide char) (notFeed : char ≠ '\n') :
    cursor.past [char] = cursor.moved 1 := by
  rw [past_narrow narrow, if_neg notFeed]

theorem past_wide {char : Char} (wide : IsWide char) :
    cursor.past [char] = cursor.moved (charOctets char).length := by
  have inLine : '\n' ∉ [char] := fun member =>
    wide.ne '\n' (by decide) (List.mem_singleton.mp member).symm
  rw [past_eq_moved inLine, octets_cons]
  simp [octets]

theorem passString_char {char : Char} {rest : List Char}
    (split : cursor.ahead source = octets (char :: rest)) (notQuote : char ≠ '"')
    (unguarded : char = '\\' → rest = []) :
    cursor.passString source = (cursor.past [char]).passString source := by
  by_cases wide : IsWide char
  · rw [past_wide wide]
    exact passString_wide split fun octet => isWide_of_mem_charOctets wide
  · rw [past_narrow wide]
    rw [octets_narrow wide] at split
    exact passString_other split notQuote fun guard => octets_eq_nil_iff.mpr (unguarded guard)

/-- Behind a backslash only the first octet of a character is passed at once, and the others like
any octets of a string. -/
theorem passString_pair {char : Char} {rest : List Char}
    (split : cursor.ahead source = octets ('\\' :: char :: rest)) :
    cursor.passString source = (cursor.past ['\\', char]).passString source := by
  have first : cursor.past ['\\'] = cursor.moved 1 := past_narrow (by decide)
  have both : cursor.past ['\\', char] = (cursor.moved 1).past [char] := by
    rw [← first, past_past]
    rfl
  rw [octets_narrow (by decide)] at split
  rw [both]
  by_cases wide : IsWide char
  · obtain ⟨octet, others, parts⟩ := List.exists_cons_of_ne_nil (charOctets_ne_nil char)
    have isWide : ∀ other, other ∈ octet :: others → IsWide other := by
      rw [← parts]
      exact fun other => isWide_of_mem_charOctets wide
    have notFeed : octet ≠ '\n' := (isWide octet List.mem_cons_self).ne '\n' (by decide)
    have behind : (cursor.moved 2).ahead source = others ++ octets rest := by
      rw [ahead_moved, split, octets_cons, parts]
      rfl
    rw [octets_cons, parts] at split
    rw [past_wide wide, parts, passString_guard split, if_neg notFeed,
      passString_wide behind fun other member => isWide other (List.mem_cons_of_mem _ member),
      moved_moved, moved_moved, List.length_cons]
    congr 2
    omega
  · rw [octets_narrow wide] at split
    rw [past_narrow wide, passString_guard split, moved_moved]

/-- A string is passed up to its closing quote, or else up to the end. -/
theorem passString_eq {rest : List Char} (split : cursor.ahead source = octets rest) :
    cursor.passString source = some (cursor.past ((stringBody? rest).getD rest)) := by
  fun_induction stringBody? rest generalizing cursor with
  | case1 => exact passString_nil split
  | case2 rest =>
      rw [octets_narrow (by decide)] at split
      exact passString_quote split
  | case3 guarded rest ih =>
      rw [passString_pair split, ih (ahead_past split), past_past]
      cases stringBody? rest <;> rfl
  | case4 char rest quote guard ih =>
      have unguarded : char = '\\' → rest = [] := by
        rintro rfl
        cases rest with
        | nil => rfl
        | cons other others => exact absurd rfl (guard other others rfl)
      rw [passString_char split (fun same => quote same) unguarded,
        ih (ahead_past split), past_past]
      cases stringBody? rest <;> rfl

/-! ### Items of one class -/

theorem isDigit_wide (char : Char) (wide : IsWide char) : char.isDigit = false := by
  rw [Bool.eq_false_iff]
  intro isDigit
  have below : char.val.toNat ≤ 57 := (Pattern.isDigit_iff.mp isDigit).2
  unfold IsWide at wide
  omega

theorem isNameStart_wide (char : Char) (wide : IsWide char) : isNameStart char = false := by
  rw [Bool.eq_false_iff]
  intro start
  unfold IsWide at wide
  rcases Pattern.isNameStart_iff.mp start with upper | lower | rfl
  · have below : char.val.toNat ≤ 90 := upper.2
    omega
  · have below : char.val.toNat ≤ 122 := lower.2
    omega
  · exact absurd wide (by decide)

theorem isNamePart_wide (char : Char) (wide : IsWide char) : isNamePart char = false := by
  rw [Bool.eq_false_iff]
  intro part
  rcases Pattern.isNamePart_iff.mp part with start | isDigit
  · rw [isNameStart_wide char wide] at start
    cases start
  · rw [isDigit_wide char wide] at isDigit
    cases isDigit

theorem wide_ordinary {char : Char} (wide : IsWide char) :
    isSeparator char = false ∧ punctuation? char = none ∧ comparison? char = none ∧
      char ≠ '/' ∧ char ≠ '"' := by
  have apart : Piece.reserved.all (fun special => !decide (IsWide special)) = true := by decide
  exact Piece.ordinary_of_class apart (decide_eq_true wide)

theorem passWhile_past {accepts : Char → Bool}
    (uniform : ∀ char, IsWide char → accepts char = false)
    (last : accepts '\x00' = false) (inLine : accepts '\n' = false) {rest : List Char}
    (split : cursor.ahead source = octets rest) :
    cursor.passWhile source accepts = some (cursor.past (rest.takeWhile accepts)) := by
  have noFeed : '\n' ∉ rest.takeWhile accepts := by
    intro member
    rw [List.mem_takeWhile_imp member] at inLine
    cases inLine
  rw [passWhile_eq last, split, takeWhile_octets uniform, past_eq_moved noFeed]

theorem head?_octets_eq_iff {expected : Char} (narrow : ¬ IsWide expected) {text : List Char} :
    (octets text).head? = some expected ↔ text.head? = some expected := by
  have uniform : ∀ char, IsWide char → (char == expected) = false :=
    fun char wide => beq_false_of_ne (wide.ne expected narrow)
  cases text with
  | nil => exact Iff.rfl
  | cons char rest =>
      obtain ⟨octet, others, parts⟩ := List.exists_cons_of_ne_nil (charOctets_ne_nil char)
      have member : octet ∈ charOctets char := parts ▸ List.mem_cons_self
      have same := accepts_charOctets uniform member
      rw [octets_cons, parts, List.cons_append, List.head?_cons, List.head?_cons, Option.some_inj,
        Option.some_inj, ← beq_iff_eq, same, beq_iff_eq]

theorem idxOf?_feed (text : List Char) :
    (text.idxOf? '\n').getD text.length = (text.takeWhile (· ≠ '\n')).length := by
  induction text with
  | nil => rfl
  | cons char rest ih =>
      rw [List.idxOf?_cons, List.takeWhile_cons]
      by_cases feed : char = '\n'
      · simp [feed]
      · cases found : rest.idxOf? '\n' <;> simp_all

/-- A comment is passed up to the line feed that ends it. -/
theorem comment_eq {rest : List Char} (split : cursor.ahead source = octets rest)
    (size : source.utf8ByteSize = cursor.position + (octets rest).length) :
    cursor.comment source = some (cursor.past (rest.takeWhile (· ≠ '\n'))) := by
  have uniform : ∀ char, IsWide char → decide (char ≠ '\n') = true :=
    fun char wide => decide_eq_true (wide.ne '\n' (by decide))
  have inLine : '\n' ∉ rest.takeWhile (· ≠ '\n') := fun member => by
    simpa using List.mem_takeWhile_imp member
  have distance := idxOf?_feed (octets rest)
  rw [takeWhile_octets uniform] at distance
  unfold comment
  rw [if_neg (by omega), past_eq_moved inLine, ← distance]
  change (match (cursor.ahead source).idxOf? '\n' with | some _ => _ | none => _) = _
  rw [split, size]
  cases (octets rest).idxOf? '\n' <;> rfl

/-- The fraction of a number, with its point, from a text that starts behind the whole part. -/
def fractionText (text : List Char) : List Char :=
  if (fractionDigits text).isEmpty then [] else '.' :: fractionDigits text

theorem isDigit_of_mem_fractionDigits {text : List Char} {char : Char}
    (member : char ∈ fractionDigits text) : char.isDigit = true := by
  unfold fractionDigits at member
  split at member
  · exact List.mem_takeWhile_imp member
  · cases member

/-- The parts of a number can be read off its text. -/
theorem fractionText_parts (text : List Char) :
    (fractionText text).takeWhile Char.isDigit = [] ∧
      fractionDigits ((fractionText text).dropWhile Char.isDigit) = fractionDigits text := by
  unfold fractionText
  split
  · rename_i absent
    rw [List.isEmpty_iff.mp absent]
    exact ⟨rfl, rfl⟩
  · refine ⟨rfl, ?_⟩
    change (fractionDigits text).takeWhile Char.isDigit = fractionDigits text
    rw [List.takeWhile_eq_self_iff]
    exact fun char => isDigit_of_mem_fractionDigits

theorem text_number (digit : Char) (rest : List Char) :
    (Piece.number digit rest).text =
      digit :: rest.takeWhile Char.isDigit ++ fractionText (rest.dropWhile Char.isDigit) := by
  unfold Piece.number fractionText
  dsimp only
  split
  · rw [List.append_nil]
  · rfl

theorem fraction_eq {rest : List Char} (split : cursor.ahead source = octets rest) :
    cursor.fraction source = some (cursor.past (fractionText rest)) := by
  unfold fraction
  rw [peek_eq, peekNext_eq, split]
  simp only [Option.bind_eq_bind, Option.bind_some, Option.pure_def]
  by_cases point : rest.head? = some '.'
  · obtain ⟨more, rfl⟩ := List.head?_eq_some_iff.mp point
    have behind : (cursor.past ['.']).ahead source = octets more := ahead_past split
    have digit := head_octets isDigit_wide (by decide) more
    rw [octets_narrow (by decide)] at split ⊢
    rw [List.headD_cons, List.tail_cons, digit, advance_eq split,
      ← past_single '.' (by decide) (by decide)]
    cases more with
    | nil => rfl
    | cons char others =>
        unfold fractionText fractionDigits
        cases isDigit : char.isDigit with
        | false => simp [isDigit, past_nil]
        | true =>
            simp only [Option.bind_some]
            rw [passWhile_past isDigit_wide (by decide) (by decide) behind, past_past]
            simp [isDigit]
  · have absent : fractionDigits rest = [] := by
      unfold fractionDigits
      split
      · exact absurd rfl point
      · rfl
    have other : (octets rest).headD '\x00' ≠ '.' := by
      rw [List.headD_eq_head?_getD]
      intro same
      cases first : (octets rest).head? with
      | none =>
          rw [first] at same
          exact absurd same (by decide)
      | some octet =>
          rw [first] at same
          exact point ((head?_octets_eq_iff (by decide)).mp (first.trans (congrArg some same)))
    rw [if_neg fun both => other both.1]
    simp [fractionText, absent, past_nil]

/-- The cursor stands where an item starts, behind some text and in front of the rest. -/
structure Opens (source : String) (before rest : List Char) (cursor : Cursor) : Prop where
  text : source.toList = before ++ rest
  start : cursor.start = (octets before).length
  position : cursor.position = (octets before).length

namespace Opens

variable {before rest : List Char}

theorem ahead_eq (opens : cursor.Opens source before rest) :
    cursor.ahead source = octets rest := by
  unfold ahead
  rw [buffer_eq, opens.text, opens.position, octets_append, List.drop_left]

theorem size_eq {text : List Char} (opens : cursor.Opens source before (text ++ rest)) :
    source.utf8ByteSize = (cursor.past text).position + (octets rest).length := by
  rw [← length_buffer, buffer_eq, opens.text, octets_append, octets_append, List.length_append,
    List.length_append, ← Nat.add_assoc, ← opens.position]
  rfl

theorem slice?_past {text : List Char} (opens : cursor.Opens source before (text ++ rest)) :
    slice? source (cursor.past text).start (cursor.past text).position =
      some (String.ofList text) := by
  have split := opens.text.trans (List.append_assoc _ _ _).symm
  have place : (cursor.past text).position = (octets (before ++ text)).length := by
    rw [octets_append, List.length_append, ← opens.position]
    rfl
  rw [place]
  exact opens.start ▸ slice?_eq split

theorem slice?_quoted {body : List Char}
    (opens : cursor.Opens source before (('"' :: body ++ ['"']) ++ rest)) :
    slice? source ((cursor.past ('"' :: body ++ ['"'])).start + 1)
        ((cursor.past ('"' :: body ++ ['"'])).position - 1) = some (String.ofList body) := by
  have split : source.toList = (before ++ ['"']) ++ body ++ ('"' :: rest) := by
    rw [opens.text]
    simp
  have quote : octets ['"'] = ['"'] := octets_narrow (by decide) []
  have start : (cursor.past ('"' :: body ++ ['"'])).start + 1 =
      (octets (before ++ ['"'])).length := by
    rw [octets_append, quote, List.length_append, ← opens.start]
    rfl
  have stop : (cursor.past ('"' :: body ++ ['"'])).position - 1 =
      (octets (before ++ ['"'] ++ body)).length := by
    change cursor.position + (octets ('"' :: body ++ ['"'])).length - 1 = _
    rw [opens.position, List.cons_append, octets_narrow (by decide), octets_append, octets_append,
      octets_append, quote]
    simp only [List.length_append, List.length_cons, List.length_nil]
    omega
  rw [start, stop, slice?_eq split]

theorem string_eq (opens : cursor.Opens source before ('"' :: rest)) :
    (cursor.past ['"']).string source =
      some ((Piece.string rest).content, cursor.past (Piece.string rest).text) := by
  have inside : (cursor.past ['"']).ahead source = octets rest := ahead_past opens.ahead_eq
  unfold string Piece.string
  rw [passString_eq inside]
  cases found : stringBody? rest with
  | none =>
      have ended : (cursor.past ('"' :: rest)).ahead source = octets [] :=
        ahead_past (by rw [opens.ahead_eq, List.append_nil])
      simp only [Option.bind_eq_bind, Option.bind_some, Option.getD_none, past_past,
        List.singleton_append, atEnd_eq, ended]
      rfl
  | some body =>
      obtain ⟨tail, rfl⟩ := eq_append_of_stringBody? found
      have closing : (cursor.past ('"' :: body)).ahead source = '"' :: octets tail := by
        rw [← octets_narrow (by decide)]
        exact ahead_past opens.ahead_eq
      have last : (cursor.past ('"' :: body)).moved 1 = cursor.past ('"' :: body ++ ['"']) := by
        rw [← past_past, past_narrow (by decide)]
        rfl
      have whole : cursor.Opens source before (('"' :: body ++ ['"']) ++ tail) := by
        simpa using opens
      have cut := whole.slice?_quoted
      simp only [Option.bind_eq_bind, Option.bind_some, Option.getD_some, past_past,
        List.singleton_append, atEnd_eq, closing, advance_eq closing, last, cut,
        String.toList_ofList]
      rfl

theorem word_eq {char : Char} (opens : cursor.Opens source before (char :: rest)) :
    (cursor.past [char]).word source =
      some ((Piece.word char rest).content, cursor.past (Piece.word char rest).text) := by
  have inside : (cursor.past [char]).ahead source = octets rest := ahead_past opens.ahead_eq
  have whole : cursor.Opens source before
      ((char :: rest.takeWhile isNamePart) ++ rest.dropWhile isNamePart) := by
    rw [List.cons_append, List.takeWhile_append_dropWhile]
    exact opens
  unfold word
  rw [passWhile_past isNamePart_wide (by decide) (by decide) inside]
  simp only [Option.bind_eq_bind, Option.bind_some, past_past, List.singleton_append,
    whole.slice?_past]
  rfl

theorem unexpected_eq {char : Char} (notFeed : char ≠ '\n')
    (opens : cursor.Opens source before (char :: rest)) :
    (cursor.moved 1).unexpected source =
      some (.fault (.unexpected char), cursor.past [char]) := by
  have cut : slice? source cursor.start source.utf8ByteSize =
      some (String.ofList (char :: rest)) := by
    have split : source.toList = before ++ (char :: rest) ++ [] := by
      rw [opens.text, List.append_nil]
    rw [← length_buffer, buffer_eq, opens.text, opens.start]
    exact slice?_eq split
  have place : cursor.past [char] =
      { cursor.moved 1 with position := cursor.start + char.utf8Size } := by
    rw [past_eq_moved (by simpa using notFeed.symm), opens.start, ← opens.position,
      ← length_charOctets, octets_cons]
    simp [moved, octets]
  unfold unexpected
  change (do let rest ← slice? source cursor.start source.utf8ByteSize; _) = _
  rw [cut, place]
  simp [moved]

theorem number_eq {digit : Char} (isDigit : digit.isDigit = true)
    (opens : cursor.Opens source before (digit :: rest)) :
    (cursor.past [digit]).number source =
      some ((Piece.number digit rest).content, cursor.past (Piece.number digit rest).text) := by
  have inside : (cursor.past [digit]).ahead source = octets rest := ahead_past opens.ahead_eq
  have behind : (cursor.past (digit :: rest.takeWhile Char.isDigit)).ahead source =
      octets (rest.dropWhile Char.isDigit) := by
    apply ahead_past
    rw [List.cons_append, List.takeWhile_append_dropWhile]
    exact opens.ahead_eq
  have digits : ∀ other, other ∈ digit :: rest.takeWhile Char.isDigit → other.isDigit = true := by
    intro other member
    rcases List.mem_cons.mp member with rfl | later
    · exact isDigit
    · exact List.mem_takeWhile_imp later
  have whole : cursor.Opens source before
      ((Piece.number digit rest).text ++ (digit :: rest).drop (Piece.number digit rest).text.length)
      := by
    rw [← List.prefix_iff_eq_append.mp (Piece.text_number_isPrefix digit rest)] at opens
    exact opens
  unfold number
  rw [passWhile_past isDigit_wide (by decide) (by decide) inside]
  simp only [Option.bind_eq_bind, Option.bind_some, past_past, List.singleton_append,
    fraction_eq behind]
  rw [← text_number, whole.slice?_past, text_number]
  simp only [Option.bind_some, String.toList_ofList, List.takeWhile_append_of_pos digits,
    List.dropWhile_append_of_pos digits, fractionText_parts, List.append_nil]
  rfl

theorem slash_eq (opens : cursor.Opens source before ('/' :: rest)) :
    (cursor.past ['/']).slash source =
      some ((Piece.slash rest).content, cursor.past (Piece.slash rest).text) := by
  have inside : (cursor.past ['/']).ahead source = octets rest := ahead_past opens.ahead_eq
  unfold slash
  rw [passIf_eq, inside]
  by_cases double : rest.head? = some '/'
  · obtain ⟨words, rfl⟩ := List.head?_eq_some_iff.mp double
    have second : (cursor.past ['/']).moved 1 = cursor.past ['/', '/'] := by
      rw [← past_single '/' (by decide) (by decide), past_past]
      rfl
    have behind : (cursor.past ['/', '/']).ahead source = octets words := ahead_past opens.ahead_eq
    rw [if_pos ((head?_octets_eq_iff (by decide)).mpr double), second]
    simp only [Option.bind_eq_bind, Option.bind_some, if_true, comment_eq behind opens.size_eq,
      past_past]
    rfl
  · have alone : Piece.slash rest = ⟨['/'], .token (.mark .slash)⟩ := by
      unfold Piece.slash
      split
      · exact absurd rfl double
      · rfl
    rw [if_neg (mt (head?_octets_eq_iff (by decide)).mp double), alone]
    rfl

theorem comparison_eq {char : Char} (short long : Mark)
    (opens : cursor.Opens source before (char :: rest)) :
    (cursor.past [char]).comparison source short long =
      some ((Piece.comparison char short long rest).content,
        cursor.past (Piece.comparison char short long rest).text) := by
  have inside : (cursor.past [char]).ahead source = octets rest := ahead_past opens.ahead_eq
  unfold comparison
  rw [passIf_eq, inside]
  by_cases equal : rest.head? = some '='
  · obtain ⟨more, rfl⟩ := List.head?_eq_some_iff.mp equal
    rw [if_pos ((head?_octets_eq_iff (by decide)).mpr equal),
      ← past_single '=' (by decide) (by decide), past_past]
    rfl
  · have alone : Piece.comparison char short long rest = ⟨[char], .token (.mark short)⟩ := by
      unfold Piece.comparison
      split
      · exact absurd rfl equal
      · rfl
    rw [if_neg (mt (head?_octets_eq_iff (by decide)).mp equal), alone]
    rfl

/-- Nothing starts with an octet of 128 or more. -/
theorem begins_wide {char : Char} (wide : IsWide char) (rest : List Char) :
    Piece.Begins char rest ⟨[char], .fault (.unexpected char)⟩ := by
  obtain ⟨separator, punctuation, comparison, slash, quote⟩ := wide_ordinary wide
  exact .unexpected separator punctuation comparison slash quote (isDigit_wide char wide)
    (isNameStart_wide char wide)

theorem wide_eq {char : Char} (wide : IsWide char)
    (opens : cursor.Opens source before (char :: rest)) :
    cursor.piece source =
      some ((Piece.first char rest).content, cursor.past (Piece.first char rest).text) := by
  obtain ⟨octet, others, parts⟩ := List.exists_cons_of_ne_nil (charOctets_ne_nil char)
  have split : cursor.ahead source = octet :: (others ++ octets rest) := by
    rw [opens.ahead_eq, octets_cons, parts, List.cons_append]
  have isWide : IsWide octet := isWide_of_mem_charOctets wide (parts ▸ List.mem_cons_self)
  obtain ⟨separator, punctuation, comparison, slash, quote⟩ := wide_ordinary isWide
  rw [← (begins_wide wide rest).eq_first]
  unfold piece
  rw [advance_eq split]
  simp only [Option.bind_eq_bind, Option.bind_some, isWide.ne '\n' (by decide), separator,
    punctuation, comparison, slash, quote, isDigit_wide octet isWide,
    isNameStart_wide octet isWide, if_false, Bool.false_eq_true]
  exact unexpected_eq (wide.ne '\n' (by decide)) opens

/-- The reader passes the first piece of what is ahead. -/
theorem piece_eq {char : Char} (opens : cursor.Opens source before (char :: rest)) :
    cursor.piece source =
      some ((Piece.first char rest).content, cursor.past (Piece.first char rest).text) := by
  by_cases wide : IsWide char
  · exact wide_eq wide opens
  · have split : cursor.ahead source = char :: octets rest := by
      rw [opens.ahead_eq, octets_narrow wide]
    unfold piece
    rw [advance_eq split]
    simp only [Option.bind_eq_bind, Option.bind_some]
    by_cases feed : char = '\n'
    · subst feed
      rfl
    · rw [if_neg feed, ← past_single char wide feed]
      split
      · rw [← Piece.Begins.eq_first (.blank ‹_›)]
        rfl
      · split
        · rw [← Piece.Begins.eq_first (.punctuation ‹_›)]
          rfl
        · split
          · rw [← Piece.Begins.eq_first (.comparison ‹_›)]
            exact comparison_eq _ _ opens
          · split
            · rename_i same
              subst same
              exact slash_eq opens
            · split
              · rename_i same
                subst same
                exact string_eq opens
              · split
                · rw [← Piece.Begins.eq_first (.number ‹_›)]
                  exact number_eq ‹_› opens
                · split
                  · rw [← Piece.Begins.eq_first (.word ‹_›)]
                    exact word_eq opens
                  · have read := unexpected_eq feed opens
                    rw [← past_single char wide feed] at read
                    rw [← Piece.Begins.eq_first (by apply Piece.Begins.unexpected <;> simp_all)]
                    exact read

end Opens

/-! ### Items in a row -/

/-- The cursor stands between two characters, on the line on which the second one begins. -/
structure Between (source : String) (before rest : List Char) (cursor : Cursor) : Prop where
  text : source.toList = before ++ rest
  position : cursor.position = (octets before).length
  line : cursor.line = 1 + before.count '\n'

/-- The cursor when it begins an item. -/
def opened (cursor : Cursor) : Cursor := { cursor with start := cursor.position }

namespace Between

variable {before rest : List Char}

theorem start (source : String) : Between source [] source.toList ⟨0, 0, 1⟩ := ⟨rfl, rfl, rfl⟩

theorem opens (between : cursor.Between source before rest) :
    cursor.opened.Opens source before rest :=
  ⟨between.text, between.position, between.position⟩

theorem past {text : List Char} (between : cursor.Between source before (text ++ rest)) :
    (cursor.opened.past text).Between source (before ++ text) rest := by
  refine ⟨?_, ?_, ?_⟩
  · rw [between.text, List.append_assoc]
  · rw [octets_append, List.length_append, ← between.position]
    rfl
  · rw [List.count_append, ← Nat.add_assoc, ← between.line]
    rfl

theorem size_eq (between : cursor.Between source before rest) :
    source.utf8ByteSize = cursor.position + (octets rest).length := by
  have whole : cursor.opened.Opens source before ([] ++ rest) := between.opens
  exact whole.size_eq

theorem next_nil (between : cursor.Between source before []) :
    cursor.next source =
      some (some (.ok (Token.endOfInput cursor.line)),
        { cursor with position := source.utf8ByteSize + 1 }) := by
  have size : cursor.position = source.utf8ByteSize := between.size_eq.symm
  rw [next, if_neg (by omega), if_pos size, size]
  rfl

/-- A blank is passed, and a token or a fault is an item. -/
theorem next_cons {char : Char} (between : cursor.Between source before (char :: rest)) :
    let text := (Piece.first char rest).text
    let later := cursor.opened.past text
    cursor.next source =
      match (Piece.first char rest).content with
      | .blank => later.next source
      | .token kind => some (some (.ok ⟨kind, String.ofList text, later.line⟩), later)
      | .fault fault => some (some (.error ⟨fault, later.line⟩), later) := by
  have some' : 0 < (octets (char :: rest)).length :=
    List.length_pos_iff.mpr (mt octets_eq_nil_iff.mp (List.cons_ne_nil _ _))
  have size := between.size_eq
  obtain ⟨left, split⟩ := Piece.text_first_isPrefix char rest
  have opens := between.opens
  have read := opens.piece_eq
  rw [← split] at opens
  intro text later
  rw [next, if_neg (by omega), if_neg (by omega)]
  change (do let (content, later) ← cursor.opened.piece source; _) = _
  rw [read]
  simp only [Option.bind_eq_bind, Option.bind_some]
  cases (Piece.first char rest).content with
  | blank => rfl
  | token kind =>
      simp only [opens.slice?_past]
      rfl
  | fault fault => rfl

end Between

theorem next_done (behind : source.utf8ByteSize < cursor.position) :
    cursor.next source = some (none, cursor) := by
  rw [next, if_pos behind]
  rfl

end Cursor

/-! ### The reader yields the scan -/

/-- A reader called again and again, with the items it yields and the cursor behind each. -/
inductive Calls (source : String) : Cursor → List (Item × Cursor) → Prop
  | done {cursor later : Cursor} : cursor.next source = some (none, later) → Calls source cursor []
  | item {cursor later : Cursor} {item : Item} {calls : List (Item × Cursor)} :
      cursor.next source = some (some item, later) → Calls source later calls →
      Calls source cursor ((item, later) :: calls)

namespace Calls

variable {source : String} {cursor later : Cursor} {calls calls' : List (Item × Cursor)}

theorem of_next_eq (same : cursor.next source = later.next source)
    (others : Calls source later calls) : Calls source cursor calls := by
  cases others with
  | done ended => exact .done (same.trans ended)
  | item read others => exact .item (same.trans read) others

theorem unique (reads : Calls source cursor calls) (reads' : Calls source cursor calls') :
    calls = calls' := by
  induction reads generalizing calls' with
  | done ended =>
      cases reads' with
      | done => rfl
      | item read => cases ended.symm.trans read
  | item read _ ih =>
      cases reads' with
      | done ended => cases ended.symm.trans read
      | item read' others =>
          cases read.symm.trans read'
          rw [ih others]

end Calls

/-- The items of pieces from a cursor on, with the cursor behind each. -/
def callsFrom (source : String) (cursor : Cursor) : List Piece → List (Item × Cursor)
  | [] =>
      [(.ok (Token.endOfInput cursor.line), { cursor with position := source.utf8ByteSize + 1 })]
  | piece :: rest =>
      let later := cursor.opened.past piece.text
      match piece.content with
      | .blank => callsFrom source later rest
      | .token kind =>
          (.ok ⟨kind, String.ofList piece.text, later.line⟩, later) :: callsFrom source later rest
      | .fault fault => (.error ⟨fault, later.line⟩, later) :: callsFrom source later rest

theorem map_fst_callsFrom (source : String) (cursor : Cursor) (pieces : List Piece) :
    (callsFrom source cursor pieces).map Prod.fst = itemsFrom cursor.line pieces := by
  induction pieces generalizing cursor with
  | nil => rfl
  | cons piece rest ih =>
      have later := ih (cursor.opened.past piece.text)
      simp only [callsFrom, itemsFrom]
      cases piece.content with
      | blank => exact later
      | token kind => exact congrArg (List.cons _) later
      | fault fault => exact congrArg (List.cons _) later

theorem Cursor.Between.calls {source : String} {cursor : Cursor} {before rest : List Char}
    (between : cursor.Between source before rest) :
    Calls source cursor (callsFrom source cursor (pieces rest)) := by
  induction rest using piecewise generalizing before cursor with
  | nil => exact .item between.next_nil (.done (Cursor.next_done (Nat.lt_succ_self _)))
  | cons char tail left covers ih =>
      have read := between.next_cons
      have ahead : cursor.Between source before ((char :: tail) ++ left) := between
      have others := ih ahead.past
      rw [← covers] at others
      simp only [pieces_covered covers, callsFrom]
      cases content : (Piece.first char (tail ++ left)).content with
      | blank =>
          rw [content] at read
          exact others.of_next_eq read
      | token kind =>
          rw [content] at read
          exact .item read others
      | fault fault =>
          rw [content] at read
          exact .item read others

/-- A reader that is called until it yields nothing yields the items. -/
def ReaderYields (source : String) (items : List Item) : Prop :=
  ∃ calls, Calls source ⟨0, 0, 1⟩ calls ∧ calls.map Prod.fst = items

/-- On every source the calls of a reader come to an end, and what they yield is the scan. -/
theorem reader_yields_scan (source : String) (items : List Item) :
    ReaderYields source items ↔ items = scan source := by
  have reads := (Cursor.Between.start source).calls
  have same : _ = scan source := map_fst_callsFrom source ⟨0, 0, 1⟩ (pieces source.toList)
  constructor
  · rintro ⟨calls, reads', rfl⟩
    rw [← reads.unique reads', same]
  · rintro rfl
    exact ⟨_, reads, same⟩

/-! ### Where items end -/

/-- The line of a token or an error. -/
def itemLine : Item → Nat
  | .ok token => token.line
  | .error error => error.line

/-- The text of an item ends with the given number of octets of the source.  Behind the end of the
source stands one place more. -/
inductive EndsAt (source : String) : Item → Nat → Prop
  | token {token : Token} {before after : String} : token.is .endOfInput = false →
      source = before ++ token.lexeme ++ after →
      EndsAt source (.ok token) (before ++ token.lexeme).utf8ByteSize
  | unexpected {char : Char} {line : Nat} {before after : String} :
      source = before ++ char.toString ++ after →
      EndsAt source (.error ⟨.unexpected char, line⟩) (before ++ char.toString).utf8ByteSize
  | unterminated {line : Nat} :
      EndsAt source (.error ⟨.unterminatedString, line⟩) source.utf8ByteSize
  | endOfInput {line : Nat} :
      EndsAt source (.ok (Token.endOfInput line)) (source.utf8ByteSize + 1)

namespace Cursor

variable {source : String} {cursor : Cursor}

namespace Between

variable {before rest : List Char}

theorem cut_eq {text : List Char} (between : cursor.Between source before (text ++ rest)) :
    source = String.ofList before ++ String.ofList text ++ String.ofList rest ∧
      (cursor.opened.past text).position =
        (String.ofList before ++ String.ofList text).utf8ByteSize := by
  constructor
  · rw [← String.ofList_append, ← String.ofList_append, List.append_assoc, ← between.text,
      String.ofList_toList]
  · rw [← String.ofList_append, utf8ByteSize_ofList]
    exact between.past.position

theorem endsAt_token {text : List Char} {kind : Kind} (ordinary : kind ≠ .mark .endOfInput)
    (between : cursor.Between source before (text ++ rest)) (line : Nat) :
    EndsAt source (.ok ⟨kind, String.ofList text, line⟩) (cursor.opened.past text).position := by
  obtain ⟨whole, position⟩ := between.cut_eq
  rw [position]
  refine .token ?_ whole
  unfold Token.is
  split
  · rename_i mark isMark
    apply decide_eq_false
    rintro rfl
    exact ordinary isMark
  · rfl

theorem endsAt_fault {char : Char} {fault : LexicalFault}
    (isFault : (Piece.first char rest).content = .fault fault)
    (between : cursor.Between source before (char :: rest)) (line : Nat) :
    EndsAt source (.error ⟨fault, line⟩)
      (cursor.opened.past (Piece.first char rest).text).position := by
  rcases Piece.first_of_fault isFault with ⟨-, same⟩ | ⟨-, same⟩
  · rw [same] at isFault ⊢
    cases isFault
    have size : source.utf8ByteSize = (cursor.opened.past (char :: rest)).position :=
      between.size_eq
    exact size ▸ .unterminated
  · rw [same] at isFault ⊢
    cases isFault
    have ahead : cursor.Between source before ([char] ++ rest) := between
    obtain ⟨whole, position⟩ := ahead.cut_eq
    have single : String.ofList [char] = char.toString := by simp
    rw [single] at whole position
    exact position ▸ .unexpected whole

end Between

end Cursor

end LexicalScript
