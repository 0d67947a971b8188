import LexicalScript.Proofs.OctetReader

/-!
Reading is safe and ends.

A reader fails where it looks outside the octets of a source, where it cuts the text inside a
character, and where it does not come to an end.  None of this happens, however often the reader is
called: between two calls it stands between characters, and a call that yields an item of the text
leaves it at a later place.  So the items are at most as many as the octets.  The end of the input
is yielded once, behind them, and nothing after it.
-/

set_option autoImplicit false

namespace LexicalScript

/-- Whether an item is the end of the input. -/
def isEnd : Item → Bool
  | .ok token => token.is .endOfInput
  | .error _ => false

/-! ### Where a reader fails -/

theorem isSome_getElem?_buffer (source : String) (position : Nat) :
    (buffer source)[position]?.isSome ↔ position < source.utf8ByteSize := by
  rw [isSome_getElem?, length_buffer]

theorem isSome_slice?_iff (source : String) (start stop : Nat) :
    (slice? source start stop).isSome ↔ start ≤ stop ∧
      String.Pos.Raw.IsValid source ⟨start⟩ ∧ String.Pos.Raw.IsValid source ⟨stop⟩ := by
  unfold slice?
  split
  · rename_i valid
    split <;> simp_all
  · rename_i invalid
    simp [invalid]

/-! ### One call -/

namespace Cursor

variable {source : String} {cursor later : Cursor} {before rest : List Char}

theorem Between.isValid (between : cursor.Between source before rest) :
    String.Pos.Raw.IsValid source ⟨cursor.position⟩ :=
  between.position ▸ isValid_octets between.text

/-- What a call of the reader does between the characters of a source: it yields the first item of
what is ahead and stands behind the text of that item, or it yields the end of the input. -/
inductive Steps (source : String) (rest : List Char) (cursor : Cursor) : Prop
  | item {before left : List Char} {item : Item} {later : Cursor} :
      cursor.next source = some (some item, later) → later.Between source before left →
      left.length < rest.length →
      itemsFrom cursor.line (pieces rest) = item :: itemsFrom later.line (pieces left) →
      EndsAt source item later.position → Steps source rest cursor
  | last {later : Cursor} :
      cursor.next source = some (some (.ok (Token.endOfInput later.line)), later) →
      itemsFrom cursor.line (pieces rest) = [.ok (Token.endOfInput later.line)] →
      later.position = source.utf8ByteSize + 1 → Steps source rest cursor

theorem Between.steps (between : cursor.Between source before rest) : Steps source rest cursor := by
  induction rest using piecewise generalizing before cursor with
  | nil =>
      let later : Cursor := { cursor with position := source.utf8ByteSize + 1 }
      have read : cursor.next source =
          some (some (.ok (Token.endOfInput later.line)), later) := between.next_nil
      exact .last read rfl rfl
  | cons char tail left covers ih =>
      have ahead : cursor.Between source before ((char :: tail) ++ left) := between
      have shorter : left.length < (char :: (tail ++ left)).length := by
        rw [List.length_cons, List.length_append]
        omega
      have read := between.next_cons
      have items := congrArg (itemsFrom cursor.line) (pieces_covered covers)
      rw [itemsFrom, Piece.lineFeeds, covers] at items
      rw [covers] at read
      cases content : (Piece.first char (tail ++ left)).content with
      | blank =>
          rw [content] at read items
          cases ih ahead.past with
          | item read' between' shorter' items' ends =>
              exact .item (read.trans read') between' (shorter'.trans shorter)
                (items.trans items') ends
          | last read' items' position =>
              exact .last (read.trans read') (items.trans items') position
      | token kind =>
          have ordinary : kind ≠ .mark .endOfInput := by
            rintro rfl
            exact Piece.first_ne_endOfInput char _ content
          rw [content] at read items
          exact .item read ahead.past shorter items (ahead.endsAt_token ordinary _)
      | fault fault =>
          have ends := endsAt_fault content between (cursor.opened.past (char :: tail)).line
          rw [covers] at ends
          rw [content] at read items
          exact .item read ahead.past shorter items ends

theorem Between.position_lt {before' left : List Char} (between : cursor.Between source before rest)
    (between' : later.Between source before' left) (shorter : left.length < rest.length) :
    cursor.position < later.position := by
  have inside : rest <:+ source.toList := ⟨before, between.text.symm⟩
  have inside' : left <:+ source.toList := ⟨before', between'.text.symm⟩
  obtain ⟨passed, split⟩ := List.suffix_of_suffix_length_le inside' inside shorter.le
  have nonempty : passed ≠ [] := by
    rintro rfl
    rw [← split] at shorter
    exact Nat.lt_irrefl _ shorter
  have positive : 0 < (octets passed).length :=
    List.length_pos_iff.mpr (mt octets_eq_nil_iff.mp nonempty)
  have size := between.size_eq
  have size' := between'.size_eq
  rw [← split, octets_append, List.length_append] at size
  omega

/-- Only behind the octets an item is the end of the input. -/
theorem isEnd_of_endsAt {item : Item} {position : Nat} (ends : EndsAt source item position)
    (inside : position ≤ source.utf8ByteSize) : isEnd item = false := by
  cases ends with
  | token ordinary => exact ordinary
  | unexpected => rfl
  | unterminated => rfl
  | endOfInput => omega

/-- What a call does: it reads its answer without a failure.  Where the answer is an item other than
the end of the input, the cursor goes on to a later place between characters. -/
structure Proceeds (source : String) (answer : Option Item) (cursor later : Cursor) : Prop where
  read : cursor.next source = some (answer, later)
  advances : ∀ item, answer = some item → isEnd item = false →
    cursor.position < later.position ∧ String.Pos.Raw.IsValid source ⟨later.position⟩

/-! ### All calls -/

/-- The cursor behind a number of calls, unless one of them fails. -/
def after (source : String) : Nat → Cursor → Option Cursor
  | 0, cursor => some cursor
  | count + 1, cursor => do
      let (_, later) ← cursor.next source
      later.after source count

theorem after_succ {answer : Option Item} (read : cursor.next source = some (answer, later))
    (count : Nat) : cursor.after source (count + 1) = later.after source count := by
  rw [after, read]
  rfl

theorem after_done (behind : source.utf8ByteSize < cursor.position) (count : Nat) :
    cursor.after source count = some cursor := by
  induction count with
  | zero => rfl
  | succ count ih => rw [after_succ (next_done behind), ih]

/-- Calls in a row yield the items of what is ahead one by one, and nothing when these are used
up. -/
theorem Between.proceeds (between : cursor.Between source before rest) (count : Nat) :
    ∃ place later, cursor.after source count = some place ∧
      Proceeds source (itemsFrom cursor.line (pieces rest))[count]? place later := by
  induction count generalizing cursor before rest with
  | zero =>
      cases between.steps with
      | @item _ _ item later read between' shorter items =>
          rw [items]
          refine ⟨cursor, later, rfl, read, fun _ _ _ => ?_⟩
          exact ⟨between.position_lt between' shorter, between'.isValid⟩
      | @last later read items =>
          rw [items]
          refine ⟨cursor, later, rfl, read, ?_⟩
          rintro item ⟨⟩ ⟨⟩
  | succ count ih =>
      cases between.steps with
      | item read between' _ items =>
          rw [items, after_succ read]
          exact ih between'
      | @last later read items position =>
          have behind : source.utf8ByteSize < later.position := by omega
          rw [items, after_succ read]
          refine ⟨later, later, after_done behind count, next_done behind, ?_⟩
          rintro item ⟨⟩

/-- The items of what is ahead are at most as many as the octets ahead, and one more, which is the
end of the input. -/
theorem Between.items_eq (between : cursor.Between source before rest) :
    ∃ items line,
      itemsFrom cursor.line (pieces rest) = items ++ [.ok (Token.endOfInput line)] ∧
      (∀ item, item ∈ items → isEnd item = false) ∧
      cursor.position + items.length ≤ source.utf8ByteSize := by
  induction size : rest.length using Nat.strongRecOn generalizing before rest cursor with
  | _ length ih =>
      cases between.steps with
      | @item _ left item later read between' shorter same ends =>
          obtain ⟨items, line, same', ordinary, few⟩ := ih left.length (size ▸ shorter) between' rfl
          have inside : later.position ≤ source.utf8ByteSize := by omega
          have further := between.position_lt between' shorter
          refine ⟨item :: items, line, by rw [same, same']; rfl, ?_, ?_⟩
          · intro other member
            rcases List.mem_cons.mp member with rfl | among
            · exact isEnd_of_endsAt ends inside
            · exact ordinary other among
          · rw [List.length_cons]
            omega
      | last _ same =>
          have whole := between.size_eq
          refine ⟨[], _, same, ?_, ?_⟩
          · rintro item ⟨⟩
          · rw [List.length_nil]
            omega

end Cursor

/-- A reader fails exactly where it looks outside the octets or cuts the text inside a character.
None of its calls fails: the calls yield the items of the scan one by one, and then nothing for
ever.  A call that yields an item other than the end of the input moves the reader on, to a place
between characters.  The end of the input is the last item, and those in front of it are at most as
many as the octets. -/
theorem reading_is_safe_and_ends (source : String) :
    (∀ position, (buffer source)[position]?.isSome ↔ position < source.utf8ByteSize) ∧
    (∀ start stop, (slice? source start stop).isSome ↔ start ≤ stop ∧
      String.Pos.Raw.IsValid source ⟨start⟩ ∧ String.Pos.Raw.IsValid source ⟨stop⟩) ∧
    (∀ count, ∃ cursor later, Cursor.after source count ⟨0, 0, 1⟩ = some cursor ∧
      cursor.next source = some ((scan source)[count]?, later) ∧
      ∀ item, (scan source)[count]? = some item → isEnd item = false →
        cursor.position < later.position ∧ String.Pos.Raw.IsValid source ⟨later.position⟩) ∧
    ∃ items line, scan source = items ++ [.ok (Token.endOfInput line)] ∧
      (∀ item, item ∈ items → isEnd item = false) ∧ items.length ≤ source.utf8ByteSize := by
  have start := Cursor.Between.start source
  refine ⟨isSome_getElem?_buffer source, isSome_slice?_iff source, fun count => ?_, ?_⟩
  · obtain ⟨cursor, later, reached, proceeds⟩ := start.proceeds count
    exact ⟨cursor, later, reached, proceeds.read, proceeds.advances⟩
  · obtain ⟨items, line, same, ordinary, few⟩ := start.items_eq
    exact ⟨items, line, same, ordinary, by omega⟩

/-- A text with characters of two octets in a string, behind a backslash, alone and in a comment. -/
def wideText : String := "\"ä\\é\" é // ü"

/-- The stray character is the second item, and the reader is behind it after two calls. -/
theorem reading_is_safe_and_ends_wideText :
    ∃ cursor later, Cursor.after wideText 1 ⟨0, 0, 1⟩ = some cursor ∧
      cursor.next wideText = some (some (.error ⟨.unexpected 'é', 1⟩), later) ∧
      cursor.position < later.position ∧
      String.Pos.Raw.IsValid wideText ⟨later.position⟩ := by
  have second : (scan wideText)[1]? = some (.error ⟨.unexpected 'é', 1⟩) := by rfl
  obtain ⟨-, -, calls, -⟩ := reading_is_safe_and_ends wideText
  obtain ⟨cursor, later, reached, read, advances⟩ := calls 1
  exact ⟨cursor, later, reached, second ▸ read, advances _ second rfl⟩

end LexicalScript
