import LexicalScript.Proofs.OctetReader

/-!
The lines of tokens and errors.

The line of an item is the line on which its text ends: one more than the line feeds among the
octets that have been read when the item is yielded.
-/

set_option autoImplicit false

namespace LexicalScript

/-- How many of the first octets of a source are line feeds. -/
def feedsBefore (source : String) (position : Nat) : Nat :=
  (source.toByteArray.data.toList.take position).count 10

theorem Cursor.Between.feedsBefore_eq {source : String} {cursor : Cursor} {before rest : List Char}
    (between : cursor.Between source before rest) :
    cursor.line = 1 + feedsBefore source cursor.position := by
  unfold feedsBefore
  rw [between.position, count_bytes source between.text, between.line]

theorem feedsBefore_all (source : String) :
    feedsBefore source (source.utf8ByteSize + 1) = source.toList.count '\n' := by
  have whole := count_bytes source (List.append_nil source.toList).symm
  rw [← buffer_eq, length_buffer] at whole
  rw [← whole]
  unfold feedsBefore
  rw [List.take_of_length_le (by simp), List.take_of_length_le (by simp)]

/-- The text of an item ends at the cursor, and its line counts the line feeds in front of it. -/
structure Exact (source : String) (item : Item) (later : Cursor) : Prop where
  ends : EndsAt source item later.position
  line : itemLine item = 1 + feedsBefore source later.position

theorem Cursor.Between.exact {source : String} {cursor : Cursor} {before rest : List Char}
    (between : cursor.Between source before rest) {item : Item} {later : Cursor}
    (member : (item, later) ∈ callsFrom source cursor (pieces rest)) : Exact source item later := by
  induction rest using piecewise generalizing before cursor with
  | nil =>
      cases List.mem_singleton.mp member
      refine ⟨.endOfInput, ?_⟩
      rw [feedsBefore_all, between.text, List.append_nil]
      exact between.line
  | cons char tail left covers ih =>
      have ahead : cursor.Between source before ((char :: tail) ++ left) := between
      simp only [pieces_covered covers, callsFrom] at member
      cases content : (Piece.first char (tail ++ left)).content with
      | blank =>
          rw [content, covers] at member
          exact ih ahead.past member
      | token kind =>
          have ordinary : kind ≠ .mark .endOfInput := by
            rintro rfl
            exact Piece.first_ne_endOfInput char _ content
          rw [content, covers] at member
          rcases List.mem_cons.mp member with first | inside
          · cases first
            exact ⟨ahead.endsAt_token ordinary _, ahead.past.feedsBefore_eq⟩
          · exact ih ahead.past inside
      | fault fault =>
          have ends := fun line => Cursor.Between.endsAt_fault content between line
          rw [covers] at ends
          rw [content, covers] at member
          rcases List.mem_cons.mp member with first | inside
          · cases first
            exact ⟨ends _, ahead.past.feedsBefore_eq⟩
          · exact ih ahead.past inside

/-- A reader that counts line feeds as it passes them yields the scan of a source.  The line of each
item is one more than the line feeds among the octets up to the end of its text. -/
theorem line_numbers_are_exact (source : String) :
    ∃ calls, Calls source ⟨0, 0, 1⟩ calls ∧ calls.map Prod.fst = scan source ∧
      ∀ item later, (item, later) ∈ calls →
        EndsAt source item later.position ∧
        itemLine item = 1 + (source.toByteArray.data.toList.take later.position).count 10 := by
  have start := Cursor.Between.start source
  refine ⟨_, start.calls, map_fst_callsFrom _ _ _, ?_⟩
  intro item later member
  exact ⟨(start.exact member).ends, (start.exact member).line⟩

/-- A text with line feeds behind a comment, in a string, behind a backslash and in a string that
does not end. -/
def fedText : String := "a // b\n\"c\n\\\n\" @ \"d\n"

/-- The string ends on the fourth line, behind three line feeds. -/
theorem line_numbers_are_exact_fedText :
    ∃ calls, Calls fedText ⟨0, 0, 1⟩ calls ∧
      calls.map (fun call => itemLine call.1) = [1, 4, 4, 5, 5] ∧
      ∃ error later, (.error error, later) ∈ calls ∧ error.fault = .unexpected '@' ∧
        error.line = 1 + (fedText.toByteArray.data.toList.take later.position).count 10 := by
  obtain ⟨calls, reads, same, all⟩ := line_numbers_are_exact fedText
  refine ⟨calls, reads, ?_, ?_⟩
  · have lines := congrArg (List.map itemLine) same
    rw [List.map_map] at lines
    exact lines.trans (by decide +kernel)
  · have found : (scan fedText).any (fun item => match item with
        | .error error => decide (error.fault = .unexpected '@')
        | .ok _ => false) = true := by
      decide +kernel
    rw [← same, List.any_map] at found
    obtain ⟨⟨item, later⟩, member, isError⟩ := List.any_eq_true.mp found
    cases item with
    | ok token => cases isError
    | error error =>
        exact ⟨error, later, member, of_decide_eq_true isError, (all _ later member).2⟩

end LexicalScript
