import LexicalScript.Text.Quoted

/-!
Prefix forms and their texts.

A form is a word, a word with a list of parameters, or a node: a head with parts, in parentheses.
The words have no character that divides or bounds the parts of a node.  So a text is the text of at
most one form, also when more text stands behind it.
-/

set_option autoImplicit false

namespace LexicalScript

/-- Whether the character neither divides nor bounds the parts of a node. -/
def isSolid (char : Char) : Bool := char ∉ [' ', '(', ')']

/-- A text that is not broken up. -/
@[ext]
structure Word where
  text : String
  nonempty : text.toList ≠ []
  solid : text.toList.all isSolid = true

inductive Form where
  | word (own : Word) (parameters : Option (List Word))
  | node (head : Word) (parts : List Form)

/-- Parameters in parentheses, with spaces between them. -/
def Word.signature : Option (List Word) → List Char
  | none => []
  | some parameters =>
      '(' :: [' '].intercalate (parameters.map fun word => word.text.toList) ++ [')']

mutual

def Form.chars : Form → List Char
  | .word own parameters => own.text.toList ++ Word.signature parameters
  | .node head parts => '(' :: head.text.toList ++ Form.charsAll parts ++ [')']

/-- The texts of forms, each after a space. -/
def Form.charsAll : List Form → List Char
  | [] => []
  | form :: rest => ' ' :: form.chars ++ Form.charsAll rest

end

/-! ### Words -/

/-- No word goes on with this text. -/
def Broken (rest : List Char) : Prop := ∀ char, char ∈ rest.head? → isSolid char = false

/-- The text behind a form is empty, or the form is a part of a node and the next part or the end of
the node follows. -/
def Stopped (rest : List Char) : Prop := ∀ char, char ∈ rest.head? → char = ' ' ∨ char = ')'

theorem Stopped.nil : Stopped [] := nofun

theorem Stopped.broken {rest : List Char} (stopped : Stopped rest) : Broken rest := by
  intro char first
  rcases stopped char first with rfl | rfl <;> rfl

theorem Word.takeWhile_append (word : Word) {rest : List Char} (broken : Broken rest) :
    (word.text.toList ++ rest).takeWhile isSolid = word.text.toList := by
  rw [List.takeWhile_append_of_pos (List.all_eq_true.mp word.solid)]
  cases rest with
  | nil => rw [List.takeWhile_nil, List.append_nil]
  | cons char others =>
      rw [List.takeWhile_cons_of_neg (by rw [broken char rfl]; decide), List.append_nil]

/-- A word ends where the text is broken. -/
theorem Word.append_inj {word word' : Word} {rest rest' : List Char} (broken : Broken rest)
    (broken' : Broken rest') (same : word.text.toList ++ rest = word'.text.toList ++ rest') :
    word = word' ∧ rest = rest' := by
  have texts : word.text.toList = word'.text.toList := by
    rw [← word.takeWhile_append broken, same, word'.takeWhile_append broken']
  rw [texts] at same
  exact ⟨Word.ext (String.toList_inj.mp texts), List.append_cancel_left same⟩

/-- A word does not begin with a character that breaks the text. -/
theorem Word.append_ne {word : Word} {rest rest' : List Char} {char : Char}
    (breaks : isSolid char = false) : word.text.toList ++ rest ≠ char :: rest' := by
  intro same
  obtain ⟨first, others, chars⟩ := List.exists_cons_of_ne_nil word.nonempty
  have solid := List.all_eq_true.mp word.solid first (by rw [chars]; exact List.mem_cons_self)
  rw [chars] at same
  rw [(List.cons.inj same).1, breaks] at solid
  cases solid

/-! ### Parameters -/

/-- Words, each after a space. -/
def Word.spaced (names : List Word) : List Char := names.flatMap fun word => ' ' :: word.text.toList

theorem Word.broken_spaced (names : List Word) (rest : List Char) :
    Broken (Word.spaced names ++ ')' :: rest) := by
  cases names <;> rintro char ⟨⟩ <;> rfl

theorem Word.spaced_append_inj {names names' : List Word} {rest rest' : List Char}
    (same : Word.spaced names ++ ')' :: rest = Word.spaced names' ++ ')' :: rest') :
    names = names' ∧ rest = rest' := by
  induction names generalizing names' with
  | nil =>
      cases names' with
      | nil => exact ⟨rfl, (List.cons.inj same).2⟩
      | cons name others => cases (List.cons.inj same).1
  | cons name others ih =>
      cases names' with
      | nil => cases (List.cons.inj same).1
      | cons name' others' =>
          simp only [Word.spaced, List.flatMap_cons, List.cons_append, List.append_assoc] at same
          obtain ⟨rfl, behind⟩ := Word.append_inj (Word.broken_spaced others rest)
            (Word.broken_spaced others' rest') (List.cons.inj same).2
          obtain ⟨rfl, ends⟩ := ih behind
          exact ⟨rfl, ends⟩

theorem Word.intercalate_cons (name : Word) (others : List Word) :
    [' '].intercalate ((name :: others).map fun word => word.text.toList) =
      name.text.toList ++ Word.spaced others := by
  induction others generalizing name with
  | nil => simp [Word.spaced]
  | cons other others ih =>
      rw [List.map_cons, List.map_cons, List.intercalate_cons_cons, List.append_assoc]
      exact congrArg (name.text.toList ++ ' ' :: ·) (ih other)

theorem Word.intercalate_append_inj {names names' : List Word} {rest rest' : List Char}
    (same : [' '].intercalate (names.map fun word => word.text.toList) ++ ')' :: rest =
      [' '].intercalate (names'.map fun word => word.text.toList) ++ ')' :: rest') :
    names = names' ∧ rest = rest' := by
  have closes : isSolid ')' = false := rfl
  cases names with
  | nil =>
      cases names' with
      | nil => exact ⟨rfl, (List.cons.inj same).2⟩
      | cons name others =>
          rw [Word.intercalate_cons, List.append_assoc] at same
          exact absurd same.symm (Word.append_ne closes)
  | cons name others =>
      rw [Word.intercalate_cons, List.append_assoc] at same
      cases names' with
      | nil => exact absurd same (Word.append_ne closes)
      | cons name' others' =>
          rw [Word.intercalate_cons, List.append_assoc] at same
          obtain ⟨rfl, behind⟩ := Word.append_inj (Word.broken_spaced others rest)
            (Word.broken_spaced others' rest') same
          obtain ⟨rfl, ends⟩ := Word.spaced_append_inj behind
          exact ⟨rfl, ends⟩

theorem Word.broken_signature (parameters : Option (List Word)) {rest : List Char}
    (stopped : Stopped rest) : Broken (Word.signature parameters ++ rest) := by
  cases parameters with
  | none => exact stopped.broken
  | some parameters =>
      rintro char ⟨⟩
      rfl

theorem Word.signature_append_inj {parameters parameters' : Option (List Word)}
    {rest rest' : List Char} (stopped : Stopped rest) (stopped' : Stopped rest')
    (same : Word.signature parameters ++ rest = Word.signature parameters' ++ rest') :
    parameters = parameters' ∧ rest = rest' := by
  have unopened {rest inner : List Char} (stopped : Stopped rest) : rest ≠ '(' :: inner := by
    rintro rfl
    rcases stopped '(' rfl with wrong | wrong <;> cases wrong
  cases parameters with
  | none =>
      cases parameters' with
      | none => exact ⟨rfl, same⟩
      | some parameters' => exact absurd same (unopened stopped)
  | some parameters =>
      cases parameters' with
      | none => exact absurd same.symm (unopened stopped')
      | some parameters' =>
          simp only [Word.signature, List.cons_append, List.append_assoc, List.nil_append] at same
          obtain ⟨rfl, ends⟩ := Word.intercalate_append_inj (List.cons.inj same).2
          exact ⟨rfl, ends⟩

/-! ### Forms -/

theorem Form.broken_charsAll (parts : List Form) (rest : List Char) :
    Broken (Form.charsAll parts ++ ')' :: rest) := by
  cases parts <;> rintro char ⟨⟩ <;> rfl

mutual

/-- A text begins with the text of at most one form that is stopped there. -/
theorem Form.append_inj : ∀ (form form' : Form) {rest rest' : List Char}, Stopped rest →
    Stopped rest' → form.chars ++ rest = form'.chars ++ rest' → form = form' ∧ rest = rest'
  | .word own parameters, .word own' parameters', rest, rest', stopped, stopped', same => by
      rw [Form.chars, Form.chars, List.append_assoc, List.append_assoc] at same
      obtain ⟨rfl, behind⟩ := Word.append_inj (Word.broken_signature parameters stopped)
        (Word.broken_signature parameters' stopped') same
      obtain ⟨rfl, ends⟩ := Word.signature_append_inj stopped stopped' behind
      exact ⟨rfl, ends⟩
  | .word own parameters, .node head parts, _, _, _, _, same => by
      rw [Form.chars, List.append_assoc] at same
      exact absurd same (Word.append_ne rfl)
  | .node head parts, .word own parameters, _, _, _, _, same => by
      rw [Form.chars, Form.chars, List.append_assoc _ (Word.signature parameters)] at same
      exact absurd same.symm (Word.append_ne rfl)
  | .node head parts, .node head' parts', rest, rest', _, _, same => by
      simp only [Form.chars, List.cons_append, List.append_assoc, List.nil_append] at same
      obtain ⟨rfl, behind⟩ := Word.append_inj (Form.broken_charsAll parts rest)
        (Form.broken_charsAll parts' rest') (List.cons.inj same).2
      obtain ⟨rfl, ends⟩ := Form.charsAll_append_inj parts parts' behind
      exact ⟨rfl, ends⟩

/-- The parts of a node end at its closing parenthesis. -/
theorem Form.charsAll_append_inj : ∀ (parts parts' : List Form) {rest rest' : List Char},
    Form.charsAll parts ++ ')' :: rest = Form.charsAll parts' ++ ')' :: rest' →
    parts = parts' ∧ rest = rest'
  | [], [], _, _, same => ⟨rfl, (List.cons.inj same).2⟩
  | [], _ :: _, _, _, same => nomatch (List.cons.inj same).1
  | _ :: _, [], _, _, same => nomatch (List.cons.inj same).1
  | form :: others, form' :: others', rest, rest', same => by
      have stopped (parts : List Form) (rest : List Char) :
          Stopped (Form.charsAll parts ++ ')' :: rest) := by
        cases parts <;> rintro char ⟨⟩ <;> simp
      simp only [Form.charsAll, List.cons_append, List.append_assoc] at same
      obtain ⟨rfl, behind⟩ := Form.append_inj form form' (stopped others rest)
        (stopped others' rest') (List.cons.inj same).2
      obtain ⟨rfl, ends⟩ := Form.charsAll_append_inj others others' behind
      exact ⟨rfl, ends⟩

end

theorem Form.chars_injective : Function.Injective Form.chars := by
  intro form form' same
  exact (Form.append_inj form form' .nil .nil (congrArg (· ++ []) same)).1

end LexicalScript
