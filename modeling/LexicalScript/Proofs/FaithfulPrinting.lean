import LexicalScript.Tree.Printer
import LexicalScript.Proofs.Layouts
import LexicalScript.Proofs.ParsedTrees
import LexicalScript.Proofs.PrefixForms
import LexicalScript.Proofs.Renumbering

/-!
A printed tree can be read back.

The text of a parsed statement is that of a form, and forms are determined by their texts.  A form
is read as the tree that it shows: heads and words are scanned, and tokens that are not shown have
one lexeme each.  Lines and resolved depths are lost, and nothing else.  Strings are left out, for
they are printed without quotes, and of the texts of numbers it is used that they are numerals and
tell the numbers of the sources apart.
-/

set_option autoImplicit false

namespace LexicalScript

open Pattern

/-! ### Texts do not show lines and depths -/

/-- Takes all lines and depths away. -/
def Retouch.bare : Retouch := ⟨Token.renumber fun _ => 0, fun _ => none⟩

theorem Retouch.lexeme_bare (token : Token) : (Retouch.bare.token token).lexeme = token.lexeme :=
  rfl

mutual

theorem Expr.text_bare (expr : Expr) : (expr.retouch .bare).text = expr.text := by
  cases expr with
  | literal value => rfl
  | reference name depth => rfl
  | unary operator operand =>
      simp only [Expr.retouch, Expr.text, Retouch.lexeme_bare, Expr.text_bare operand]
  | binary left operator right | logical left operator right =>
      simp only [Expr.retouch, Expr.text, Retouch.lexeme_bare, Expr.text_bare left,
        Expr.text_bare right]
  | grouping inner => simp only [Expr.retouch, Expr.text, Expr.text_bare inner]
  | assign name value depth =>
      simp only [Expr.retouch, Expr.text, Retouch.lexeme_bare, Expr.text_bare value]
  | call callee paren arguments =>
      simp only [Expr.retouch, Expr.text, Expr.text_bare callee, Expr.textAll_bare arguments]
  | list bracket elements => simp only [Expr.retouch, Expr.text, Expr.textAll_bare elements]
  | index object bracket position =>
      simp only [Expr.retouch, Expr.text, Expr.text_bare object, Expr.text_bare position]

theorem Expr.textAll_bare (exprs : List Expr) :
    Expr.textAll (Expr.retouchAll .bare exprs) = Expr.textAll exprs := by
  cases exprs with
  | nil => rfl
  | cons expr rest =>
      simp only [Expr.retouchAll, Expr.textAll, Expr.text_bare expr, Expr.textAll_bare rest]

end

theorem Expr.textOption_bare (expr : Option Expr) :
    Expr.textOption (Expr.retouchOption .bare expr) = Expr.textOption expr := by
  cases expr with
  | none => rfl
  | some expr => simp only [Expr.retouchOption, Expr.textOption, Expr.text_bare expr]

mutual

theorem Stmt.text_bare (stmt : Stmt) : (stmt.retouch .bare).text = stmt.text := by
  cases stmt with
  | expression expr | print expr => simp only [Stmt.retouch, Stmt.text, Expr.text_bare expr]
  | var name initializer =>
      simp only [Stmt.retouch, Stmt.text, Retouch.lexeme_bare, Expr.textOption_bare initializer]
  | block body => simp only [Stmt.retouch, Stmt.text, Stmt.textAll_bare body]
  | conditional condition thenBranch elseBranch =>
      simp only [Stmt.retouch, Stmt.text, Expr.text_bare condition, Stmt.text_bare thenBranch,
        Stmt.textOption_bare elseBranch]
  | loop condition body =>
      simp only [Stmt.retouch, Stmt.text, Expr.text_bare condition, Stmt.text_bare body]
  | function name parameters body =>
      have names : Token.lexeme ∘ Retouch.bare.token = Token.lexeme := rfl
      simp only [Stmt.retouch, Stmt.text, Retouch.lexeme_bare, List.map_map, names,
        Stmt.textAll_bare body]
  | returnValue keyword value =>
      simp only [Stmt.retouch, Stmt.text, Expr.textOption_bare value]

theorem Stmt.textOption_bare (stmt : Option Stmt) :
    Stmt.textOption (Stmt.retouchOption .bare stmt) = Stmt.textOption stmt := by
  cases stmt with
  | none => rfl
  | some stmt => simp only [Stmt.retouchOption, Stmt.textOption, Stmt.text_bare stmt]

theorem Stmt.textAll_bare (statements : List Stmt) :
    Stmt.textAll (Stmt.retouchAll .bare statements) = Stmt.textAll statements := by
  cases statements with
  | nil => rfl
  | cons stmt rest =>
      simp only [Stmt.retouchAll, Stmt.textAll, Stmt.text_bare stmt, Stmt.textAll_bare rest]

end

/-! ### Reading a form -/

/-- The token that is written as the text alone, on no line. -/
def Token.ofLexeme (lexeme : String) : Token :=
  match pieces lexeme.toList with
  | [⟨_, .token kind⟩] => ⟨kind, lexeme, 0⟩
  | _ => Token.endOfInput 0

def Word.token (word : Word) : Token := .ofLexeme word.text

/-- Whether the text consists of digits and points. -/
def isNumeral (text : String) : Bool :=
  !text.toList.isEmpty && text.toList.all fun char => char.isDigit || char == '.'

section

variable (number : String → Float)

/-- A literal or a name. -/
def Word.atom (word : Word) : Expr :=
  if isNumeral word.text then .literal (.number (number word.text))
  else match word.token.kind.literal? with
    | some value => .literal value
    | none => .reference word.token none

/-- The expression that an operator makes of its operands. -/
def Token.operate (operator : Token) : List Expr → Expr
  | [operand] => .unary operator operand
  | [left, right] =>
      if logicalMarks.any operator.is then .logical left operator right
      else .binary left operator right
  | _ => .literal .nil

/-- The expression whose head is a name or an equals sign. -/
def Expr.construct (head : String) (parts : List Expr) : Expr :=
  match head, parts with
  | "group", [inner] => .grouping inner
  | "call", callee :: arguments => .call callee (.ofLexeme ")") arguments
  | "list", elements => .list (.ofLexeme "[") elements
  | "index", [object, position] => .index object (.ofLexeme "]") position
  | _, [.reference name _, value] => .assign name value none
  | _, _ => .literal .nil

/-- The expression with this head and these parts. -/
def Word.combine (head : Word) (parts : List Expr) : Expr :=
  if [.identifier, .equal].any head.token.is then .construct head.text parts
  else head.token.operate parts

mutual

def Form.expr : Form → Expr
  | .word own _ => own.atom number
  | .node head parts => head.combine (Form.exprs parts)

def Form.exprs : List Form → List Expr
  | [] => []
  | form :: rest => form.expr :: Form.exprs rest

end

/-- The statement with this head and these parts, which are given as forms and also as they are read
in either way. -/
def Word.command (head : Word) (parts : List Form) (exprs : List Expr) (statements : List Stmt) :
    Stmt :=
  match head.text, parts, exprs, statements with
  | ";", _, [inner], _ => .expression inner
  | "print", _, [inner], _ => .print inner
  | "var", _, .reference name _ :: initializer, _ => .var name initializer.head?
  | "block", _, _, body => .block body
  | "if", _, condition :: _, _ :: thenBranch :: elseBranch =>
      .conditional condition thenBranch elseBranch.head?
  | "while", _, condition :: _, [_, body] => .loop condition body
  | "fun", .word name (some parameters) :: _, _, _ :: body =>
      .function name.token (parameters.map Word.token) body
  | "return", _, value, _ => .returnValue (.ofLexeme "return") value.head?
  | _, _, _, _ => .block []

mutual

def Form.stmt : Form → Stmt
  | .word _ _ => .block []
  | .node head parts => head.command parts (Form.exprs number parts) (Form.statements parts)

def Form.statements : List Form → List Stmt
  | [] => []
  | form :: rest => form.stmt :: Form.statements rest

end

end

/-! ### Tokens of a source -/

/-- The token is the end of the input, or it stands for what its lexeme denotes and is neither a
string nor a number whose text cannot be read back. -/
def Readable (number : String → Float) (token : Token) : Prop :=
  token.kind = .mark .endOfInput ∨ Denotes token.lexeme.toList token.kind ∧
    match token.kind with
    | .mark _ => True
    | .string _ => False
    | .number value => isNumeral (literalText value) = true ∧ number (literalText value) = value

theorem Token.ofLexeme_eq {lexeme : String} {kind : Kind} (denotes : Denotes lexeme.toList kind) :
    Token.ofLexeme lexeme = ⟨kind, lexeme, 0⟩ := by
  unfold Token.ofLexeme
  rw [pieces_lexeme denotes]

theorem isSolid_of_class {accepts : Char → Bool} (apart : [' ', '(', ')'].all (!accepts ·) = true)
    {char : Char} (accepted : accepts char = true) : isSolid char = true := by
  refine decide_eq_true ?_
  intro member
  have refused := List.all_eq_true.mp apart char member
  rw [accepted] at refused
  cases refused

theorem isSolid_of_isNumeral {text : String} (numeral : isNumeral text = true) :
    text.toList ≠ [] ∧ text.toList.all isSolid = true := by
  obtain ⟨nonempty, each⟩ := (Bool.and_eq_true _ _).mp numeral
  refine ⟨by simpa using nonempty, List.all_eq_true.mpr ?_⟩
  intro char member
  exact @isSolid_of_class (fun char => char.isDigit || char == '.') (by decide) char
    (List.all_eq_true.mp each char member)

theorem all_isSolid_of_mem_names {text : List Char} (name : text ∈ names) :
    text.all isSolid = true := by
  obtain ⟨char, rest, start, others, rfl⟩ := mem_names.mp name
  refine List.all_eq_true.mpr (List.forall_mem_cons.mpr ⟨?_, ?_⟩)
  · exact isSolid_of_class rfl (isNamePart_iff.mpr (Or.inl start))
  · exact fun other member => isSolid_of_class rfl (others other member)

theorem Pattern.Denotes.solid {lexeme : List Char} {mark : Mark}
    (denotes : Denotes lexeme (.mark mark)) (inner : mark ∉ [.leftParen, .rightParen]) :
    lexeme.all isSolid = true := by
  cases denotes with
  | fixed listed =>
      have checked : ∀ entry, entry ∈ fixedMarks →
          entry.1.all isSolid = true ∨ entry.2 ∈ [Mark.leftParen, .rightParen] := by decide
      exact (checked _ listed).resolve_right inner
  | keyword name | identifier name => exact all_isSolid_of_mem_names name

section

variable {number : String → Float} {token : Token} {mark : Mark}

theorem Readable.denotes (readable : Readable number token) (own : token.is mark = true)
    (more : mark ≠ .endOfInput) : Denotes token.lexeme.toList (.mark mark) := by
  have kind := Token.kind_of_is own
  rcases readable with ends | ⟨denotes, -⟩
  · exact absurd (Kind.mark.inj (kind.symm.trans ends)) more
  · rwa [kind] at denotes

/-- A token that is printed is read back from its lexeme. -/
theorem Readable.word {marks : List Mark} (readable : Readable number token)
    (own : marks.any token.is = true)
    (inner : ∀ mark, mark ∈ marks → mark ∉ [.leftParen, .rightParen] ∧ mark ≠ .endOfInput) :
    ∃ word : Word, word.text = token.lexeme ∧ word.token = Retouch.bare.token token := by
  obtain ⟨mark, member, isMark⟩ := List.any_eq_true.mp own
  have denotes := readable.denotes isMark (inner mark member).2
  refine ⟨⟨token.lexeme, denotes.ne_nil, denotes.solid (inner mark member).1⟩, rfl, ?_⟩
  exact (Token.ofLexeme_eq denotes).trans (by rw [← Token.kind_of_is isMark]; rfl)

theorem isNumeral_of_mem_names {lexeme : String} (name : lexeme.toList ∈ names) :
    isNumeral lexeme = false := by
  obtain ⟨char, rest, start, -, chars⟩ := mem_names.mp name
  have point : char ≠ '.' := by
    rintro rfl
    cases start
  simp [isNumeral, chars, Piece.not_isDigit_of_isNameStart start, point]

/-- An identifier is read as a reference. -/
theorem Readable.name (readable : Readable number token) (own : token.is .identifier = true) :
    ∃ word : Word, word.text = token.lexeme ∧ word.token = Retouch.bare.token token ∧
      word.atom number = .reference (Retouch.bare.token token) none := by
  have kind := Token.kind_of_is own
  have listed : [Mark.identifier].any token.is = true := by simpa using own
  obtain ⟨word, text, read⟩ := readable.word listed (by decide)
  refine ⟨word, text, read, ?_⟩
  have name : token.lexeme.toList ∈ names := by
    have denotes := readable.denotes own (by decide)
    generalize token.lexeme.toList = lexeme at denotes
    cases denotes with
    | fixed listed => simp [fixedMarks] at listed
    | keyword name | identifier name => exact name
  have plain : (Retouch.bare.token token).kind.literal? = none := by
    change token.kind.literal? = none
    rw [kind]
    rfl
  simp [Word.atom, text, read, isNumeral_of_mem_names name, plain]

/-- The tokens of a tree that are not printed. -/
def unprinted : List (String × Mark) :=
  [(")", .rightParen), ("[", .leftBracket), ("]", .rightBracket), ("return", .returnWord)]

/-- A token that is not printed is written as its mark always is. -/
theorem Readable.ofLexeme_unprinted (readable : Readable number token) (own : token.is mark = true)
    {lexeme : String} (listed : (lexeme, mark) ∈ unprinted) :
    Token.ofLexeme lexeme = Retouch.bare.token token := by
  have denotes := readable.denotes own (by rintro rfl; simp [unprinted] at listed)
  have same : token.lexeme = lexeme := by
    generalize chars : token.lexeme.toList = text at denotes
    cases denotes with
    | fixed found =>
        have checked : ∀ entry, entry ∈ fixedMarks → ∀ other, other ∈ unprinted →
            other.2 = entry.2 → entry.1 = other.1.toList := by decide
        exact String.toList_inj.mp (chars.trans (checked _ found _ listed rfl))
    | keyword name found =>
        have checked : ∀ entry, entry ∈ keywords → ∀ other, other ∈ unprinted →
            other.2 = entry.2 → entry.1 = other.1.toList := by decide
        exact String.toList_inj.mp (chars.trans (checked _ found _ listed rfl))
    | identifier name => simp [unprinted] at listed
  rw [← same, Token.ofLexeme_eq denotes, ← Token.kind_of_is own]
  rfl

/-- A token that has one of these marks has none of the others. -/
theorem Token.any_is_eq_false {marks others : List Mark} (own : marks.any token.is = true)
    (apart : ∀ mark, mark ∈ marks → mark ∉ others) : others.any token.is = false := by
  obtain ⟨mark, member, isMark⟩ := List.any_eq_true.mp own
  rw [List.any_eq_false]
  intro other listed isOther
  rw [Token.is_unique isMark isOther] at member
  exact apart other member listed

theorem Readable.operator {marks : List Mark} (readable : Readable number token)
    (own : marks.any token.is = true)
    (inner : ∀ mark, mark ∈ marks → mark ∉ [.leftParen, .rightParen] ∧ mark ≠ .endOfInput)
    (apart : ∀ mark, mark ∈ marks → mark ∉ [.identifier, .equal]) :
    ∃ head : Word, head.text = token.lexeme ∧
      ∀ parts, head.combine parts = (Retouch.bare.token token).operate parts := by
  obtain ⟨head, text, read⟩ := readable.word own inner
  refine ⟨head, text, fun parts => ?_⟩
  have other : [Mark.identifier, .equal].any (Retouch.bare.token token).is = false :=
    Token.any_is_eq_false own apart
  unfold Word.combine
  rw [read, other]
  rfl

end

/-! ### Reading a printed tree -/

section

variable (number : String → Float)

/-- The text is that of a form that is read as the expression, but for lines and depths. -/
def Expr.Printed (expr : Expr) : Prop :=
  ∃ form : Form, form.chars = expr.text.toList ∧ form.expr number = expr.retouch .bare

def Stmt.Printed (stmt : Stmt) : Prop :=
  ∃ form : Form, form.chars = stmt.text.toList ∧ form.stmt number = stmt.retouch .bare

variable {number}

theorem Expr.exists_forms {exprs : List Expr} (each : ∀ expr, expr ∈ exprs → expr.Printed number) :
    ∃ forms, Form.charsAll forms = (Expr.textAll exprs).toList ∧
      Form.exprs number forms = Expr.retouchAll .bare exprs := by
  induction exprs with
  | nil => exact ⟨[], rfl, rfl⟩
  | cons expr rest ih =>
      obtain ⟨⟨form, chars, read⟩, others⟩ := List.forall_mem_cons.mp each
      obtain ⟨forms, charsAll, readAll⟩ := ih others
      refine ⟨form :: forms, ?_, ?_⟩
      · simp [Form.charsAll, Expr.textAll, chars, charsAll]
      · rw [Form.exprs, read, readAll, Expr.retouchAll]

theorem Stmt.exists_forms {statements : List Stmt}
    (each : ∀ stmt, stmt ∈ statements → stmt.Printed number) :
    ∃ forms, Form.charsAll forms = (Stmt.textAll statements).toList ∧
      Form.statements number forms = Stmt.retouchAll .bare statements := by
  induction statements with
  | nil => exact ⟨[], rfl, rfl⟩
  | cons stmt rest ih =>
      obtain ⟨⟨form, chars, read⟩, others⟩ := List.forall_mem_cons.mp each
      obtain ⟨forms, charsAll, readAll⟩ := ih others
      refine ⟨form :: forms, ?_, ?_⟩
      · simp [Form.charsAll, Stmt.textAll, chars, charsAll]
      · rw [Form.statements, read, readAll, Stmt.retouchAll]

theorem Expr.exists_forms_option {expr : Option Expr}
    (each : ∀ value, expr = some value → value.Printed number) :
    ∃ forms, Form.charsAll forms = (Expr.textOption expr).toList ∧
      (Form.exprs number forms).head? = Expr.retouchOption .bare expr := by
  cases expr with
  | none => exact ⟨[], rfl, rfl⟩
  | some value =>
      obtain ⟨form, chars, read⟩ := each value rfl
      refine ⟨[form], ?_, ?_⟩
      · simp [Form.charsAll, Expr.textOption, chars]
      · rw [Form.exprs, read]
        rfl

theorem Readable.exists_words {parameters : List Token}
    (each : ∀ parameter, parameter ∈ parameters →
      Readable number parameter ∧ parameter.is .identifier = true) :
    ∃ words : List Word, words.map Word.text = parameters.map Token.lexeme ∧
      words.map Word.token = parameters.map Retouch.bare.token := by
  induction parameters with
  | nil => exact ⟨[], rfl, rfl⟩
  | cons parameter rest ih =>
      obtain ⟨⟨readable, own⟩, others⟩ := List.forall_mem_cons.mp each
      obtain ⟨word, text, read, -⟩ := readable.name own
      obtain ⟨words, texts, readAll⟩ := ih others
      exact ⟨word :: words, by simp [text, texts], by simp [read, readAll]⟩

/-- Every way of putting a tree together keeps it printed. -/
def printedTrees : TreeLaws (Readable number) where
  expr := Expr.Printed number
  stmt := Stmt.Printed number
  literal := by
    intro token value readable same
    unfold Kind.literal? at same
    unfold Readable at readable
    split at same
    · rename_i value kind
      rw [kind] at readable
      obtain ⟨-, numeral, read⟩ := readable.resolve_left nofun
      cases same
      obtain ⟨nonempty, solid⟩ := isSolid_of_isNumeral numeral
      refine ⟨.word ⟨literalText value, nonempty, solid⟩ none, ?_, ?_⟩
      · simp [Form.chars, Word.signature, Expr.text, Literal.text]
      · simp [Form.expr, Word.atom, numeral, read, Expr.retouch]
    · rename_i value kind
      rw [kind] at readable
      exact absurd (readable.resolve_left nofun).2 id
    · cases same
      exact ⟨.word ⟨"false", by decide, by decide⟩ none, rfl, rfl⟩
    · cases same
      exact ⟨.word ⟨"true", by decide, by decide⟩ none, rfl, rfl⟩
    · cases same
      exact ⟨.word ⟨"nil", by decide, by decide⟩ none, rfl, rfl⟩
    · cases same
  always := ⟨.word ⟨"true", by decide, by decide⟩ none, rfl, rfl⟩
  unary := by
    rintro operator operand readable own ⟨form, chars, part⟩
    obtain ⟨head, text, combine⟩ := readable.operator own (by decide) (by decide)
    refine ⟨.node head [form], ?_, ?_⟩
    · simp [Form.chars, Form.charsAll, Expr.text, text, chars]
    · simp [Form.expr, Form.exprs, combine, Token.operate, part, Expr.retouch]
  binary := by
    rintro left operator right readable own ⟨form, chars, part⟩ ⟨form', chars', part'⟩
    obtain ⟨head, text, combine⟩ := readable.operator own (by decide) (by decide)
    have strict : logicalMarks.any (Retouch.bare.token operator).is = false :=
      Token.any_is_eq_false own (by decide)
    refine ⟨.node head [form, form'], ?_, ?_⟩
    · simp [Form.chars, Form.charsAll, Expr.text, text, chars, chars']
    · simp [Form.expr, Form.exprs, combine, Token.operate, strict, part, part', Expr.retouch]
  logical := by
    rintro left operator right readable own ⟨form, chars, part⟩ ⟨form', chars', part'⟩
    obtain ⟨head, text, combine⟩ := readable.operator own (by decide) (by decide)
    have lazy : logicalMarks.any (Retouch.bare.token operator).is = true := own
    refine ⟨.node head [form, form'], ?_, ?_⟩
    · simp [Form.chars, Form.charsAll, Expr.text, text, chars, chars']
    · simp [Form.expr, Form.exprs, combine, Token.operate, lazy, part, part', Expr.retouch]
  grouping := by
    rintro inner ⟨form, chars, part⟩
    refine ⟨.node ⟨"group", by decide, by decide⟩ [form], ?_, ?_⟩
    · simp [Form.chars, Form.charsAll, Expr.text, chars]
    · rw [Form.expr, Form.exprs, Form.exprs, part]
      rfl
  reference := by
    intro name readable own
    obtain ⟨word, text, -, read⟩ := readable.name own
    refine ⟨.word word none, ?_, ?_⟩
    · simp [Form.chars, Word.signature, Expr.text, text]
    · exact read
  assign := by
    rintro name depth value ⟨form, chars, part⟩ ⟨form', chars', part'⟩
    refine ⟨.node ⟨"=", by decide, by decide⟩ [form, form'], ?_, ?_⟩
    · simp [Form.chars, Form.charsAll, Expr.text, chars, chars']
    · rw [Form.expr, Form.exprs, Form.exprs, Form.exprs, part, part']
      rfl
  call := by
    rintro callee paren arguments ⟨form, chars, part⟩ readable own each
    obtain ⟨forms, charsAll, parts⟩ := Expr.exists_forms each
    refine ⟨.node ⟨"call", by decide, by decide⟩ (form :: forms), ?_, ?_⟩
    · simp [Form.chars, Form.charsAll, Expr.text, chars, charsAll]
    · rw [Form.expr, Form.exprs, part, parts, Expr.retouch,
        ← readable.ofLexeme_unprinted own (show (")", _) ∈ unprinted by decide)]
      rfl
  list := by
    intro bracket elements readable own each
    obtain ⟨forms, charsAll, parts⟩ := Expr.exists_forms each
    refine ⟨.node ⟨"list", by decide, by decide⟩ forms, ?_, ?_⟩
    · simp [Form.chars, Expr.text, charsAll]
    · rw [Form.expr, parts, Expr.retouch,
        ← readable.ofLexeme_unprinted own (show ("[", _) ∈ unprinted by decide)]
      rfl
  index := by
    rintro object bracket position ⟨form, chars, part⟩ readable own ⟨form', chars', part'⟩
    refine ⟨.node ⟨"index", by decide, by decide⟩ [form, form'], ?_, ?_⟩
    · simp [Form.chars, Form.charsAll, Expr.text, chars, chars']
    · rw [Form.expr, Form.exprs, Form.exprs, Form.exprs, part, part', Expr.retouch,
        ← readable.ofLexeme_unprinted own (show ("]", _) ∈ unprinted by decide)]
      rfl
  expression := by
    rintro inner ⟨form, chars, part⟩
    refine ⟨.node ⟨";", by decide, by decide⟩ [form], ?_, ?_⟩
    · simp [Form.chars, Form.charsAll, Stmt.text, chars]
    · rw [Form.stmt, Form.exprs, Form.exprs, part]
      rfl
  print := by
    rintro inner ⟨form, chars, part⟩
    refine ⟨.node ⟨"print", by decide, by decide⟩ [form], ?_, ?_⟩
    · simp [Form.chars, Form.charsAll, Stmt.text, chars]
    · rw [Form.stmt, Form.exprs, Form.exprs, part]
      rfl
  var := by
    intro name initializer readable own each
    obtain ⟨word, text, -, read⟩ := readable.name own
    obtain ⟨forms, charsAll, parts⟩ := Expr.exists_forms_option each
    refine ⟨.node ⟨"var", by decide, by decide⟩ (.word word none :: forms), ?_, ?_⟩
    · simp [Form.chars, Form.charsAll, Word.signature, Stmt.text, text, charsAll]
    · rw [Form.stmt, Form.exprs, Form.expr, read, Stmt.retouch, ← parts]
      rfl
  block := by
    intro body each
    obtain ⟨forms, charsAll, parts⟩ := Stmt.exists_forms each
    refine ⟨.node ⟨"block", by decide, by decide⟩ forms, ?_, ?_⟩
    · simp [Form.chars, Stmt.text, charsAll]
    · rw [Form.stmt, parts]
      rfl
  conditional := by
    rintro condition thenBranch elseBranch ⟨form, chars, part⟩ ⟨⟨form', chars', part'⟩, -⟩ each
    cases elseBranch with
    | none =>
        refine ⟨.node ⟨"if", by decide, by decide⟩ [form, form'], ?_, ?_⟩
        · simp [Form.chars, Form.charsAll, Stmt.text, Stmt.textOption, chars, chars']
        · simp only [Form.stmt, Form.exprs, Form.statements, part, part']
          rfl
    | some elseBranch =>
        obtain ⟨⟨last, charsLast, partLast⟩, -⟩ := each elseBranch rfl
        refine ⟨.node ⟨"if", by decide, by decide⟩ [form, form', last], ?_, ?_⟩
        · simp [Form.chars, Form.charsAll, Stmt.text, Stmt.textOption, chars, chars', charsLast]
        · simp only [Form.stmt, Form.exprs, Form.statements, part, part', partLast]
          rfl
  loop := by
    rintro condition body ⟨form, chars, part⟩ ⟨⟨form', chars', part'⟩, -⟩
    refine ⟨.node ⟨"while", by decide, by decide⟩ [form, form'], ?_, ?_⟩
    · simp [Form.chars, Form.charsAll, Stmt.text, chars, chars']
    · simp only [Form.stmt, Form.exprs, Form.statements, part, part']
      rfl
  function := by
    intro name parameters body readable own known each
    obtain ⟨word, text, read, -⟩ := readable.name own
    obtain ⟨words, texts, readAll⟩ := Readable.exists_words known
    obtain ⟨forms, charsAll, parts⟩ := Stmt.exists_forms each
    refine ⟨.node ⟨"fun", by decide, by decide⟩ (.word word (some words) :: forms), ?_, ?_⟩
    · have names : [' '].intercalate (words.map fun word => word.text.toList) =
          (" ".intercalate (parameters.map Token.lexeme)).toList := by
        rw [String.toList_intercalate, ← texts, List.map_map]
        rfl
      simp [Form.chars, Form.charsAll, Word.signature, Stmt.text, text, charsAll, names]
    · simp only [Form.stmt, Form.statements, parts, Stmt.retouch, ← read, ← readAll]
      rfl
  returnValue := by
    intro keyword value readable own each
    obtain ⟨forms, charsAll, parts⟩ := Expr.exists_forms_option each
    refine ⟨.node ⟨"return", by decide, by decide⟩ forms, ?_, ?_⟩
    · simp [Form.chars, Stmt.text, charsAll]
    · rw [Form.stmt, Stmt.retouch, ← parts,
        ← readable.ofLexeme_unprinted own (show ("return", _) ∈ unprinted by decide)]
      rfl

end

/-! ### Statements of two sources -/

/-- The numbers among the tokens. -/
def numbersOf (tokens : List Token) : Set Float :=
  {value | ∃ token, token ∈ tokens ∧ token.kind = .number value}

/-- The texts of the numbers are numerals and tell the numbers apart.  A literal too large for the
format is printed as a word, so it is not legible. -/
structure Legible (numbers : Set Float) : Prop where
  numeral : ∀ value, value ∈ numbers → isNumeral (literalText value) = true
  apart : Set.InjOn literalText numbers

theorem Legible.readable {tokens : List Token}
    (plain : ∀ token, token ∈ tokens → ∀ value, token.kind ≠ .string value)
    (legible : Legible (numbersOf tokens)) {source : String} {own : List Token}
    (scanned : tokens? source = .ok own) (among : own ⊆ tokens) :
    ∀ token, token ∈ own → Readable (Function.invFunOn literalText (numbersOf tokens)) token := by
  intro token member
  obtain ⟨-, same⟩ := tokens?_eq_ok_iff.mp scanned
  rw [same] at member
  rcases List.mem_append.mp member with inside | last
  · rw [← same] at member
    refine Or.inr ⟨denotes_of_mem_located inside, ?_⟩
    split
    · trivial
    · rename_i value kind
      exact plain token (among member) value kind
    · rename_i value kind
      have known : value ∈ numbersOf tokens := ⟨token, among member, kind⟩
      exact ⟨legible.numeral value known, legible.apart.leftInvOn_invFunOn known⟩
  · rw [List.mem_singleton.mp last]
    exact Or.inl rfl

/-- A parsed statement, resolved or not, is printed as a form that is read as the statement. -/
theorem Stmt.printed_of_parsed {number : String → Float} {tokens : List Token}
    (each : ∀ token, token ∈ tokens → Readable number token) {stmt : Stmt}
    (parsed : stmt.retouch .erasing ∈ (Parser.program tokens).statements) :
    stmt.Printed number := by
  obtain ⟨form, chars, read⟩ :=
    Parser.program_built printedTrees each (fun _ => Or.inl rfl) _ parsed
  have bare : (stmt.retouch .erasing).retouch .bare = stmt.retouch .bare :=
    Stmt.retouch_retouch _ _ stmt
  refine ⟨form, ?_, read.trans bare⟩
  rw [chars, ← Stmt.text_bare, bare, Stmt.text_bare]

/-- Two statements that were parsed from sources without strings, and may have been resolved, are
printed alike exactly if they are the same tree but for lines and depths.  The tokens that a tree
keeps and that are not printed are the same, too. -/
theorem printed_statements_are_faithful {source source' : String} {tokens tokens' : List Token}
    (scanned : tokens? source = .ok tokens) (scanned' : tokens? source' = .ok tokens')
    (plain : ∀ token, token ∈ tokens ++ tokens' → ∀ value, token.kind ≠ .string value)
    (legible : Legible (numbersOf (tokens ++ tokens'))) {stmt stmt' : Stmt}
    (parsed : stmt.retouch .erasing ∈ (Parser.program tokens).statements)
    (parsed' : stmt'.retouch .erasing ∈ (Parser.program tokens').statements) :
    stmt.text = stmt'.text ↔ stmt.retouch .bare = stmt'.retouch .bare := by
  constructor
  · intro same
    obtain ⟨form, chars, read⟩ := Stmt.printed_of_parsed
      (legible.readable plain scanned (List.subset_append_left _ _)) parsed
    obtain ⟨form', chars', read'⟩ := Stmt.printed_of_parsed
      (legible.readable plain scanned' (List.subset_append_right _ _)) parsed'
    rw [← same] at chars'
    rw [← read, ← read', Form.chars_injective (chars.trans chars'.symm)]
  · intro same
    rw [← Stmt.text_bare stmt, same, Stmt.text_bare]

/-- The tokens of a call of a function named as the head of a node, with its argument on a line. -/
def listCall (line : Nat) : List Token :=
  [⟨.mark .identifier, "list", 1⟩, ⟨.mark .leftParen, "(", 1⟩,
    ⟨.number (Decimal.read ['1'] ['5']), "1.5", line⟩, ⟨.mark .rightParen, ")", line⟩,
    ⟨.mark .semicolon, ";", line⟩, .endOfInput line]

/-- The call as a tree, with the depth at which the name was resolved. -/
def listCallTree (line : Nat) (depth : Option Nat) : Stmt :=
  .expression (.call (.reference ⟨.mark .identifier, "list", 1⟩ depth)
    ⟨.mark .rightParen, ")", line⟩ [.literal (.number (Decimal.read ['1'] ['5']))])

theorem printed_statements_are_faithful_listCall :
    tokens? "list(1.5);" = .ok (listCall 1) ∧ tokens? "list(\n1.5);" = .ok (listCall 2) ∧
      (listCallTree 1 (some 3)).text = (listCallTree 2 none).text ∧
      (listCallTree 1 (some 3)).retouch .bare = (listCallTree 2 none).retouch .bare := by
  have scanned : tokens? "list(1.5);" = .ok (listCall 1) := rfl
  have scanned' : tokens? "list(\n1.5);" = .ok (listCall 2) := rfl
  have kinds : ∀ token, token ∈ listCall 1 ++ listCall 2 →
      (∃ mark, token.kind = .mark mark) ∨ token.kind = .number (Decimal.read ['1'] ['5']) := by
    simp [listCall, Token.endOfInput]
  have plain : ∀ token, token ∈ listCall 1 ++ listCall 2 → ∀ value, token.kind ≠ .string value := by
    intro token member value string
    rcases kinds token member with ⟨mark, kind⟩ | kind <;> cases string.symm.trans kind
  have only : ∀ value, value ∈ numbersOf (listCall 1 ++ listCall 2) →
      value = Decimal.read ['1'] ['5'] := by
    rintro value ⟨token, member, number⟩
    rcases kinds token member with ⟨mark, kind⟩ | kind
    · cases number.symm.trans kind
    · exact Kind.number.inj (number.symm.trans kind)
  have legible : Legible (numbersOf (listCall 1 ++ listCall 2)) := by
    refine ⟨?_, ?_⟩
    · intro value member
      rw [only value member]
      decide +kernel
    · intro value member value' member' _
      rw [only value member, only value' member']
  have parsed (line : Nat) (depth : Option Nat) : (listCallTree line depth).retouch .erasing ∈
      (Parser.program (listCall line)).statements := List.mem_singleton.mpr rfl
  exact ⟨scanned, scanned', rfl, (printed_statements_are_faithful scanned scanned' plain legible
    (parsed 1 (some 3)) (parsed 2 none)).mp rfl⟩

end LexicalScript
