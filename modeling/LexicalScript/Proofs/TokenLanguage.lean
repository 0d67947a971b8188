import LexicalScript.Token.Scan
import Mathlib.Computability.Language
import Mathlib.Data.List.TakeWhile

/-!
The language of tokens.

Every token is written by one of four patterns: a fixed mark, a string, a number or a name.  The
patterns are languages over characters, put together from classes of characters by sum, product and
repetition, and each of their lexemes has one kind.  The first piece of a text is compared with the
lexemes that the text begins with: the piece covers the longest of them, and it is a token if and
only if there is one.
-/

set_option autoImplicit false

namespace LexicalScript

open Computability

namespace Pattern

/-- The texts of one character that has the property. -/
def oneOf (property : Char → Prop) : Language Char :=
  fun text => ∃ char, property char ∧ text = [char]

/-- The texts of fixed marks. -/
def fixedMarks : List (List Char × Mark) :=
  [(['('], .leftParen), ([')'], .rightParen), (['\x7b'], .leftBrace), (['\x7d'], .rightBrace),
    (['['], .leftBracket), ([']'], .rightBracket), ([','], .comma), (['.'], .dot),
    (['-'], .minus), (['+'], .plus), ([';'], .semicolon), (['*'], .star), (['/'], .slash),
    (['!'], .bang), (['!', '='], .bangEqual), (['='], .equal), (['=', '='], .equalEqual),
    (['<'], .less), (['<', '='], .lessEqual), (['>'], .greater), (['>', '='], .greaterEqual)]

/-- The reserved names. -/
def keywords : List (List Char × Mark) :=
  [("and".toList, .andWord), ("else".toList, .elseWord), ("false".toList, .falseWord),
    ("fun".toList, .funWord), ("for".toList, .forWord), ("if".toList, .ifWord),
    ("nil".toList, .nilWord), ("or".toList, .orWord), ("print".toList, .printWord),
    ("return".toList, .returnWord), ("true".toList, .trueWord), ("var".toList, .varWord),
    ("while".toList, .whileWord)]

def fixed : Language Char := fun text => ∃ mark, (text, mark) ∈ fixedMarks

def quote : Language Char := oneOf (· = '"')

/-- A character of a string that stands for itself. -/
def plain : Language Char := oneOf fun char => char ≠ '"' ∧ char ≠ '\\'

/-- A backslash with the character that it guards. -/
def guarded : Language Char := oneOf (· = '\\') * oneOf fun _ => True

/-- The text between the quotes of a string. -/
def stringText : Language Char := (plain + guarded)∗

def strings : Language Char := quote * stringText * quote

def digit : Language Char := oneOf fun char => '0' ≤ char ∧ char ≤ '9'

def digits : Language Char := digit * digit∗

def numbers : Language Char := digits * (1 + oneOf (· = '.') * digits)

def nameStart : Language Char :=
  oneOf fun char => ('A' ≤ char ∧ char ≤ 'Z') ∨ ('a' ≤ char ∧ char ≤ 'z') ∨ char = '_'

def names : Language Char := nameStart * (nameStart + digit)∗

/-- The lexemes of all tokens. -/
def tokens : Language Char := fixed + strings + numbers + names

/-- The kind of the token that a lexeme is, with the value that it carries. -/
inductive Denotes : List Char → Kind → Prop
  | fixed {text : List Char} {mark : Mark} : (text, mark) ∈ fixedMarks →
      Denotes text (.mark mark)
  | string {body : List Char} : body ∈ stringText →
      Denotes ('"' :: (body ++ ['"'])) (.string (String.ofList (unescape body)))
  | integer {whole : List Char} : whole ∈ digits →
      Denotes whole (.number (Decimal.read whole []))
  | decimal {whole fraction : List Char} : whole ∈ digits → fraction ∈ digits →
      Denotes (whole ++ '.' :: fraction) (.number (Decimal.read whole fraction))
  | keyword {text : List Char} {mark : Mark} : text ∈ names → (text, mark) ∈ keywords →
      Denotes text (.mark mark)
  | identifier {text : List Char} : text ∈ names → (∀ mark, (text, mark) ∉ keywords) →
      Denotes text (.mark .identifier)

/-! ### Reserved names -/

theorem mem_of_lookup {α : Type} {entries : List (String × α)} {word : String} {value : α}
    (found : entries.lookup word = some value) : (word, value) ∈ entries := by
  obtain ⟨before, after, rfl, _⟩ := List.lookup_eq_some_iff.mp found
  exact List.mem_append_right before List.mem_cons_self

theorem ofKeyword?_eq_some_iff {text : List Char} {mark : Mark} :
    Mark.ofKeyword? (String.ofList text) = some mark ↔ (text, mark) ∈ keywords := by
  constructor
  · intro found
    have listed := List.mem_map_of_mem (f := fun entry => (entry.1.toList, entry.2))
      (mem_of_lookup found)
    rw [String.toList_ofList] at listed
    exact listed
  · intro listed
    have checked : ∀ entry, entry ∈ keywords →
        Mark.ofKeyword? (String.ofList entry.1) = some entry.2 := by decide
    exact checked _ listed

theorem ofKeyword?_eq_none_iff {text : List Char} :
    Mark.ofKeyword? (String.ofList text) = none ↔ ∀ mark, (text, mark) ∉ keywords := by
  simp only [← ofKeyword?_eq_some_iff, Option.eq_none_iff_forall_ne_some, ne_eq]

/-! ### Classes of characters -/

variable {property property' : Char → Prop}

theorem oneOf_add : oneOf property + oneOf property' =
    oneOf fun char => property char ∨ property' char := by
  ext text
  rw [Language.mem_add]
  constructor
  · rintro (⟨char, holds, rfl⟩ | ⟨char, holds, rfl⟩)
    · exact ⟨char, Or.inl holds, rfl⟩
    · exact ⟨char, Or.inr holds, rfl⟩
  · rintro ⟨char, holds | holds, rfl⟩
    · exact Or.inl ⟨char, holds, rfl⟩
    · exact Or.inr ⟨char, holds, rfl⟩

theorem mem_oneOf_mul {language : Language Char} {text : List Char} :
    text ∈ oneOf property * language ↔
      ∃ char rest, property char ∧ rest ∈ language ∧ text = char :: rest := by
  rw [Language.mem_mul]
  constructor
  · rintro ⟨first, ⟨char, holds, rfl⟩, rest, member, rfl⟩
    exact ⟨char, rest, holds, member, rfl⟩
  · rintro ⟨char, rest, holds, member, rfl⟩
    exact ⟨[char], ⟨char, holds, rfl⟩, rest, member, rfl⟩

theorem mem_mul_quote {language : Language Char} {text : List Char} :
    text ∈ language * quote ↔ ∃ body, body ∈ language ∧ text = body ++ ['"'] := by
  rw [Language.mem_mul]
  constructor
  · rintro ⟨body, member, last, ⟨char, rfl, rfl⟩, rfl⟩
    exact ⟨body, member, rfl⟩
  · rintro ⟨body, member, rfl⟩
    exact ⟨body, member, ['"'], ⟨'"', rfl, rfl⟩, rfl⟩

/-- A repeated class makes the texts all of whose characters are in the class. -/
theorem mem_kstar_oneOf {text : List Char} :
    text ∈ (oneOf property)∗ ↔ ∀ char, char ∈ text → property char := by
  rw [Language.mem_kstar]
  constructor
  · rintro ⟨parts, rfl, ones⟩ char member
    obtain ⟨part, within, inPart⟩ := List.mem_flatten.mp member
    obtain ⟨own, holds, rfl⟩ := ones part within
    rw [List.mem_singleton.mp inPart]
    exact holds
  · intro all
    refine ⟨text.map fun char => [char], ?_, ?_⟩
    · induction text with
      | nil => rfl
      | cons char rest ih =>
          have others := ih fun other member => all other (List.mem_cons_of_mem char member)
          rw [List.map_cons, List.flatten_cons, ← others]
          rfl
    · intro part member
      obtain ⟨char, within, rfl⟩ := List.mem_map.mp member
      exact ⟨char, all char within, rfl⟩

theorem isDigit_iff {char : Char} : char.isDigit = true ↔ '0' ≤ char ∧ char ≤ '9' := by
  simp [Char.isDigit, Char.le_def]

theorem isNameStart_iff {char : Char} : isNameStart char = true ↔
    ('A' ≤ char ∧ char ≤ 'Z') ∨ ('a' ≤ char ∧ char ≤ 'z') ∨ char = '_' := by
  have alpha : char.isAlpha = (char.isUpper || char.isLower) := rfl
  have upper : char.isUpper = true ↔ 'A' ≤ char ∧ char ≤ 'Z' := decide_eq_true_iff
  have lower : char.isLower = true ↔ 'a' ≤ char ∧ char ≤ 'z' :=
    Bool.and_eq_true_iff.trans (and_congr decide_eq_true_iff decide_eq_true_iff)
  rw [isNameStart, alpha, Bool.or_eq_true, Bool.or_eq_true, upper, lower, beq_iff_eq, or_assoc]

theorem isNamePart_iff {char : Char} :
    isNamePart char = true ↔ isNameStart char = true ∨ char.isDigit = true := by
  simp only [isNamePart, isNameStart, Char.isAlphanum, Bool.or_eq_true]
  tauto

theorem mem_digits {text : List Char} :
    text ∈ digits ↔ text ≠ [] ∧ ∀ char, char ∈ text → char.isDigit = true := by
  unfold digits digit
  rw [mem_oneOf_mul]
  constructor
  · rintro ⟨char, rest, first, others, rfl⟩
    rw [mem_kstar_oneOf] at others
    refine ⟨List.cons_ne_nil char rest, ?_⟩
    intro other member
    rw [isDigit_iff]
    rcases List.mem_cons.mp member with rfl | later
    · exact first
    · exact others other later
  · rintro ⟨nonempty, all⟩
    cases text with
    | nil => exact absurd rfl nonempty
    | cons char rest =>
        refine ⟨char, rest, isDigit_iff.mp (all char List.mem_cons_self), ?_, rfl⟩
        rw [mem_kstar_oneOf]
        intro other member
        exact isDigit_iff.mp (all other (List.mem_cons_of_mem char member))

theorem mem_names {text : List Char} :
    text ∈ names ↔ ∃ char rest, isNameStart char = true ∧
      (∀ other, other ∈ rest → isNamePart other = true) ∧ text = char :: rest := by
  unfold names nameStart digit
  rw [oneOf_add, mem_oneOf_mul]
  simp only [mem_kstar_oneOf, isNamePart_iff, isNameStart_iff, isDigit_iff]

/-! ### Strings -/

theorem cons_mem_stringText {char : Char} {body : List Char} (notQuote : char ≠ '"')
    (notGuard : char ≠ '\\') (member : body ∈ stringText) : char :: body ∈ stringText := by
  obtain ⟨parts, rfl, all⟩ := Language.mem_kstar.mp member
  refine Language.mem_kstar.mpr ⟨[char] :: parts, rfl, ?_⟩
  intro part within
  rcases List.mem_cons.mp within with rfl | later
  · exact Or.inl ⟨char, ⟨notQuote, notGuard⟩, rfl⟩
  · exact all part later

theorem guarded_mem_stringText {char : Char} {body : List Char} (member : body ∈ stringText) :
    '\\' :: char :: body ∈ stringText := by
  obtain ⟨parts, rfl, all⟩ := Language.mem_kstar.mp member
  refine Language.mem_kstar.mpr ⟨['\\', char] :: parts, rfl, ?_⟩
  intro part within
  rcases List.mem_cons.mp within with rfl | later
  · exact Or.inr (mem_oneOf_mul.mpr ⟨'\\', [char], rfl, ⟨char, trivial, rfl⟩, rfl⟩)
  · exact all part later

/-- What is read as the body of a string is the text of one. -/
theorem mem_stringText_of_stringBody? {source body : List Char}
    (found : stringBody? source = some body) : body ∈ stringText := by
  fun_induction stringBody? source generalizing body with
  | case1 => cases found
  | case2 rest =>
      cases found
      exact Language.nil_mem_kstar _
  | case3 guarded rest ih =>
      obtain ⟨inner, innerFound, rfl⟩ := Option.map_eq_some_iff.mp found
      exact guarded_mem_stringText (ih innerFound)
  | case4 char rest notQuote notGuard ih =>
      obtain ⟨inner, innerFound, rfl⟩ := Option.map_eq_some_iff.mp found
      refine cons_mem_stringText (fun same => notQuote same) ?_ (ih innerFound)
      rintro rfl
      cases rest with
      | nil => cases innerFound
      | cons next others => exact notGuard next others rfl rfl

/-- The text of a string is read as its body, up to the first quote that is not guarded. -/
theorem stringBody?_of_mem_stringText {body : List Char} (member : body ∈ stringText)
    (rest : List Char) : stringBody? (body ++ '"' :: rest) = some body := by
  obtain ⟨parts, rfl, all⟩ := Language.mem_kstar.mp member
  clear member
  induction parts with
  | nil => rfl
  | cons part others ih =>
      have read := ih fun other within => all other (List.mem_cons_of_mem part within)
      rcases all part List.mem_cons_self with ⟨char, ⟨notQuote, notGuard⟩, rfl⟩ | escape
      · rw [List.flatten_cons, List.singleton_append, List.cons_append,
          stringBody?.eq_4 _ _ notQuote, read]
        · rfl
        · exact fun _ _ same _ => notGuard same
      · obtain ⟨guard, tail, rfl, ⟨char, _, rfl⟩, rfl⟩ := mem_oneOf_mul.mp escape
        rw [List.flatten_cons]
        simp only [List.cons_append, List.nil_append, stringBody?, read, Option.map_some]

/-! ### Lexemes and their kinds -/

/-- Every lexeme has a kind, and only lexemes have one. -/
theorem mem_tokens {text : List Char} : text ∈ tokens ↔ ∃ kind, Denotes text kind := by
  constructor
  · rintro (((⟨mark, listed⟩ | string) | number) | name)
    · exact ⟨.mark mark, .fixed listed⟩
    · obtain ⟨opened, isOpened, rfl⟩ := mem_mul_quote.mp string
      obtain ⟨char, body, rfl, member, rfl⟩ := mem_oneOf_mul.mp isOpened
      exact ⟨_, .string member⟩
    · obtain ⟨whole, isWhole, tail, absent | present, rfl⟩ := Language.mem_mul.mp number
      · rw [(Language.mem_one tail).mp absent, List.append_nil]
        exact ⟨_, .integer isWhole⟩
      · obtain ⟨point, fraction, rfl, isFraction, rfl⟩ := mem_oneOf_mul.mp present
        exact ⟨_, .decimal isWhole isFraction⟩
    · cases found : Mark.ofKeyword? (String.ofList text) with
      | none => exact ⟨_, .identifier name (ofKeyword?_eq_none_iff.mp found)⟩
      | some mark => exact ⟨_, .keyword name (ofKeyword?_eq_some_iff.mp found)⟩
  · rintro ⟨kind, denotes⟩
    cases denotes with
    | fixed listed => exact Or.inl (Or.inl (Or.inl ⟨_, listed⟩))
    | @string body member =>
        refine Or.inl (Or.inl (Or.inr (mem_mul_quote.mpr ⟨'"' :: body, ?_, rfl⟩)))
        exact mem_oneOf_mul.mpr ⟨'"', body, rfl, member, rfl⟩
    | integer isWhole =>
        refine Or.inl (Or.inr (Language.mem_mul.mpr ⟨_, isWhole, [], Or.inl rfl, ?_⟩))
        exact List.append_nil _
    | @decimal whole fraction isWhole isFraction =>
        refine Or.inl (Or.inr (Language.mem_mul.mpr ⟨_, isWhole, '.' :: fraction, Or.inr ?_, rfl⟩))
        exact mem_oneOf_mul.mpr ⟨'.', fraction, rfl, isFraction, rfl⟩
    | keyword name found => exact Or.inr name
    | identifier name found => exact Or.inr name

theorem Denotes.ne_nil {text : List Char} {kind : Kind} (denotes : Denotes text kind) :
    text ≠ [] := by
  have named {name : List Char} (isName : name ∈ names) : name ≠ [] := by
    obtain ⟨char, rest, -, -, rfl⟩ := mem_names.mp isName
    exact List.cons_ne_nil char rest
  cases denotes with
  | fixed listed =>
      rintro rfl
      simp [fixedMarks] at listed
  | string => exact List.cons_ne_nil _ _
  | integer isWhole => exact (mem_digits.mp isWhole).1
  | decimal => simp
  | keyword name => exact named name
  | identifier name => exact named name

/-- The table of fixed marks has the marks of one character, those that an equals sign may lengthen
in both lengths, and the slash. -/
theorem mem_fixedMarks {text : List Char} {mark : Mark} : (text, mark) ∈ fixedMarks ↔
    (∃ char, punctuation? char = some mark ∧ text = [char]) ∨
    (∃ char short long, comparison? char = some (short, long) ∧
      (text = [char] ∧ mark = short ∨ text = [char, '='] ∧ mark = long)) ∨
    (text = ['/'] ∧ mark = .slash) := by
  constructor
  · -- The first character is given by a function, so that evaluation can check the table.
    have checked : ∀ entry, entry ∈ fixedMarks →
        punctuation? (entry.1.headD ' ') = some entry.2 ∧ entry.1 = [entry.1.headD ' '] ∨
        (∃ marks, marks ∈ comparison? (entry.1.headD ' ') ∧
          (entry.1 = [entry.1.headD ' '] ∧ entry.2 = marks.1 ∨
            entry.1 = [entry.1.headD ' ', '='] ∧ entry.2 = marks.2)) ∨
        entry.1 = ['/'] ∧ entry.2 = .slash := by
      decide
    intro listed
    rcases checked _ listed with single | ⟨⟨short, long⟩, found, split⟩ | slash
    · exact Or.inl ⟨_, single⟩
    · exact Or.inr (Or.inl ⟨_, short, long, found, split⟩)
    · exact Or.inr (Or.inr slash)
  · rintro (⟨char, found, rfl⟩ | ⟨char, short, long, found, split⟩ | ⟨rfl, rfl⟩)
    · unfold punctuation? at found
      split at found <;> cases found <;> decide
    · unfold comparison? at found
      rcases split with ⟨rfl, rfl⟩ | ⟨rfl, rfl⟩ <;> split at found <;> cases found <;> decide
    · decide

end Pattern

/-! ### The first piece -/

namespace Piece

/-- What the first piece of a text is, by the class of its first character. -/
inductive Begins (char : Char) (rest : List Char) : Piece → Prop
  | blank : isSeparator char = true → Begins char rest ⟨[char], .blank⟩
  | punctuation {mark : Mark} : punctuation? char = some mark →
      Begins char rest ⟨[char], .token (.mark mark)⟩
  | comparison {short long : Mark} : comparison? char = some (short, long) →
      Begins char rest (comparison char short long rest)
  | slash : char = '/' → Begins char rest (slash rest)
  | string : char = '"' → Begins char rest (string rest)
  | number : char.isDigit = true → Begins char rest (number char rest)
  | word : isNameStart char = true → Begins char rest (word char rest)
  | unexpected : isSeparator char = false → punctuation? char = none → comparison? char = none →
      char ≠ '/' → char ≠ '"' → char.isDigit = false → isNameStart char = false →
      Begins char rest ⟨[char], .fault (.unexpected char)⟩

theorem first_begins (char : Char) (rest : List Char) : Begins char rest (first char rest) := by
  unfold first
  split
  · exact .blank ‹_›
  · split
    · exact .punctuation ‹_›
    · split
      · exact .comparison ‹_›
      · split
        · exact .slash ‹_›
        · split
          · exact .string ‹_›
          · split
            · exact .number ‹_›
            · split
              · exact .word ‹_›
              · apply Begins.unexpected <;> simp_all

/-- The characters that separate or begin marks, comments and strings. -/
def reserved : List Char :=
  [' ', '\r', '\t', '\n', '(', ')', '\x7b', '\x7d', '[', ']', ',', '.', '-', '+', ';', '*', '!',
    '=', '<', '>', '/', '"']

/-- A character of a class without reserved characters begins none of their pieces. -/
theorem ordinary_of_class {accepts : Char → Bool}
    (apart : reserved.all (!accepts ·) = true) {char : Char}
    (accepted : accepts char = true) :
    isSeparator char = false ∧ punctuation? char = none ∧ comparison? char = none ∧
      char ≠ '/' ∧ char ≠ '"' := by
  have other : ∀ special, special ∈ reserved → char ≠ special := by
    intro special among same
    have refused := List.all_eq_true.mp apart special among
    rw [← same, accepted] at refused
    cases refused
  refine ⟨?_, ?_, ?_, other '/' (by decide), other '"' (by decide)⟩
  · simp [isSeparator, other ' ' (by decide), other '\r' (by decide), other '\t' (by decide),
      other '\n' (by decide)]
  · unfold punctuation?
    split
    all_goals first | rfl | exact absurd rfl (other _ (by decide))
  · unfold comparison?
    split
    all_goals first | rfl | exact absurd rfl (other _ (by decide))

theorem ordinary_of_isNamePart {char : Char} (part : isNamePart char = true) :
    isSeparator char = false ∧ punctuation? char = none ∧ comparison? char = none ∧
      char ≠ '/' ∧ char ≠ '"' :=
  ordinary_of_class rfl part

theorem not_isDigit_of_isNameStart {char : Char} (start : isNameStart char = true) :
    char.isDigit = false := by
  rw [Bool.eq_false_iff]
  intro isDigit
  have below : char.val.toNat ≤ 57 := (Pattern.isDigit_iff.mp isDigit).2
  rcases Pattern.isNameStart_iff.mp start with upper | lower | rfl
  · have above : 65 ≤ char.val.toNat := upper.1
    omega
  · have above : 97 ≤ char.val.toNat := lower.1
    omega
  · exact absurd below (by decide)

/-- The classes of characters are apart, so a piece of some class is the first one. -/
theorem Begins.eq_first {char : Char} {rest : List Char} {piece : Piece}
    (begins : Begins char rest piece) : piece = first char rest := by
  unfold first
  cases begins with
  | blank separator => rw [if_pos separator]
  | punctuation found =>
      have used : isSeparator char = false := by
        unfold punctuation? at found
        split at found <;> first | rfl | cases found
      rw [used, found]
      rfl
  | comparison found =>
      have used : isSeparator char = false ∧ punctuation? char = none := by
        unfold comparison? at found
        split at found <;> first | exact ⟨rfl, rfl⟩ | cases found
      rw [used.1, used.2, found]
      rfl
  | slash same =>
      subst same
      rfl
  | string same =>
      subst same
      rfl
  | number isDigit =>
      have part : isNamePart char = true := Pattern.isNamePart_iff.mpr (Or.inr isDigit)
      obtain ⟨separator, punctuation, comparison, slash, quote⟩ := ordinary_of_isNamePart part
      simp [separator, punctuation, comparison, slash, quote, isDigit]
  | word start =>
      have part : isNamePart char = true := Pattern.isNamePart_iff.mpr (Or.inl start)
      obtain ⟨separator, punctuation, comparison, slash, quote⟩ := ordinary_of_isNamePart part
      have isDigit : char.isDigit = false := not_isDigit_of_isNameStart start
      simp [separator, punctuation, comparison, slash, quote, isDigit, start]
  | unexpected separator punctuation comparison slash quote isDigit start =>
      simp [separator, punctuation, comparison, slash, quote, isDigit, start]

/-! ### The first piece is the longest lexeme -/

open Pattern

theorem number_denotes {char : Char} (isDigit : char.isDigit = true) {rest : List Char}
    {kind : Kind} (same : (number char rest).content = .token kind) :
    Denotes (number char rest).text kind := by
  have whole : char :: rest.takeWhile Char.isDigit ∈ digits := by
    rw [mem_digits]
    refine ⟨List.cons_ne_nil _ _, ?_⟩
    intro other member
    rcases List.mem_cons.mp member with rfl | later
    · exact isDigit
    · exact List.mem_takeWhile_imp later
  cases same
  unfold number
  dsimp only
  split
  · rename_i absent
    rw [List.isEmpty_iff.mp absent]
    exact .integer whole
  · rename_i present
    refine .decimal whole (mem_digits.mpr ⟨by simpa using present, ?_⟩)
    intro other member
    unfold fractionDigits at member
    split at member
    · exact List.mem_takeWhile_imp member
    · cases member

theorem word_denotes {char : Char} (start : isNameStart char = true) {rest : List Char}
    {kind : Kind} (same : (word char rest).content = .token kind) :
    Denotes (word char rest).text kind := by
  have name : char :: rest.takeWhile isNamePart ∈ names := by
    rw [mem_names]
    exact ⟨char, _, start, fun other member => List.mem_takeWhile_imp member, rfl⟩
  cases same
  change Denotes (char :: rest.takeWhile isNamePart) _
  cases found : Mark.ofKeyword? (String.ofList (char :: rest.takeWhile isNamePart)) with
  | none => exact .identifier name (ofKeyword?_eq_none_iff.mp found)
  | some mark => exact .keyword name (ofKeyword?_eq_some_iff.mp found)

/-- A first piece that is a token is a lexeme of its kind. -/
theorem first_denotes {char : Char} {rest : List Char} {kind : Kind}
    (same : (first char rest).content = .token kind) : Denotes (first char rest).text kind := by
  have begins := first_begins char rest
  generalize first char rest = piece at begins same ⊢
  cases begins with
  | blank separator => cases same
  | punctuation found =>
      cases same
      exact .fixed (mem_fixedMarks.mpr (Or.inl ⟨char, found, rfl⟩))
  | @comparison short long found =>
      have listed : ([char], short) ∈ fixedMarks ∧ ([char, '='], long) ∈ fixedMarks := by
        constructor
        · exact mem_fixedMarks.mpr
            (Or.inr (Or.inl ⟨char, short, long, found, Or.inl ⟨rfl, rfl⟩⟩))
        · exact mem_fixedMarks.mpr
            (Or.inr (Or.inl ⟨char, short, long, found, Or.inr ⟨rfl, rfl⟩⟩))
      unfold comparison at same ⊢
      split at same <;> cases same
      · exact .fixed listed.2
      · exact .fixed listed.1
  | slash =>
      unfold slash at same ⊢
      split at same <;> cases same
      exact .fixed (by decide)
  | string =>
      unfold string at same ⊢
      split at same <;> cases same
      rename_i body found
      exact .string (mem_stringText_of_stringBody? found)
  | number isDigit => exact number_denotes isDigit same
  | word start => exact word_denotes start same
  | unexpected => cases same

/-- A piece is a token at least as long as the lexeme, and of the kind of the lexeme if it is no
longer. -/
structure Covers (piece : Piece) (lexeme : List Char) (kind : Kind) : Prop where
  token : ∃ own, piece.content = .token own ∧ (piece.text = lexeme → own = kind)
  long : lexeme.length ≤ piece.text.length

theorem covers_own (lexeme : List Char) (kind : Kind) :
    Covers ⟨lexeme, .token kind⟩ lexeme kind :=
  ⟨⟨kind, rfl, fun _ => rfl⟩, Nat.le_refl _⟩

/-- A run of characters of one class that a text begins with is extended by what follows it. -/
theorem takeWhile_of_split {class' : Char → Bool} {run more rest : List Char} {char : Char}
    (all : ∀ other, other ∈ run → class' other = true) (nonempty : run ≠ [])
    (same : run ++ more = char :: rest) :
    class' char = true ∧ char :: rest.takeWhile class' = run ++ more.takeWhile class' ∧
      rest.dropWhile class' = more.dropWhile class' := by
  cases run with
  | nil => exact absurd rfl nonempty
  | cons head tail =>
      rw [List.cons_append] at same
      obtain ⟨rfl, rfl⟩ := List.cons.inj same
      have others : ∀ other, other ∈ tail → class' other = true :=
        fun other member => all other (List.mem_cons_of_mem head member)
      refine ⟨all head List.mem_cons_self, ?_, ?_⟩
      · rw [List.takeWhile_append_of_pos others, List.cons_append]
      · rw [List.dropWhile_append_of_pos others]

theorem integer_covered {whole : List Char} (isWhole : whole ∈ digits) {char : Char}
    {rest more : List Char} (same : whole ++ more = char :: rest) :
    (first char rest).Covers whole (.number (Decimal.read whole [])) := by
  obtain ⟨nonempty, all⟩ := mem_digits.mp isWhole
  obtain ⟨isDigit, run, left⟩ := takeWhile_of_split all nonempty same
  rw [← Begins.eq_first (.number isDigit)]
  unfold number
  rw [run, left]
  refine ⟨⟨_, rfl, ?_⟩, ?_⟩
  · intro equal
    dsimp only at equal
    split at equal
    · rename_i absent
      rw [equal, List.isEmpty_iff.mp absent]
    · have point : '.' ∈ whole := by
        rw [← equal]
        simp
      exact absurd (all '.' point) (by decide)
  · dsimp only
    split <;> simp

theorem decimal_covered {whole fraction : List Char} (isWhole : whole ∈ digits)
    (isFraction : fraction ∈ digits) {char : Char} {rest more : List Char}
    (same : whole ++ '.' :: fraction ++ more = char :: rest) :
    (first char rest).Covers (whole ++ '.' :: fraction)
      (.number (Decimal.read whole fraction)) := by
  obtain ⟨nonempty, all⟩ := mem_digits.mp isWhole
  obtain ⟨someFraction, allFraction⟩ := mem_digits.mp isFraction
  rw [List.append_assoc] at same
  obtain ⟨isDigit, run, left⟩ := takeWhile_of_split all nonempty same
  have stop : (('.' :: fraction) ++ more).takeWhile Char.isDigit = [] := rfl
  have behind : fractionDigits ((('.' :: fraction) ++ more).dropWhile Char.isDigit) =
      fraction ++ more.takeWhile Char.isDigit := by
    change (fraction ++ more).takeWhile Char.isDigit = _
    exact List.takeWhile_append_of_pos allFraction
  rw [← Begins.eq_first (.number isDigit)]
  unfold number
  rw [run, left, stop, behind, List.append_nil]
  dsimp only
  rw [if_neg (by simp [someFraction])]
  refine ⟨⟨_, rfl, ?_⟩, by simp⟩
  intro equal
  rw [List.cons.inj (List.append_cancel_left equal) |>.2]

theorem name_covered {text : List Char} (isName : text ∈ names) {char : Char}
    {rest more : List Char} (same : text ++ more = char :: rest) :
    (first char rest).Covers text
      (.mark ((Mark.ofKeyword? (String.ofList text)).getD .identifier)) := by
  obtain ⟨head, tail, start, parts, rfl⟩ := mem_names.mp isName
  rw [List.cons_append] at same
  obtain ⟨rfl, rfl⟩ := List.cons.inj same
  rw [← Begins.eq_first (.word start)]
  unfold word
  rw [List.takeWhile_append_of_pos parts]
  refine ⟨⟨_, rfl, ?_⟩, by simp⟩
  intro equal
  dsimp only at equal
  rw [equal]

theorem fixed_covered {text : List Char} {mark : Mark} (listed : (text, mark) ∈ fixedMarks)
    {char : Char} {rest more : List Char} (same : text ++ more = char :: rest)
    (noComment : ¬ ['/', '/'] <+: char :: rest) :
    (first char rest).Covers text (.mark mark) := by
  rcases mem_fixedMarks.mp listed with
    ⟨head, found, rfl⟩ | ⟨head, short, long, found, ⟨rfl, rfl⟩ | ⟨rfl, rfl⟩⟩ | ⟨rfl, rfl⟩
  · cases same
    rw [← Begins.eq_first (.punctuation found)]
    exact covers_own _ _
  · cases same
    rw [← Begins.eq_first (.comparison found)]
    unfold comparison
    split
    · exact ⟨⟨_, rfl, fun equal => by cases equal⟩, by simp⟩
    · exact covers_own _ _
  · cases same
    rw [← Begins.eq_first (.comparison found)]
    exact covers_own _ _
  · cases same
    rw [← Begins.eq_first (.slash rfl)]
    unfold slash
    split
    · rename_i words same
      rw [same] at noComment
      exact absurd ⟨words, rfl⟩ noComment
    · exact covers_own _ _

/-- Every lexeme that a text begins with is covered by the first piece, unless the text begins with
a comment. -/
theorem first_covers {lexeme : List Char} {kind : Kind} (denotes : Denotes lexeme kind)
    {char : Char} {rest more : List Char} (same : lexeme ++ more = char :: rest)
    (noComment : ¬ ['/', '/'] <+: char :: rest) : (first char rest).Covers lexeme kind := by
  cases denotes with
  | fixed listed => exact fixed_covered listed same noComment
  | @string body member =>
      rw [List.cons_append, List.append_assoc, List.singleton_append] at same
      obtain ⟨rfl, rfl⟩ := List.cons.inj same
      rw [← Begins.eq_first (.string rfl)]
      unfold string
      rw [stringBody?_of_mem_stringText member more]
      exact covers_own _ _
  | integer isWhole => exact integer_covered isWhole same
  | decimal isWhole isFraction => exact decimal_covered isWhole isFraction same
  | keyword name listed =>
      have covered := name_covered name same
      rwa [ofKeyword?_eq_some_iff.mpr listed] at covered
  | identifier name free =>
      have covered := name_covered name same
      rwa [ofKeyword?_eq_none_iff.mpr free] at covered

/-- The faults: a quote takes the whole text, any other character only itself. -/
theorem first_of_fault {char : Char} {rest : List Char} {fault : LexicalFault}
    (isFault : (first char rest).content = .fault fault) :
    (char = '"' ∧ first char rest = ⟨char :: rest, .fault .unterminatedString⟩) ∨
    (char ≠ '"' ∧ first char rest = ⟨[char], .fault (.unexpected char)⟩) := by
  have begins := first_begins char rest
  generalize first char rest = piece at begins isFault
  cases begins with
  | string same =>
      subst same
      unfold string at isFault ⊢
      split at isFault
      · cases isFault
      · exact Or.inl ⟨rfl, rfl⟩
  | unexpected _ _ _ _ quote _ _ => exact Or.inr ⟨quote, rfl⟩
  | comparison =>
      unfold comparison at isFault
      split at isFault <;> cases isFault
  | slash =>
      unfold slash at isFault
      split at isFault <;> cases isFault
  | blank => cases isFault
  | punctuation => cases isFault
  | number => cases isFault
  | word => cases isFault

end Piece

/-! ### Sources piece by piece -/

theorem pieces_covered {char : Char} {tail left : List Char}
    (covers : (Piece.first char (tail ++ left)).text = char :: tail) :
    pieces (char :: (tail ++ left)) = Piece.first char (tail ++ left) :: pieces left := by
  rw [pieces_cons, covers, ← List.cons_append, List.drop_left]

/-- Induction over a source: its first piece is cut off, and what is left is shorter. -/
theorem piecewise {motive : List Char → Prop} (nil : motive [])
    (cons : ∀ char tail left, (Piece.first char (tail ++ left)).text = char :: tail →
      motive left → motive (char :: (tail ++ left))) (source : List Char) : motive source := by
  induction size : source.length using Nat.strongRecOn generalizing source with
  | _ length ih =>
      cases source with
      | nil => exact nil
      | cons char rest =>
          obtain ⟨left, split⟩ := Piece.text_first_isPrefix char rest
          obtain ⟨own, tail, covers⟩ :=
            List.exists_cons_of_ne_nil (Piece.text_first_ne_nil char rest)
          rw [covers, List.cons_append] at split
          obtain ⟨rfl, rfl⟩ := List.cons.inj split
          have shorter : left.length < length := by
            rw [List.length_cons, List.length_append] at size
            omega
          exact cons own tail left covers (ih left.length shorter left rfl)

/-! ### The tokens of a scan -/

theorem exists_piece_of_mem_itemsFrom {line : Nat} {pieces : List Piece} {token : Token}
    (member : .ok token ∈ itemsFrom line pieces) :
    token.lexeme = "" ∧ token.kind = .mark .endOfInput ∨
      ∃ piece, piece ∈ pieces ∧ piece.content = .token token.kind ∧
        token.lexeme = String.ofList piece.text := by
  induction pieces generalizing line with
  | nil =>
      cases List.mem_singleton.mp member
      exact Or.inl ⟨rfl, rfl⟩
  | cons piece rest ih =>
      have later : ∀ {line : Nat}, .ok token ∈ itemsFrom line rest →
          token.lexeme = "" ∧ token.kind = .mark .endOfInput ∨
            ∃ other, other ∈ piece :: rest ∧ other.content = .token token.kind ∧
              token.lexeme = String.ofList other.text := by
        intro line inside
        rcases ih inside with last | ⟨other, among, same⟩
        · exact Or.inl last
        · exact Or.inr ⟨other, List.mem_cons_of_mem _ among, same⟩
      unfold itemsFrom at member
      dsimp only at member
      split at member
      · exact later member
      · rename_i kind content
        rcases List.mem_cons.mp member with same | inside
        · cases same
          exact Or.inr ⟨piece, List.mem_cons_self, content, rfl⟩
        · exact later inside
      · rcases List.mem_cons.mp member with same | inside
        · cases same
        · exact later inside

theorem denotes_of_mem_piecesFrom {covered : Nat} {source : List Char} {piece : Piece} {kind : Kind}
    (member : piece ∈ piecesFrom covered source) (isToken : piece.content = .token kind) :
    Pattern.Denotes piece.text kind := by
  obtain ⟨char, rest, rfl⟩ := exists_first_of_mem_piecesFrom member
  exact Piece.first_denotes isToken

/-- A token of a scan is the end of the input, or its lexeme denotes its kind. -/
theorem denotes_of_mem_scan {source : String} {token : Token} (member : .ok token ∈ scan source) :
    token.lexeme = "" ∧ token.kind = .mark .endOfInput ∨
      Pattern.Denotes token.lexeme.toList token.kind := by
  rcases exists_piece_of_mem_itemsFrom member with last | ⟨piece, inside, content, lexeme⟩
  · exact Or.inl last
  · rw [lexeme, String.toList_ofList]
    exact Or.inr (denotes_of_mem_piecesFrom inside content)

end LexicalScript
