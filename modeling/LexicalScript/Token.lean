import LexicalScript.Decimal.Layout
import LexicalScript.Text.Quoted

/-!
Tokens of the language.

A token has a kind, the text it was written as, and the line it ends on.  Strings and numbers carry
their value in the kind; every other kind is a `Mark`.  Two tokens are the same when kind, text and
line agree, whatever value a string or number carries.
-/

set_option autoImplicit false

namespace LexicalScript

inductive Mark where
  | leftParen
  | rightParen
  | leftBrace
  | rightBrace
  | leftBracket
  | rightBracket
  | comma
  | dot
  | minus
  | plus
  | semicolon
  | slash
  | star
  | bang
  | bangEqual
  | equal
  | equalEqual
  | greater
  | greaterEqual
  | less
  | lessEqual
  | identifier
  | andWord
  | elseWord
  | falseWord
  | funWord
  | forWord
  | ifWord
  | nilWord
  | orWord
  | printWord
  | returnWord
  | trueWord
  | varWord
  | whileWord
  | endOfInput
  deriving DecidableEq, Repr

namespace Mark

def all : List Mark :=
  [.leftParen, .rightParen, .leftBrace, .rightBrace, .leftBracket, .rightBracket, .comma, .dot,
    .minus, .plus, .semicolon, .slash, .star, .bang, .bangEqual, .equal, .equalEqual, .greater,
    .greaterEqual, .less, .lessEqual, .identifier, .andWord, .elseWord, .falseWord, .funWord,
    .forWord, .ifWord, .nilWord, .orWord, .printWord, .returnWord, .trueWord, .varWord,
    .whileWord, .endOfInput]

def name : Mark → String
  | .leftParen => "LEFT_PAREN"
  | .rightParen => "RIGHT_PAREN"
  | .leftBrace => "LEFT_BRACE"
  | .rightBrace => "RIGHT_BRACE"
  | .leftBracket => "LEFT_BRACKET"
  | .rightBracket => "RIGHT_BRACKET"
  | .comma => "COMMA"
  | .dot => "DOT"
  | .minus => "MINUS"
  | .plus => "PLUS"
  | .semicolon => "SEMICOLON"
  | .slash => "SLASH"
  | .star => "STAR"
  | .bang => "BANG"
  | .bangEqual => "BANG_EQUAL"
  | .equal => "EQUAL"
  | .equalEqual => "EQUAL_EQUAL"
  | .greater => "GREATER"
  | .greaterEqual => "GREATER_EQUAL"
  | .less => "LESS"
  | .lessEqual => "LESS_EQUAL"
  | .identifier => "IDENTIFIER"
  | .andWord => "AND"
  | .elseWord => "ELSE"
  | .falseWord => "FALSE"
  | .funWord => "FUN"
  | .forWord => "FOR"
  | .ifWord => "IF"
  | .nilWord => "NIL"
  | .orWord => "OR"
  | .printWord => "PRINT"
  | .returnWord => "RETURN"
  | .trueWord => "TRUE"
  | .varWord => "VAR"
  | .whileWord => "WHILE"
  | .endOfInput => "EOF"

def ofName? (name : String) : Option Mark :=
  all.find? fun mark => mark.name == name

def ofKeyword? (word : String) : Option Mark :=
  [("and", .andWord), ("else", .elseWord), ("false", .falseWord), ("fun", .funWord),
    ("for", .forWord), ("if", .ifWord), ("nil", .nilWord), ("or", .orWord),
    ("print", .printWord), ("return", .returnWord), ("true", .trueWord), ("var", .varWord),
    ("while", .whileWord)].lookup word

end Mark

inductive Kind where
  | mark (mark : Mark)
  | string (value : String)
  | number (value : Float)
  deriving Repr

namespace Kind

def name : Kind → String
  | .mark own => own.name
  | .string _ => "STRING"
  | .number _ => "NUMBER"

/-- Whether two kinds agree up to the value they carry. -/
def same : Kind → Kind → Bool
  | .mark left, .mark right => left = right
  | .string _, .string _ => true
  | .number _, .number _ => true
  | _, _ => false

def journalText : Kind → String
  | .mark own => own.name
  | .string value => "STRING(" ++ Text.quote value ++ ")"
  | .number value => "NUMBER(" ++ LexicalScript.journalText value ++ ")"

/-- A kind in JSON: a name, or an object that maps the name to the value. -/
def json : Kind → String
  | .mark own => Text.jsonString own.name
  | .string value => "\x7b\"STRING\":" ++ Text.jsonString value ++ "\x7d"
  | .number value => "\x7b\"NUMBER\":" ++ jsonText value ++ "\x7d"

end Kind

/-- A token: its kind, the text it was written as, and the line it ends on. -/
structure Token where
  kind : Kind
  lexeme : String
  line : Nat
  deriving Repr

namespace Token

def is (token : Token) (mark : Mark) : Bool :=
  match token.kind with
  | .mark own => own = mark
  | _ => false

def endOfInput (line : Nat) : Token := ⟨.mark .endOfInput, "", line⟩

def same (left right : Token) : Bool :=
  left.kind.same right.kind && left.lexeme == right.lexeme && left.line == right.line

def location (token : Token) : String :=
  if token.is .endOfInput then " at end" else " at '" ++ token.lexeme ++ "'"

def text (token : Token) : String :=
  let value := match token.kind with
    | .mark _ => "null"
    | .string value => value
    | .number value => tokenText value
  token.kind.name ++ " " ++ token.lexeme ++ " " ++ value

def json (token : Token) : String :=
  "\x7b\"token_type\":" ++ token.kind.json ++ ",\"lexeme\":" ++ Text.jsonString token.lexeme ++
    ",\"line\":" ++ toString token.line ++ "\x7d"

end Token

end LexicalScript
