import LexicalScript.Parser.Expression

/-!
The grammar of programs.

    program        → declaration* EOF ;
    declaration    → funDecl | varDecl | statement ;
    funDecl        → "fun" IDENT "(" parameters? ")" block ;
    varDecl        → "var" IDENT ( "=" expression )? ";" ;
    statement      → exprStmt | printStmt | whileStmt | forStmt
                   | ifStmt | block | returnStmt ;
    forStmt        → "for" "(" ( varDecl | exprStmt | ";" )
                     expression? ";" expression? ")" statement ;
    exprStmt       → expression ";" ;
    printStmt      → "print" expression ";" ;
    whileStmt      → "while" "(" expression ")" statement ;
    ifStmt         → "if" "(" expression ")" statement
                   ( "else" statement )? ;
    block          → "{" declaration* "}" ;
    returnStmt     → "return" expression? ";" ;
    parameters     → IDENT ( "," IDENT )* ;
    expression     → assignment ;
    assignment     → IDENT "=" assignment | logic_or ;
    logic_or       → logic_and ( "or" logic_and )* ;
    logic_and      → equality  ( "and" equality )* ;
    equality       → comparison ( ( "!=" | "==" ) comparison )* ;
    comparison     → term ( ( ">" | ">=" | "<" | "<=" ) term )* ;
    term           → factor ( ( "-" | "+" ) factor )* ;
    factor         → unary ( ( "/" | "*" ) unary )* ;
    unary          → ( "!" | "-" ) unary | call ;
    call           → primary ( "(" arguments? ")" | "[" expression "]" )* ;
    arguments      → expression ( "," expression )* ;
    primary        → NUMBER | STRING | "true" | "false" | "nil"
                   | IDENT | "(" expression ")"
                   | "[" ( expression ( "," expression )* )? "]" ;

Each nonterminal is a relation between the tokens that derive from it and the tree of the
derivation.  Lists of arguments and of parameters have at most 255 entries.  Statements come in two
readings: the plain one is the grammar above, in which an `else` may go with any `if` in front of
it, and in the strict one it goes with the nearest `if` that is still open.
-/

set_option autoImplicit false

namespace LexicalScript.Grammar

open LexicalScript.Parser (Level)

/-! ### Expressions -/

/-- The rows `level → operand ( operator operand )*`, with the node that an operator makes. -/
inductive Row : Level → Level → List Mark → (Expr → Token → Expr → Expr) → Prop
  | disjunction : Row .disjunction .conjunction [.orWord] .logical
  | conjunction : Row .conjunction .equality [.andWord] .logical
  | equality : Row .equality .comparison [.bangEqual, .equalEqual] .binary
  | comparison :
      Row .comparison .term [.greater, .greaterEqual, .less, .lessEqual] .binary
  | term : Row .term .factor [.minus, .plus] .binary
  | factor : Row .factor .prefixed [.slash, .star] .binary

/-- A token that stands for a value or a name by itself. -/
inductive Atom : Token → Expr → Prop
  | number {token : Token} {value : Float} : token.kind = .number value →
      Atom token (.literal (.number value))
  | string {token : Token} {value : String} : token.kind = .string value →
      Atom token (.literal (.string value))
  | truth {token : Token} : token.is .trueWord → Atom token (.literal (.bool true))
  | falsehood {token : Token} : token.is .falseWord → Atom token (.literal (.bool false))
  | nothing {token : Token} : token.is .nilWord → Atom token (.literal .nil)
  | name {token : Token} : token.is .identifier → Atom token (.reference token none)

mutual

inductive Expression : List Token → Expr → Prop
  | assignment {name equals : Token} {tokens : List Token} {value : Expr} :
      name.is .identifier → equals.is .equal → Expression tokens value →
      Expression (name :: equals :: tokens) (.assign name value none)
  | operation {tokens : List Token} {tree : Expr} :
      Operand .disjunction tokens tree → Expression tokens tree

/-- The operands of a level, from `logic_or` to `unary`. -/
inductive Operand : Level → List Token → Expr → Prop
  | row {level operand : Level} {operators : List Mark} {node : Expr → Token → Expr → Expr}
      {first rest : List Token} {left tree : Expr} : Row level operand operators node →
      Operand operand first left → Joined operand operators node left rest tree →
      Operand level (first ++ rest) tree
  | unary {operator : Token} {tokens : List Token} {operand : Expr} :
      operator.is .bang ∨ operator.is .minus → Operand .prefixed tokens operand →
      Operand .prefixed (operator :: tokens) (.unary operator operand)
  | call {first rest : List Token} {operand tree : Expr} :
      Primary first operand → Suffixed operand rest tree → Operand .prefixed (first ++ rest) tree

/-- `( operator operand )*` behind an operand: operators of one level group to the left. -/
inductive Joined : Level → List Mark → (Expr → Token → Expr → Expr) → Expr → List Token → Expr →
    Prop
  | done {operand : Level} {operators : List Mark} {node : Expr → Token → Expr → Expr}
      {left : Expr} : Joined operand operators node left [] left
  | more {operand : Level} {operators : List Mark} {node : Expr → Token → Expr → Expr}
      {left right tree : Expr} {mark : Mark} {operator : Token} {first rest : List Token} :
      mark ∈ operators → operator.is mark → Operand operand first right →
      Joined operand operators node (node left operator right) rest tree →
      Joined operand operators node left (operator :: (first ++ rest)) tree

/-- `( "(" arguments? ")" | "[" expression "]" )*` behind an expression. -/
inductive Suffixed : Expr → List Token → Expr → Prop
  | done {operand : Expr} : Suffixed operand [] operand
  | callNone {operand tree : Expr} {left right : Token} {rest : List Token} :
      left.is .leftParen → right.is .rightParen → Suffixed (.call operand right []) rest tree →
      Suffixed operand (left :: right :: rest) tree
  | call {operand tree : Expr} {left right : Token} {tokens rest : List Token}
      {arguments : List Expr} :
      left.is .leftParen → Items tokens arguments → arguments.length ≤ 255 →
      right.is .rightParen → Suffixed (.call operand right arguments) rest tree →
      Suffixed operand (left :: (tokens ++ right :: rest)) tree
  | index {operand position tree : Expr} {left right : Token} {tokens rest : List Token} :
      left.is .leftBracket → Expression tokens position → right.is .rightBracket →
      Suffixed (.index operand right position) rest tree →
      Suffixed operand (left :: (tokens ++ right :: rest)) tree

/-- `expression ( "," expression )*`. -/
inductive Items : List Token → List Expr → Prop
  | last {tokens : List Token} {expr : Expr} : Expression tokens expr → Items tokens [expr]
  | more {tokens rest : List Token} {comma : Token} {expr : Expr} {exprs : List Expr} :
      Expression tokens expr → comma.is .comma → Items rest exprs →
      Items (tokens ++ comma :: rest) (expr :: exprs)

inductive Primary : List Token → Expr → Prop
  | atom {token : Token} {tree : Expr} : Atom token tree → Primary [token] tree
  | grouping {left right : Token} {tokens : List Token} {inner : Expr} :
      left.is .leftParen → Expression tokens inner → right.is .rightParen →
      Primary (left :: (tokens ++ [right])) (.grouping inner)
  | listNone {left right : Token} : left.is .leftBracket → right.is .rightBracket →
      Primary [left, right] (.list left [])
  | list {left right : Token} {tokens : List Token} {elements : List Expr} :
      left.is .leftBracket → Items tokens elements → right.is .rightBracket →
      Primary (left :: (tokens ++ [right])) (.list left elements)

end

/-- `expression?`. -/
inductive Optionally : List Token → Option Expr → Prop
  | absent : Optionally [] none
  | present {tokens : List Token} {expr : Expr} : Expression tokens expr →
      Optionally tokens (some expr)

/-! ### Statements without statements inside -/

inductive VariableDeclaration : List Token → Stmt → Prop
  | bare {keyword name semicolon : Token} : keyword.is .varWord → name.is .identifier →
      semicolon.is .semicolon → VariableDeclaration [keyword, name, semicolon] (.var name none)
  | initialized {keyword name equals semicolon : Token} {tokens : List Token} {value : Expr} :
      keyword.is .varWord → name.is .identifier → equals.is .equal → Expression tokens value →
      semicolon.is .semicolon →
      VariableDeclaration (keyword :: name :: equals :: (tokens ++ [semicolon]))
        (.var name (some value))

inductive ExpressionStatement : List Token → Stmt → Prop
  | mk {tokens : List Token} {expr : Expr} {semicolon : Token} : Expression tokens expr →
      semicolon.is .semicolon → ExpressionStatement (tokens ++ [semicolon]) (.expression expr)

/-- The first clause of a `for`: `varDecl | exprStmt | ";"`. -/
inductive Initializer : List Token → Option Stmt → Prop
  | none {semicolon : Token} : semicolon.is .semicolon → Initializer [semicolon] none
  | declaration {tokens : List Token} {stmt : Stmt} : VariableDeclaration tokens stmt →
      Initializer tokens (some stmt)
  | expression {tokens : List Token} {stmt : Stmt} : ExpressionStatement tokens stmt →
      Initializer tokens (some stmt)

inductive Parameters : List Token → List Token → Prop
  | last {name : Token} : name.is .identifier → Parameters [name] [name]
  | more {name comma : Token} {tokens names : List Token} : name.is .identifier →
      comma.is .comma → Parameters tokens names →
      Parameters (name :: comma :: tokens) (name :: names)

/-- `parameters?`. -/
inductive ParameterList : List Token → List Token → Prop
  | none : ParameterList [] []
  | some {tokens names : List Token} : Parameters tokens names → names.length ≤ 255 →
      ParameterList tokens names

/-- A body that is followed by the increment of a `for`. -/
def followed (body : Stmt) : Option Expr → Stmt
  | none => body
  | some increment => .block [body, .expression increment]

/-- A loop behind the initializer of a `for`. -/
def preceded (loop : Stmt) : Option Stmt → Stmt
  | none => loop
  | some initializer => .block [initializer, loop]

/-! ### Statements -/

mutual

/-- The flag tells whether the statement ends in an `if` without an `else`, so that an `else` behind
it would be that one's. -/
inductive Statement (strict : Bool) : List Token → Stmt → Bool → Prop
  | expression {tokens : List Token} {stmt : Stmt} : ExpressionStatement tokens stmt →
      Statement strict tokens stmt false
  | print {keyword semicolon : Token} {tokens : List Token} {expr : Expr} :
      keyword.is .printWord → Expression tokens expr → semicolon.is .semicolon →
      Statement strict (keyword :: (tokens ++ [semicolon])) (.print expr) false
  | returned {keyword semicolon : Token} {tokens : List Token} {value : Option Expr} :
      keyword.is .returnWord → Optionally tokens value → semicolon.is .semicolon →
      Statement strict (keyword :: (tokens ++ [semicolon])) (.returnValue keyword value) false
  | block {left right : Token} {tokens : List Token} {body : List Stmt} :
      left.is .leftBrace → Declarations strict tokens body → right.is .rightBrace →
      Statement strict (left :: (tokens ++ [right])) (.block body) false
  | loop {keyword left right : Token} {test tokens : List Token} {condition : Expr} {body : Stmt}
      {dangling : Bool} : keyword.is .whileWord → left.is .leftParen → Expression test condition →
      right.is .rightParen → Statement strict tokens body dangling →
      Statement strict (keyword :: left :: (test ++ right :: tokens)) (.loop condition body)
        dangling
  | counting {keyword left semicolon right : Token} {first test step tokens : List Token}
      {initializer : Option Stmt} {condition increment : Option Expr} {body : Stmt}
      {dangling : Bool} : keyword.is .forWord → left.is .leftParen →
      Initializer first initializer → Optionally test condition → semicolon.is .semicolon →
      Optionally step increment → right.is .rightParen → Statement strict tokens body dangling →
      Statement strict
        (keyword :: left :: (first ++ (test ++ semicolon :: (step ++ right :: tokens))))
        (preceded (.loop (condition.getD (.literal (.bool true))) (followed body increment))
          initializer) dangling
  | conditional {keyword left right : Token} {test tokens : List Token} {condition : Expr}
      {thenBranch : Stmt} {dangling : Bool} : keyword.is .ifWord → left.is .leftParen →
      Expression test condition → right.is .rightParen →
      Statement strict tokens thenBranch dangling →
      Statement strict (keyword :: left :: (test ++ right :: tokens))
        (.conditional condition thenBranch none) true
  | alternative {keyword left right other : Token} {test first second : List Token}
      {condition : Expr} {thenBranch elseBranch : Stmt} {dangling dangling' : Bool} :
      keyword.is .ifWord → left.is .leftParen → Expression test condition →
      right.is .rightParen → Statement strict first thenBranch dangling →
      (strict = true → dangling = false) → other.is .elseWord →
      Statement strict second elseBranch dangling' →
      Statement strict (keyword :: left :: (test ++ right :: (first ++ other :: second)))
        (.conditional condition thenBranch (some elseBranch)) dangling'

inductive Declaration (strict : Bool) : List Token → Stmt → Prop
  | function {keyword name left right leftBrace rightBrace : Token}
      {names tokens parameters : List Token} {body : List Stmt} : keyword.is .funWord →
      name.is .identifier → left.is .leftParen → ParameterList names parameters →
      right.is .rightParen → leftBrace.is .leftBrace → Declarations strict tokens body →
      rightBrace.is .rightBrace →
      Declaration strict
        (keyword :: name :: left :: (names ++ right :: leftBrace :: (tokens ++ [rightBrace])))
        (.function name parameters body)
  | var {tokens : List Token} {stmt : Stmt} : VariableDeclaration tokens stmt →
      Declaration strict tokens stmt
  | statement {tokens : List Token} {stmt : Stmt} {dangling : Bool} :
      Statement strict tokens stmt dangling → Declaration strict tokens stmt

/-- `declaration*`. -/
inductive Declarations (strict : Bool) : List Token → List Stmt → Prop
  | nil : Declarations strict [] []
  | cons {first rest : List Token} {stmt : Stmt} {statements : List Stmt} :
      Declaration strict first stmt → Declarations strict rest statements →
      Declarations strict (first ++ rest) (stmt :: statements)

end

/-- The tokens of a program, without the end of input. -/
abbrev Program (strict : Bool) (tokens : List Token) (statements : List Stmt) : Prop :=
  Declarations strict tokens statements

end LexicalScript.Grammar
