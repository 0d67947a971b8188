import LexicalScript.Parser.Statement
import LexicalScript.Proofs.Reading

/-!
What the productions of the grammar keep.

A rule of the parser puts its result together from tokens that it takes and from what other rules
return, as one of the productions does.  So relations between tokens and trees that every production
keeps hold of every rule.  A property of trees alone gives such relations, and so does the grammar
itself.  The parser also goes on behind errors that it has reported; whether that counts is left to
the relations.
-/

set_option autoImplicit false

namespace LexicalScript

/-- The name that a statement adds to the scope it stands in. -/
def Stmt.declared? : Stmt → Option Token
  | .var name _ => some name
  | .function name _ _ => some name
  | _ => none

/-- The operators that stand in front of their operand. -/
def unaryMarks : List Mark := [.bang, .minus]

/-- The operators that may settle their result by the left operand. -/
def logicalMarks : List Mark := [.andWord, .orWord]

/-- The operators that look at both of their operands. -/
def binaryMarks : List Mark :=
  [.plus, .minus, .star, .slash, .greater, .greaterEqual, .less, .lessEqual, .equalEqual,
    .bangEqual]

/-- The value that a token of this kind is as an expression. -/
def Kind.literal? : Kind → Option Literal
  | .number value => some (.number value)
  | .string value => some (.string value)
  | .mark .falseWord => some (.bool false)
  | .mark .trueWord => some (.bool true)
  | .mark .nilWord => some .nil
  | _ => none

/-! ### Properties of trees -/

/-- A property of expressions and one of statements, kept by every way of putting a tree together
from known tokens. -/
structure TreeLaws (known : Token → Prop) where
  expr : Expr → Prop
  stmt : Stmt → Prop
  literal : ∀ {token value}, known token → token.kind.literal? = some value →
    expr (.literal value)
  /-- The condition of a counting loop that has none. -/
  always : expr (.literal (.bool true))
  unary : ∀ {operator operand}, known operator → unaryMarks.any operator.is = true →
    expr operand → expr (.unary operator operand)
  binary : ∀ {left operator right}, known operator → binaryMarks.any operator.is = true →
    expr left → expr right → expr (.binary left operator right)
  logical : ∀ {left operator right}, known operator → logicalMarks.any operator.is = true →
    expr left → expr right → expr (.logical left operator right)
  grouping : ∀ {inner}, expr inner → expr (.grouping inner)
  reference : ∀ {name}, known name → name.is .identifier = true → expr (.reference name none)
  assign : ∀ {name depth value}, expr (.reference name depth) → expr value →
    expr (.assign name value none)
  call : ∀ {callee paren arguments}, expr callee → known paren → paren.is .rightParen = true →
    (∀ argument, argument ∈ arguments → expr argument) → expr (.call callee paren arguments)
  list : ∀ {bracket elements}, known bracket → bracket.is .leftBracket = true →
    (∀ element, element ∈ elements → expr element) → expr (.list bracket elements)
  index : ∀ {object bracket position}, expr object → known bracket →
    bracket.is .rightBracket = true → expr position → expr (.index object bracket position)
  expression : ∀ {inner}, expr inner → stmt (.expression inner)
  print : ∀ {inner}, expr inner → stmt (.print inner)
  var : ∀ {name initializer}, known name → name.is .identifier = true →
    (∀ value, initializer = some value → expr value) → stmt (.var name initializer)
  block : ∀ {body}, (∀ inner, inner ∈ body → stmt inner) → stmt (.block body)
  conditional : ∀ {condition thenBranch elseBranch}, expr condition →
    stmt thenBranch ∧ thenBranch.declared? = none →
    (∀ other, elseBranch = some other → stmt other ∧ other.declared? = none) →
    stmt (.conditional condition thenBranch elseBranch)
  loop : ∀ {condition body}, expr condition → stmt body ∧ body.declared? = none →
    stmt (.loop condition body)
  function : ∀ {name parameters body}, known name → name.is .identifier = true →
    (∀ parameter, parameter ∈ parameters → known parameter ∧ parameter.is .identifier = true) →
    (∀ inner, inner ∈ body → stmt inner) → stmt (.function name parameters body)
  returnValue : ∀ {keyword value}, known keyword → keyword.is .returnWord = true →
    (∀ inner, value = some inner → expr inner) → stmt (.returnValue keyword value)

namespace TreeLaws

variable {known : Token → Prop}

/-- Nothing is asked of the trees. -/
def free : TreeLaws known where
  expr _ := True
  stmt _ := True
  literal _ _ := trivial
  always := trivial
  unary _ _ _ := trivial
  binary _ _ _ _ := trivial
  logical _ _ _ _ := trivial
  grouping _ := trivial
  reference _ _ := trivial
  assign _ _ := trivial
  call _ _ _ _ := trivial
  list _ _ _ := trivial
  index _ _ _ _ := trivial
  expression _ := trivial
  print _ := trivial
  var _ _ _ := trivial
  block _ := trivial
  conditional _ _ _ := trivial
  loop _ _ := trivial
  function _ _ _ _ := trivial
  returnValue _ _ _ := trivial

variable (laws : TreeLaws known)

/-- The property of statements, for one that may stand alone as a branch or the body of a loop. -/
def Alone (stmt : Stmt) : Prop := laws.stmt stmt ∧ stmt.declared? = none

theorem pair {first second : Stmt} (held : laws.stmt first) (held' : laws.stmt second) :
    laws.Alone (.block [first, second]) :=
  ⟨laws.block (List.forall_mem_cons.mpr ⟨held, List.forall_mem_singleton.mpr held'⟩), rfl⟩

/-- A counting loop is a loop or a block, and its parts are the clauses it was given. -/
theorem counting {initializer : Option Stmt} {condition increment : Option Expr} {body : Stmt}
    (first : ∀ stmt, initializer = some stmt → laws.stmt stmt)
    (test : ∀ expr, condition = some expr → laws.expr expr)
    (last : ∀ expr, increment = some expr → laws.expr expr) (alone : laws.Alone body) :
    laws.Alone (Parser.counting initializer condition increment body) := by
  have tested : laws.expr (condition.getD (.literal (.bool true))) := by
    cases condition with
    | none => exact laws.always
    | some expr => exact test expr rfl
  have looped {step : Stmt} (held : laws.Alone step) := laws.loop tested held
  unfold Parser.counting
  cases increment with
  | none =>
      cases initializer with
      | none => exact ⟨looped alone, rfl⟩
      | some stmt => exact laws.pair (first stmt rfl) (looped alone)
  | some increment =>
      have stepped := looped (laws.pair alone.1 (laws.expression (last increment rfl)))
      cases initializer with
      | none => exact ⟨stepped, rfl⟩
      | some stmt => exact laws.pair (first stmt rfl) stepped

/-- The node that an operator makes of its operands at a level. -/
theorem join (current : Parser.Level) {left right : Expr} {operator : Token}
    (seen : known operator) (own : current.operators.any operator.is = true)
    (held : laws.expr left) (held' : laws.expr right) :
    laws.expr (current.join left operator right) := by
  have among {marks : List Mark} (included : ∀ mark, mark ∈ current.operators → mark ∈ marks) :
      marks.any operator.is = true := by
    obtain ⟨mark, member, isMark⟩ := List.any_eq_true.mp own
    exact List.any_eq_true.mpr ⟨mark, included mark member, isMark⟩
  cases current with
  | disjunction | conjunction => exact laws.logical seen (among (by decide)) held held'
  | equality | comparison | term | factor =>
      exact laws.binary seen (among (by decide)) held held'
  | prefixed => cases own

end TreeLaws

/-! ### Relations between tokens and trees -/

/-- A relation for each nonterminal of the grammar, between the tokens that a rule takes and what it
returns, kept by every production.  Where `reports` holds, lists may also be too long and
declarations may be left out. -/
structure GrammarLaws (reports : Prop) where
  expression : List Token → Expr → Prop
  operand : Parser.Level → List Token → Expr → Prop
  /-- Operators and operands behind a left operand. -/
  joined : Parser.Level → Expr → List Token → Expr → Prop
  /-- Calls and element accesses behind an operand. -/
  suffixed : Expr → List Token → Expr → Prop
  items : List Token → List Expr → Prop
  itemList : List Token → List Expr → Prop
  primary : List Token → Expr → Prop
  optional : List Token → Option Expr → Prop
  variableDeclaration : List Token → Stmt → Prop
  expressionStatement : List Token → Stmt → Prop
  initializer : List Token → Option Stmt → Prop
  parameters : List Token → List Token → Prop
  parameterList : List Token → List Token → Prop
  /-- The flag tells whether an `else` behind the statement would belong to it. -/
  statement : List Token → Stmt → Bool → Prop
  declaration : List Token → Stmt → Prop
  declarations : List Token → List Stmt → Prop
  assignment : ∀ {first rest equals name depth value},
    operand .disjunction first (.reference name depth) → equals.is .equal = true →
    expression rest value → expression (first ++ equals :: rest) (.assign name value none)
  operation : ∀ {tokens tree}, operand .disjunction tokens tree → expression tokens tree
  row : ∀ {level tighter first rest left tree}, level.tighter? = some tighter →
    operand tighter first left → joined level left rest tree → operand level (first ++ rest) tree
  joinedDone : ∀ {level left}, joined level left [] left
  joinedMore : ∀ {level tighter left operator first right rest tree},
    level.tighter? = some tighter → level.operators.any operator.is = true →
    operand tighter first right → joined level (level.join left operator right) rest tree →
    joined level left (operator :: (first ++ rest)) tree
  unary : ∀ {operator tokens tree}, unaryMarks.any operator.is = true →
    operand .prefixed tokens tree → operand .prefixed (operator :: tokens) (.unary operator tree)
  applied : ∀ {first rest operand' tree}, primary first operand' → suffixed operand' rest tree →
    operand .prefixed (first ++ rest) tree
  suffixedDone : ∀ {operand}, suffixed operand [] operand
  call : ∀ {callee left tokens arguments right rest tree}, left.is .leftParen = true →
    itemList tokens arguments → reports ∨ arguments.length ≤ Parser.maximalArity →
    right.is .rightParen = true → suffixed (.call callee right arguments) rest tree →
    suffixed callee (left :: (tokens ++ right :: rest)) tree
  index : ∀ {object left tokens position right rest tree}, left.is .leftBracket = true →
    expression tokens position → right.is .rightBracket = true →
    suffixed (.index object right position) rest tree →
    suffixed object (left :: (tokens ++ right :: rest)) tree
  itemsLast : ∀ {tokens expr}, expression tokens expr → items tokens [expr]
  itemsMore : ∀ {tokens expr comma rest exprs}, expression tokens expr →
    comma.is .comma = true → items rest exprs → items (tokens ++ comma :: rest) (expr :: exprs)
  noItems : itemList [] []
  someItems : ∀ {tokens exprs}, items tokens exprs → itemList tokens exprs
  literal : ∀ {token value}, token.kind.literal? = some value → primary [token] (.literal value)
  reference : ∀ {name}, name.is .identifier = true → primary [name] (.reference name none)
  grouping : ∀ {left tokens inner right}, left.is .leftParen = true → expression tokens inner →
    right.is .rightParen = true → primary (left :: (tokens ++ [right])) (.grouping inner)
  list : ∀ {left tokens elements right}, left.is .leftBracket = true →
    itemList tokens elements → right.is .rightBracket = true →
    primary (left :: (tokens ++ [right])) (.list left elements)
  absent : optional [] none
  present : ∀ {tokens expr}, expression tokens expr → optional tokens (some expr)
  bare : ∀ {keyword name semicolon}, keyword.is .varWord = true → name.is .identifier = true →
    semicolon.is .semicolon = true →
    variableDeclaration [keyword, name, semicolon] (.var name none)
  initialized : ∀ {keyword name equals tokens value semicolon}, keyword.is .varWord = true →
    name.is .identifier = true → equals.is .equal = true → expression tokens value →
    semicolon.is .semicolon = true →
    variableDeclaration (keyword :: name :: equals :: (tokens ++ [semicolon]))
      (.var name (some value))
  evaluated : ∀ {tokens expr semicolon}, expression tokens expr → semicolon.is .semicolon = true →
    expressionStatement (tokens ++ [semicolon]) (.expression expr)
  noInitializer : ∀ {semicolon}, semicolon.is .semicolon = true → initializer [semicolon] none
  declaringInitializer : ∀ {tokens stmt}, variableDeclaration tokens stmt →
    initializer tokens (some stmt)
  evaluatingInitializer : ∀ {tokens stmt}, expressionStatement tokens stmt →
    initializer tokens (some stmt)
  parametersLast : ∀ {name}, name.is .identifier = true → parameters [name] [name]
  parametersMore : ∀ {name comma rest names}, name.is .identifier = true →
    comma.is .comma = true → parameters rest names →
    parameters (name :: comma :: rest) (name :: names)
  noParameters : parameterList [] []
  someParameters : ∀ {tokens names}, parameters tokens names →
    reports ∨ names.length ≤ Parser.maximalArity → parameterList tokens names
  plain : ∀ {tokens stmt}, expressionStatement tokens stmt → statement tokens stmt false
  print : ∀ {keyword tokens expr semicolon}, keyword.is .printWord = true →
    expression tokens expr → semicolon.is .semicolon = true →
    statement (keyword :: (tokens ++ [semicolon])) (.print expr) false
  returned : ∀ {keyword tokens value semicolon}, keyword.is .returnWord = true →
    optional tokens value → semicolon.is .semicolon = true →
    statement (keyword :: (tokens ++ [semicolon])) (.returnValue keyword value) false
  block : ∀ {left tokens body right}, left.is .leftBrace = true → declarations tokens body →
    right.is .rightBrace = true → statement (left :: (tokens ++ [right])) (.block body) false
  loop : ∀ {keyword left test condition right tokens body dangling},
    keyword.is .whileWord = true → left.is .leftParen = true → expression test condition →
    right.is .rightParen = true → statement tokens body dangling →
    statement (keyword :: left :: (test ++ right :: tokens)) (.loop condition body) dangling
  counting : ∀ {keyword left first start test condition semicolon step increment right tokens body
      dangling}, keyword.is .forWord = true → left.is .leftParen = true →
    initializer first start → optional test condition → semicolon.is .semicolon = true →
    optional step increment → right.is .rightParen = true → statement tokens body dangling →
    statement (keyword :: left :: (first ++ (test ++ semicolon :: (step ++ right :: tokens))))
      (Parser.counting start condition increment body) dangling
  conditional : ∀ {keyword left test condition right tokens thenBranch dangling},
    keyword.is .ifWord = true → left.is .leftParen = true → expression test condition →
    right.is .rightParen = true → statement tokens thenBranch dangling →
    statement (keyword :: left :: (test ++ right :: tokens))
      (.conditional condition thenBranch none) true
  /-- The first branch would not take the `else` itself. -/
  alternative : ∀ {keyword left test condition right first thenBranch other second elseBranch
      dangling}, keyword.is .ifWord = true → left.is .leftParen = true →
    expression test condition → right.is .rightParen = true → statement first thenBranch false →
    other.is .elseWord = true → statement second elseBranch dangling →
    statement (keyword :: left :: (test ++ right :: (first ++ other :: second)))
      (.conditional condition thenBranch (some elseBranch)) dangling
  function : ∀ {keyword name left names parameters right leftBrace tokens body rightBrace},
    keyword.is .funWord = true → name.is .identifier = true → left.is .leftParen = true →
    parameterList names parameters → right.is .rightParen = true → leftBrace.is .leftBrace = true →
    declarations tokens body → rightBrace.is .rightBrace = true →
    declaration
      (keyword :: name :: left :: (names ++ right :: leftBrace :: (tokens ++ [rightBrace])))
      (.function name parameters body)
  declared : ∀ {tokens stmt}, variableDeclaration tokens stmt → declaration tokens stmt
  executed : ∀ {tokens stmt dangling}, statement tokens stmt dangling → declaration tokens stmt
  declarationsNil : declarations [] []
  declarationsCons : ∀ {first stmt rest body}, declaration first stmt → declarations rest body →
    declarations (first ++ rest) (stmt :: body)
  leftOut : ∀ {first rest body}, reports → declarations rest body →
    declarations (first ++ rest) body

theorem eachOfNone {α : Type} {property : α → Prop} :
    ∀ result, (none : Option α) = some result → property result := by
  rintro _ ⟨⟩

theorem eachOfSome {α : Type} {property : α → Prop} {result : α} (held : property result) :
    ∀ other, some result = some other → property other := by
  rintro _ ⟨⟩
  exact held

/-- All of the tokens are known. -/
def Known (known : Token → Prop) (tokens : List Token) : Prop :=
  ∀ token, token ∈ tokens → known token

namespace Known

variable {known : Token → Prop} {token : Token} {first rest : List Token}

theorem head (given : Known known (token :: rest)) : known token :=
  given token List.mem_cons_self

theorem tail (given : Known known (token :: rest)) : Known known rest :=
  (List.forall_mem_cons.mp given).2

theorem left (given : Known known (first ++ rest)) : Known known first :=
  (List.forall_mem_append.mp given).1

theorem right (given : Known known (first ++ rest)) : Known known rest :=
  (List.forall_mem_append.mp given).2

end Known

/-- What the property says of trees whose tokens are known. -/
def TreeLaws.grammar {known : Token → Prop} (laws : TreeLaws known) (reports : Prop) :
    GrammarLaws reports where
  expression tokens tree := Known known tokens → laws.expr tree
  operand _ tokens tree := Known known tokens → laws.expr tree
  joined _ left tokens tree := Known known tokens → laws.expr left → laws.expr tree
  suffixed operand tokens tree := Known known tokens → laws.expr operand → laws.expr tree
  items tokens exprs := Known known tokens → ∀ expr, expr ∈ exprs → laws.expr expr
  itemList tokens exprs := Known known tokens → ∀ expr, expr ∈ exprs → laws.expr expr
  primary tokens tree := Known known tokens → laws.expr tree
  optional tokens found := Known known tokens → ∀ expr, found = some expr → laws.expr expr
  variableDeclaration tokens stmt := Known known tokens → laws.stmt stmt
  expressionStatement tokens stmt := Known known tokens → laws.Alone stmt
  initializer tokens found := Known known tokens → ∀ stmt, found = some stmt → laws.stmt stmt
  parameters tokens names := Known known tokens →
    ∀ name, name ∈ names → known name ∧ name.is .identifier = true
  parameterList tokens names := Known known tokens →
    ∀ name, name ∈ names → known name ∧ name.is .identifier = true
  statement tokens stmt _ := Known known tokens → laws.Alone stmt
  declaration tokens stmt := Known known tokens → laws.stmt stmt
  declarations tokens body := Known known tokens → ∀ stmt, stmt ∈ body → laws.stmt stmt
  assignment target _ value given := laws.assign (target given.left) (value given.right.tail)
  operation operand := operand
  row _ operand joined given := joined given.right (operand given.left)
  joinedDone _ held := held
  joinedMore {level} _ _ _ _ _ _ _ _ own operand joined given held :=
    joined given.tail.right (laws.join level given.head own held (operand given.tail.left))
  unary own operand given := laws.unary given.head own (operand given.tail)
  applied primary suffixed given := suffixed given.right (primary given.left)
  suffixedDone _ held := held
  call _ items _ closes suffixed given held :=
    suffixed given.tail.right.tail
      (laws.call held given.tail.right.head closes (items given.tail.left))
  index _ position closes suffixed given held :=
    suffixed given.tail.right.tail
      (laws.index held given.tail.right.head closes (position given.tail.left))
  itemsLast expression given := List.forall_mem_singleton.mpr (expression given)
  itemsMore expression _ items given :=
    List.forall_mem_cons.mpr ⟨expression given.left, items given.right.tail⟩
  noItems _ _ member := absurd member List.not_mem_nil
  someItems items := items
  literal found given := laws.literal given.head found
  reference own given := laws.reference given.head own
  grouping _ inner _ given := laws.grouping (inner given.tail.left)
  list own items _ given := laws.list given.head own (items given.tail.left)
  absent _ := eachOfNone
  present expression given := eachOfSome (expression given)
  bare _ own _ given := laws.var given.tail.head own eachOfNone
  initialized _ own _ value _ given :=
    laws.var given.tail.head own (eachOfSome (value given.tail.tail.tail.left))
  evaluated expression _ given := ⟨laws.expression (expression given.left), rfl⟩
  noInitializer _ _ := eachOfNone
  declaringInitializer declaration given := eachOfSome (declaration given)
  evaluatingInitializer statement given := eachOfSome (statement given).1
  parametersLast own given := List.forall_mem_singleton.mpr ⟨given.head, own⟩
  parametersMore own _ names given :=
    List.forall_mem_cons.mpr ⟨⟨given.head, own⟩, names given.tail.tail⟩
  noParameters _ _ member := absurd member List.not_mem_nil
  someParameters names _ := names
  plain statement := statement
  print _ expression _ given := ⟨laws.print (expression given.tail.left), rfl⟩
  returned own value _ given := ⟨laws.returnValue given.head own (value given.tail.left), rfl⟩
  block _ body _ given := ⟨laws.block (body given.tail.left), rfl⟩
  loop _ _ test _ body given :=
    ⟨laws.loop (test given.tail.tail.left) (body given.tail.tail.right.tail), rfl⟩
  counting _ _ start test _ step _ body given :=
    laws.counting (start given.tail.tail.left) (test given.tail.tail.right.left)
      (step given.tail.tail.right.right.tail.left)
      (body given.tail.tail.right.right.tail.right.tail)
  conditional _ _ test _ branch given :=
    ⟨laws.conditional (test given.tail.tail.left) (branch given.tail.tail.right.tail) eachOfNone,
      rfl⟩
  alternative _ _ test _ branch _ branch' given :=
    ⟨laws.conditional (test given.tail.tail.left) (branch given.tail.tail.right.tail.left)
      (eachOfSome (branch' given.tail.tail.right.tail.right.tail)), rfl⟩
  function _ own _ names _ _ body _ given :=
    laws.function given.tail.head own (names given.tail.tail.tail.left)
      (body given.tail.tail.tail.right.tail.tail.left)
  declared declaration := declaration
  executed statement given := (statement given).1
  declarationsNil _ _ member := absurd member List.not_mem_nil
  declarationsCons declaration declarations given :=
    List.forall_mem_cons.mpr ⟨declaration given.left, declarations given.right⟩
  leftOut _ declarations given := declarations given.right

/-- Nothing is asked of what is taken and returned. -/
def GrammarLaws.free (reports : Prop) : GrammarLaws reports :=
  (TreeLaws.free : TreeLaws fun _ => True).grammar reports

end LexicalScript
