import LexicalScript.Proofs.Derivations
import LexicalScript.Proofs.ParserRuns

/-!
What parses without an error derives from the grammar.

The relations of the grammar are kept by its productions in the form that the parser has them in, so
a rule that ends before any error was recorded has taken tokens that derive its result.  Where an
`else` may follow, the rule takes it, so the derivation is the strict one.
-/

set_option autoImplicit false

namespace LexicalScript

namespace Grammar

theorem Atom.of_literal {token : Token} {value : Literal}
    (found : token.kind.literal? = some value) : Atom token (.literal value) := by
  cases kind : token.kind with
  | number number =>
      rw [kind] at found
      cases found
      exact .number kind
  | string text =>
      rw [kind] at found
      cases found
      exact .string kind
  | mark mark =>
      have own := Token.is_of_kind kind
      rw [kind] at found
      cases mark <;> cases found
      · exact .falsehood own
      · exact .nothing own
      · exact .truth own

/-- Items, or none at all. -/
def ItemList (tokens : List Token) (exprs : List Expr) : Prop :=
  tokens = [] ∧ exprs = [] ∨ Items tokens exprs

section

variable {tokens rest : List Token} {left right : Token}

theorem Suffixed.ofItems {callee tree : Expr} {arguments : List Expr}
    (isLeft : left.is .leftParen = true) (items : ItemList tokens arguments)
    (few : arguments.length ≤ 255) (isRight : right.is .rightParen = true)
    (suffixed : Suffixed (.call callee right arguments) rest tree) :
    Suffixed callee (left :: (tokens ++ right :: rest)) tree := by
  rcases items with ⟨rfl, rfl⟩ | items
  · exact .callNone isLeft isRight suffixed
  · exact .call isLeft items few isRight suffixed

theorem Primary.ofItems {elements : List Expr} (isLeft : left.is .leftBracket = true)
    (items : ItemList tokens elements) (isRight : right.is .rightBracket = true) :
    Primary (left :: (tokens ++ [right])) (.list left elements) := by
  rcases items with ⟨rfl, rfl⟩ | items
  · exact .listNone isLeft isRight
  · exact .list isLeft items isRight

end

/-- The operators and operands of a row behind its first operand. -/
def JoinedAt (level : Parser.Level) (left : Expr) (tokens : List Token) (tree : Expr) : Prop :=
  ∀ operand, level.tighter? = some operand →
    Joined operand level.operators level.join left tokens tree

theorem JoinedAt.more {level tighter : Parser.Level} {left right tree : Expr} {operator : Token}
    {first rest : List Token} (found : level.tighter? = some tighter)
    (own : level.operators.any operator.is = true) (operand : Operand tighter first right)
    (joined : JoinedAt level (level.join left operator right) rest tree) :
    JoinedAt level left (operator :: (first ++ rest)) tree := by
  intro other found'
  obtain rfl : tighter = other := Option.some.inj (found.symm.trans found')
  obtain ⟨mark, member, isMark⟩ := List.any_eq_true.mp own
  exact .more member isMark operand (joined tighter found)

end Grammar

open Grammar

namespace Parser

theorem counting_eq (initializer : Option Stmt) (condition increment : Option Expr)
    (body : Stmt) :
    counting initializer condition increment body =
      preceded (.loop (condition.getD (.literal (.bool true))) (followed body increment))
        initializer := by
  unfold counting followed preceded
  cases increment <;> cases initializer <;> rfl

/-- The relations of the grammar, in the plain reading or in the strict one. -/
def derivations (strict : Bool) : GrammarLaws False where
  expression := Expression
  operand := Operand
  joined := JoinedAt
  suffixed := Suffixed
  items := Items
  itemList := ItemList
  primary := Primary
  optional := Optionally
  variableDeclaration := VariableDeclaration
  expressionStatement := ExpressionStatement
  initializer := Initializer
  parameters := Parameters
  parameterList := ParameterList
  statement := Statement strict
  declaration := Declaration strict
  declarations := Declarations strict
  assignment operand own expression := by
    obtain ⟨rfl, identifier⟩ := operand.of_reference rfl
    exact .assignment identifier own expression
  operation := .operation
  row found operand joined := .row (row_of_tighter found) operand (joined _ found)
  joinedDone _ _ := .done
  joinedMore := JoinedAt.more
  unary own operand := .unary (by simpa [unaryMarks] using own) operand
  applied := .call
  suffixedDone := .done
  call isLeft items few := Suffixed.ofItems isLeft items (few.resolve_left id)
  index := .index
  itemsLast := .last
  itemsMore := .more
  noItems := .inl ⟨rfl, rfl⟩
  someItems := .inr
  literal found := .atom (.of_literal found)
  reference own := .atom (.name own)
  grouping := .grouping
  list := Primary.ofItems
  absent := .absent
  present := .present
  bare := .bare
  initialized := .initialized
  evaluated := .mk
  noInitializer := .none
  declaringInitializer := .declaration
  evaluatingInitializer := .expression
  parametersLast := .last
  parametersMore := .more
  noParameters := .none
  someParameters parameters few := .some parameters (few.resolve_left id)
  plain := .expression
  print := .print
  returned := .returned
  block := .block
  loop := .loop
  counting isKeyword isLeft start test isSemicolon step isRight body := by
    rw [counting_eq]
    exact .counting isKeyword isLeft start test isSemicolon step isRight body
  conditional := .conditional
  alternative isKeyword isLeft test isRight branch :=
    .alternative isKeyword isLeft test isRight branch fun _ => rfl
  function := .function
  declared := .var
  executed := .statement
  declarationsNil := .nil
  declarationsCons := .cons
  leftOut reports := reports.elim

end Parser

end LexicalScript
