import LexicalScript.Proofs.JoinedTexts
import LexicalScript.Proofs.Parsing

/-!
Parsing a program that goes on with another one.

The grammar does not look at lines, so a derivation stays one when its tokens are renumbered, and
the derivations of two programs make up one of the programs behind each other.  The joined text of
two texts that parse has the statements of both.
-/

set_option autoImplicit false

namespace LexicalScript.Grammar

/-! ### Renumbered derivations -/

variable {lines : Nat → Nat} {strict : Bool}

theorem Row.retouch {level operand : Parser.Level} {operators : List Mark}
    {node : Expr → Token → Expr → Expr} (row : Row level operand operators node)
    (change : Retouch) (left right : Expr) (operator : Token) :
    (node left operator right).retouch change =
      node (left.retouch change) (change.token operator) (right.retouch change) := by
  cases row <;> rfl

theorem Atom.renumber {token : Token} {tree : Expr} (atom : Atom token tree) :
    Atom (token.renumber lines) (tree.retouch (.lines lines)) := by
  cases atom with
  | number kind => exact .number kind
  | string kind => exact .string kind
  | truth own => exact .truth own
  | falsehood own => exact .falsehood own
  | nothing own => exact .nothing own
  | name own => exact .name own

theorem length_retouchAll (change : Retouch) (exprs : List Expr) :
    (Expr.retouchAll change exprs).length = exprs.length := by
  induction exprs with
  | nil => rfl
  | cons expr rest ih => exact congrArg (· + 1) ih

mutual

theorem Expression.renumber : ∀ {tokens : List Token} {expr : Expr}, Expression tokens expr →
    Expression (tokens.map (Token.renumber lines)) (expr.retouch (.lines lines))
  | _, _, .assignment isName isEqual value => .assignment isName isEqual value.renumber
  | _, _, .operation operand => .operation operand.renumber

theorem Operand.renumber : ∀ {level : Parser.Level} {tokens : List Token} {expr : Expr},
    Operand level tokens expr →
    Operand level (tokens.map (Token.renumber lines)) (expr.retouch (.lines lines))
  | _, _, _, .row row first rest => by
      have renumbered := first.renumber
      have joined := rest.renumber row.retouch
      rw [List.map_append]
      exact .row row renumbered joined
  | _, _, _, .unary isOperator operand => .unary isOperator operand.renumber
  | _, _, _, .call first rest => by
      have renumbered := first.renumber
      have suffixed := rest.renumber
      rw [List.map_append]
      exact .call renumbered suffixed

theorem Joined.renumber : ∀ {operand : Parser.Level} {operators : List Mark}
    {node : Expr → Token → Expr → Expr} {left tree : Expr} {tokens : List Token},
    (∀ (change : Retouch) (left right : Expr) (operator : Token),
      (node left operator right).retouch change =
        node (left.retouch change) (change.token operator) (right.retouch change)) →
    Joined operand operators node left tokens tree →
    Joined operand operators node (left.retouch (.lines lines))
      (tokens.map (Token.renumber lines)) (tree.retouch (.lines lines))
  | _, _, _, _, _, _, _, .done => .done
  | _, _, _, _, _, _, keeps, .more among isOperator right rest => by
      have renumbered := right.renumber
      have joined := rest.renumber keeps
      rw [keeps] at joined
      rw [List.map_cons, List.map_append]
      exact .more among isOperator renumbered joined

theorem Suffixed.renumber : ∀ {operand tree : Expr} {tokens : List Token},
    Suffixed operand tokens tree →
    Suffixed (operand.retouch (.lines lines)) (tokens.map (Token.renumber lines))
      (tree.retouch (.lines lines))
  | _, _, _, .done => .done
  | _, _, _, .callNone isLeft isRight rest => .callNone isLeft isRight rest.renumber
  | _, _, _, .call isLeft items bounded isRight rest => by
      have arguments := items.renumber
      have suffixed := rest.renumber
      rw [← length_retouchAll (.lines lines)] at bounded
      rw [List.map_cons, List.map_append, List.map_cons]
      exact .call isLeft arguments bounded isRight suffixed
  | _, _, _, .index isLeft position isRight rest => by
      have renumbered := position.renumber
      have suffixed := rest.renumber
      rw [List.map_cons, List.map_append, List.map_cons]
      exact .index isLeft renumbered isRight suffixed

theorem Items.renumber : ∀ {tokens : List Token} {exprs : List Expr}, Items tokens exprs →
    Items (tokens.map (Token.renumber lines)) (Expr.retouchAll (.lines lines) exprs)
  | _, _, .last expression => .last expression.renumber
  | _, _, .more expression isComma rest => by
      have renumbered := expression.renumber
      have others := rest.renumber
      rw [List.map_append, List.map_cons]
      exact .more renumbered isComma others

theorem Primary.renumber : ∀ {tokens : List Token} {expr : Expr}, Primary tokens expr →
    Primary (tokens.map (Token.renumber lines)) (expr.retouch (.lines lines))
  | _, _, .atom atom => .atom atom.renumber
  | _, _, .grouping isLeft inner isRight => by
      have renumbered := inner.renumber
      rw [List.map_cons, List.map_append]
      exact .grouping isLeft renumbered isRight
  | _, _, .listNone isLeft isRight => .listNone isLeft isRight
  | _, _, .list isLeft items isRight => by
      have elements := items.renumber
      rw [List.map_cons, List.map_append]
      exact .list isLeft elements isRight

end

theorem Optionally.renumber {tokens : List Token} {expr : Option Expr}
    (optionally : Optionally tokens expr) :
    Optionally (tokens.map (Token.renumber lines)) (Expr.retouchOption (.lines lines) expr) := by
  cases optionally with
  | absent => exact .absent
  | present expression => exact .present expression.renumber

theorem VariableDeclaration.renumber {tokens : List Token} {stmt : Stmt}
    (declaration : VariableDeclaration tokens stmt) :
    VariableDeclaration (tokens.map (Token.renumber lines)) (stmt.retouch (.lines lines)) := by
  cases declaration with
  | bare isKeyword isName isSemicolon => exact .bare isKeyword isName isSemicolon
  | initialized isKeyword isName isEqual value isSemicolon =>
      rw [List.map_cons, List.map_cons, List.map_cons, List.map_append]
      exact .initialized isKeyword isName isEqual value.renumber isSemicolon

theorem ExpressionStatement.renumber {tokens : List Token} {stmt : Stmt}
    (statement : ExpressionStatement tokens stmt) :
    ExpressionStatement (tokens.map (Token.renumber lines)) (stmt.retouch (.lines lines)) := by
  cases statement with
  | mk expression isSemicolon =>
      rw [List.map_append]
      exact .mk expression.renumber isSemicolon

theorem Initializer.renumber {tokens : List Token} {stmt : Option Stmt}
    (initializer : Initializer tokens stmt) :
    Initializer (tokens.map (Token.renumber lines)) (Stmt.retouchOption (.lines lines) stmt) := by
  cases initializer with
  | none isSemicolon => exact .none isSemicolon
  | declaration declaration => exact .declaration declaration.renumber
  | expression statement => exact .expression statement.renumber

theorem Parameters.renumber {tokens names : List Token} (parameters : Parameters tokens names) :
    Parameters (tokens.map (Token.renumber lines)) (names.map (Token.renumber lines)) := by
  induction parameters with
  | last isName => exact .last isName
  | more isName isComma _ ih => exact .more isName isComma ih

theorem ParameterList.renumber {tokens names : List Token}
    (parameters : ParameterList tokens names) :
    ParameterList (tokens.map (Token.renumber lines)) (names.map (Token.renumber lines)) := by
  cases parameters with
  | none => exact .none
  | some parameters bounded =>
      rw [← List.length_map (Token.renumber lines)] at bounded
      exact .some parameters.renumber bounded

theorem counting_retouch (change : Retouch) (body : Stmt) (initializer : Option Stmt)
    (condition increment : Option Expr) :
    (preceded (.loop (condition.getD (.literal (.bool true))) (followed body increment))
      initializer).retouch change =
    preceded (.loop ((Expr.retouchOption change condition).getD (.literal (.bool true)))
      (followed (body.retouch change) (Expr.retouchOption change increment)))
      (Stmt.retouchOption change initializer) := by
  cases initializer <;> cases condition <;> cases increment <;> rfl

mutual

theorem Statement.renumber : ∀ {dangling : Bool} {tokens : List Token} {stmt : Stmt},
    Statement strict tokens stmt dangling →
    Statement strict (tokens.map (Token.renumber lines)) (stmt.retouch (.lines lines)) dangling
  | _, _, _, .expression statement => .expression statement.renumber
  | _, _, _, .print isKeyword expression isSemicolon => by
      rw [List.map_cons, List.map_append]
      exact .print isKeyword expression.renumber isSemicolon
  | _, _, _, .returned isKeyword value isSemicolon => by
      rw [List.map_cons, List.map_append]
      exact .returned isKeyword value.renumber isSemicolon
  | _, _, _, .block isLeft body isRight => by
      have statements := body.renumber
      rw [List.map_cons, List.map_append]
      exact .block isLeft statements isRight
  | _, _, _, .loop isKeyword isLeft test isRight body => by
      have renumbered := body.renumber
      rw [List.map_cons, List.map_cons, List.map_append, List.map_cons]
      exact .loop isKeyword isLeft test.renumber isRight renumbered
  | _, _, _, .counting isKeyword isLeft start test isSemicolon step isRight body => by
      have renumbered := body.renumber
      rw [counting_retouch]
      simp only [List.map_cons, List.map_append]
      exact .counting isKeyword isLeft start.renumber test.renumber isSemicolon step.renumber
        isRight renumbered
  | _, _, _, .conditional isKeyword isLeft test isRight branch => by
      have renumbered := branch.renumber
      rw [List.map_cons, List.map_cons, List.map_append, List.map_cons]
      exact .conditional isKeyword isLeft test.renumber isRight renumbered
  | _, _, _, .alternative isKeyword isLeft test isRight branch nearest isElse branch' => by
      have renumbered := branch.renumber
      have renumbered' := branch'.renumber
      simp only [List.map_cons, List.map_append]
      exact .alternative isKeyword isLeft test.renumber isRight renumbered nearest isElse
        renumbered'

theorem Declaration.renumber : ∀ {tokens : List Token} {stmt : Stmt},
    Declaration strict tokens stmt →
    Declaration strict (tokens.map (Token.renumber lines)) (stmt.retouch (.lines lines))
  | _, _, .function isKeyword isName isLeft names isRight isLeftBrace body isRightBrace => by
      have statements := body.renumber
      simp only [List.map_cons, List.map_append]
      exact .function isKeyword isName isLeft names.renumber isRight isLeftBrace statements
        isRightBrace
  | _, _, .var declaration => .var declaration.renumber
  | _, _, .statement statement => .statement statement.renumber

theorem Declarations.renumber : ∀ {tokens : List Token} {statements : List Stmt},
    Declarations strict tokens statements →
    Declarations strict (tokens.map (Token.renumber lines))
      (Stmt.retouchAll (.lines lines) statements)
  | _, _, .nil => .nil
  | _, _, .cons first rest => by
      have renumbered := first.renumber
      have others := rest.renumber
      rw [List.map_append]
      exact .cons renumbered others

end

theorem Declarations.append {tokens' : List Token} {statements' : List Stmt}
    (second : Declarations strict tokens' statements') :
    ∀ {tokens : List Token} {statements : List Stmt}, Declarations strict tokens statements →
    Declarations strict (tokens ++ tokens') (statements ++ statements')
  | _, _, .nil => second
  | _, _, .cons first rest => by
      have joined := Declarations.append second rest
      rw [List.append_assoc]
      exact .cons first joined

end LexicalScript.Grammar

namespace LexicalScript

/-- Two texts that parse without errors make up one that does, with the statements of both; those of
the second one stand as many lines further down as the first one has, with its line feed. -/
theorem program_joined {first second : String} {tokens tokens' : List Token}
    (scanned : tokens? first = .ok tokens) (clean : (Parser.program tokens).errors = [])
    (scanned' : tokens? second = .ok tokens') (clean' : (Parser.program tokens').errors = []) :
    ∃ joined, tokens? (first ++ "\n" ++ second) = .ok joined ∧
      (Parser.program joined).errors = [] ∧
      (Parser.program joined).statements = (Parser.program tokens).statements ++
        Stmt.retouchAll (.lines (· + (first.toList.count '\n' + 1)))
          (Parser.program tokens').statements := by
  obtain ⟨body, line, rfl, inner⟩ := tokens?_ends scanned
  obtain ⟨body', line', rfl, inner'⟩ := tokens?_ends scanned'
  have derived := Parser.program_sound rfl inner clean true
  have derived' := Parser.program_sound rfl inner' clean' true
  refine ⟨_, tokens?_joined scanned scanned', ?_⟩
  rw [List.map_append, ← List.append_assoc]
  exact Parser.program_complete rfl (derived'.renumber.append derived)

end LexicalScript
