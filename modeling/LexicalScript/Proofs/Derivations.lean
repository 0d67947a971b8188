import LexicalScript.Proofs.Grammar
import LexicalScript.Proofs.Reading

/-!
Derivations of the grammar.

What a derivation can start with, which tokens derive the name alone, and how an `else` that goes
with an outer `if` is moved to the nearest one.
-/

set_option autoImplicit false

namespace LexicalScript.Grammar

/-! ### Levels -/

theorem Row.parts {level operand : Parser.Level} {operators : List Mark}
    {node : Expr → Token → Expr → Expr} (row : Row level operand operators node) :
    level.tighter? = some operand ∧ level.operators = operators ∧ level.join = node := by
  cases row <;> exact ⟨rfl, rfl, rfl⟩

theorem row_of_tighter {level operand : Parser.Level} (tighter : level.tighter? = some operand) :
    Row level operand level.operators level.join := by
  cases level <;> cases tighter
  · exact .disjunction
  · exact .conjunction
  · exact .equality
  · exact .comparison
  · exact .term
  · exact .factor

theorem Joined.tree_eq {operand : Parser.Level} {operators : List Mark}
    {node : Expr → Token → Expr → Expr} {left tree : Expr} {tokens : List Token} :
    Joined operand operators node left tokens tree →
      (tokens = [] ∧ tree = left) ∨ ∃ first operator second, tree = node first operator second
  | .done => Or.inl ⟨rfl, rfl⟩
  | .more _ _ _ joined => by
      rcases joined.tree_eq with ⟨_, same⟩ | made
      · exact Or.inr ⟨_, _, _, same⟩
      · exact Or.inr made

theorem Suffixed.tree_eq {operand tree : Expr} {tokens : List Token} :
    Suffixed operand tokens tree → (tokens = [] ∧ tree = operand) ∨
      (∃ callee paren arguments, tree = .call callee paren arguments) ∨
      ∃ object bracket position, tree = .index object bracket position
  | .done => Or.inl ⟨rfl, rfl⟩
  | .callNone _ _ suffixed | .call _ _ _ _ suffixed => by
      rcases suffixed.tree_eq with ⟨_, same⟩ | made
      · exact Or.inr (Or.inl ⟨_, _, _, same⟩)
      · exact Or.inr made
  | .index _ _ _ suffixed => by
      rcases suffixed.tree_eq with ⟨_, same⟩ | made
      · exact Or.inr (Or.inr ⟨_, _, _, same⟩)
      · exact Or.inr made

/-- Only the name itself derives an occurrence of a name. -/
theorem Operand.of_reference {level : Parser.Level} {tokens : List Token} {tree : Expr} :
    Operand level tokens tree → ∀ {name : Token} {depth : Option Nat},
      tree = .reference name depth → tokens = [name] ∧ name.is .identifier = true
  | @Operand.row _ _ _ _ before _ left _ entry first joined, name, depth, same => by
      have inner : left = .reference name depth → before = [name] ∧ name.is .identifier = true :=
        first.of_reference
      rcases joined.tree_eq with ⟨rfl, rfl⟩ | ⟨left, operator, right, made⟩
      · rw [List.append_nil]
        exact inner same
      · rw [same] at made
        cases entry <;> cases made
  | .unary _ _, name, depth, same => by cases same
  | .call first suffixed, name, depth, same => by
      rcases suffixed.tree_eq with ⟨rfl, rfl⟩ | ⟨_, _, _, made⟩ | ⟨_, _, _, made⟩
      · rw [List.append_nil]
        subst same
        cases first with
        | atom atom =>
            cases atom with
            | name own => exact ⟨rfl, own⟩
      · cases same.symm.trans made
      · cases same.symm.trans made

theorem Operand.ofPrimary {tokens : List Token} {tree : Expr} (primary : Primary tokens tree)
    (level : Parser.Level) : Operand level tokens tree := by
  have lift : ∀ {level operand : Parser.Level} {operators : List Mark}
      {node : Expr → Token → Expr → Expr}, Row level operand operators node →
      Operand operand tokens tree → Operand level tokens tree := by
    intro level operand operators node entry first
    have joined := Operand.row entry first .done
    rw [List.append_nil] at joined
    exact joined
  have unary : Operand .prefixed tokens tree := by
    have called := Operand.call primary .done
    rw [List.append_nil] at called
    exact called
  have factor := lift .factor unary
  have term := lift .term factor
  have comparison := lift .comparison term
  have equality := lift .equality comparison
  have conjunction := lift .conjunction equality
  cases level with
  | disjunction => exact lift .disjunction conjunction
  | conjunction => exact conjunction
  | equality => exact equality
  | comparison => exact comparison
  | term => exact term
  | factor => exact factor
  | prefixed => exact unary

/-! ### First tokens -/

/-- The marks that a primary expression can start with. -/
def primaries : List Mark :=
  [.trueWord, .falseWord, .nilWord, .identifier, .leftParen, .leftBracket]

/-- The marks that an expression can start with. -/
def openings : List Mark := .bang :: .minus :: primaries

/-- The marks that a statement can start with. -/
def beginnings : List Mark :=
  [.printWord, .returnWord, .leftBrace, .whileWord, .forWord, .ifWord] ++ openings

/-- The tokens start with one of the marks, or with a number or a string. -/
def Starts (marks : List Mark) (tokens : List Token) : Prop :=
  ∃ token rest, tokens = token :: rest ∧ ∀ mark, token.is mark = true → mark ∈ marks

namespace Starts

variable {marks : List Mark} {tokens : List Token}

theorem of_mark {token : Token} {mark : Mark} (own : token.is mark = true)
    (member : mark ∈ marks) (rest : List Token) : Starts marks (token :: rest) := by
  refine ⟨token, rest, rfl, ?_⟩
  intro other own'
  rw [← Token.is_unique own own']
  exact member

theorem append (starts : Starts marks tokens) (more : List Token) :
    Starts marks (tokens ++ more) := by
  obtain ⟨token, rest, rfl, only⟩ := starts
  exact ⟨token, rest ++ more, rfl, only⟩

theorem mono {others : List Mark} (starts : Starts marks tokens)
    (included : ∀ mark, mark ∈ marks → mark ∈ others) : Starts others tokens := by
  obtain ⟨token, rest, rfl, only⟩ := starts
  exact ⟨token, rest, rfl, fun mark own => included mark (only mark own)⟩

theorem upcoming_is {mark : Mark} (starts : Starts marks tokens) (absent : mark ∉ marks)
    (follow : List Token) : (Parser.upcoming (tokens ++ follow)).is mark = false := by
  obtain ⟨token, rest, rfl, only⟩ := starts
  change token.is mark = false
  cases own : token.is mark with
  | false => rfl
  | true => exact absurd (only mark own) absent

end Starts

theorem Atom.starts {token : Token} {tree : Expr} (atom : Atom token tree) (rest : List Token) :
    Starts primaries (token :: rest) := by
  cases atom with
  | number kind | string kind =>
      refine ⟨token, rest, rfl, ?_⟩
      intro mark own
      cases kind.symm.trans (Token.kind_of_is own)
  | truth own | falsehood own | nothing own | name own => exact .of_mark own (by decide) rest

theorem Primary.starts {tokens : List Token} {tree : Expr} (primary : Primary tokens tree) :
    Starts primaries tokens := by
  cases primary with
  | atom atom => exact atom.starts []
  | grouping own _ _ | listNone own _ | list own _ _ => exact .of_mark own (by decide) _

theorem Operand.starts {level : Parser.Level} {tokens : List Token} {tree : Expr} :
    Operand level tokens tree → Starts openings tokens
  | .row _ first _ => first.starts.append _
  | .unary (Or.inl own) _ => .of_mark own (by decide) _
  | .unary (Or.inr own) _ => .of_mark own (by decide) _
  | .call first _ => (first.starts.mono (by decide)).append _

theorem Expression.starts {tokens : List Token} {tree : Expr}
    (expression : Expression tokens tree) :
    Starts openings tokens := by
  cases expression with
  | assignment own _ _ => exact .of_mark own (by decide) _
  | operation operand => exact operand.starts

theorem Items.starts {tokens : List Token} {exprs : List Expr} (items : Items tokens exprs) :
    Starts openings tokens := by
  cases items with
  | last expression => exact expression.starts
  | more expression _ _ => exact expression.starts.append _

theorem ExpressionStatement.starts {tokens : List Token} {stmt : Stmt}
    (statement : ExpressionStatement tokens stmt) : Starts openings tokens := by
  cases statement with
  | mk expression _ => exact expression.starts.append _

theorem VariableDeclaration.keyword {tokens : List Token} {stmt : Stmt}
    (declaration : VariableDeclaration tokens stmt) :
    ∃ keyword rest, tokens = keyword :: rest ∧ keyword.is .varWord = true := by
  cases declaration with
  | bare own _ _ | initialized own _ _ _ _ => exact ⟨_, _, rfl, own⟩

theorem VariableDeclaration.starts {tokens : List Token} {stmt : Stmt}
    (declaration : VariableDeclaration tokens stmt) : Starts [.varWord] tokens := by
  obtain ⟨keyword, rest, rfl, own⟩ := declaration.keyword
  exact .of_mark own (by decide) rest

theorem Parameters.starts {tokens names : List Token} (parameters : Parameters tokens names) :
    Starts [.identifier] tokens := by
  cases parameters with
  | last own | more own _ _ => exact .of_mark own (by decide) _

theorem Statement.starts {strict dangling : Bool} {tokens : List Token} {stmt : Stmt}
    (statement : Statement strict tokens stmt dangling) : Starts beginnings tokens := by
  cases statement with
  | expression derived => exact derived.starts.mono fun _ => List.mem_append_right _
  | print own _ _ | returned own _ _ | block own _ _ | loop own _ _ _ _
  | counting own _ _ _ _ _ _ _ | conditional own _ _ _ _ | alternative own _ _ _ _ _ _ _ =>
      exact .of_mark own (by decide) _

theorem Declaration.starts {strict : Bool} {tokens : List Token} {stmt : Stmt}
    (declaration : Declaration strict tokens stmt) :
    Starts (.funWord :: .varWord :: beginnings) tokens := by
  cases declaration with
  | function own _ _ _ _ _ _ _ => exact .of_mark own (by decide) _
  | var derived => exact derived.starts.mono (by decide)
  | statement derived => exact derived.starts.mono (by decide)

/-! ### The nearest `if` -/

/-- An open statement takes the `else` behind it, at its innermost open `if`. -/
theorem Statement.absorb {other : Token} {second : List Token} {elseBranch : Stmt} {after : Bool}
    (isElse : other.is .elseWord = true) (alternative : Statement true second elseBranch after) :
    ∀ {tokens : List Token} {stmt : Stmt} {dangling : Bool},
      Statement true tokens stmt dangling → dangling = true →
      ∃ tree open', Statement true (tokens ++ other :: second) tree open'
  | _, _, _, .expression _ => fun still => nomatch still
  | _, _, _, .print _ _ _ => fun still => nomatch still
  | _, _, _, .returned _ _ _ => fun still => nomatch still
  | _, _, _, .block _ _ _ => fun still => nomatch still
  | _, _, _, .loop isKeyword isLeft test isRight body => fun still => by
      obtain ⟨tree, open', absorbed⟩ := Statement.absorb isElse alternative body still
      simp only [List.cons_append, List.append_assoc]
      exact ⟨_, _, .loop isKeyword isLeft test isRight absorbed⟩
  | _, _, _, .counting isKeyword isLeft start test isSemicolon step isRight body => fun still => by
      obtain ⟨tree, open', absorbed⟩ := Statement.absorb isElse alternative body still
      simp only [List.cons_append, List.append_assoc]
      exact ⟨_, _, .counting isKeyword isLeft start test isSemicolon step isRight absorbed⟩
  | _, _, _, @Statement.conditional _ _ _ _ _ _ _ _ inner isKeyword isLeft test isRight branch =>
      fun _ => by
      have deeper := Statement.absorb isElse alternative branch
      simp only [List.cons_append, List.append_assoc]
      cases inner with
      | false =>
          exact ⟨_, _, .alternative isKeyword isLeft test isRight branch (fun _ => rfl) isElse
            alternative⟩
      | true =>
          obtain ⟨tree, open', absorbed⟩ := deeper rfl
          exact ⟨_, _, .conditional isKeyword isLeft test isRight absorbed⟩
  | _, _, _, .alternative isKeyword isLeft test isRight branch nearest isElse' branch' =>
      fun still => by
      obtain ⟨tree, open', absorbed⟩ := Statement.absorb isElse alternative branch' still
      simp only [List.cons_append, List.append_assoc]
      exact ⟨_, _, .alternative isKeyword isLeft test isRight branch nearest isElse' absorbed⟩

mutual

/-- What derives in some way derives with every `else` at the nearest open `if`. -/
theorem Statement.nearest : ∀ {tokens : List Token} {stmt : Stmt} {dangling : Bool},
    Statement false tokens stmt dangling → ∃ tree open', Statement true tokens tree open'
  | _, _, _, .expression statement => ⟨_, _, .expression statement⟩
  | _, _, _, .print isKeyword expression isSemicolon =>
      ⟨_, _, .print isKeyword expression isSemicolon⟩
  | _, _, _, .returned isKeyword value isSemicolon =>
      ⟨_, _, .returned isKeyword value isSemicolon⟩
  | _, _, _, .block isLeft body isRight => by
      obtain ⟨trees, derived⟩ := body.nearest
      exact ⟨_, _, .block isLeft derived isRight⟩
  | _, _, _, .loop isKeyword isLeft test isRight body => by
      obtain ⟨tree, open', derived⟩ := body.nearest
      exact ⟨_, _, .loop isKeyword isLeft test isRight derived⟩
  | _, _, _, .counting isKeyword isLeft start test isSemicolon step isRight body => by
      obtain ⟨tree, open', derived⟩ := body.nearest
      exact ⟨_, _, .counting isKeyword isLeft start test isSemicolon step isRight derived⟩
  | _, _, _, .conditional isKeyword isLeft test isRight branch => by
      obtain ⟨tree, open', derived⟩ := branch.nearest
      exact ⟨_, _, .conditional isKeyword isLeft test isRight derived⟩
  | _, _, _, .alternative isKeyword isLeft test isRight branch _ isElse branch' => by
      obtain ⟨tree, open', derived⟩ := branch.nearest
      obtain ⟨tree', after, derived'⟩ := branch'.nearest
      cases open' with
      | false =>
          exact ⟨_, _, .alternative isKeyword isLeft test isRight derived (fun _ => rfl) isElse
            derived'⟩
      | true =>
          obtain ⟨moved, still, absorbed⟩ := Statement.absorb isElse derived' derived rfl
          exact ⟨_, _, .conditional isKeyword isLeft test isRight absorbed⟩

theorem Declaration.nearest : ∀ {tokens : List Token} {stmt : Stmt},
    Declaration false tokens stmt → ∃ tree, Declaration true tokens tree
  | _, _, .function isKeyword isName isLeft names isRight isLeftBrace body isRightBrace => by
      obtain ⟨trees, derived⟩ := body.nearest
      exact ⟨_, .function isKeyword isName isLeft names isRight isLeftBrace derived isRightBrace⟩
  | _, _, .var declaration => ⟨_, .var declaration⟩
  | _, _, .statement statement => by
      obtain ⟨tree, open', derived⟩ := statement.nearest
      exact ⟨tree, .statement derived⟩

theorem Declarations.nearest : ∀ {tokens : List Token} {statements : List Stmt},
    Declarations false tokens statements → ∃ trees, Declarations true tokens trees
  | _, _, .nil => ⟨[], .nil⟩
  | _, _, .cons first rest => by
      obtain ⟨tree, derived⟩ := first.nearest
      obtain ⟨trees, derived'⟩ := rest.nearest
      exact ⟨tree :: trees, .cons derived derived'⟩

end

end LexicalScript.Grammar
