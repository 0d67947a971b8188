import LexicalScript.Proofs.ParserSoundness

/-!
What derives from the grammar parses without an error.

A rule that is given tokens of a derivation, and after them a token that cannot go on with it, takes
exactly these tokens and returns the tree of the derivation, or else runs out of fuel.
-/

set_option autoImplicit false

namespace LexicalScript

open Grammar

namespace Parser

/-- Given the tokens in front of what follows, the rule takes them and returns the result, and
records no error. -/
def Accepts {α : Type} (rule : Parse α) (tokens : List Token) (result : α)
    (follow : List Token) : Prop :=
  ∀ state : State, state.rest = tokens ++ follow → (rule state).Meets
    (fun found final => found = result ∧ final.rest = follow ∧ final.errors = state.errors)
    (fun _ _ => False)

namespace Accepts

variable {α β : Type} {rule : Parse α} {next : α → Parse β} {mark : Mark} {cause : ParseCause}
  {tokens before after follow : List Token} {result : α} {result' : β} {token : Token}

theorem pure : Accepts (Pure.pure result) [] result follow :=
  fun _ rest => ⟨rfl, rest, rfl⟩

theorem exhausted : Accepts .exhausted tokens result follow :=
  fun _ _ => trivial

theorem bind (first : Accepts rule before result (after ++ follow))
    (second : Accepts (next result) after result' follow) :
    Accepts (rule >>= next) (before ++ after) result' follow := by
  intro state rest
  rw [List.append_assoc] at rest
  refine (first state rest).bind ?_
  rintro found middle ⟨rfl, rest', errors⟩
  refine (second middle rest').mono ?_ fun _ _ impossible => impossible
  rintro found' final ⟨same, rest'', errors'⟩
  exact ⟨same, rest'', errors'.trans errors⟩

theorem bindToken (first : Accepts rule [token] result (after ++ follow))
    (second : Accepts (next result) after result' follow) :
    Accepts (rule >>= next) (token :: after) result' follow :=
  bind first second

theorem bindAll (first : Accepts rule tokens result follow)
    (second : Accepts (next result) [] result' follow) :
    Accepts (rule >>= next) tokens result' follow := by
  rw [← List.append_nil tokens]
  exact bind first second

theorem bindLook (first : Accepts rule [] result (after ++ follow))
    (second : Accepts (next result) after result' follow) :
    Accepts (rule >>= next) after result' follow :=
  bind first second

theorem peekToken {body : Token → Parse β}
    (second : Accepts (body token) (token :: after) result' follow) :
    Accepts (Parser.peek >>= body) (token :: after) result' follow := by
  intro state rest
  have same : state.peek = token := by
    rw [State.peek_eq, rest]
    rfl
  change (body state.peek state).Meets _ _
  rw [same]
  exact second state rest

theorem seen {next : Bool → Parse β} (own : token.is mark = true)
    (other : mark ≠ .endOfInput)
    (second : Accepts (next true) (token :: after) result' follow) :
    Accepts (Parser.sees mark >>= next) (token :: after) result' follow := by
  intro state rest
  have sees : state.sees mark = true := by
    apply State.sees_of_peek _ other
    rw [State.peek_eq, rest]
    exact own
  change (next (state.sees mark) state).Meets _ _
  rw [sees]
  exact second state rest

theorem unseen {next : Bool → Parse β} (absent : (upcoming (after ++ follow)).is mark = false)
    (second : Accepts (next false) after result' follow) :
    Accepts (Parser.sees mark >>= next) after result' follow := by
  intro state rest
  have sees : state.sees mark = false := by
    apply State.sees_eq_false
    rw [State.peek_eq, rest]
    exact absent
  change (next (state.sees mark) state).Meets _ _
  rw [sees]
  exact second state rest

theorem note (note : Note) : Accepts (Parser.note note) [] () follow :=
  fun _ rest => ⟨rfl, rest, rfl⟩

/-- Going on takes the next token, unless it is the end of input. -/
theorem of_rest {state : State} (more : token.is .endOfInput = false)
    (rest : state.rest = [token] ++ follow) :
    state.peek = token ∧ state.advance.rest = follow := by
  have same : state.peek = token := by
    rw [State.peek_eq, rest]
    rfl
  have whole : state.rest = state.peek :: state.advance.rest :=
    State.rest_eq (same.symm ▸ more)
  rw [rest, same] at whole
  exact ⟨same, (List.cons.inj whole).2.symm⟩

theorem advance (more : token.is .endOfInput = false) :
    Accepts Parser.advance [token] () follow := by
  intro state rest
  exact ⟨rfl, (of_rest more rest).2, State.advance_errors state⟩

theorem accept (own : token.is mark = true) (other : mark ≠ .endOfInput) :
    Accepts (Parser.accept mark) [token] (some token) follow := by
  intro state rest
  obtain ⟨same, left⟩ := of_rest (Token.not_is own other) rest
  unfold Parser.accept
  rw [if_pos (State.sees_of_peek (same.symm ▸ own) other)]
  exact ⟨congrArg some same, left, State.advance_errors state⟩

theorem accept_none (absent : (upcoming follow).is mark = false) :
    Accepts (Parser.accept mark) [] none follow := by
  intro state rest
  have unseen : state.sees mark = false := by
    apply State.sees_eq_false
    rw [State.peek_eq, rest]
    exact absent
  unfold Parser.accept
  rw [if_neg (Bool.eq_false_iff.mp unseen)]
  exact ⟨rfl, rest, rfl⟩

theorem acceptAny {marks : List Mark} (member : mark ∈ marks) (own : token.is mark = true)
    (other : mark ≠ .endOfInput) :
    Accepts (Parser.acceptAny marks) [token] (some token) follow := by
  intro state rest
  obtain ⟨same, left⟩ := of_rest (Token.not_is own other) rest
  have seen : marks.any state.sees = true :=
    List.any_eq_true.mpr ⟨mark, member, State.sees_of_peek (same.symm ▸ own) other⟩
  unfold Parser.acceptAny
  rw [if_pos seen]
  exact ⟨congrArg some same, left, State.advance_errors state⟩

theorem acceptAny_none {marks : List Mark}
    (absent : ∀ mark, mark ∈ marks → (upcoming follow).is mark = false) :
    Accepts (Parser.acceptAny marks) [] none follow := by
  intro state rest
  have unseen : ¬marks.any state.sees = true := by
    intro seen
    obtain ⟨mark, member, sees⟩ := List.any_eq_true.mp seen
    have own := (State.peek_of_sees sees).1
    rw [State.peek_eq, rest] at own
    cases own.symm.trans (absent mark member)
  unfold Parser.acceptAny
  rw [if_neg unseen]
  exact ⟨rfl, rest, rfl⟩

theorem expect (own : token.is mark = true) (other : mark ≠ .endOfInput) :
    Accepts (Parser.expect mark cause) [token] token follow :=
  bindToken (accept own other) pure

theorem advancing {next : Unit → Parse β} (own : token.is mark = true)
    (other : mark ≠ .endOfInput) (second : Accepts (next ()) after result' follow) :
    Accepts (Parser.advance >>= next) (token :: after) result' follow :=
  bindToken (advance (Token.not_is own other)) second

theorem accepting {next : Option Token → Parse β} (own : token.is mark = true)
    (other : mark ≠ .endOfInput) (second : Accepts (next (some token)) after result' follow) :
    Accepts (Parser.accept mark >>= next) (token :: after) result' follow :=
  bindToken (accept own other) second

theorem expecting {next : Token → Parse β} (own : token.is mark = true)
    (other : mark ≠ .endOfInput) (second : Accepts (next token) after result' follow) :
    Accepts (Parser.expect mark cause >>= next) (token :: after) result' follow :=
  bindToken (expect own other) second

theorem recovering (accepts : Accepts rule tokens result follow) :
    Accepts (Parser.recovering rule) tokens (some result) follow := by
  intro state rest
  have met := accepts state rest
  unfold Parser.recovering
  cases ended : rule state with
  | exhausted => trivial
  | failure error final =>
      rw [ended] at met
      exact met.elim
  | value found final =>
      rw [ended] at met
      exact ⟨congrArg some met.1, met.2⟩

end Accepts

/-! ### What may follow -/

/-- The marks that go on with an operand of the level. -/
def Level.continuing : Level → List Mark
  | .disjunction => .orWord :: conjunctions
  | .conjunction => conjunctions
  | .equality => equalities
  | .comparison => comparisons
  | .term => terms
  | .factor => factors
  | .prefixed => suffixes
where
  suffixes := [.leftParen, .leftBracket]
  factors := .slash :: .star :: suffixes
  terms := .minus :: .plus :: factors
  comparisons := .greater :: .greaterEqual :: .less :: .lessEqual :: terms
  equalities := .bangEqual :: .equalEqual :: comparisons
  conjunctions := .andWord :: equalities

/-- What follows does not go on with an operand of the level. -/
def Halts (level : Level) (follow : List Token) : Prop :=
  ∀ mark, mark ∈ level.continuing → (upcoming follow).is mark = false

/-- What follows does not go on with an expression. -/
def Closes (follow : List Token) : Prop :=
  Halts .disjunction follow ∧ (upcoming follow).is .equal = false

theorem Halts.of_mark {level : Level} {token : Token} {mark : Mark} (own : token.is mark = true)
    (absent : mark ∉ level.continuing) (rest : List Token) : Halts level (token :: rest) := by
  intro other member
  refine Token.not_is own ?_
  rintro rfl
  exact absent member

/-- The marks that stand behind an expression. -/
def endings : List Mark := [.rightParen, .rightBracket, .comma, .semicolon]

theorem Closes.of_mark {token : Token} {mark : Mark} (own : token.is mark = true)
    (member : mark ∈ endings) (rest : List Token) : Closes (token :: rest) := by
  have apart : ∀ mark, mark ∈ endings →
      mark ∉ Level.disjunction.continuing ∧ mark ≠ .equal := by
    decide
  exact ⟨.of_mark own (apart mark member).1 rest, Token.not_is own (apart mark member).2⟩

section

variable {level tighter : Level} {operators : List Mark} {node : Expr → Token → Expr → Expr}

theorem continuing_eq (row : Row level tighter operators node) :
    level.continuing = operators ++ tighter.continuing := by
  cases row <;> rfl

theorem Halts.operand (row : Row level tighter operators node) {follow : List Token}
    (halts : Halts level follow) : Halts tighter follow := by
  intro mark member
  apply halts mark
  rw [continuing_eq row]
  exact List.mem_append_right _ member

/-- Operators of a level do not go on with its operands. -/
theorem Halts.of_operator (row : Row level tighter operators node) {operator : Token}
    {mark : Mark} (member : mark ∈ operators) (own : operator.is mark = true)
    (rest : List Token) : Halts tighter (operator :: rest) := by
  have apart : ∀ mark, mark ∈ operators → mark ∉ tighter.continuing := by
    cases row <;> decide
  exact .of_mark own (apart mark member) rest

theorem Halts.joined (row : Row level tighter operators node) {left tree : Expr}
    {tokens follow : List Token} (joined : Joined tighter operators node left tokens tree)
    (halts : Halts level follow) : Halts tighter (tokens ++ follow) := by
  cases joined with
  | done => exact halts.operand row
  | more member own _ _ => exact .of_operator row member own _

end

theorem operator_ne {level operand : Level} {operators : List Mark}
    {node : Expr → Token → Expr → Expr} (row : Row level operand operators node) {mark : Mark}
    (member : mark ∈ operators) : mark ≠ .endOfInput := by
  have apart : ∀ mark, mark ∈ operators → mark ≠ .endOfInput := by
    cases row <;> decide
  exact apart mark member

/-! ### Expressions -/

/-- With a given amount of fuel, the rules for expressions accept what derives from the grammar. -/
structure CompleteExpressions (fuel : Nat) : Prop where
  expression : ∀ {tokens follow : List Token} {tree : Expr}, Expression tokens tree →
    Closes follow → Accepts (expression fuel) tokens tree follow
  level : ∀ {level : Level} {tokens follow : List Token} {tree : Expr},
    Operand level tokens tree → Halts level follow →
    Accepts (Parser.level fuel level) tokens tree follow
  levelFrom : ∀ {level operand : Level} {operators : List Mark}
    {node : Expr → Token → Expr → Expr} {left tree : Expr} {tokens follow : List Token},
    Row level operand operators node → Joined operand operators node left tokens tree →
    Halts level follow → Accepts (levelFrom fuel level operand left) tokens tree follow
  prefixed : ∀ {tokens follow : List Token} {tree : Expr}, Operand .prefixed tokens tree →
    Halts .prefixed follow → Accepts (prefixed fuel) tokens tree follow
  applied : ∀ {operand tree : Expr} {tokens follow : List Token},
    Suffixed operand tokens tree → Halts .prefixed follow →
    Accepts (applied fuel operand) tokens tree follow
  commaSeparated : ∀ {limit : Option Nat} {count : Nat} {tokens follow : List Token}
    {exprs : List Expr}, Items tokens exprs →
    (∀ bound, limit = some bound → count + exprs.length ≤ bound) → Closes follow →
    (upcoming follow).is .comma = false →
    Accepts (commaSeparated fuel limit count) tokens exprs follow
  primary : ∀ {tokens follow : List Token} {tree : Expr}, Primary tokens tree →
    Accepts (primary fuel) tokens tree follow

namespace CompleteExpressions

variable {fuel : Nat} {tokens follow : List Token} {tree : Expr}

theorem expression_succ (ih : CompleteExpressions fuel) (derived : Expression tokens tree)
    (closes : Closes follow) : Accepts (Parser.expression (fuel + 1)) tokens tree follow := by
  unfold Parser.expression
  cases derived with
  | operation operand =>
      apply Accepts.bindAll (ih.level operand closes.1)
      exact Accepts.bindLook (Accepts.accept_none closes.2) Accepts.pure
  | @assignment name equals rest value isName isEquals expression =>
      have halts : Halts .disjunction (equals :: rest ++ follow) :=
        .of_mark isEquals (by decide) _
      have target : Operand .disjunction [name] (.reference name none) :=
        .ofPrimary (.atom (.name isName)) _
      apply Accepts.bindToken (ih.level target halts)
      apply Accepts.accepting isEquals (by decide)
      exact Accepts.bindAll (ih.expression expression closes) Accepts.pure

theorem level_succ (ih : CompleteExpressions fuel) {level : Level}
    (derived : Operand level tokens tree) (halts : Halts level follow) :
    Accepts (Parser.level (fuel + 1) level) tokens tree follow := by
  unfold Parser.level
  cases derived with
  | row row first joined =>
      rw [row.parts.1]
      apply Accepts.bind (ih.level first (halts.joined row joined))
      exact ih.levelFrom row joined halts
  | unary own operand => exact ih.prefixed (.unary own operand) halts
  | call first suffixed => exact ih.prefixed (.call first suffixed) halts

theorem levelFrom_succ (ih : CompleteExpressions fuel) {level operand : Level}
    {operators : List Mark} {node : Expr → Token → Expr → Expr} {left : Expr}
    (row : Row level operand operators node)
    (derived : Joined operand operators node left tokens tree) (halts : Halts level follow) :
    Accepts (Parser.levelFrom (fuel + 1) level operand left) tokens tree follow := by
  unfold Parser.levelFrom
  obtain ⟨_, rfl, rfl⟩ := row.parts
  cases derived with
  | done =>
      have absent : ∀ mark, mark ∈ level.operators → (upcoming follow).is mark = false := by
        intro mark member
        apply halts mark
        rw [continuing_eq row]
        exact List.mem_append_left _ member
      exact Accepts.bindAll (Accepts.acceptAny_none absent) Accepts.pure
  | more member own first joined =>
      apply Accepts.bindToken (Accepts.acceptAny member own (operator_ne row member))
      apply Accepts.bind (ih.level first (halts.joined row joined))
      exact ih.levelFrom row joined halts

theorem prefixed_succ (ih : CompleteExpressions fuel) (derived : Operand .prefixed tokens tree)
    (halts : Halts .prefixed follow) :
    Accepts (Parser.prefixed (fuel + 1)) tokens tree follow := by
  unfold Parser.prefixed
  cases derived with
  | row row _ _ => cases row
  | unary own operand =>
      have taken : ∀ {token : Token} {rest : List Token},
          token.is .bang = true ∨ token.is .minus = true →
          Accepts (Parser.acceptAny [.bang, .minus]) [token] (some token) rest := by
        rintro token rest (own | own)
        · exact Accepts.acceptAny List.mem_cons_self own (by decide)
        · exact Accepts.acceptAny (List.mem_cons_of_mem _ List.mem_cons_self) own (by decide)
      apply Accepts.bindToken (taken own)
      exact Accepts.bindAll (ih.prefixed operand halts) Accepts.pure
  | @call first rest operand _ primary suffixed =>
      have untaken : Accepts (Parser.acceptAny [.bang, .minus]) [] none
          (first ++ rest ++ follow) := by
        apply Accepts.acceptAny_none
        intro mark member
        rw [List.append_assoc]
        apply primary.starts.upcoming_is
        have apart : ∀ mark, mark ∈ [Mark.bang, .minus] → mark ∉ primaries := by decide
        exact apart mark member
      apply Accepts.bindLook untaken
      apply Accepts.bind (ih.primary primary)
      exact ih.applied suffixed halts

theorem applied_succ (ih : CompleteExpressions fuel) {operand : Expr}
    (derived : Suffixed operand tokens tree) (halts : Halts .prefixed follow) :
    Accepts (Parser.applied (fuel + 1) operand) tokens tree follow := by
  unfold Parser.applied
  cases derived with
  | done =>
      apply Accepts.bindAll (Accepts.accept_none (halts .leftParen (by decide)))
      exact Accepts.bindAll (Accepts.accept_none (halts .leftBracket (by decide))) Accepts.pure
  | callNone isLeft isRight suffixed =>
      apply Accepts.accepting isLeft (by decide)
      apply Accepts.seen isRight (by decide)
      apply Accepts.expecting isRight (by decide)
      exact ih.applied suffixed halts
  | @call _ _ left right inner rest arguments isLeft items few isRight suffixed =>
      have few' : ∀ bound, some maximalArity = some bound → 0 + arguments.length ≤ bound := by
        intro bound same
        cases same
        rw [Nat.zero_add]
        exact few
      have closes : Closes (right :: rest ++ follow) := .of_mark isRight (by decide) _
      have last : (upcoming (right :: rest ++ follow)).is .comma = false :=
        Token.not_is isRight (by decide)
      apply Accepts.accepting isLeft (by decide)
      apply Accepts.unseen ((items.starts.append _).upcoming_is (by decide) _)
      apply Accepts.bind (ih.commaSeparated items few' closes last)
      apply Accepts.expecting isRight (by decide)
      exact ih.applied suffixed halts
  | @index _ _ _ left right inner rest isLeft expression isRight suffixed =>
      have different :
          (upcoming (left :: (inner ++ right :: rest) ++ follow)).is .leftParen = false :=
        Token.not_is isLeft (by decide)
      have closes : Closes (right :: rest ++ follow) := .of_mark isRight (by decide) _
      apply Accepts.bindLook (Accepts.accept_none different)
      apply Accepts.accepting isLeft (by decide)
      apply Accepts.bind (ih.expression expression closes)
      apply Accepts.expecting isRight (by decide)
      exact ih.applied suffixed halts

theorem commaSeparated_succ (ih : CompleteExpressions fuel) {limit : Option Nat} {count : Nat}
    {exprs : List Expr} (derived : Items tokens exprs)
    (bounded : ∀ bound, limit = some bound → count + exprs.length ≤ bound)
    (closes : Closes follow) (last : (upcoming follow).is .comma = false) :
    Accepts (Parser.commaSeparated (fuel + 1) limit count) tokens exprs follow := by
  have positive : 0 < exprs.length := by
    cases derived <;> exact Nat.zero_lt_succ _
  have within : limit.any (· ≤ count) = false := by
    cases limit with
    | none => rfl
    | some bound =>
        have enough := bounded bound rfl
        exact decide_eq_false (by omega)
  unfold Parser.commaSeparated
  rw [within]
  cases derived with
  | last expression =>
      apply Accepts.bindAll (ih.expression expression closes)
      exact Accepts.bindAll (Accepts.accept_none last) Accepts.pure
  | @more first rest comma expr others expression isComma items =>
      have separates : Closes (comma :: rest ++ follow) := .of_mark isComma (by decide) _
      have bounded' : ∀ bound, limit = some bound → count + 1 + others.length ≤ bound := by
        intro bound same
        have enough := bounded bound same
        rw [List.length_cons] at enough
        omega
      apply Accepts.bind (ih.expression expression separates)
      apply Accepts.accepting isComma (by decide)
      exact Accepts.bindAll (ih.commaSeparated items bounded' closes last) Accepts.pure

theorem primary_succ (ih : CompleteExpressions fuel) (derived : Primary tokens tree) :
    Accepts (Parser.primary (fuel + 1)) tokens tree follow := by
  unfold Parser.primary
  cases derived with
  | @atom token _ atom =>
      have more : token.is .endOfInput = false := (atom.starts []).upcoming_is (by decide) []
      apply Accepts.peekToken
      cases atom with
      | number kind | string kind =>
          dsimp only
          rw [kind]
          exact Accepts.bindToken (Accepts.advance more) Accepts.pure
      | truth own | falsehood own | nothing own | name own =>
          dsimp only
          rw [Token.kind_of_is own]
          exact Accepts.bindToken (Accepts.advance more) Accepts.pure
  | @grouping left right inner _ isLeft expression isRight =>
      have closes : Closes ([right] ++ follow) := .of_mark isRight (by decide) _
      apply Accepts.peekToken
      dsimp only
      rw [Token.kind_of_is isLeft]
      apply Accepts.advancing isLeft (by decide)
      apply Accepts.bind (ih.expression expression closes)
      exact Accepts.expecting isRight (by decide) Accepts.pure
  | @listNone left right isLeft isRight =>
      apply Accepts.peekToken
      dsimp only
      rw [Token.kind_of_is isLeft]
      apply Accepts.advancing isLeft (by decide)
      apply Accepts.seen isRight (by decide)
      apply Accepts.expecting isRight (by decide)
      exact Accepts.pure
  | @list left right inner elements isLeft items isRight =>
      have closes : Closes ([right] ++ follow) := .of_mark isRight (by decide) _
      have last : (upcoming ([right] ++ follow)).is .comma = false :=
        Token.not_is isRight (by decide)
      have unbounded : ∀ bound, (none : Option Nat) = some bound → 0 + elements.length ≤ bound :=
        by rintro _ ⟨⟩
      apply Accepts.peekToken
      dsimp only
      rw [Token.kind_of_is isLeft]
      apply Accepts.advancing isLeft (by decide)
      apply Accepts.unseen ((items.starts.append _).upcoming_is (by decide) _)
      apply Accepts.bind (ih.commaSeparated items unbounded closes last)
      exact Accepts.expecting isRight (by decide) Accepts.pure

end CompleteExpressions

/-- The rules for expressions accept what derives from the grammar, whatever the fuel. -/
theorem completeExpressions (fuel : Nat) : CompleteExpressions fuel := by
  induction fuel with
  | zero =>
      constructor
      all_goals
        intros
        exact Accepts.exhausted
  | succ fuel ih =>
      exact ⟨ih.expression_succ, ih.level_succ, ih.levelFrom_succ, ih.prefixed_succ,
        ih.applied_succ, ih.commaSeparated_succ, ih.primary_succ⟩

/-! ### Statements -/

variable {tokens follow : List Token}

theorem expressionStatement_accepts (fuel : Nat) {stmt : Stmt}
    (derived : ExpressionStatement tokens stmt) :
    Accepts (expressionStatement fuel) tokens stmt follow := by
  unfold expressionStatement
  cases derived with
  | @mk inner expr semicolon expression isSemicolon =>
      have closes : Closes ([semicolon] ++ follow) := .of_mark isSemicolon (by decide) _
      apply Accepts.bind ((completeExpressions fuel).expression expression closes)
      exact Accepts.expecting isSemicolon (by decide) Accepts.pure

theorem expressionUnless_accepts (fuel : Nat) {value : Option Expr} {token : Token} {mark : Mark}
    {rest : List Token} (derived : Optionally tokens value) (own : token.is mark = true)
    (member : mark ∈ endings) :
    Accepts (expressionUnless fuel mark) tokens value (token :: rest) := by
  have apart : ∀ mark, mark ∈ endings → mark ∉ openings ∧ mark ≠ .endOfInput := by decide
  obtain ⟨unopened, other⟩ := apart mark member
  unfold expressionUnless
  cases derived with
  | absent =>
      intro state left
      have sees : state.sees mark = true := by
        apply State.sees_of_peek _ other
        rw [State.peek_eq, left]
        exact own
      change ((if state.sees mark = true then _ else _ : Parse (Option Expr)) state).Meets _ _
      rw [if_pos sees]
      exact ⟨rfl, left, rfl⟩
  | present expression =>
      apply Accepts.unseen (expression.starts.upcoming_is unopened _)
      exact Accepts.bindAll ((completeExpressions fuel).expression expression
        (.of_mark own member rest)) Accepts.pure

theorem variableDeclaration_accepts (fuel : Nat) {stmt : Stmt} {keyword : Token}
    (derived : VariableDeclaration (keyword :: tokens) stmt) :
    Accepts (variableDeclaration fuel) tokens stmt follow := by
  unfold variableDeclaration
  cases derived with
  | @bare _ name semicolon isKeyword isName isSemicolon =>
      have different : (upcoming ([semicolon] ++ follow)).is .equal = false :=
        Token.not_is isSemicolon (by decide)
      apply Accepts.expecting isName (by decide)
      apply Accepts.bindLook (Accepts.accept_none different)
      apply Accepts.expecting isSemicolon (by decide)
      exact Accepts.pure
  | @initialized _ name equals semicolon inner value isKeyword isName isEquals expression
      isSemicolon =>
      have closes : Closes ([semicolon] ++ follow) := .of_mark isSemicolon (by decide) _
      apply Accepts.expecting isName (by decide)
      apply Accepts.accepting isEquals (by decide)
      apply Accepts.bind ((completeExpressions fuel).expression expression closes)
      apply Accepts.expecting isSemicolon (by decide)
      exact Accepts.pure

theorem forInitializer_accepts (fuel : Nat) {initializer : Option Stmt}
    (derived : Initializer tokens initializer) :
    Accepts (forInitializer fuel) tokens initializer follow := by
  unfold forInitializer
  cases derived with
  | none isSemicolon =>
      exact Accepts.accepting isSemicolon (by decide) Accepts.pure
  | declaration declaration =>
      apply Accepts.bindLook (Accepts.accept_none (declaration.starts.upcoming_is (by decide) _))
      obtain ⟨keyword, rest, rfl, isKeyword⟩ := declaration.keyword
      apply Accepts.accepting isKeyword (by decide)
      exact Accepts.bindAll (variableDeclaration_accepts fuel declaration) Accepts.pure
  | expression statement =>
      apply Accepts.bindLook (Accepts.accept_none (statement.starts.upcoming_is (by decide) _))
      apply Accepts.bindLook (Accepts.accept_none (statement.starts.upcoming_is (by decide) _))
      exact Accepts.bindAll (expressionStatement_accepts fuel statement) Accepts.pure

theorem parameters_accepts (fuel : Nat) {count : Nat} {names : List Token}
    (derived : Parameters tokens names) (bounded : count + names.length ≤ maximalArity)
    (last : (upcoming follow).is .comma = false) :
    Accepts (parameters fuel count) tokens names follow := by
  induction fuel generalizing count tokens names with
  | zero => exact Accepts.exhausted
  | succ fuel ih =>
      have positive : 0 < names.length := by
        cases derived <;> exact Nat.zero_lt_succ _
      have within : ¬maximalArity ≤ count := by omega
      unfold parameters
      rw [if_neg within]
      cases derived with
      | last isName =>
          apply Accepts.expecting isName (by decide)
          exact Accepts.bindAll (Accepts.accept_none last) Accepts.pure
      | more isName isComma others =>
          apply Accepts.expecting isName (by decide)
          apply Accepts.accepting isComma (by decide)
          rw [List.length_cons] at bounded
          exact Accepts.bindAll (ih others (by omega)) Accepts.pure

theorem Concluded.no_else {inBlock : Bool} (concludes : Concluded inBlock follow) :
    (upcoming follow).is .elseWord = false := by
  rcases concludes with ended | ⟨_, closed⟩
  · exact Token.not_is ended (by decide)
  · exact Token.not_is closed (by decide)

/-- With a given amount of fuel, the rules for statements accept what derives strictly from the
grammar. -/
structure CompleteStatements (fuel : Nat) : Prop where
  declaration : ∀ {tokens follow : List Token} {stmt : Stmt}, Declaration true tokens stmt →
    (upcoming follow).is .elseWord = false →
    Accepts (declaration fuel) tokens (some stmt) follow
  functionDeclaration : ∀ {tokens follow names parameters : List Token} {body : List Stmt}
    {name left right leftBrace rightBrace : Token}, name.is .identifier = true →
    left.is .leftParen = true → ParameterList names parameters → right.is .rightParen = true →
    leftBrace.is .leftBrace = true → Declarations true tokens body →
    rightBrace.is .rightBrace = true →
    Accepts (functionDeclaration fuel)
      (name :: left :: (names ++ right :: leftBrace :: (tokens ++ [rightBrace])))
      (.function name parameters body) follow
  statement : ∀ {tokens follow : List Token} {stmt : Stmt} {dangling : Bool},
    Statement true tokens stmt dangling →
    (dangling = true → (upcoming follow).is .elseWord = false) →
    Accepts (statement fuel) tokens stmt follow
  block : ∀ {tokens follow : List Token} {body : List Stmt} {right : Token},
    Declarations true tokens body → right.is .rightBrace = true →
    Accepts (block fuel) (tokens ++ [right]) body follow
  declarations : ∀ {tokens follow : List Token} {body : List Stmt} {inBlock : Bool},
    Declarations true tokens body → Concluded inBlock follow →
    Accepts (declarations fuel inBlock) tokens body follow

namespace CompleteStatements

variable {fuel : Nat} {stmt : Stmt}

theorem declaration_succ (ih : CompleteStatements fuel) (derived : Declaration true tokens stmt)
    (alone : (upcoming follow).is .elseWord = false) :
    Accepts (Parser.declaration (fuel + 1)) tokens (some stmt) follow := by
  unfold Parser.declaration
  cases derived with
  | function isKeyword isName isLeft names isRight isLeftBrace body isRightBrace =>
      apply Accepts.peekToken
      apply Accepts.bindLook (Accepts.note _)
      rw [Token.kind_of_is isKeyword]
      apply Accepts.recovering
      apply Accepts.advancing isKeyword (by decide)
      exact ih.functionDeclaration isName isLeft names isRight isLeftBrace body isRightBrace
  | var declaration =>
      obtain ⟨keyword, rest, rfl, isKeyword⟩ := declaration.keyword
      apply Accepts.peekToken
      apply Accepts.bindLook (Accepts.note _)
      rw [Token.kind_of_is isKeyword]
      apply Accepts.recovering
      apply Accepts.advancing isKeyword (by decide)
      exact variableDeclaration_accepts fuel declaration
  | statement statement =>
      have accepts := ih.statement statement fun _ => alone
      obtain ⟨token, rest, rfl, only⟩ := statement.starts
      apply Accepts.peekToken
      apply Accepts.bindLook (Accepts.note _)
      apply Accepts.recovering
      split
      case h_1 kind => exact absurd (only _ (Token.is_of_kind kind)) (by decide)
      case h_2 kind => exact absurd (only _ (Token.is_of_kind kind)) (by decide)
      case h_3 => exact accepts

theorem functionDeclaration_succ (ih : CompleteStatements fuel)
    {name left right leftBrace rightBrace : Token} {names parameters : List Token}
    {body : List Stmt} (isName : name.is .identifier = true)
    (isLeft : left.is .leftParen = true) (listed : ParameterList names parameters)
    (isRight : right.is .rightParen = true) (isLeftBrace : leftBrace.is .leftBrace = true)
    (derived : Declarations true tokens body) (isRightBrace : rightBrace.is .rightBrace = true) :
    Accepts (Parser.functionDeclaration (fuel + 1))
      (name :: left :: (names ++ right :: leftBrace :: (tokens ++ [rightBrace])))
      (.function name parameters body) follow := by
  have ending : ∀ parameters, Accepts (do
      let _ ← Parser.expect .rightParen .parenAfterParameters
      let _ ← Parser.expect .leftBrace .braceBeforeFunctionBody
      let body ← Parser.block fuel
      Parser.note (.parsedFunction name.lexeme parameters.length)
      return Stmt.function name parameters body)
        (right :: leftBrace :: (tokens ++ [rightBrace])) (Stmt.function name parameters body)
        follow := by
    intro parameters
    apply Accepts.expecting isRight (by decide)
    apply Accepts.expecting isLeftBrace (by decide)
    apply Accepts.bindAll (ih.block derived isRightBrace)
    exact Accepts.bindAll (Accepts.note _) Accepts.pure
  unfold Parser.functionDeclaration
  apply Accepts.expecting isName (by decide)
  apply Accepts.expecting isLeft (by decide)
  cases listed with
  | none =>
      apply Accepts.seen isRight (by decide)
      exact ending []
  | some given few =>
      have last : (upcoming (right :: leftBrace :: (tokens ++ [rightBrace]) ++ follow)).is .comma =
          false := Token.not_is isRight (by decide)
      have few' : 0 + parameters.length ≤ maximalArity := by
        rw [Nat.zero_add]
        exact few
      apply Accepts.unseen ((given.starts.append _).upcoming_is (by decide) _)
      exact Accepts.bind (parameters_accepts fuel given few' last) (ending parameters)

theorem block_succ (ih : CompleteStatements fuel) {body : List Stmt} {right : Token}
    (derived : Declarations true tokens body) (isRight : right.is .rightBrace = true) :
    Accepts (Parser.block (fuel + 1)) (tokens ++ [right]) body follow := by
  unfold Parser.block
  have concludes : Concluded true ([right] ++ follow) := Or.inr ⟨rfl, isRight⟩
  apply Accepts.bind (ih.declarations derived concludes)
  exact Accepts.expecting isRight (by decide) Accepts.pure

theorem declarations_succ (ih : CompleteStatements fuel) {body : List Stmt} {inBlock : Bool}
    (derived : Declarations true tokens body) (concludes : Concluded inBlock follow) :
    Accepts (Parser.declarations (fuel + 1) inBlock) tokens body follow := by
  unfold Parser.declarations
  cases derived with
  | nil =>
      intro state left
      have stops : (state.atEnd || inBlock && state.sees .rightBrace) = true := by
        have same : state.peek = upcoming follow := by
          rw [State.peek_eq, left]
          rfl
        rcases concludes with ended | ⟨rfl, closed⟩
        · unfold State.atEnd
          rw [same, ended]
          rfl
        · rw [← same] at closed
          rw [State.sees_of_peek closed (by decide), Bool.true_and, Bool.or_true]
      change ((if (state.atEnd || inBlock && state.sees .rightBrace) = true then _ else _ :
        Parse (List Stmt)) state).Meets _ _
      rw [if_pos stops]
      exact ⟨rfl, left, rfl⟩
  | @cons first rest stmt others declaration declarations =>
      have alone : (upcoming (rest ++ follow)).is .elseWord = false := by
        cases declarations with
        | nil => exact concludes.no_else
        | cons next _ =>
            rw [List.append_assoc]
            exact next.starts.upcoming_is (by decide) _
      have begins := declaration.starts.append rest
      intro state left
      have same : state.peek = upcoming (first ++ rest ++ follow) := by
        rw [State.peek_eq, left]
      have goes : ¬(state.atEnd || inBlock && state.sees .rightBrace) = true := by
        have more : state.atEnd = false := by
          unfold State.atEnd
          rw [same]
          exact begins.upcoming_is (by decide) _
        have unclosed : state.sees .rightBrace = false := by
          apply State.sees_eq_false
          rw [same]
          exact begins.upcoming_is (by decide) _
        rw [more, unclosed, Bool.and_false]
        exact Bool.false_ne_true
      change ((if (state.atEnd || inBlock && state.sees .rightBrace) = true then _ else _ :
        Parse (List Stmt)) state).Meets _ _
      rw [if_neg goes]
      refine Accepts.bind (ih.declaration declaration alone) ?_ state left
      exact Accepts.bindAll (ih.declarations declarations concludes) Accepts.pure

theorem statement_succ (ih : CompleteStatements fuel) {dangling : Bool}
    (derived : Statement true tokens stmt dangling)
    (alone : dangling = true → (upcoming follow).is .elseWord = false) :
    Accepts (Parser.statement (fuel + 1)) tokens stmt follow := by
  have expressions := completeExpressions fuel
  unfold Parser.statement
  cases derived with
  | expression statement =>
      have accepts : Accepts (expressionStatement fuel) tokens stmt follow :=
        expressionStatement_accepts fuel statement
      obtain ⟨token, rest, rfl, only⟩ := statement.starts
      apply Accepts.peekToken
      split
      case h_7 => exact accepts
      all_goals
        rename_i kind
        exact absurd (only _ (Token.is_of_kind kind)) (by decide)
  | @print keyword semicolon inner expr isKeyword expression isSemicolon =>
      have closes : Closes ([semicolon] ++ follow) := .of_mark isSemicolon (by decide) _
      apply Accepts.peekToken
      rw [Token.kind_of_is isKeyword]
      apply Accepts.advancing isKeyword (by decide)
      apply Accepts.bind (expressions.expression expression closes)
      exact Accepts.expecting isSemicolon (by decide) Accepts.pure
  | @returned keyword semicolon inner value isKeyword given isSemicolon =>
      have accepts : Accepts (expressionUnless fuel .semicolon) inner value
          ([semicolon] ++ follow) :=
        expressionUnless_accepts fuel given isSemicolon (by decide)
      apply Accepts.peekToken
      rw [Token.kind_of_is isKeyword]
      apply Accepts.advancing isKeyword (by decide)
      apply Accepts.bind accepts
      exact Accepts.expecting isSemicolon (by decide) Accepts.pure
  | @block left right inner body isLeft declarations isRight =>
      apply Accepts.peekToken
      rw [Token.kind_of_is isLeft]
      apply Accepts.advancing isLeft (by decide)
      exact Accepts.bindAll (ih.block declarations isRight) Accepts.pure
  | @loop keyword left right test inner condition body dangling isKeyword isLeft expression
      isRight statement =>
      have closes : Closes (right :: inner ++ follow) := .of_mark isRight (by decide) _
      apply Accepts.peekToken
      rw [Token.kind_of_is isKeyword]
      apply Accepts.advancing isKeyword (by decide)
      apply Accepts.expecting isLeft (by decide)
      apply Accepts.bind (expressions.expression expression closes)
      apply Accepts.expecting isRight (by decide)
      exact Accepts.bindAll (ih.statement statement alone) Accepts.pure
  | @counting keyword left semicolon right first test step inner initializer condition increment
      body dangling isKeyword isLeft start tested isSemicolon stepped isRight statement =>
      have accepts : Accepts (expressionUnless fuel .semicolon) test condition
          (semicolon :: (step ++ right :: inner) ++ follow) :=
        expressionUnless_accepts fuel tested isSemicolon (by decide)
      have accepts' : Accepts (expressionUnless fuel .rightParen) step increment
          (right :: inner ++ follow) :=
        expressionUnless_accepts fuel stepped isRight (by decide)
      apply Accepts.peekToken
      rw [Token.kind_of_is isKeyword, ← counting_eq]
      apply Accepts.advancing isKeyword (by decide)
      apply Accepts.bindLook (Accepts.note _)
      apply Accepts.expecting isLeft (by decide)
      apply Accepts.bind (forInitializer_accepts fuel start)
      apply Accepts.bind accepts
      apply Accepts.expecting isSemicolon (by decide)
      apply Accepts.bind accepts'
      apply Accepts.expecting isRight (by decide)
      exact Accepts.bindAll (ih.statement statement alone) Accepts.pure
  | @conditional keyword left right test inner condition thenBranch dangling isKeyword isLeft
      expression isRight statement =>
      have closes : Closes (right :: inner ++ follow) := .of_mark isRight (by decide) _
      apply Accepts.peekToken
      rw [Token.kind_of_is isKeyword]
      apply Accepts.advancing isKeyword (by decide)
      apply Accepts.expecting isLeft (by decide)
      apply Accepts.bind (expressions.expression expression closes)
      apply Accepts.expecting isRight (by decide)
      apply Accepts.bindAll (ih.statement statement fun _ => alone rfl)
      exact Accepts.bindAll (Accepts.accept_none (alone rfl)) Accepts.pure
  | @alternative keyword left right other test first second condition thenBranch elseBranch
      dangling dangling' isKeyword isLeft expression isRight statement nearest isElse statement' =>
      have closes : Closes (right :: (first ++ other :: second) ++ follow) :=
        .of_mark isRight (by decide) _
      have settled : dangling = true →
          (upcoming (other :: second ++ follow)).is .elseWord = false := by
        intro still
        cases (nearest rfl).symm.trans still
      apply Accepts.peekToken
      rw [Token.kind_of_is isKeyword]
      apply Accepts.advancing isKeyword (by decide)
      apply Accepts.expecting isLeft (by decide)
      apply Accepts.bind (expressions.expression expression closes)
      apply Accepts.expecting isRight (by decide)
      apply Accepts.bind (ih.statement statement settled)
      apply Accepts.accepting isElse (by decide)
      exact Accepts.bindAll (ih.statement statement' alone) Accepts.pure

end CompleteStatements

/-- The rules for statements accept what derives strictly from the grammar, whatever the fuel. -/
theorem completeStatements (fuel : Nat) : CompleteStatements fuel := by
  induction fuel with
  | zero =>
      constructor
      all_goals
        intros
        exact Accepts.exhausted
  | succ fuel ih =>
      exact ⟨ih.declaration_succ, ih.functionDeclaration_succ, ih.statement_succ, ih.block_succ,
        ih.declarations_succ⟩

end Parser

end LexicalScript
