import LexicalScript.Proofs.RepeatedParses
import LexicalScript.Proofs.SkippedDeclarations

/-!
A statement without its semicolon at the end of a block.

The error is found at the brace that closes the block.  Recovery skips the token that an error was
found at, so it skips this brace, and the block goes on behind it: what follows is parsed as if the
block were still open.  The statements in front of the error are then part of a block that ends at
some later brace, or are lost with it if there is none.
-/

set_option autoImplicit false

namespace LexicalScript.Parser

open Grammar

/-! ### Rules that fail -/

/-- Given the tokens in front of what follows, the rule takes them, records the errors and fails
with another one. -/
def Fails {α : Type} (rule : Parse α) (tokens : List Token) (errors : Array ParseError)
    (error : ParseError) (follow : List Token) : Prop :=
  ∀ state : State, state.rest = tokens ++ follow → (rule state).Meets (fun _ _ => False)
    fun found final => found = error ∧ final.rest = follow ∧ final.errors = state.errors ++ errors

namespace Fails

variable {α β : Type} {rule : Parse α} {next : α → Parse β} {result : α} {error : ParseError}
  {before after tokens follow : List Token} {errors errors' : Array ParseError} {token : Token}
  {mark : Mark} {cause : ParseCause}

theorem exhausted : Fails (.exhausted : Parse α) tokens errors error follow :=
  fun _ _ => trivial

theorem bind (first : Fails rule tokens errors error follow) :
    Fails (rule >>= next) tokens errors error follow := by
  intro state rest
  apply (first state rest).bind
  intro _ _ impossible
  exact impossible.elim

theorem bindRecorded (first : Records rule before result errors (after ++ follow))
    (second : Fails (next result) after errors' error follow) :
    Fails (rule >>= next) (before ++ after) (errors ++ errors') error follow := by
  intro state rest
  rw [List.append_assoc] at rest
  apply ((first state rest).mono (fun _ _ => id) fun _ _ impossible => impossible.elim).bind
  rintro found middle ⟨rfl, rest', recorded⟩
  apply (second middle rest').mono fun _ _ => id
  rintro failed final ⟨same, rest'', recorded'⟩
  exact ⟨same, rest'', by rw [recorded', recorded, Array.append_assoc]⟩

theorem bindAfter (first : Accepts rule before result (after ++ follow))
    (second : Fails (next result) after errors error follow) :
    Fails (rule >>= next) (before ++ after) errors error follow := by
  have whole := bindRecorded first.records second
  rw [Array.empty_append] at whole
  exact whole

theorem bindAll (first : Accepts rule tokens result follow)
    (second : Fails (next result) [] errors error follow) :
    Fails (rule >>= next) tokens errors error follow := by
  rw [← List.append_nil tokens]
  exact bindAfter first second

theorem bindToken (first : Accepts rule [token] result (after ++ follow))
    (second : Fails (next result) after errors error follow) :
    Fails (rule >>= next) (token :: after) errors error follow :=
  bindAfter first second

theorem bindLook (first : Accepts rule [] result (after ++ follow))
    (second : Fails (next result) after errors error follow) :
    Fails (rule >>= next) after errors error follow :=
  bindAfter first second

theorem peek {body : Token → Parse β} (coming : upcoming (tokens ++ follow) = token)
    (second : Fails (body token) tokens errors error follow) :
    Fails (Parser.peek >>= body) tokens errors error follow := by
  intro state rest
  change (body state.peek state).Meets _ _
  rw [State.peek_eq, rest, coming]
  exact second state rest

theorem raise : Fails (Parser.raise token cause : Parse α) [] #[] ⟨token, cause⟩ follow :=
  fun _ rest => ⟨rfl, rest, Array.append_empty.symm⟩

theorem expect (absent : token.is mark = false) :
    Fails (Parser.expect mark cause) [] #[] ⟨token, cause⟩ (token :: follow) := by
  have missing : Accepts (Parser.accept mark) [] none ([] ++ token :: follow) :=
    Accepts.accept_none absent
  exact bindLook missing (peek rfl raise)

/-- A rule that fails is left out, and the parser goes on where the next statement begins. -/
theorem recovering (fails : Fails rule tokens errors error follow) {skipped rest : List Token}
    (resumes : resumed follow = rest) (split : follow = skipped ++ rest) :
    Records (Parser.recovering rule) (tokens ++ skipped) none (errors.push error) rest := by
  intro state whole
  rw [List.append_assoc, ← split] at whole
  have met := fails state whole
  unfold Parser.recovering
  cases ended : rule state with
  | exhausted => trivial
  | value result final => exact (met.of_value ended).elim
  | failure found final =>
      obtain ⟨rfl, left, recorded⟩ := met.of_failure ended
      refine ⟨rfl, ?_, ?_⟩
      · rw [synchronize_resumes]
        change resumed final.rest = rest
        rw [left, resumes]
      · rw [synchronize_errors]
        change final.errors.push found = _
        rw [recorded, Array.append_push]

theorem declaration
    (fails : ∀ fuel, Fails (guarded fuel (upcoming (tokens ++ follow))) tokens errors error
      follow)
    {skipped rest : List Token} (resumes : resumed follow = rest)
    (split : follow = skipped ++ rest) (fuel : Nat) :
    Records (Parser.declaration fuel) (tokens ++ skipped) none (errors.push error) rest := by
  cases fuel with
  | zero => exact Records.exhausted
  | succ fuel =>
      intro state whole
      rw [Fork.declaration_eq, State.peek_eq, whole, List.append_assoc, ← split]
      exact (fails fuel).recovering resumes split _ whole

end Fails

theorem Accepts.sees_false {mark : Mark} {follow : List Token}
    (absent : (upcoming follow).is mark = false) :
    Accepts (Parser.sees mark) [] false follow := by
  intro state rest
  refine ⟨?_, rest, rfl⟩
  apply State.sees_eq_false
  rw [State.peek_eq, rest]
  exact absent

/-! ### Statements in front of a closing brace -/

/-- Without its semicolon, a declaration starts as it does with it. -/
theorem unended_starts {tokens : List Token} {semicolon : Token} {stmt : Stmt}
    (isSemicolon : semicolon.is .semicolon = true)
    (derived : Grammar.Declaration true (tokens ++ [semicolon]) stmt) :
    Grammar.Starts (.funWord :: .varWord :: beginnings) tokens := by
  obtain ⟨token, rest, same, only⟩ := derived.starts
  cases tokens with
  | nil =>
      obtain ⟨rfl, _⟩ := List.cons.inj same
      exact absurd (only _ isSemicolon) (by decide)
  | cons first others =>
      obtain ⟨rfl, _⟩ := List.cons.inj same
      exact ⟨first, others, rfl, only⟩

/-- A program of one statement that ends in a semicolon. -/
theorem declaration_of_program {tokens : List Token} {semicolon last : Token} {stmt : Stmt}
    (isSemicolon : semicolon.is .semicolon = true) (ends : last.is .endOfInput = true)
    (proceeds : Proceeds tokens) (clean : (program (tokens ++ [semicolon, last])).errors = [])
    (single : (program (tokens ++ [semicolon, last])).statements = [stmt]) :
    Grammar.Declaration true (tokens ++ [semicolon]) stmt := by
  have whole : tokens ++ [semicolon, last] = tokens ++ [semicolon] ++ [last] := by simp
  have proceeds' : Proceeds (tokens ++ [semicolon]) := by
    apply proceeds.append
    intro token member
    rw [List.mem_singleton.mp member]
    exact Token.not_is isSemicolon (by decide)
  rw [whole] at clean single
  have derived := program_sound ends proceeds' clean true
  rw [single] at derived
  exact derived.declaration

/-- What is found missing if the statement lacks the semicolon it ends in: a bare `return` first
lacks a value.  Other statements do not end in a semicolon of their own. -/
def unended? : Stmt → Option ParseCause
  | .expression _ => some .semicolonAfterExpression
  | .print _ => some .semicolonAfterValue
  | .var _ _ => some .semicolonAfterVariable
  | .returnValue _ (some _) => some .semicolonAfterReturnValue
  | .returnValue _ none => some .expression
  | _ => none

section

variable {right : Token} {follow : List Token} (isRight : right.is .rightBrace = true)

include isRight

theorem expression_fails (fuel : Nat) :
    Fails (expression fuel) [] #[] ⟨right, .expression⟩ (right :: follow) ∧
    (∀ current, Fails (level fuel current) [] #[] ⟨right, .expression⟩ (right :: follow)) ∧
    Fails (prefixed fuel) [] #[] ⟨right, .expression⟩ (right :: follow) ∧
    Fails (primary fuel) [] #[] ⟨right, .expression⟩ (right :: follow) := by
  induction fuel with
  | zero => exact ⟨Fails.exhausted, fun _ => Fails.exhausted, Fails.exhausted, Fails.exhausted⟩
  | succ fuel ih =>
      obtain ⟨_, ofLevel, ofPrefixed, ofPrimary⟩ := ih
      refine ⟨?_, ?_, ?_, ?_⟩
      · unfold expression
        exact (ofLevel .disjunction).bind
      · intro current
        unfold level
        cases current.tighter? with
        | none => exact ofPrefixed
        | some tighter => exact (ofLevel tighter).bind
      · have unprefixed : Accepts (acceptAny [.bang, .minus]) [] none ([] ++ right :: follow) := by
          apply Accepts.acceptAny_none
          intro mark listed
          refine Token.not_is isRight ?_
          rintro rfl
          exact absurd listed (by decide)
        unfold prefixed
        exact Fails.bindLook unprefixed ofPrimary.bind
      · have coming : upcoming ([] ++ right :: follow) = right := rfl
        unfold primary
        apply Fails.peek coming
        rw [Token.kind_of_is isRight]
        exact Fails.raise

theorem expression_ends {tokens : List Token} {expr : Expr} (derived : Expression tokens expr)
    (fuel : Nat) : Accepts (expression fuel) tokens expr (right :: follow) := by
  have closes : Closes (right :: follow) :=
    ⟨.of_mark isRight (by decide) _, Token.not_is isRight (by decide)⟩
  exact (completeExpressions fuel).expression derived closes

theorem semicolon_fails {α : Type} {result : α} (cause : ParseCause) :
    Fails
      (do
        let _ ← Parser.expect .semicolon cause
        return result) [] #[] ⟨right, cause⟩ (right :: follow) := by
  have absent : right.is .semicolon = false := Token.not_is isRight (by decide)
  exact (Fails.expect absent).bind

theorem variableDeclaration_fails {keyword semicolon : Token} {tokens : List Token} {stmt : Stmt}
    (derived : VariableDeclaration (keyword :: (tokens ++ [semicolon])) stmt) (fuel : Nat) :
    Fails (variableDeclaration fuel) tokens #[] ⟨right, .semicolonAfterVariable⟩
      (right :: follow) := by
  unfold variableDeclaration
  generalize whole : keyword :: (tokens ++ [semicolon]) = all at derived
  cases derived with
  | @bare _ name _ _ isName _ =>
      obtain ⟨_, split⟩ := List.cons.inj whole
      obtain rfl : tokens = [name] := List.append_inj_left' split rfl
      have missing : Accepts (accept .equal) [] none ([] ++ right :: follow) :=
        Accepts.accept_none (Token.not_is isRight (by decide))
      apply Fails.bindToken (Accepts.expect isName (by decide))
      apply Fails.bindLook missing
      exact semicolon_fails isRight _
  | @initialized _ name equals _ inner value _ isName isEquals expression _ =>
      obtain ⟨_, split⟩ := List.cons.inj whole
      obtain rfl : tokens = name :: equals :: inner := List.append_inj_left' split rfl
      apply Fails.bindToken (Accepts.expect isName (by decide))
      apply Fails.bindToken (Accepts.accept isEquals (by decide))
      exact Fails.bindAll (expression_ends isRight expression fuel) (semicolon_fails isRight _)

/-- Without a value, a `return` in front of a closing brace lacks one. -/
theorem bareReturn_fails (fuel : Nat) :
    Fails (expressionUnless fuel .semicolon) [] #[] ⟨right, .expression⟩ (right :: follow) := by
  have absent : right.is .semicolon = false := Token.not_is isRight (by decide)
  have missing : Accepts (sees .semicolon) [] false ([] ++ right :: follow) :=
    Accepts.sees_false absent
  unfold expressionUnless
  exact Fails.bindLook missing (expression_fails isRight fuel).1.bind

theorem returnValue_ends {tokens : List Token} {expr : Expr} (derived : Expression tokens expr)
    (fuel : Nat) :
    Accepts (expressionUnless fuel .semicolon) tokens (some expr) (right :: follow) := by
  unfold expressionUnless
  apply Accepts.unseen (derived.starts.upcoming_is (by decide) _)
  exact Accepts.bindAll (expression_ends isRight derived fuel) Accepts.pure

theorem statement_fails {tokens : List Token} {semicolon : Token} {stmt : Stmt} {dangling : Bool}
    {cause : ParseCause} (derived : Statement true (tokens ++ [semicolon]) stmt dangling)
    (unended : unended? stmt = some cause) (fuel : Nat) :
    Fails (statement fuel) tokens #[] ⟨right, cause⟩ (right :: follow) := by
  cases fuel with
  | zero => exact Fails.exhausted
  | succ fuel =>
      unfold statement
      generalize whole : tokens ++ [semicolon] = all at derived
      cases derived with
      | expression statement =>
          cases statement with
          | @mk inner expr _ expression _ =>
              obtain rfl : tokens = inner := List.append_inj_left' whole rfl
              cases unended
              have fails : Fails (expressionStatement fuel) tokens #[] _ (right :: follow) :=
                Fails.bindAll (expression_ends isRight expression fuel)
                  (semicolon_fails isRight _)
              obtain ⟨token, rest, rfl, only⟩ := expression.starts
              apply Fails.peek rfl
              split
              case h_7 => exact fails
              all_goals
                rename_i kind
                exact absurd (only _ (Token.is_of_kind kind)) (by decide)
      | @print keyword _ inner expr isKeyword expression _ =>
          obtain rfl : tokens = keyword :: inner := List.append_inj_left' whole rfl
          have coming : upcoming (keyword :: inner ++ right :: follow) = keyword := rfl
          cases unended
          apply Fails.peek coming
          rw [Token.kind_of_is isKeyword]
          apply Fails.bindToken (Accepts.advance (Token.not_is isKeyword (by decide)))
          exact Fails.bindAll (expression_ends isRight expression fuel) (semicolon_fails isRight _)
      | @returned keyword _ inner value isKeyword given _ =>
          obtain rfl : tokens = keyword :: inner := List.append_inj_left' whole rfl
          have coming : upcoming (keyword :: inner ++ right :: follow) = keyword := rfl
          apply Fails.peek coming
          rw [Token.kind_of_is isKeyword]
          apply Fails.bindToken (Accepts.advance (Token.not_is isKeyword (by decide)))
          cases given with
          | absent =>
              cases unended
              exact (bareReturn_fails isRight fuel).bind
          | present expression =>
              cases unended
              exact Fails.bindAll (returnValue_ends isRight expression fuel)
                (semicolon_fails isRight _)
      | block => cases unended
      | loop => cases unended
      | @counting _ _ _ _ _ _ _ _ initializer => cases initializer <;> cases unended
      | conditional => cases unended
      | alternative => cases unended

theorem guarded_fails {first semicolon : Token} {tokens : List Token} {stmt : Stmt}
    {cause : ParseCause} (derived : Grammar.Declaration true (first :: tokens ++ [semicolon]) stmt)
    (unended : unended? stmt = some cause) (fuel : Nat) :
    Fails (guarded fuel first) (first :: tokens) #[] ⟨right, cause⟩ (right :: follow) := by
  unfold guarded
  generalize whole : first :: tokens ++ [semicolon] = all at derived
  cases derived with
  | function => cases unended
  | var declaration =>
      have same : cause = .semicolonAfterVariable := by
        cases declaration <;> exact (Option.some.inj unended).symm
      obtain ⟨keyword, rest, rfl, isKeyword⟩ := declaration.keyword
      obtain ⟨rfl, rfl⟩ := List.cons.inj whole
      rw [Token.kind_of_is isKeyword, same]
      apply Fails.bindToken (Accepts.advance (Token.not_is isKeyword (by decide)))
      exact variableDeclaration_fails isRight declaration fuel
  | statement statement =>
      obtain ⟨token, rest, rfl, only⟩ := statement.starts
      have fails : Fails (Parser.statement fuel) (first :: tokens) #[] ⟨right, cause⟩
          (right :: follow) :=
        statement_fails isRight (whole ▸ statement) unended fuel
      obtain ⟨rfl, rfl⟩ := List.cons.inj whole
      split
      case h_1 kind => exact absurd (only _ (Token.is_of_kind kind)) (by decide)
      case h_2 kind => exact absurd (only _ (Token.is_of_kind kind)) (by decide)
      case h_3 => exact fails

/-- A statement that lacks its semicolon is left out, and with it the closing brace and all that is
skipped behind it. -/
theorem unended_records {semicolon : Token} {tokens skipped rest : List Token} {stmt : Stmt}
    {cause : ParseCause} (isSemicolon : semicolon.is .semicolon = true)
    (derived : Grammar.Declaration true (tokens ++ [semicolon]) stmt)
    (unended : unended? stmt = some cause) (resumes : boundary right follow = rest)
    (split : follow = skipped ++ rest) (fuel : Nat) :
    Records (declaration fuel) (tokens ++ right :: skipped) none #[⟨right, cause⟩] rest := by
  -- The error is at the brace, and the token of an error is always skipped.
  have going : right.is .endOfInput = false := Token.not_is isRight (by decide)
  have resumes' : resumed (right :: follow) = rest :=
    (if_neg (Bool.eq_false_iff.mp going)).trans resumes
  have split' : right :: follow = right :: skipped ++ rest := by rw [split, List.cons_append]
  obtain ⟨first, others, rfl, _⟩ := unended_starts isSemicolon derived
  exact Fails.declaration (guarded_fails isRight derived unended) resumes' split' fuel

end

/-! ### Blocks -/

theorem begins_with_brace {left : Token} (isLeft : left.is .leftBrace = true)
    (rest : List Token) :
    ∀ mark, mark ∈ [Mark.endOfInput, .rightBrace] →
      (upcoming (left :: rest)).is mark = false := by
  intro mark listed
  refine Token.not_is isLeft ?_
  rintro rfl
  exact absurd listed (by decide)

section

variable {inner : List Token} {body : List Stmt} {errors : Array ParseError} {left last : Token}
  (isLeft : left.is .leftBrace = true) (ends : last.is .endOfInput = true)

include isLeft ends

theorem program_block {rest : List Token} {right : Token} {others : List Stmt}
    {errors' : Array ParseError} (isRight : right.is .rightBrace = true)
    (records : ∀ fuel, Records (declarations fuel true) inner body errors
      (right :: rest ++ [last]))
    (records' : ∀ fuel, Records (declarations fuel false) rest others errors' [last]) :
    (program (left :: (inner ++ right :: rest) ++ [last])).statements = .block body :: others ∧
      (program (left :: (inner ++ right :: rest) ++ [last])).errors =
        errors.toList ++ errors'.toList := by
  have whole : ∀ fuel, Records (declarations fuel false) (left :: (inner ++ [right]) ++ rest)
      (.block body :: others) (errors ++ errors') [last] := by
    intro fuel
    cases fuel with
    | zero => exact Records.exhausted
    | succ fuel =>
        have block := Records.block isLeft isRight records fuel
        exact Records.cons (begins_with_brace isLeft _) block (records' fuel)
  have parsed := program_records ends whole
  rw [Array.toList_append] at parsed
  simpa using parsed

/-- A block that is not closed fails at the end of the input. -/
theorem unclosed_fails
    (records : ∀ fuel, Records (declarations fuel true) inner body errors [last]) (fuel : Nat) :
    Fails (guarded fuel left) (left :: inner) errors ⟨last, .braceAfterBlock⟩ [last] := by
  have unclosed : ∀ fuel, Fails (block fuel) inner errors ⟨last, .braceAfterBlock⟩ [last] := by
    intro fuel
    cases fuel with
    | zero => exact Fails.exhausted
    | succ fuel =>
        have absent : last.is .rightBrace = false := Token.not_is ends (by decide)
        have all : errors ++ #[] = errors := Array.append_empty
        unfold block
        rw [← List.append_nil inner, ← all]
        exact Fails.bindRecorded (records fuel) (Fails.expect absent).bind
  unfold guarded
  rw [Token.kind_of_is isLeft]
  cases fuel with
  | zero => exact Fails.exhausted
  | succ fuel =>
      have coming : upcoming (left :: inner ++ [last]) = left := rfl
      unfold statement
      apply Fails.peek coming
      rw [Token.kind_of_is isLeft]
      apply Fails.bindToken (Accepts.advance (Token.not_is isLeft (by decide)))
      exact (unclosed fuel).bind

/-- A program that is one block without its closing brace returns nothing. -/
theorem program_unclosed
    (records : ∀ fuel, Records (declarations fuel true) inner body errors [last]) :
    (program (left :: inner ++ [last])).statements = [] ∧
      (program (left :: inner ++ [last])).errors =
        errors.toList ++ [⟨last, .braceAfterBlock⟩] := by
  have whole : ∀ fuel, Records (declarations fuel false) (left :: inner ++ [] ++ []) []
      (errors.push ⟨last, .braceAfterBlock⟩ ++ #[]) [last] := by
    intro fuel
    cases fuel with
    | zero => exact Records.exhausted
    | succ fuel =>
        have fails := unclosed_fails isLeft ends records
        have stays : resumed [last] = [last] := if_pos ends
        have lost := Fails.declaration fails stays (List.nil_append [last]).symm fuel
        have none := (completeStatements fuel).declarations .nil
          (Or.inl ends : Concluded false [last])
        exact Records.cons (begins_with_brace isLeft _) lost none.records
  have parsed := program_records ends whole
  simpa using parsed

end

/-- Statements that stand in front of those of the block that a program begins with.  If there is no
block, they are lost. -/
def intoBlock (stmts : List Stmt) : List Stmt → List Stmt
  | .block body :: others => .block (stmts ++ body) :: others
  | others => others

theorem eq_nil_of_ends {tokens : List Token} {last : Token} (proceeds : Proceeds tokens)
    (stops : (upcoming (tokens ++ [last])).is .endOfInput = true) : tokens = [] := by
  cases tokens with
  | nil => rfl
  | cons token rest => cases stops.symm.trans (proceeds token List.mem_cons_self)

/-- If the front of a block adds an error and statements to whatever declarations come behind it,
it does so to the program that it is part of. -/
theorem program_prepends {front tokens : List Token} {stmts : List Stmt} {error : ParseError}
    {left last : Token} (isLeft : left.is .leftBrace = true) (ends : last.is .endOfInput = true)
    (proceeds : Proceeds tokens)
    (prepends : ∀ {taken follow : List Token} {body : List Stmt} {errors : Array ParseError},
      tokens ++ [last] = taken ++ follow →
      (∀ fuel, Records (declarations fuel true) taken body errors follow) →
      ∀ fuel, Records (declarations fuel true) (front ++ taken) (stmts ++ body)
        (#[error] ++ errors) follow) :
    (program (left :: (front ++ tokens) ++ [last])).statements =
        intoBlock stmts (program (left :: tokens ++ [last])).statements ∧
      (program (left :: (front ++ tokens) ++ [last])).errors =
        error :: (program (left :: tokens ++ [last])).errors := by
  obtain ⟨taken, rest, body, errors, rfl, records, stops⟩ := declarations_record tokens ends true
  have within : Proceeds rest := fun token member =>
    proceeds token (List.mem_append_right taken member)
  have records' := prepends (List.append_assoc _ _ _) records
  rcases stops with ended | ⟨_, closed⟩
  · -- The block is open to the end, with the front and without it.
    obtain rfl := eq_nil_of_ends within ended
    have unclosed := program_unclosed isLeft ends records
    have unclosed' := program_unclosed isLeft ends records'
    rw [List.append_nil, unclosed.1, unclosed.2, unclosed'.1, unclosed'.2, Array.toList_append]
    exact ⟨rfl, rfl⟩
  · cases rest with
    | nil => cases closed.symm.trans (Token.not_is ends (by decide))
    | cons right rest =>
        -- The block is closed at the same brace, and the same declarations follow.
        obtain ⟨taken', rest', others, errors', rfl, later, stops'⟩ :=
          declarations_record rest ends false
        have within' : Proceeds rest' := fun token member =>
          within token (List.mem_cons_of_mem right (List.mem_append_right taken' member))
        have ended : (upcoming (rest' ++ [last])).is .endOfInput = true :=
          stops'.resolve_right fun blocked => nomatch blocked.1
        obtain rfl := eq_nil_of_ends within' ended
        have isRight : right.is .rightBrace = true := closed
        rw [List.append_nil] at records records' ⊢
        have block := program_block isLeft ends isRight records later
        have block' := program_block isLeft ends isRight records' later
        rw [← List.append_assoc, block.1, block.2, block'.1, block'.2, Array.toList_append,
          List.append_assoc]
        exact ⟨rfl, rfl⟩

/-- Behind declarations without errors, a statement that lacks its semicolon adds their statements
and its own error to the declarations that are parsed behind what is skipped. -/
theorem unended_prepends {before middle skipped tokens : List Token} {right semicolon : Token}
    {stmts : List Stmt} {stmt : Stmt} {cause : ParseCause}
    (isRight : right.is .rightBrace = true) (isSemicolon : semicolon.is .semicolon = true)
    (derived : Declarations true before stmts)
    (derived' : Grammar.Declaration true (middle ++ [semicolon]) stmt)
    (unended : unended? stmt = some cause) (resumes : boundary right (skipped ++ tokens) = tokens)
    {taken follow : List Token} {body : List Stmt} {errors : Array ParseError}
    (split : tokens = taken ++ follow)
    (records : ∀ fuel, Records (declarations fuel true) taken body errors follow) (fuel : Nat) :
    Records (declarations fuel true) (before ++ (middle ++ right :: skipped) ++ taken)
      (stmts ++ body) (#[⟨right, cause⟩] ++ errors) follow := by
  have starts := (unended_starts isSemicolon derived').append (right :: skipped)
  have later : ∀ fuel, Records (declarations fuel true) (middle ++ right :: skipped ++ taken) body
      (#[⟨right, cause⟩] ++ errors) follow := by
    intro fuel
    cases fuel with
    | zero => exact Records.exhausted
    | succ fuel =>
        have begins : ∀ mark, mark ∈ [Mark.endOfInput, .rightBrace] →
            (upcoming (middle ++ right :: skipped ++ taken ++ follow)).is mark = false := by
          have apart : ∀ mark, mark ∈ [Mark.endOfInput, .rightBrace] →
              mark ∉ Mark.funWord :: .varWord :: beginnings := by
            decide
          intro mark listed
          exact (starts.append taken).upcoming_is (apart mark listed) follow
        rw [split] at resumes
        have left := unended_records isRight isSemicolon derived' unended resumes rfl fuel
        exact Records.cons begins left (records fuel)
  rw [List.append_assoc]
  exact Records.append ((starts.append taken).upcoming_is (by decide) follow) later derived fuel

/-- The block goes on behind what is skipped, with the statements in front of the error in it. -/
theorem program_reopens {before middle after : List Token} {left right semicolon last : Token}
    {stmts : List Stmt} {stmt : Stmt} {cause : ParseCause} (isLeft : left.is .leftBrace = true)
    (isRight : right.is .rightBrace = true) (isSemicolon : semicolon.is .semicolon = true)
    (ends : last.is .endOfInput = true) (proceeds : Proceeds after)
    (derived : Declarations true before stmts)
    (derived' : Grammar.Declaration true (middle ++ [semicolon]) stmt)
    (unended : unended? stmt = some cause) :
    (program (left :: (before ++ middle ++ right :: after) ++ [last])).statements =
        intoBlock stmts (program (left :: boundary right (after ++ [last]))).statements ∧
      (program (left :: (before ++ middle ++ right :: after) ++ [last])).errors =
        ⟨right, cause⟩ :: (program (left :: boundary right (after ++ [last]))).errors := by
  obtain ⟨rest, ⟨skipped, rfl⟩, resumes⟩ := boundary_end ends after right
  have proceeds' : Proceeds rest := fun token member =>
    proceeds token (List.mem_append_right skipped member)
  have resumes' : boundary right (skipped ++ (rest ++ [last])) = rest ++ [last] := by
    rw [← List.append_assoc]
    exact resumes []
  have parsed : left :: (before ++ middle ++ right :: (skipped ++ rest)) ++ [last] =
      left :: (before ++ (middle ++ right :: skipped) ++ rest) ++ [last] := by
    simp
  have reopened : left :: boundary right (skipped ++ rest ++ [last]) = left :: rest ++ [last] := by
    rw [resumes []]
    rfl
  rw [parsed, reopened]
  exact program_prepends isLeft ends proceeds'
    (unended_prepends isRight isSemicolon derived derived' unended resumes')

section

variable {after : List Token} {left right last : Token} {stmts : List Stmt}
  (isLeft : left.is .leftBrace = true) (ends : last.is .endOfInput = true)
  (derived : Declarations true after stmts)

include isLeft ends derived

/-- Declarations that begin with a word, or none, do not close the block that goes on with them. -/
theorem reopened_unclosed
    (words : ∀ token, token ∈ after.head? → statementMarks.any token.is = true) :
    (program (left :: boundary right (after ++ [last]))).statements = [] ∧
      (program (left :: boundary right (after ++ [last]))).errors =
        [⟨last, .braceAfterBlock⟩] := by
  have whole : boundary right (after ++ [last]) = after ++ [last] := by
    cases after with
    | nil => simp [boundary, ends]
    | cons first rest => simp [boundary, words first rfl]
  have records : ∀ fuel, Records (declarations fuel true) after stmts #[] [last] := by
    intro fuel
    have concludes : Concluded true [last] := Or.inl ends
    exact ((completeStatements fuel).declarations derived concludes).records
  rw [whole]
  exact program_unclosed isLeft ends records

/-- If a block that goes on behind the brace gives no error, it holds more statements, or fewer than
those behind the brace follow it. -/
theorem reopened_differs (isRight : right.is .rightBrace = true)
    (proceeds : Proceeds after) (before : List Stmt)
    (clean : (program (left :: boundary right (after ++ [last]))).errors = []) :
    intoBlock before (program (left :: boundary right (after ++ [last]))).statements ≠
      .block before :: stmts := by
  obtain ⟨rest, suffix, resumes⟩ := boundary_end ends after right
  have skipped : boundary right (after ++ [last]) = rest ++ [last] := resumes []
  have proceeds' : Proceeds (left :: rest) := by
    intro token member
    rcases List.mem_cons.mp member with rfl | later
    · exact Token.not_is isLeft (by decide)
    · exact proceeds token (suffix.mem later)
  rw [skipped] at clean ⊢
  have derived' : Declarations true (left :: rest) (program (left :: rest ++ [last])).statements :=
    program_sound ends proceeds' clean true
  obtain ⟨inner, brace, others, body, stmts', rfl, isBrace, inside, behind, same⟩ :=
    derived'.opened isLeft
  intro equal
  change intoBlock before (program (left :: (inner ++ brace :: others) ++ [last])).statements = _
    at equal
  rw [same] at equal
  obtain ⟨block, rfl⟩ := List.cons.inj equal
  -- Nothing is left in the block, so the skipping stopped at its closing brace.
  have nothing : body = [] := List.append_right_eq_self.mp (Stmt.block.inj block)
  rw [nothing] at inside
  cases inside with
  | nil => exact derived.not_kept (Token.not_is isRight (by decide)) isBrace ends skipped behind

end

/-- A statement at the end of a block that lacks its semicolon.  The brace behind it does not close
the block: besides the error at the brace, the parser returns and records what it would if the block
went on where the next statement begins, with the statements in front of the error put into it.  In
front of a word that starts a statement, or of the end, the block is lost with all that is in it.
So the block is never returned with just these statements in front of what follows the brace. -/
theorem unended_statement_reopens_block {before middle after : List Token}
    {left right semicolon last last₁ last₂ last₃ : Token} {stmt : Stmt} {cause : ParseCause}
    (isLeft : left.is .leftBrace = true) (isRight : right.is .rightBrace = true)
    (isSemicolon : semicolon.is .semicolon = true)
    (ends : ∀ token, token ∈ [last, last₁, last₂, last₃] → token.is .endOfInput = true)
    (inner : ∀ token, token ∈ before ++ middle ++ after → token.is .endOfInput = false)
    (clean : (program (before ++ [last₁])).errors = [])
    (clean' : (program (after ++ [last₂])).errors = [])
    (clean'' : (program (middle ++ [semicolon, last₃])).errors = [])
    (single : (program (middle ++ [semicolon, last₃])).statements = [stmt])
    (unended : unended? stmt = some cause) :
    let parsed := program (left :: (before ++ middle ++ right :: after) ++ [last])
    let reopened := program (left :: boundary right (after ++ [last]))
    (parsed.statements = intoBlock (program (before ++ [last₁])).statements reopened.statements ∧
      parsed.errors = ⟨right, cause⟩ :: reopened.errors) ∧
    ((∀ token, token ∈ after.head? → statementMarks.any token.is = true) →
      parsed.statements = [] ∧
        parsed.errors = [⟨right, cause⟩, ⟨last, .braceAfterBlock⟩]) ∧
    ¬(parsed.errors.length = 1 ∧
      parsed.statements = .block (program (before ++ [last₁])).statements ::
        (program (after ++ [last₂])).statements) := by
  intro parsed reopened
  have ended : last.is .endOfInput = true := ends last (by simp)
  have derived : Declarations true before (program (before ++ [last₁])).statements := by
    apply program_sound (ends last₁ (by simp)) _ clean
    intro token member
    exact inner token (List.mem_append_left _ (List.mem_append_left _ member))
  have proceeds : Proceeds after := fun token member =>
    inner token (List.mem_append_right _ member)
  have derived' : Declarations true after (program (after ++ [last₂])).statements :=
    program_sound (ends last₂ (by simp)) proceeds clean' true
  have derived'' : Grammar.Declaration true (middle ++ [semicolon]) stmt := by
    apply declaration_of_program isSemicolon (ends last₃ (by simp)) _ clean'' single
    intro token member
    exact inner token (List.mem_append_left _ (List.mem_append_right _ member))
  have reopens : parsed.statements =
        intoBlock (program (before ++ [last₁])).statements reopened.statements ∧
      parsed.errors = ⟨right, cause⟩ :: reopened.errors :=
    program_reopens isLeft isRight isSemicolon ended proceeds derived derived'' unended
  refine ⟨reopens, ?_, ?_⟩
  · intro words
    have lost : reopened.statements = [] ∧ reopened.errors = [⟨last, .braceAfterBlock⟩] :=
      reopened_unclosed isLeft ended derived' words
    rw [reopens.1, reopens.2, lost.1, lost.2]
    exact ⟨rfl, rfl⟩
  · rintro ⟨one, same⟩
    rw [reopens.2] at one
    rw [reopens.1] at same
    have clean : reopened.errors = [] := List.length_eq_zero_iff.mp (Nat.succ.inj one)
    exact reopened_differs isLeft ended derived' isRight proceeds _ clean same

/-- A block that is followed by another one.  The brace that closes the second block closes the
first one, and the statement in it is skipped. -/
theorem unended_statement_reopens_block_next :
    let before := wordsOf "print a;"
    let middle := wordsOf "return b"
    let after := wordsOf "\x7b c; \x7d print d;"
    let semicolon : Token := ⟨.mark .semicolon, ";", 1⟩
    let left : Token := ⟨.mark .leftBrace, "\x7b", 1⟩
    let right : Token := ⟨.mark .rightBrace, "\x7d", 1⟩
    let last := Token.endOfInput 1
    let parsed := program (left :: (before ++ middle ++ right :: after) ++ [last])
    let reopened := program (left :: boundary right (after ++ [last]))
    (program (before ++ [last])).errors = [] ∧
    (program (after ++ [last])).errors = [] ∧
    (program (middle ++ [semicolon, last])).errors = [] ∧
    (program (after ++ [last])).statements.length = 2 ∧
    reopened.errors = [] ∧
    reopened.statements.length = 2 ∧
    parsed.statements = intoBlock (program (before ++ [last])).statements reopened.statements ∧
    parsed.errors = ⟨right, .semicolonAfterReturnValue⟩ :: reopened.errors ∧
    ¬(parsed.errors.length = 1 ∧
      parsed.statements = .block (program (before ++ [last])).statements ::
        (program (after ++ [last])).statements) := by
  intro before middle after semicolon left right last parsed reopened
  have clean : (program (before ++ [last])).errors = [] :=
    List.isEmpty_iff.mp (by decide +kernel)
  have clean' : (program (after ++ [last])).errors = [] :=
    List.isEmpty_iff.mp (by decide +kernel)
  have clean'' : (program (middle ++ [semicolon, last])).errors = [] :=
    List.isEmpty_iff.mp (by decide +kernel)
  have missing : (program (middle ++ [semicolon, last])).statements.map unended? =
      [some .semicolonAfterReturnValue] := by
    decide +kernel
  obtain ⟨stmt, single, unended⟩ := List.map_eq_singleton_iff.mp missing
  have reopens := @unended_statement_reopens_block before middle after left right semicolon
    last last last last stmt _ (by decide) (by decide) (by decide) (by decide)
    (by decide +kernel) clean clean' clean'' single unended
  exact ⟨clean, clean', clean'', by decide +kernel, List.isEmpty_iff.mp (by decide +kernel),
    by decide +kernel, reopens.1.1, reopens.1.2, reopens.2.2⟩

/-- A block with a print in it that lacks its semicolon, and a print behind the block: nothing is
returned, and there is a second error at the end. -/
theorem unended_print_loses_program :
    let parsed := program (wordsOf "\x7b print a; print b \x7d print c;" ++ [Token.endOfInput 1])
    parsed.statements = [] ∧
      parsed.errors.map (fun error => (error.token.lexeme, error.cause)) =
        [("\x7d", .semicolonAfterValue), ("", .braceAfterBlock)] :=
  ⟨List.isEmpty_iff.mp (by decide +kernel), by decide +kernel⟩

end LexicalScript.Parser
