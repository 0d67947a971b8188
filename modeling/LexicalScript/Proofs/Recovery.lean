import LexicalScript.Proofs.Lockstep
import LexicalScript.Proofs.Parsing

/-!
Recovery is isolated.

A malformed statement that ends in a semicolon is skipped as a whole, and what is recorded for it
does not depend on what stands around it.  The statement is followed in two runs, one in which it
stands alone and one in which it stands among declarations: both stop at the same token, and from
there both skip to what follows the semicolon.
-/

set_option autoImplicit false

namespace LexicalScript.Parser

open Grammar

/-! ### Rules that go past the stop token -/

namespace Fork

variable {α β : Type} {fork : Fork} {ahead left : List Token}

/-- Both runs are right behind the stop token. -/
def Past (fork : Fork) (_ : α) (final : State) (_ : α) (final' : State) : Prop :=
  final.rest = fork.behind ∧ final'.rest = fork.behind'

theorem Pairs.past {outcome outcome' : Outcome ParseError State α}
    (met : outcome.Meets (fun _ final => final.rest = fork.behind) fun _ _ => False)
    (met' : outcome'.Meets (fun _ final => final.rest = fork.behind') fun _ _ => False) :
    fork.Pairs ahead fork.Past outcome outcome' := by
  cases outcome with
  | exhausted => trivial
  | failure error final => exact met.elim
  | value result final =>
      cases outcome' with
      | exhausted => trivial
      | failure error final => exact met'.elim
      | value result' final' => exact ⟨met, met'⟩

/-- With these tokens in front of the stop token, both runs end right behind it or fail alike. -/
def Crosses (fork : Fork) (ahead : List Token) (rule rule' : Parse α) : Prop :=
  ∀ state state', fork.SharedAhead ahead state state' →
    fork.Pairs ahead fork.Past (rule state) (rule' state')

namespace Crosses

variable {rule rule' : Parse α} {mark : Mark} {cause : ParseCause} {token : Token}

theorem exhausted_left : fork.Crosses ahead .exhausted rule :=
  fun _ _ _ => trivial

theorem exhausted_right : fork.Crosses ahead rule .exhausted :=
  fun _ _ _ => Pairs.exhausted_right

theorem bind {next next' : α → Parse β} (first : fork.Lockstep rule rule')
    (second : ∀ result left, left <:+ ahead → fork.Crosses left (next result) (next' result)) :
    fork.Crosses ahead (rule >>= next) (rule' >>= next') := by
  intro state state' shared
  apply (first ahead state state' shared).bind
  intro result left middle middle' _ suffix
  exact second result left suffix middle middle'

theorem andThen {next next' : α → Parse β} (first : fork.Crosses ahead rule rule')
    (second : ∀ result, ∃ found, Accepts (next result) [] found fork.behind)
    (second' : ∀ result, ∃ found, Accepts (next' result) [] found fork.behind') :
    fork.Crosses ahead (rule >>= next) (rule' >>= next') := by
  intro state state' shared
  have pairs := first state state' shared
  rw [Attempt.bind_apply, Attempt.bind_apply]
  cases ended : rule state with
  | exhausted => trivial
  | failure error middle =>
      rw [ended] at pairs
      cases ended' : rule' state' with
      | exhausted => trivial
      | failure error' middle' =>
          rw [ended'] at pairs
          exact pairs
      | value result' middle' =>
          rw [ended'] at pairs
          exact pairs.elim
  | value result middle =>
      rw [ended] at pairs
      cases ended' : rule' state' with
      | exhausted => exact Pairs.exhausted_right
      | failure error' middle' =>
          rw [ended'] at pairs
          exact pairs.elim
      | value result' middle' =>
          rw [ended'] at pairs
          obtain ⟨found, accepts⟩ := second result
          obtain ⟨found', accepts'⟩ := second' result'
          apply Pairs.past
          · exact (accepts middle pairs.1).mono (fun _ _ met => met.2.1) fun _ _ => id
          · exact (accepts' middle' pairs.2).mono (fun _ _ met => met.2.1) fun _ _ => id

theorem map (first : fork.Crosses ahead rule rule') (change : α → β) :
    fork.Crosses ahead (rule >>= fun result => pure (change result))
      (rule' >>= fun result => pure (change result)) :=
  first.andThen (fun _ => ⟨_, .pure⟩) fun _ => ⟨_, .pure⟩

theorem peek {body body' : Token → Parse α}
    (after : fork.Crosses ahead (body (fork.next ahead)) (body' (fork.next ahead))) :
    fork.Crosses ahead (Parser.peek >>= body) (Parser.peek >>= body') := by
  intro state state' shared
  change fork.Pairs ahead _ (body state.peek state) (body' state'.peek state')
  rw [shared.peek.1, shared.peek.2]
  exact after state state' shared

theorem advance (more : token.is .endOfInput = false) (crosses : fork.Crosses left rule rule') :
    fork.Crosses (token :: left) (Parser.advance >>= fun _ => rule)
      (Parser.advance >>= fun _ => rule') := by
  intro state state' shared
  exact (crosses _ _ (shared.advance more)).mono (List.suffix_cons token left) fun _ _ _ _ => id

/-- A token that does not come next makes both runs fail. -/
theorem missing {next next' : Token → Parse α} (absent : (fork.next ahead).is mark = false) :
    fork.Crosses ahead (Parser.expect mark cause >>= next)
      (Parser.expect mark cause >>= next') := by
  intro state state' shared
  have unseen : state.sees mark = false := State.sees_eq_false (shared.peek.1 ▸ absent)
  have unseen' : state'.sees mark = false := State.sees_eq_false (shared.peek.2 ▸ absent)
  have fails : ∀ {state : State} {next : Token → Parse α}, state.sees mark = false →
      (Parser.expect mark cause >>= next) state =
        .failure ⟨state.peek, cause⟩ (state.note (.failed ⟨state.peek, cause⟩)) := by
    intro state next unseen
    unfold Parser.expect Parser.accept
    simp only [Attempt.bind_apply, unseen, Bool.false_eq_true, if_false, Parser.peek, Parser.raise]
  rw [fails unseen, fails unseen']
  refine ⟨?_, ahead, List.suffix_rfl, shared.rest, shared.rest', shared.errors⟩
  rw [shared.peek.1, shared.peek.2]

theorem expect (own : fork.stop.is mark = true) (inner : mark ≠ .endOfInput)
    (absent : ∀ token, token ∈ ahead → token.is mark = false) :
    fork.Crosses ahead (Parser.expect mark cause) (Parser.expect mark cause) := by
  cases ahead with
  | cons first rest =>
      have fails : fork.Crosses (first :: rest) (Parser.expect mark cause >>= pure)
          (Parser.expect mark cause >>= pure) := missing (absent first List.mem_cons_self)
      rw [bind_pure] at fails
      exact fails
  | nil =>
      intro state state' shared
      apply Pairs.past
      · exact (Accepts.expect own inner state shared.rest).mono (fun _ _ met => met.2.1)
          fun _ _ => id
      · exact (Accepts.expect own inner state' shared.rest').mono (fun _ _ met => met.2.1)
          fun _ _ => id

end Crosses

/-! ### Statements in front of a semicolon -/

/-- The tokens hold no semicolon, no brace and no end of input; they do not begin with `for`, and no
word that starts a statement stands behind their first token. -/
structure Unbroken (tokens : List Token) : Prop where
  plain : ∀ token, token ∈ tokens → ∀ mark,
    mark ∈ [Mark.semicolon, .leftBrace, .rightBrace, .endOfInput] → token.is mark = false
  first : ∀ token, token ∈ tokens.head? → token.is .forWord = false
  later : ∀ token, token ∈ tokens.tail → ∀ mark, mark ∈ statementMarks → token.is mark = false

theorem Unbroken.no_semicolon {tokens : List Token} (unbroken : Unbroken tokens) {token : Token}
    (member : token ∈ tokens) : token.is .semicolon = false :=
  unbroken.plain token member .semicolon (by decide)

theorem Unbroken.rest {first : Token} {rest left : List Token} (unbroken : Unbroken (first :: rest))
    (suffix : left <:+ rest) : Unbroken left := by
  constructor
  · intro token member
    exact unbroken.plain token (List.mem_cons_of_mem first (suffix.mem member))
  · intro token member
    exact unbroken.later token (suffix.mem (List.mem_of_mem_head? member)) .forWord (by decide)
  · intro token member
    exact unbroken.later token (suffix.mem (List.mem_of_mem_tail member))

theorem Unbroken.suffix {tokens left : List Token} (unbroken : Unbroken tokens)
    (suffix : left <:+ tokens) : Unbroken left := by
  cases tokens with
  | nil =>
      rw [List.suffix_nil.mp suffix]
      exact unbroken
  | cons first rest =>
      rcases List.suffix_cons_iff.mp suffix with rfl | within
      · exact unbroken
      · exact unbroken.rest within

/-- No token in front of a semicolon, nor the semicolon, has one of these marks. -/
theorem Unbroken.opens (unbroken : Unbroken ahead) {stop : Token}
    (ends : stop.is .semicolon = true) {mark : Mark}
    (listed : mark ∈ [Mark.leftBrace, .rightBrace, .endOfInput]) (follow : List Token) :
    (upcoming (ahead ++ stop :: follow)).is mark = false := by
  cases ahead with
  | nil =>
      refine Token.not_is ends ?_
      rintro rfl
      exact absurd listed (by decide)
  | cons first rest =>
      exact unbroken.plain first List.mem_cons_self mark (List.mem_cons_of_mem _ listed)

theorem stopsExpressions_of_semicolon (ends : fork.stop.is .semicolon = true) :
    fork.StopsExpressions :=
  ⟨.semicolon, by decide, ends⟩

/-- A rule ends with the semicolon in both runs. -/
theorem semicolon_crosses {α : Type} (ends : fork.stop.is .semicolon = true)
    (unbroken : Unbroken ahead) {cause : ParseCause} (result : α) :
    fork.Crosses ahead
      (do
        let _ ← Parser.expect .semicolon cause
        return result)
      (do
        let _ ← Parser.expect .semicolon cause
        return result) := by
  apply Crosses.map
  exact Crosses.expect ends nofun fun token member => unbroken.no_semicolon member

theorem condition_crosses {α : Type} (stops : fork.StopsExpressions) {fuel fuel' : Nat}
    {cause cause' : ParseCause} {next next' : Expr → Parse α}
    (after : ∀ condition left, left <:+ ahead →
      fork.Crosses left (next condition) (next' condition)) :
    fork.Crosses ahead
      (do
        let _ ← Parser.expect .leftParen cause
        let condition ← Parser.expression fuel
        let _ ← Parser.expect .rightParen cause'
        next condition)
      (do
        let _ ← Parser.expect .leftParen cause
        let condition ← Parser.expression fuel'
        let _ ← Parser.expect .rightParen cause'
        next' condition) := by
  apply Crosses.bind (expect_lockstep stops (by decide))
  intro _ left suffix
  apply Crosses.bind (expression_lockstep stops fuel fuel')
  intro condition left' suffix'
  apply Crosses.bind (expect_lockstep stops (by decide))
  intro _ left'' suffix''
  exact after condition left'' (suffix''.trans (suffix'.trans suffix))

theorem expressionStatement_crosses (ends : fork.stop.is .semicolon = true)
    (unbroken : Unbroken ahead) (fuel fuel' : Nat) :
    fork.Crosses ahead (expressionStatement fuel) (expressionStatement fuel') := by
  unfold expressionStatement
  apply Crosses.bind (expression_lockstep (stopsExpressions_of_semicolon ends) fuel fuel')
  intro expr left suffix
  exact semicolon_crosses ends (unbroken.suffix suffix) (Stmt.expression expr)

theorem variableDeclaration_crosses (ends : fork.stop.is .semicolon = true)
    (unbroken : Unbroken ahead) (fuel fuel' : Nat) :
    fork.Crosses ahead (variableDeclaration fuel) (variableDeclaration fuel') := by
  have stops := stopsExpressions_of_semicolon ends
  unfold variableDeclaration
  apply Crosses.bind (expect_lockstep stops (by decide))
  intro name left suffix
  apply Crosses.bind (accept_lockstep stops (by decide))
  intro found left' suffix'
  cases found with
  | none =>
      have within := suffix'.trans suffix
      exact semicolon_crosses ends (unbroken.suffix within) (Stmt.var name none)
  | some equals =>
      apply Crosses.bind (expression_lockstep stops fuel fuel')
      intro expr left'' suffix''
      have within := suffix''.trans (suffix'.trans suffix)
      exact semicolon_crosses ends (unbroken.suffix within) (Stmt.var name (some expr))

/-- A function has a body, so its declaration fails in front of the semicolon. -/
theorem functionDeclaration_crosses (ends : fork.stop.is .semicolon = true)
    (unbroken : Unbroken ahead) (fuel fuel' : Nat) :
    fork.Crosses ahead (functionDeclaration fuel) (functionDeclaration fuel') := by
  have stops := stopsExpressions_of_semicolon ends
  cases fuel with
  | zero => exact Crosses.exhausted_left
  | succ fuel =>
      cases fuel' with
      | zero => exact Crosses.exhausted_right
      | succ fuel' =>
          have bodiless : ∀ {next next' : Token → Parse Stmt} {left}, left <:+ ahead →
              fork.Crosses left
                (do
                  let _ ← Parser.expect .rightParen .parenAfterParameters
                  let brace ← Parser.expect .leftBrace .braceBeforeFunctionBody
                  next brace)
                (do
                  let _ ← Parser.expect .rightParen .parenAfterParameters
                  let brace ← Parser.expect .leftBrace .braceBeforeFunctionBody
                  next' brace) := by
            intro next next' left suffix
            apply Crosses.bind (expect_lockstep stops (by decide))
            intro paren left' suffix'
            apply Crosses.missing
            exact (unbroken.suffix (suffix'.trans suffix)).opens ends (by decide) []
          unfold functionDeclaration
          apply Crosses.bind (expect_lockstep stops (by decide))
          intro name left suffix
          apply Crosses.bind (expect_lockstep stops (by decide))
          intro paren left' suffix'
          apply Crosses.bind (Lockstep.of_forall fun _ => LockstepOn.sees .rightParen)
          intro closes left'' suffix''
          have within := suffix''.trans (suffix'.trans suffix)
          cases closes with
          | true => exact bodiless within
          | false =>
              apply Crosses.bind (parameters_lockstep stops fuel fuel' 0)
              intro names left further
              exact bodiless (further.trans within)

/-- No `else` comes behind the stop token. -/
def Settled (fork : Fork) : Prop :=
  (upcoming fork.behind).is .elseWord = false ∧ (upcoming fork.behind').is .elseWord = false

theorem statement_crosses (ends : fork.stop.is .semicolon = true) (settled : fork.Settled)
    (fuel : Nat) : ∀ fuel' {ahead : List Token}, Unbroken ahead →
      fork.Crosses ahead (statement fuel) (statement fuel') := by
  have stops := stopsExpressions_of_semicolon ends
  induction fuel with
  | zero => exact fun _ _ _ => Crosses.exhausted_left
  | succ fuel ih =>
      intro fuel' ahead unbroken
      cases fuel' with
      | zero => exact Crosses.exhausted_right
      | succ fuel' =>
          have optional := expressionUnless_lockstep stops fuel fuel'
          have plain := expressionStatement_crosses ends unbroken fuel fuel'
          unfold statement
          apply Crosses.peek
          cases ahead with
          | nil =>
              have kind : (fork.next []).kind = .mark .semicolon := Token.kind_of_is ends
              rw [kind]
              exact plain
          | cons first rest =>
              have more : first.is .endOfInput = false :=
                unbroken.plain first List.mem_cons_self .endOfInput (by decide)
              have coming : fork.next (first :: rest) = first := rfl
              rw [coming]
              cases kind : first.kind with
              | string value | number value => exact plain
              | mark mark =>
                  cases mark with
                  | forWord =>
                      have absent := unbroken.first first rfl
                      cases absent.symm.trans (Token.is_of_kind kind)
                  | leftBrace =>
                      have absent := unbroken.plain first List.mem_cons_self .leftBrace (by decide)
                      cases absent.symm.trans (Token.is_of_kind kind)
                  | ifWord =>
                      apply Crosses.advance more
                      apply condition_crosses stops
                      intro condition left within
                      apply Crosses.andThen (ih fuel' (unbroken.rest within))
                      · intro branch
                        exact ⟨_, .bindLook (.accept_none settled.1) .pure⟩
                      · intro branch
                        exact ⟨_, .bindLook (.accept_none settled.2) .pure⟩
                  | whileWord =>
                      apply Crosses.advance more
                      apply condition_crosses stops
                      intro condition left within
                      exact Crosses.map (ih fuel' (unbroken.rest within)) _
                  | returnWord =>
                      apply Crosses.advance more
                      apply Crosses.bind (optional .semicolon)
                      intro value left suffix
                      exact semicolon_crosses ends (unbroken.rest suffix) _
                  | printWord =>
                      apply Crosses.advance more
                      apply Crosses.bind (expression_lockstep stops fuel fuel')
                      intro expr left suffix
                      exact semicolon_crosses ends (unbroken.rest suffix) _
                  | _ => exact plain

theorem declaration_eq (fuel : Nat) (state : State) :
    declaration (fuel + 1) state =
      recovering (guarded fuel state.peek) (state.note (.entering state.peek.line)) := rfl

theorem guarded_crosses (ends : fork.stop.is .semicolon = true) (settled : fork.Settled)
    (unbroken : Unbroken ahead) (fuel fuel' : Nat) :
    fork.Crosses ahead (guarded fuel (fork.next ahead)) (guarded fuel' (fork.next ahead)) := by
  have plain := statement_crosses ends settled fuel fuel' unbroken
  unfold guarded
  cases ahead with
  | nil =>
      have kind : (fork.next []).kind = .mark .semicolon := Token.kind_of_is ends
      rw [kind]
      exact plain
  | cons first rest =>
      have more : first.is .endOfInput = false :=
        unbroken.plain first List.mem_cons_self .endOfInput (by decide)
      have unbroken' := unbroken.rest List.suffix_rfl
      have coming : fork.next (first :: rest) = first := rfl
      rw [coming]
      cases kind : first.kind with
      | string value | number value => exact plain
      | mark mark =>
          cases mark with
          | funWord => exact Crosses.advance more (functionDeclaration_crosses ends unbroken' _ _)
          | varWord => exact Crosses.advance more (variableDeclaration_crosses ends unbroken' _ _)
          | _ => exact plain

/-! ### Skipping -/

theorem boundary_semicolon {last : Token} (ends : last.is .semicolon = true)
    (tokens : List Token) : boundary last tokens = tokens := by
  cases tokens with
  | nil => rfl
  | cons token rest => simp [boundary, ends]

theorem boundary_behind {stop : Token} (ends : stop.is .semicolon = true) {behind : List Token}
    (tokens : List Token) {last : Token} (unended : last.is .semicolon = false)
    (plain : ∀ token, token ∈ tokens → token.is .semicolon = false ∧
      token.is .endOfInput = false ∧ ∀ mark, mark ∈ statementMarks → token.is mark = false) :
    boundary last (tokens ++ stop :: behind) = behind := by
  induction tokens generalizing last with
  | nil =>
      have wordless : statementMarks.any stop.is = false := by
        have apart : ∀ mark, mark ∈ statementMarks → Mark.semicolon ≠ mark := by decide
        rw [List.any_eq_false]
        intro mark member
        rw [Token.not_is ends (apart mark member)]
        exact Bool.false_ne_true
      have going : stop.is .endOfInput = false := Token.not_is ends (by decide)
      simp [boundary, going, unended, wordless, boundary_semicolon ends]
  | cons token rest ih =>
      obtain ⟨unended', going, words⟩ := plain token List.mem_cons_self
      have wordless : statementMarks.any token.is = false := by
        rw [List.any_eq_false]
        intro mark member
        rw [words mark member]
        exact Bool.false_ne_true
      have skipped := ih unended' fun other member =>
        plain other (List.mem_cons_of_mem token member)
      simp [boundary, going, unended, wordless, skipped]

theorem synchronize_rest {stop : Token} {behind : List Token} {state : State}
    (ends : stop.is .semicolon = true) (unbroken : Unbroken left)
    (rest : state.rest = left ++ stop :: behind) : state.synchronize.rest = behind := by
  have skips : state.peek.is .endOfInput = false →
      state.synchronize.rest = boundary state.peek state.rest.tail := by
    intro going
    simp [State.synchronize, State.note, State.atEnd, going]
  have peeked := state.peek_eq
  rw [rest] at peeked
  cases left with
  | nil =>
      have same : state.peek = stop := peeked
      rw [same] at skips
      rw [skips (Token.not_is ends (by decide)), boundary_semicolon ends, rest]
      rfl
  | cons first others =>
      have same : state.peek = first := peeked
      rw [same] at skips
      have marks := unbroken.plain first List.mem_cons_self
      rw [skips (marks .endOfInput (by decide)), rest]
      apply boundary_behind ends others (marks .semicolon (by decide))
      intro token member
      have marks' := unbroken.plain token (List.mem_cons_of_mem first member)
      exact ⟨marks' .semicolon (by decide), marks' .endOfInput (by decide),
        unbroken.later token member⟩

/-- A declaration that is skipped in one run is skipped in the other, with the same errors. -/
theorem declaration_skips (ends : fork.stop.is .semicolon = true) (settled : fork.Settled)
    (unbroken : Unbroken ahead) {state state' final : State} {fuel : Nat}
    (shared : fork.SharedAhead ahead state state')
    (skipped : declaration fuel state = .value none final) (fuel' : Nat) :
    (declaration fuel' state').Meets
      (fun found final' => found = none ∧ final'.rest = fork.behind' ∧
        final'.errors = fork.earlier ++ final.errors)
      fun _ _ => False := by
  cases fuel with
  | zero => cases skipped
  | succ fuel =>
      cases fuel' with
      | zero => trivial
      | succ fuel' =>
          have pairs := guarded_crosses ends settled unbroken fuel fuel'
            (state.note (.entering state.peek.line)) (state'.note (.entering state'.peek.line))
            ⟨shared.rest, shared.rest', shared.errors⟩
          rw [declaration_eq, shared.peek.1] at skipped
          rw [declaration_eq, shared.peek.2]
          rw [shared.peek.1, shared.peek.2] at pairs
          unfold recovering at skipped ⊢
          cases ended : guarded fuel (fork.next ahead)
              (state.note (.entering (fork.next ahead).line)) with
          | exhausted =>
              rw [ended] at skipped
              cases skipped
          | value result middle =>
              rw [ended] at skipped
              cases skipped
          | failure error middle =>
              rw [ended] at skipped pairs
              cases skipped
              cases ended' : guarded fuel' (fork.next ahead)
                  (state'.note (.entering (fork.next ahead).line)) with
              | exhausted => trivial
              | value result' middle' =>
                  rw [ended'] at pairs
                  exact pairs.elim
              | failure error' middle' =>
                  rw [ended'] at pairs
                  obtain ⟨rfl, left, suffix, shared'⟩ := pairs
                  refine ⟨rfl, synchronize_rest ends (unbroken.suffix suffix) shared'.rest', ?_⟩
                  rw [synchronize_errors, synchronize_errors]
                  change middle'.errors.push error = _ ++ middle.errors.push error
                  rw [shared'.errors, Array.append_push]

end Fork

/-! ### Declarations with errors among them -/

/-- Given the tokens in front of what follows, the rule takes them, returns the result and records
the errors. -/
def Records {α : Type} (rule : Parse α) (tokens : List Token) (result : α)
    (errors : Array ParseError) (follow : List Token) : Prop :=
  ∀ state : State, state.rest = tokens ++ follow → (rule state).Meets
    (fun found final => found = result ∧ final.rest = follow ∧
      final.errors = state.errors ++ errors)
    fun _ _ => False

theorem Accepts.records {α : Type} {rule : Parse α} {tokens follow : List Token} {result : α}
    (accepts : Accepts rule tokens result follow) : Records rule tokens result #[] follow := by
  intro state rest
  apply (accepts state rest).mono _ fun _ _ => id
  rintro found final ⟨same, left, errors⟩
  exact ⟨same, left, by rw [errors, Array.append_empty]⟩

namespace Records

variable {α β : Type} {rule : Parse α} {next : α → Parse β} {result : α} {result' : β}
  {before after tokens follow : List Token} {errors errors' : Array ParseError}

theorem exhausted : Records .exhausted tokens result errors follow :=
  fun _ _ => trivial

theorem bind (first : Records rule before result errors (after ++ follow))
    (second : Records (next result) after result' errors' follow) :
    Records (rule >>= next) (before ++ after) result' (errors ++ errors') follow := by
  intro state rest
  rw [List.append_assoc] at rest
  apply (first state rest).bind
  rintro found middle ⟨rfl, rest', recorded⟩
  apply (second middle rest').mono _ fun _ _ => id
  rintro found' final ⟨same, rest'', recorded'⟩
  exact ⟨same, rest'', by rw [recorded', recorded, Array.append_assoc]⟩

theorem bindAfter (first : Accepts rule before result (after ++ follow))
    (second : Records (next result) after result' errors follow) :
    Records (rule >>= next) (before ++ after) result' errors follow := by
  have whole := first.records.bind second
  rw [Array.empty_append] at whole
  exact whole

theorem bindBefore (first : Records rule before result errors (after ++ follow))
    (second : Accepts (next result) after result' follow) :
    Records (rule >>= next) (before ++ after) result' errors follow := by
  have whole := first.bind second.records
  rw [Array.append_empty] at whole
  exact whole

theorem map (records : Records rule tokens result errors follow) (change : α → β) :
    Records (rule >>= fun found => pure (change found)) tokens (change result) errors follow := by
  intro state rest
  apply (records state rest).bind
  rintro found final ⟨rfl, met⟩
  exact ⟨rfl, met⟩

theorem peekToken {token : Token} {body : Token → Parse β}
    (second : Records (body token) (token :: after) result' errors follow) :
    Records (Parser.peek >>= body) (token :: after) result' errors follow := by
  intro state rest
  have same : state.peek = token := by
    rw [State.peek_eq, rest]
    rfl
  change (body state.peek state).Meets _ _
  rw [same]
  exact second state rest

theorem recovering (records : Records rule tokens result errors follow) :
    Records (Parser.recovering rule) tokens (some result) errors follow := by
  intro state rest
  have met := records state rest
  unfold Parser.recovering
  cases ended : rule state with
  | exhausted => trivial
  | failure error final => exact (met.of_failure ended).elim
  | value found final =>
      rw [ended] at met
      exact ⟨congrArg some met.1, met.2⟩

end Records

/-- In front of a token that ends no list of declarations, a declaration is parsed. -/
theorem declarations_goes {state : State} {inBlock : Bool} (fuel : Nat)
    (more : state.peek.is .endOfInput = false) (unclosed : state.peek.is .rightBrace = false) :
    declarations (fuel + 1) inBlock state =
      (do
        let first ← declaration fuel
        let rest ← declarations fuel inBlock
        match first with
        | none => return rest
        | some stmt => return stmt :: rest : Parse (List Stmt)) state := by
  have goes : ¬(state.atEnd || inBlock && state.sees .rightBrace) = true := by
    rw [State.sees_eq_false unclosed, State.atEnd, more, Bool.and_false]
    exact Bool.false_ne_true
  conv =>
    lhs
    unfold declarations
  change (if (state.atEnd || inBlock && state.sees .rightBrace) = true then _ else _ :
    Parse (List Stmt)) state = _
  exact congrFun (if_neg goes) state

section

variable {before after follow : List Token} {others : List Stmt} {inBlock : Bool}
  {errors errors' : Array ParseError}

theorem Records.cons {found : Option Stmt} {fuel : Nat}
    (begins : ∀ mark, mark ∈ [Mark.endOfInput, .rightBrace] →
      (upcoming (before ++ after ++ follow)).is mark = false)
    (first : Records (declaration fuel) before found errors (after ++ follow))
    (second : Records (declarations fuel inBlock) after others errors' follow) :
    Records (declarations (fuel + 1) inBlock) (before ++ after) (found.toList ++ others)
      (errors ++ errors') follow := by
  intro state rest
  have peeked := state.peek_eq
  rw [rest] at peeked
  rw [declarations_goes fuel (peeked ▸ begins .endOfInput (by decide))
    (peeked ▸ begins .rightBrace (by decide))]
  refine first.bind ?_ state rest
  cases found with
  | none => exact second.map id
  | some stmt => exact second.map (stmt :: ·)

theorem Records.append (alone : (upcoming (after ++ follow)).is .elseWord = false)
    (records : ∀ fuel, Records (declarations fuel inBlock) after others errors follow) :
    ∀ {tokens : List Token} {stmts : List Stmt}, Declarations true tokens stmts → ∀ fuel,
      Records (declarations fuel inBlock) (tokens ++ after) (stmts ++ others) errors follow
  | _, _, .nil, fuel => records fuel
  | _, _, .cons _ _, 0 => Records.exhausted
  | _, _, @Declarations.cons _ first rest stmt stmts declaration declarations, fuel + 1 => by
      have settled : (upcoming (rest ++ after ++ follow)).is .elseWord = false := by
        cases declarations with
        | nil => exact alone
        | cons next _ =>
            rw [List.append_assoc, List.append_assoc]
            exact next.starts.upcoming_is (by decide) _
      have accepts := (completeStatements fuel).declaration declaration settled
      have begins : ∀ mark, mark ∈ [Mark.endOfInput, .rightBrace] →
          (upcoming (first ++ (rest ++ after) ++ follow)).is mark = false := by
        have apart : ∀ mark, mark ∈ [Mark.endOfInput, .rightBrace] →
            mark ∉ Mark.funWord :: .varWord :: beginnings := by
          decide
        intro mark listed
        exact (declaration.starts.append _).upcoming_is (apart mark listed) _
      have whole := Records.cons begins accepts.records
        (Records.append alone records declarations fuel)
      rw [Array.empty_append, ← List.append_assoc] at whole
      exact whole

/-- No declaration fails: it recovers. -/
theorem declaration_unfailing (fuel : Nat) (state : State) :
    (declaration fuel state).Meets (fun _ _ => True) fun _ _ => False := by
  cases fuel with
  | zero => trivial
  | succ fuel =>
      rw [Fork.declaration_eq]
      unfold recovering
      split <;> trivial

theorem declarations_unfailing (fuel : Nat) (inBlock : Bool) (state : State) :
    (declarations fuel inBlock state).Meets (fun _ _ => True) fun _ _ => False := by
  induction fuel generalizing state with
  | zero => trivial
  | succ fuel ih =>
      unfold declarations
      change ((if (state.atEnd || inBlock && state.sees .rightBrace) = true then _ else _ :
        Parse (List Stmt)) state).Meets _ _
      split
      · trivial
      · apply (declaration_unfailing fuel state).bind
        intro first middle _
        apply (ih middle).bind
        intro rest final _
        cases first <;> trivial

end

section

variable {middle : List Token} {stop : Token}

/-- What is recorded for a skipped declaration is recorded wherever it stands. -/
theorem records_of_skipped (ends : stop.is .semicolon = true) (unbroken : Fork.Unbroken middle)
    {behind : List Token} (settled : (upcoming behind).is .elseWord = false) {state final : State}
    (rest : state.rest = middle ++ stop :: behind) (clean : state.errors = #[]) {fuel : Nat}
    (skipped : declaration fuel state = .value none final) (fuel' : Nat) {follow : List Token}
    (settled' : (upcoming follow).is .elseWord = false) :
    Records (declaration fuel') (middle ++ [stop]) none final.errors follow := by
  intro state' rest'
  rw [List.append_assoc] at rest'
  have shared : Fork.SharedAhead ⟨stop, behind, follow, state'.errors⟩ middle state state' :=
    ⟨rest, rest', by rw [clean, Array.append_empty]⟩
  exact Fork.declaration_skips ends ⟨settled, settled'⟩ unbroken shared skipped fuel'

/-- A program without a statement has skipped its first declaration. -/
theorem skipped_of_nothing {tokens : List Token}
    (more : (upcoming (opening tokens).rest).is .endOfInput = false)
    (unclosed : (upcoming (opening tokens).rest).is .rightBrace = false)
    (nothing : (program tokens).statements = []) :
    ∃ fuel final, declaration fuel (opening tokens) = .value none final := by
  obtain ⟨fuel, enough⟩ : ∃ fuel, budget (opening tokens).rest = fuel + 1 := by
    unfold budget
    exact ⟨32 * (opening tokens).rest.length + 31, by omega⟩
  rcases program_cases tokens with ⟨statements, final, ended, same, _⟩ | ⟨error, final, ended, _⟩
  · rw [enough, declarations_goes fuel (State.peek_eq _ ▸ more) (State.peek_eq _ ▸ unclosed)]
      at ended
    rw [nothing] at same
    obtain ⟨found, middle, first, others⟩ := Attempt.returns_of_bind ended
    cases found with
    | none => exact ⟨fuel, middle, first⟩
    | some stmt =>
        -- A statement in front of the others would be among the statements of the program.
        obtain ⟨rest, _, _, whole⟩ := Attempt.returns_of_bind others
        cases whole
        cases same
  · exact ((declarations_unfailing _ _ _).of_failure ended).elim

end

/-- What is recorded for the declarations of a program is what it returns. -/
theorem program_records {tokens : List Token} {last : Token} {stmts : List Stmt}
    {errors : Array ParseError} (ends : last.is .endOfInput = true)
    (records : ∀ fuel, Records (declarations fuel false) tokens stmts errors [last]) :
    (program (tokens ++ [last])).statements = stmts ∧
      (program (tokens ++ [last])).errors = errors.toList := by
  have met := records (budget (opening (tokens ++ [last])).rest) _ (opening_rest ends)
  rcases program_cases (tokens ++ [last]) with ⟨statements, final, ended, same, recorded⟩ | failed
  · obtain ⟨found, _, all⟩ := met.of_value ended
    have fresh : (opening (tokens ++ [last])).errors = #[] := rfl
    rw [same, recorded, all, fresh, Array.empty_append]
    exact ⟨found, rfl⟩
  · obtain ⟨error, final, ended, _⟩ := failed
    exact (met.of_failure ended).elim

theorem Records.block {inner : List Token} {body : List Stmt} {errors : Array ParseError}
    {left right : Token} {follow : List Token} (isLeft : left.is .leftBrace = true)
    (isRight : right.is .rightBrace = true)
    (records : ∀ fuel, Records (declarations fuel true) inner body errors (right :: follow))
    (fuel : Nat) :
    Records (declaration fuel) (left :: (inner ++ [right])) (some (.block body)) errors follow := by
  have kind := Token.kind_of_is isLeft
  have closed : ∀ fuel, Records (Parser.block fuel) (inner ++ [right]) body errors follow := by
    intro fuel
    cases fuel with
    | zero => exact Records.exhausted
    | succ fuel =>
        unfold Parser.block
        apply Records.bindBefore (records fuel)
        exact Accepts.bindToken (Accepts.expect isRight (by decide)) Accepts.pure
  have entered : ∀ fuel, Records (statement fuel) (left :: (inner ++ [right])) (.block body) errors
      follow := by
    intro fuel
    cases fuel with
    | zero => exact Records.exhausted
    | succ fuel =>
        unfold statement
        apply Records.peekToken
        rw [kind]
        apply Records.bindAfter (Accepts.advance (Token.not_is isLeft (by decide)))
        exact (closed fuel).map Stmt.block
  cases fuel with
  | zero => exact Records.exhausted
  | succ fuel =>
      unfold declaration
      apply Records.peekToken
      apply Records.bindAfter (Accepts.note _)
      rw [kind]
      exact (entered fuel).recovering

theorem Records.only {tokens : List Token} {stmt : Stmt} {errors : Array ParseError}
    {left last : Token} (isLeft : left.is .leftBrace = true)
    (records : ∀ fuel, Records (declaration fuel) (left :: tokens) (some stmt) errors [last])
    (ends : last.is .endOfInput = true) (fuel : Nat) :
    Records (declarations fuel false) (left :: tokens) [stmt] errors [last] := by
  cases fuel with
  | zero => exact Records.exhausted
  | succ fuel =>
      have begins : ∀ mark, mark ∈ [Mark.endOfInput, .rightBrace] →
          (upcoming (left :: tokens ++ [] ++ [last])).is mark = false := by
        intro mark listed
        refine Token.not_is isLeft ?_
        rintro rfl
        exact absurd listed (by decide)
      have none := (completeStatements fuel).declarations .nil
        (Or.inl ends : Concluded false [last])
      have whole := Records.cons begins (records fuel) none.records
      rw [Array.append_empty, List.append_nil] at whole
      exact whole

section

variable {before middle after : List Token} {semicolon : Token}

theorem Records.around {stmts stmts' : List Stmt} {errors : Array ParseError}
    (isSemicolon : semicolon.is .semicolon = true) (unbroken : Fork.Unbroken middle)
    (alone : ∀ follow, (upcoming (middle ++ semicolon :: follow)).is .elseWord = false)
    (skipped : ∀ fuel {follow : List Token}, (upcoming follow).is .elseWord = false →
      Records (declaration fuel) (middle ++ [semicolon]) none errors follow)
    (derived : Declarations true before stmts) (derived' : Declarations true after stmts')
    {inBlock : Bool} {follow : List Token} (concludes : Concluded inBlock follow) (fuel : Nat) :
    Records (declarations fuel inBlock) (before ++ middle ++ semicolon :: after)
      (stmts ++ stmts') errors follow := by
  have whole : middle ++ [semicolon] ++ after ++ follow =
      middle ++ semicolon :: (after ++ follow) := by simp
  have settled : (upcoming (after ++ follow)).is .elseWord = false := by
    cases derived' with
    | nil => exact concludes.no_else
    | cons next _ =>
        rw [List.append_assoc]
        exact next.starts.upcoming_is (by decide) _
  have later : ∀ fuel, Records (declarations fuel inBlock) (middle ++ [semicolon] ++ after) stmts'
      errors follow := by
    intro fuel
    cases fuel with
    | zero => exact Records.exhausted
    | succ fuel =>
        have begins : ∀ mark, mark ∈ [Mark.endOfInput, .rightBrace] →
            (upcoming (middle ++ [semicolon] ++ after ++ follow)).is mark = false := by
          intro mark listed
          rw [whole]
          apply unbroken.opens isSemicolon
          revert mark
          decide
        have rest := (completeStatements fuel).declarations derived' concludes
        have both := Records.cons begins (skipped fuel settled) rest.records
        rw [Array.append_empty] at both
        exact both
  have records := Records.append (whole ▸ alone _) later derived fuel
  simp only [List.append_assoc, List.singleton_append] at records ⊢
  exact records

/-- If a malformed statement returns nothing, it is skipped wherever it stands, with the errors that
it gives alone. -/
theorem records_of_nothing {last : Token} (isSemicolon : semicolon.is .semicolon = true)
    (ends : last.is .endOfInput = true) (unbroken : Fork.Unbroken middle)
    (alone : ∀ follow, (upcoming (middle ++ semicolon :: follow)).is .elseWord = false)
    (nothing : (program (middle ++ [semicolon, last])).statements = []) :
    ∃ errors, (program (middle ++ [semicolon, last])).errors = errors.toList ∧
      ∀ fuel {follow : List Token}, (upcoming follow).is .elseWord = false →
        Records (declaration fuel) (middle ++ [semicolon]) none errors follow := by
  have whole : middle ++ [semicolon, last] = middle ++ [semicolon] ++ [last] := by simp
  have rest : (opening (middle ++ [semicolon, last])).rest = middle ++ [semicolon, last] := by
    rw [whole]
    exact opening_rest ends
  have more : (upcoming (opening (middle ++ [semicolon, last])).rest).is .endOfInput = false := by
    rw [rest]
    exact unbroken.opens isSemicolon (by decide) [last]
  have unclosed : (upcoming (opening (middle ++ [semicolon, last])).rest).is .rightBrace =
      false := by
    rw [rest]
    exact unbroken.opens isSemicolon (by decide) [last]
  obtain ⟨fuel, final, skipped⟩ := skipped_of_nothing more unclosed nothing
  have settled : (upcoming [last]).is .elseWord = false := Token.not_is ends (by decide)
  have records : ∀ fuel {follow : List Token}, (upcoming follow).is .elseWord = false →
      Records (declaration fuel) (middle ++ [semicolon]) none final.errors follow :=
    fun fuel _ settled' =>
      records_of_skipped isSemicolon unbroken settled rest rfl skipped fuel settled'
  refine ⟨final.errors, ?_, records⟩
  have concludes : Concluded false [last] := Or.inl ends
  have recorded := program_records ends
    (Records.around isSemicolon unbroken alone records .nil .nil concludes)
  rw [whole]
  exact recorded.2

end

/-- A malformed statement that ends in a semicolon is skipped as a whole.  The declarations before
and after it are parsed as they are without it, and the errors are those that it gives alone, at the
top level and in a block. -/
theorem recovery_is_isolated {before middle after : List Token}
    {semicolon last last₁ last₂ last₃ : Token} (isSemicolon : semicolon.is .semicolon = true)
    (ends : ∀ token, token ∈ [last, last₁, last₂, last₃] → token.is .endOfInput = true)
    (inner : ∀ token, token ∈ before ++ after → token.is .endOfInput = false)
    (clean : (program (before ++ [last₁])).errors = [])
    (clean' : (program (after ++ [last₂])).errors = [])
    (plain : ∀ token, token ∈ middle → ∀ mark,
      mark ∈ [Mark.semicolon, .leftBrace, .rightBrace, .endOfInput] → token.is mark = false)
    (begins : ∀ token, token ∈ middle.head? →
      token.is .forWord = false ∧ token.is .elseWord = false)
    (goesOn : ∀ token, token ∈ middle.tail → ∀ mark, mark ∈ statementMarks → token.is mark = false)
    (nothing : (program (middle ++ [semicolon, last₃])).statements = []) :
    ((program (before ++ middle ++ semicolon :: after ++ [last])).statements =
        (program (before ++ [last₁])).statements ++ (program (after ++ [last₂])).statements ∧
      (program (before ++ middle ++ semicolon :: after ++ [last])).errors =
        (program (middle ++ [semicolon, last₃])).errors) ∧
    ∀ left right : Token, left.is .leftBrace = true → right.is .rightBrace = true →
      (program (left :: (before ++ middle ++ semicolon :: after) ++ [right, last])).statements =
          [.block ((program (before ++ [last₁])).statements ++
            (program (after ++ [last₂])).statements)] ∧
        (program (left :: (before ++ middle ++ semicolon :: after) ++ [right, last])).errors =
          (program (middle ++ [semicolon, last₃])).errors := by
  have ended : last.is .endOfInput = true := ends last (by simp)
  have derived : Declarations true before (program (before ++ [last₁])).statements := by
    apply program_sound (ends last₁ (by simp)) _ clean
    exact fun token member => inner token (List.mem_append_left after member)
  have derived' : Declarations true after (program (after ++ [last₂])).statements := by
    apply program_sound (ends last₂ (by simp)) _ clean'
    exact fun token member => inner token (List.mem_append_right before member)
  have unbroken : Fork.Unbroken middle := ⟨plain, fun token first => (begins token first).1, goesOn⟩
  have alone : ∀ follow, (upcoming (middle ++ semicolon :: follow)).is .elseWord = false := by
    intro follow
    cases middle with
    | nil => exact Token.not_is isSemicolon (by decide)
    | cons first rest => exact (begins first rfl).2
  obtain ⟨errors, recorded, skipped⟩ :=
    records_of_nothing isSemicolon (ends last₃ (by simp)) unbroken alone nothing
  have around : ∀ {inBlock : Bool} (follow : List Token), Concluded inBlock follow → ∀ fuel,
      Records (declarations fuel inBlock) (before ++ middle ++ semicolon :: after)
        ((program (before ++ [last₁])).statements ++ (program (after ++ [last₂])).statements)
        errors follow :=
    fun _ concludes => Records.around isSemicolon unbroken alone skipped derived derived' concludes
  rw [recorded]
  constructor
  · exact program_records ended (around [last] (Or.inl ended))
  · intro left right isLeft isRight
    have block := Records.block isLeft isRight (around [right, last] (Or.inr ⟨rfl, isRight⟩))
    have only := program_records ended (Records.only isLeft block ended)
    simpa using only

/-- The tokens of a text, without the end of input. -/
def wordsOf (source : String) : List Token := ((tokens? source).toOption.getD []).dropLast

/-- A declaration, a call that lacks a comma and its parenthesis, and a use of the variable. -/
theorem recovery_is_isolated_call :
    let before := wordsOf "var a = nil;"
    let middle := wordsOf "print f(a nil"
    let after := wordsOf "print a;"
    let semicolon : Token := ⟨.mark .semicolon, ";", 1⟩
    let left : Token := ⟨.mark .leftBrace, "\x7b", 1⟩
    let right : Token := ⟨.mark .rightBrace, "\x7d", 1⟩
    let last := Token.endOfInput 1
    (program (middle ++ [semicolon, last])).errors.length = 1 ∧
    (program (before ++ middle ++ semicolon :: after ++ [last])).statements.length = 2 ∧
    (program (before ++ middle ++ semicolon :: after ++ [last])).statements =
      (program (before ++ [last])).statements ++ (program (after ++ [last])).statements ∧
    (program (before ++ middle ++ semicolon :: after ++ [last])).errors =
      (program (middle ++ [semicolon, last])).errors ∧
    (program (left :: (before ++ middle ++ semicolon :: after) ++ [right, last])).statements =
      [.block ((program (before ++ [last])).statements ++
        (program (after ++ [last])).statements)] := by
  intro before middle after semicolon left right last
  have isolated := @recovery_is_isolated before middle after semicolon last last last last
    (by decide) (by decide) (by decide +kernel) (List.isEmpty_iff.mp (by decide +kernel))
    (List.isEmpty_iff.mp (by decide +kernel)) (by decide +kernel) (by decide +kernel)
    (by decide +kernel) (List.isEmpty_iff.mp (by decide +kernel))
  exact ⟨by decide +kernel, by decide +kernel, isolated.1.1, isolated.1.2,
    (isolated.2 left right (by decide) (by decide)).1⟩

end LexicalScript.Parser
