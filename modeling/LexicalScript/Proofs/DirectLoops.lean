import LexicalScript.Proofs.BareRuns
import LexicalScript.Proofs.CountingLoops
import LexicalScript.Proofs.LexicalRuns
import LexicalScript.Proofs.ParserSoundness

/-!
A `for` does what its clauses say.

What the parser makes of a `for` is the tree of a loop with the clauses that were written.  A
program that the resolver accepts runs on frames as it runs in the reference with such trees run
directly from their clauses.  The frame that the tree has around the body and the increment, and a
loop run directly has not, is never bound in.
-/

set_option autoImplicit false

namespace LexicalScript

open Grammar Reference

/-! ### Loops as they are written -/

/-- The tokens are those of a `for` with the clauses and the body of the loop. -/
inductive Reference.CountingLoop.Written (loop : CountingLoop) : List Token → Prop
  | mk {keyword left semicolon right : Token} {first test step tokens : List Token}
      {dangling : Bool} : keyword.is .forWord → left.is .leftParen →
      Initializer first loop.initializer → Optionally test loop.condition →
      semicolon.is .semicolon → Optionally step loop.increment → right.is .rightParen →
      Statement true tokens loop.body dangling →
      Written loop (keyword :: left :: (first ++ (test ++ semicolon :: (step ++ right :: tokens))))

theorem Grammar.Initializer.startsLoop {tokens : List Token} {stmt : Stmt}
    (initial : Initializer tokens (some stmt)) : stmt.StartsLoop := by
  cases initial with
  | declaration derived =>
      cases derived with
      | bare | initialized => exact .var _ _
  | expression derived =>
      cases derived with
      | mk => exact .expression _

theorem Grammar.Statement.alone {strict dangling : Bool} {tokens : List Token} {stmt : Stmt}
    (statement : Statement strict tokens stmt dangling) : stmt.declared? = none := by
  cases statement with
  | expression derived =>
      cases derived with
      | mk => rfl
  | @counting _ _ _ _ _ _ _ _ initializer => cases initializer <;> rfl
  | _ => rfl

theorem Stmt.Proper.of_counting {initializer : Option Stmt} {condition increment : Option Expr}
    {body : Stmt} (proper : (Parser.counting initializer condition increment body).Proper) :
    body.Proper := by
  unfold Parser.counting at proper
  cases increment with
  | none =>
      cases initializer with
      | none => exact proper.2
      | some initial => exact proper.2.1.2
  | some increment =>
      cases initializer with
      | none => exact proper.2.1
      | some initial => exact proper.2.1.2.1

/-- What derives behind the keyword is a `for` with its clauses. -/
theorem Grammar.Statement.written {tokens rest : List Token} {stmt : Stmt} {dangling : Bool}
    (statement : Statement true tokens stmt dangling)
    (keyword : (Parser.upcoming (tokens ++ rest)).is .forWord = true) (proper : stmt.Proper) :
    ∃ loop : CountingLoop, loop.Written tokens ∧ loop.tree = stmt := by
  have other {marks : List Mark} (starts : Grammar.Starts marks tokens)
      (absent : Mark.forWord ∉ marks) : ∃ loop : CountingLoop, loop.Written tokens ∧
        loop.tree = stmt := by
    rw [starts.upcoming_is absent rest] at keyword
    cases keyword
  cases statement with
  | @counting _ _ _ _ _ _ _ _ initializer condition increment body _ isKeyword isLeft start test
      isSemicolon step isRight derived =>
      rw [← Parser.counting_eq] at proper ⊢
      refine ⟨⟨initializer, condition, increment, body, ?_, derived.alone, proper.of_counting⟩,
        .mk isKeyword isLeft start test isSemicolon step isRight derived, rfl⟩
      rintro initial rfl
      exact start.startsLoop
  | expression derived => exact other derived.starts (by decide)
  | print own _ _ | returned own _ _ | block own _ _ | loop own _ _ _ _ | conditional own _ _ _ _
  | alternative own _ _ _ _ _ _ _ =>
      exact other (.of_mark own (List.mem_singleton_self _) _) (by decide)

/-- A `for` that is parsed without a new error is the tree of a loop with the clauses it has. -/
theorem Parser.statement_written {fuel : Nat} {before after : Parser.State} {stmt : Stmt}
    (keyword : before.peek.is .forWord = true)
    (parsed : Parser.statement fuel before = .value stmt after)
    (clean : after.errors.size ≤ before.errors.size) :
    ∃ (loop : CountingLoop) (tokens : List Token), before.rest = tokens ++ after.rest ∧
      loop.Written tokens ∧ loop.tree = stmt := by
  have sound := Parser.statement_runs (Parser.derivations true) True fuel before (.inl trivial)
  have built := Parser.statement_runs (shapedTrees.grammar True) True fuel before (.inl trivial)
  obtain ⟨tokens, whole, dangling, derived, _⟩ := (sound.of_value parsed).2.2 (.inr clean)
  obtain ⟨_, _, _, shaped, _⟩ := (built.of_value parsed).2.2 (.inl trivial)
  rw [Parser.State.peek_eq, whole] at keyword
  obtain ⟨loop, written, same⟩ := derived.written keyword (shaped fun _ _ => trivial).1.proper
  exact ⟨loop, tokens, whole, written, same⟩

/-- The view that sees one loop. -/
noncomputable def Reference.LoopView.only (loop : CountingLoop) : LoopView where
  loop? stmt := open Classical in if stmt = loop.tree then some loop else none
  tree_eq {stmt other} seen := by
    split at seen
    · rename_i same
      cases seen
      exact same.symm
    · cases seen

theorem Reference.LoopView.only_tree (loop : CountingLoop) :
    (LoopView.only loop).loop? loop.tree = some loop :=
  if_pos rfl

/-! ### Loops on frames -/

/-- A statement that is no declaration leaves the active frame active, and no frame that was there
before has got a name. -/
theorem Point.Sound.no_new_names {fuel : Nat} {stmt : Stmt} {machine later : Machine}
    {initializing : List (FrameId × String)}
    (sound : Point.Sound ⟨fuel, .execute stmt, machine, initializing⟩)
    (alone : stmt.declared? = none) (left : (execute fuel stmt machine).state? = some later) :
    later.active = machine.active ∧ ∀ frame name, frame < machine.store.frames.size →
      (later.store.Binds frame name ↔ machine.store.Binds frame name) := by
  -- What is being initialized around the statement does not matter to it.
  obtain ⟨scopes, ready, scope⟩ := sound.stands
  have evolves := (ready.point scope fuel).keeps.of_state left
  refine ⟨evolves.active, fun frame name created => ⟨fun bound => ?_, evolves.grown.binds _ _⟩⟩
  rcases evolves.spares.frugal frame name created bound with earlier | listed
  · exact earlier
  · rw [Point.allowed, List.append_nil] at listed
    obtain ⟨other, member, _⟩ := List.mem_map.mp listed
    exact absurd member (Stmt.not_mem_declaredNames alone other)

theorem Parser.counting_alone (initializer : Option Stmt) (condition increment : Option Expr)
    (body : Stmt) : (Parser.counting initializer condition increment body).declared? = none := by
  unfold Parser.counting
  cases initializer <;> rfl

/-- What running a program makes of a loop on the machine: once it is over, its variable is gone,
and the block around its body and its increment never gets a name. -/
structure Point.ScopesLoops (point : Point) (fuel : Nat) (source : String) (machine : Machine) :
    Prop where
  behind : ∀ initializer condition increment body later,
    point.task = .execute (Parser.counting initializer condition increment body) →
    (execute point.fuel (Parser.counting initializer condition increment body)
      point.machine).state? = some later →
    later.active = point.machine.active ∧
      ∀ frame name, frame < point.machine.store.frames.size →
        (later.store.Binds frame name ↔ point.machine.store.Binds frame name)
  around : ∀ body increment, point.task = .execute (.block [body, .expression increment]) →
    body.declared? = none → point.StaysBare fuel source machine

theorem Session.scopesLoops {machine : Machine} {fuel : Nat} {source : String} {point : Point}
    (session : Session machine) (occurs : Occurs fuel source machine point) :
    point.ScopesLoops fuel source machine := by
  refine ⟨fun initializer condition increment body later task left => ?_,
    fun body increment task alone => ?_⟩
  · obtain ⟨depth, _, current, initializing⟩ := point
    cases task
    have sound := session.occurring_sound occurs
    exact sound.no_new_names (Parser.counting_alone initializer condition increment body) left
  · refine session.staysBare occurs ⟨_, task, ?_⟩
    have alone' : (Stmt.expression increment).declared? = none := rfl
    simp [Stmt.declaredNames, alone, alone']

/-! ### Programs -/

section Programs

variable {machine : Machine} {state : Reference.State} {errors : List Diagnostic}
  {tokens : List Token} {fuel : Nat}

/-- What a program does on frames it does with loops run directly. -/
theorem SharedHistory.run_directly (history : SharedHistory machine state)
    (accepted : ((Resolver.ofGlobals machine.globalNames).resolve
      (Parser.program tokens).statements).error = none) (view : LoopView)
    {ran : Status × Machine}
    (ended : runStatements fuel errors (Parser.program tokens).statements machine = some ran) :
    ∃ ran', view.run fuel (Parser.program tokens).statements state = some ran' ∧
      SameRun ran ran' ∧ SharedHistory ran.2 ran'.2 := by
  have both := history.paired.run fuel errors tokens accepted
  rw [ended] at both
  cases found : Reference.run fuel (Parser.program tokens).statements state with
  | none =>
      rw [found] at both
      cases both
  | some ran' =>
      rw [found] at both
      cases both with
      | some holds =>
          exact ⟨ran', view.run_of_reference found, holds.2, history.run accepted ended found⟩

/-- What a program does with loops run directly it does on frames, with enough fuel. -/
theorem SharedHistory.run_on_frames (history : SharedHistory machine state)
    (accepted : ((Resolver.ofGlobals machine.globalNames).resolve
      (Parser.program tokens).statements).error = none) (view : LoopView)
    {ran' : Option Fault × Reference.State}
    (ended : view.run fuel (Parser.program tokens).statements state = some ran') :
    ∃ more ran, runStatements more errors (Parser.program tokens).statements machine = some ran ∧
      SameRun ran ran' ∧ SharedHistory ran.2 ran'.2 := by
  obtain ⟨more, found⟩ := view.reference_of_run ended
  have both := history.paired.run more errors tokens accepted
  rw [found] at both
  cases executed : runStatements more errors (Parser.program tokens).statements machine with
  | none =>
      rw [executed] at both
      cases both
  | some ran =>
      rw [executed] at both
      cases both with
      | some holds => exact ⟨more, ran, executed, holds.2, history.run accepted executed found⟩

end Programs

/-- A `for` does what its clauses say.  What is parsed from one without a new error is the tree of a
loop with the clauses and the body that were written.  A program that the resolver accepts prints
the same and ends in the same way, if it ends, whether it runs on frames or in the reference with
any of these trees run directly from their clauses, wherever they stand.  And on frames a loop
leaves no name behind, nor does the block around its body and its increment ever get one. -/
theorem counting_loops_run_as_written {machine : Machine} {state : Reference.State}
    (history : SharedHistory machine state) (errors : List Diagnostic) (tokens : List Token)
    (accepted : ((Resolver.ofGlobals machine.globalNames).resolve
      (Parser.program tokens).statements).error = none) :
    (∀ fuel before after stmt, before.peek.is .forWord = true →
      Parser.statement fuel before = .value stmt after →
      after.errors.size ≤ before.errors.size →
      ∃ (loop : CountingLoop) (written : List Token) (view : LoopView),
        before.rest = written ++ after.rest ∧ loop.Written written ∧ loop.tree = stmt ∧
        view.loop? stmt = some loop) ∧
    (∀ view : LoopView,
      (∀ fuel ran,
        runStatements fuel errors (Parser.program tokens).statements machine = some ran →
        ∃ ran', view.run fuel (Parser.program tokens).statements state = some ran' ∧
          SameRun ran ran' ∧ SharedHistory ran.2 ran'.2) ∧
      ∀ fuel ran', view.run fuel (Parser.program tokens).statements state = some ran' →
        ∃ more ran,
          runStatements more errors (Parser.program tokens).statements machine = some ran ∧
          SameRun ran ran' ∧ SharedHistory ran.2 ran'.2) ∧
    ∀ origin, Session origin → ∀ fuel source point, Occurs fuel source origin point →
      point.ScopesLoops fuel source origin := by
  refine ⟨?_, fun view => ⟨?_, ?_⟩, ?_⟩
  · intro fuel before after stmt keyword parsed clean
    obtain ⟨loop, written, whole, spelled, rfl⟩ := Parser.statement_written keyword parsed clean
    exact ⟨loop, written, .only loop, whole, spelled, rfl, LoopView.only_tree loop⟩
  · exact fun fuel ran ended => history.run_directly accepted view ended
  · exact fun fuel ran' ended => history.run_on_frames accepted view ended
  · exact fun origin session fuel source point occurs => session.scopesLoops occurs

/-- A loop without a condition, whose body prints and then fails. -/
def stopping : String := "for (var b = true;; b = nil) \x7b print b; a; \x7d"

/-- The tokens of that loop. -/
def stoppingTokens : List Token := (tokens? stopping).toOption.getD []

/-- The program is the loop as the parser writes it. -/
def isStopping : List Stmt → Bool
  | [.block [.var _ _, .loop (.literal (.bool true))
      (.block [.block [.print _, .expression _], .expression _])]] => true
  | _ => false

theorem stopping_parses :
    ∃ loop : CountingLoop,
      (Parser.program stoppingTokens).statements = [loop.tree] := by
  have checked : isStopping (Parser.program stoppingTokens).statements = true := by decide +kernel
  generalize (Parser.program stoppingTokens).statements = parsed at checked ⊢
  unfold isStopping at checked
  split at checked
  · rename_i name value printed failing increment
    refine ⟨⟨some (.var name value), none, some increment,
      .block [.print printed, .expression failing], ?_, rfl, trivial, trivial, trivial⟩, rfl⟩
    rintro _ ⟨⟩
    exact .var name value
  · cases checked

/-- The program is the loop with an initializer that has a value at once. -/
def startsLoop : List Stmt → Bool
  | [.block [.var _ (some (.literal (.bool true))), .loop (.literal (.bool true))
      (.block [.block _, .expression _])]] => true
  | _ => false

theorem stopping_occurs :
    ∃ point body increment,
      Occurs 12 stopping (Machine.new ⟨"", none, false⟩ (fun _ => .ok 0) .silent) point ∧
      point.task = .execute (.block [body, .expression increment]) ∧ body.declared? = none := by
  have checked : (begin? stopping (Machine.new ⟨"", none, false⟩ (fun _ => .ok 0) .silent)).any
      (fun start => startsLoop start.1) = true := by
    decide +kernel
  obtain ⟨⟨statements, begun⟩, begins, checked⟩ := (Option.any_eq_true _ _).mp checked
  unfold startsLoop at checked
  split at checked
  · rename_i name body increment same
    cases same
    exact ⟨_, .block body, increment, ⟨_, begun, _, begins, .first, .head .block (.head
      (.otherStatements rfl) (.head .firstStatement (.head .loop (.single (.cycleBody rfl rfl)))))⟩,
      rfl, rfl⟩
  · cases checked

/-- The parser in front of the loop, behind a statement that was malformed. -/
def afterFailure : Parser.State :=
  (Parser.start stoppingTokens).record ⟨Token.endOfInput 1, .assignmentTarget⟩

/-- The error of the body ends the loop, on frames and run directly.  The frame around the body and
the increment was made, and it has no names when the run is over. -/
theorem counting_loops_run_as_written_stopped :
    let machine := Machine.new ⟨"", none, false⟩ (fun _ => .ok 0) .silent
    let state := Reference.State.new ⟨"", none, false⟩ fun _ => .ok 0
    (∃ stmt after loop written,
      Parser.statement 60 afterFailure = .value stmt after ∧ after.errors.size = 1 ∧
      CountingLoop.Written loop written ∧ loop.tree = stmt) ∧
    (∃ (loop : CountingLoop) (ran : Status × Machine) (ran' : Option Fault × Reference.State),
      (Parser.program stoppingTokens).statements = [loop.tree] ∧
      runStatements 12 [] [loop.tree] machine = some ran ∧
      (LoopView.only loop).run 12 [loop.tree] state = some ran' ∧ SameRun ran ran' ∧
      ran.2.sink.accepted = "true\n" ∧ ran.1.fault = some (undefinedFault "a" none 1)) ∧
    ∃ point body increment status later, Occurs 12 stopping machine point ∧
      point.task = .execute (.block [body, .expression increment]) ∧
      runSource 12 stopping machine = some (status, later) ∧
      later.store.names point.frame = [] := by
  intro machine state
  have history : SharedHistory machine state := .new _ _ _
  have accepted : ((Resolver.ofGlobals machine.globalNames).resolve
      (Parser.program stoppingTokens).statements).error = none := by
    apply Option.isNone_iff_eq_none.mp
    decide +kernel
  obtain ⟨parsed, runs, scopes⟩ := counting_loops_run_as_written history [] stoppingTokens accepted
  refine ⟨?_, ?_, ?_⟩
  · have checked : (Parser.statement 60 afterFailure).value?.any (fun ended =>
        decide (ended.2.errors.size = 1)) = true := by
      decide +kernel
    obtain ⟨⟨stmt, after⟩, returned, holds⟩ := (Option.any_eq_true _ _).mp checked
    have ended := Outcome.of_value? returned
    have single := of_decide_eq_true holds
    obtain ⟨loop, written, _, _, spelled, same, _⟩ :=
      parsed 60 afterFailure after stmt (by decide +kernel) ended (Nat.le_of_eq single)
    exact ⟨stmt, after, loop, written, ended, single, spelled, same⟩
  · have checked : (runStatements 12 [] (Parser.program stoppingTokens).statements machine).any
        (fun ran => ran.2.sink.accepted == "true\n" &&
          decide (ran.1.fault = some (undefinedFault "a" none 1))) = true := by
      decide +kernel
    obtain ⟨loop, found⟩ := stopping_parses
    rw [found] at checked runs
    obtain ⟨ran, ended, holds⟩ := (Option.any_eq_true _ _).mp checked
    rw [Bool.and_eq_true, beq_iff_eq, decide_eq_true_iff] at holds
    obtain ⟨ran', direct, same, _⟩ := (runs (.only loop)).1 12 _ ended
    exact ⟨loop, ran, ran', found, ended, direct, same, holds⟩
  · have checked : (runSource 12 stopping machine).isSome = true := by
      decide +kernel
    obtain ⟨⟨status, later⟩, ran⟩ := Option.isSome_iff_exists.mp checked
    obtain ⟨point, body, increment, occurs, task, alone⟩ := stopping_occurs
    have bare := (scopes machine (.new _ _ _) 12 stopping point occurs).around body increment task
      alone
    exact ⟨point, body, increment, status, later, occurs, task, ran,
      (bare.2 status later ran later .refl).1⟩

end LexicalScript
