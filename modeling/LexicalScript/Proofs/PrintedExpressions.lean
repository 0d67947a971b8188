import LexicalScript.Proofs.JoinedTexts
import LexicalScript.Proofs.PrintFreeRuns
import LexicalScript.Proofs.RenumberedRuns
import LexicalScript.Proofs.Sessions
import LexicalScript.Proofs.SingleExpressions

/-!
Evaluating a text and printing it.

A text that is one expression is evaluated as it is, or put behind `print` and in front of a
semicolon and run as a program.  Both ways scan to the same tokens on the same lines, parse to the
same tree, which the resolver leaves alone at the top level, and give the same value or fault.
-/

set_option autoImplicit false

namespace LexicalScript

/-! ### Scanning -/

theorem pieces_print (rest : List Char) :
    pieces ("print ".toList ++ rest) =
      ⟨"print".toList, .token (.mark .printWord)⟩ :: ⟨[' '], .blank⟩ :: pieces rest := by
  have word : Piece.first 'p' ("rint ".toList ++ rest) =
      ⟨"print".toList, .token (.mark .printWord)⟩ := rfl
  have blank : Piece.first ' ' rest = ⟨[' '], .blank⟩ := rfl
  change pieces ('p' :: ("rint ".toList ++ rest)) = _
  rw [pieces_cons, word]
  change _ :: pieces (' ' :: rest) = _
  rw [pieces_cons, blank]
  rfl

theorem tokens?_print {source : String} {body : List Token} {line : Nat}
    (scanned : tokens? source = .ok (body ++ [Token.endOfInput line])) :
    tokens? ("print " ++ source) =
      .ok (⟨.mark .printWord, "print", 1⟩ :: body ++ [Token.endOfInput line]) := by
  obtain ⟨faultless, same⟩ := tokens?_eq_ok_iff.mp scanned
  rw [tokens?_eq_ok_iff, String.toList_append, pieces_print]
  constructor
  · intro piece member fault
    rcases List.mem_cons.mp member with rfl | member
    · exact Content.noConfusion
    · rcases List.mem_cons.mp member with rfl | member
      · exact Content.noConfusion
      · exact faultless piece member fault
  · have feeds : lineFeeds (⟨"print".toList, .token (.mark .printWord)⟩ :: ⟨[' '], .blank⟩ ::
        pieces source.toList) = lineFeeds (pieces source.toList) := by
      simp [lineFeeds, Piece.lineFeeds]
    rw [List.cons_append, same, feeds]
    rfl

/-- The tokens of an expression between `print` and a semicolon on a line of its own. -/
theorem tokens?_printed {source : String} {body : List Token} {line : Nat}
    (scanned : tokens? source = .ok (body ++ [Token.endOfInput line])) :
    ∃ semicolon last : Token, semicolon.is .semicolon = true ∧ last.is .endOfInput = true ∧
      tokens? ("print " ++ source ++ "\n;") =
        .ok (⟨.mark .printWord, "print", 1⟩ :: (body ++ [semicolon]) ++ [last]) := by
  have closing : tokens? ";" = .ok [⟨.mark .semicolon, ";", 1⟩, Token.endOfInput 1] := rfl
  have joined := tokens?_joined (tokens?_print scanned) closing
  have text : "print " ++ source ++ "\n" ++ ";" = "print " ++ source ++ "\n;" := by
    rw [String.append_assoc]
    rfl
  rw [text] at joined
  let lower := Token.renumber (· + (("print " ++ source).toList.count '\n' + 1))
  refine ⟨lower ⟨.mark .semicolon, ";", 1⟩, lower (Token.endOfInput 1), rfl, rfl, ?_⟩
  rw [joined]
  simp [lower]

/-! ### Resolving at the top level -/

/-- The walk is outside all scopes and initializers and goes on. -/
structure Walk.Atop (walk : Walk) : Prop where
  scopes : walk.resolver.scopes = []
  initializing : walk.resolver.initializing = none
  running : walk.stopped = none

/-- At the top level, the step gives the result and the walk goes on there. -/
def Walking.Gives {α : Type} (action : Walking α) (result : α) : Prop :=
  ∀ walk : Walk, walk.Atop → (action walk).1 = result ∧ (action walk).2.Atop

namespace Walking.Gives

variable {α β : Type}

theorem pure (result : α) : Gives (Pure.pure result) result :=
  fun _ atop => ⟨rfl, atop⟩

theorem bind {action : Walking α} {next : α → Walking β} {result : α} {result' : β}
    (first : action.Gives result) (second : (next result).Gives result') :
    (action >>= next).Gives result' := by
  intro walk atop
  obtain ⟨same, atop'⟩ := first walk atop
  rw [Walking.bind_apply, same]
  exact second _ atop'

theorem locate (name : Token) (old : Option Nat) : (Walking.locate name old).Gives none := by
  intro walk atop
  unfold Walking.locate
  rw [atop.running]
  dsimp only
  refine ⟨?_, atop.scopes, atop.initializing, rfl⟩
  unfold Resolver.depth?
  rw [atop.scopes]
  rfl

theorem read (name : Token) (old : Option Nat) : (Walking.read name old).Gives none := by
  intro walk atop
  obtain ⟨none, atop'⟩ := locate name old walk atop
  unfold Walking.read
  rw [Walking.bind_apply, Walking.get_apply]
  dsimp only
  have ready : ¬walk.resolver.scopes.head?.any
      (fun scope => scope.lookup name.lexeme == some false) = true := by
    rw [atop.scopes]
    exact Bool.false_ne_true
  rw [if_neg ready, Walking.bind_apply, none, atop.initializing]
  exact ⟨rfl, atop'⟩

end Walking.Gives

mutual

theorem Expr.resolve_gives : (expr : Expr) → expr.resolve.Gives (expr.retouch .erasing)
  | .literal _ => .pure _
  | .unary _ operand => operand.resolve_gives.bind (.pure _)
  | .binary left _ right => left.resolve_gives.bind (right.resolve_gives.bind (.pure _))
  | .logical left _ right => left.resolve_gives.bind (right.resolve_gives.bind (.pure _))
  | .grouping inner => inner.resolve_gives.bind (.pure _)
  | .reference name depth => (Walking.Gives.read name depth).bind (.pure _)
  | .assign name value depth =>
      value.resolve_gives.bind ((Walking.Gives.locate name depth).bind (.pure _))
  | .call callee _ arguments =>
      callee.resolve_gives.bind ((Expr.resolveAll_gives arguments).bind (.pure _))
  | .list _ elements => (Expr.resolveAll_gives elements).bind (.pure _)
  | .index object _ position => object.resolve_gives.bind (position.resolve_gives.bind (.pure _))

theorem Expr.resolveAll_gives : (exprs : List Expr) →
    (Expr.resolveAll exprs).Gives (Expr.retouchAll .erasing exprs)
  | [] => .pure _
  | expr :: rest => expr.resolve_gives.bind ((Expr.resolveAll_gives rest).bind (.pure _))

end

/-- The resolver leaves a statement that prints an expression alone. -/
theorem Resolver.resolve_print {expr : Expr} (unresolved : expr.Unresolved) (known : List String) :
    ((Resolver.ofGlobals known).resolve [.print expr]).statements = [.print expr] ∧
      ((Resolver.ofGlobals known).resolve [.print expr]).error = none := by
  have gives : (Stmt.resolveAll [.print expr]).Gives [.print (expr.retouch .erasing)] :=
    .bind (.bind expr.resolve_gives (.pure _)) (.bind (.pure _) (.pure _))
  have atop : Walk.Atop ⟨.ofGlobals known, none, #[.beginning 1]⟩ := ⟨rfl, rfl, rfl⟩
  obtain ⟨same, atop'⟩ := gives _ atop
  rw [unresolved] at same
  exact ⟨same, atop'.running⟩

/-! ### Parsing -/

/-- A text that is one expression is a program if `print` stands before it and a semicolon below. -/
theorem program_printed {source : String} {expr : Expr}
    (read : (readExpression source).1 = .ok expr) :
    ∃ tokens, tokens? ("print " ++ source ++ "\n;") = .ok tokens ∧
      (Parser.program tokens).errors = [] ∧
      (Parser.program tokens).statements = [.print expr] := by
  unfold readExpression at read
  cases scanned : tokens? source with
  | error error =>
      rw [scanned] at read
      cases read
  | ok tokens =>
      rw [scanned] at read
      obtain ⟨body, line, rfl, inner⟩ := tokens?_ends scanned
      have ends : (Token.endOfInput line).is .endOfInput = true := rfl
      have parsed : (Parser.single (body ++ [Token.endOfInput line])).1 = .ok expr := by
        change (Parser.single (body ++ [Token.endOfInput line])).1.mapError _ = _ at read
        cases result : (Parser.single (body ++ [Token.endOfInput line])).1 with
        | error error =>
            rw [result] at read
            cases read
        | ok found =>
            rw [result] at read
            cases read
            rfl
      have derived := (Parser.single_eq_ok_iff ends inner).mp parsed
      obtain ⟨semicolon, last, isSemicolon, ends', scanned'⟩ := tokens?_printed scanned
      have printed : Grammar.Program true (⟨.mark .printWord, "print", 1⟩ :: (body ++ [semicolon]))
          [.print expr] := by
        have keyword : (⟨.mark .printWord, "print", 1⟩ : Token).is .printWord = true := rfl
        have statement : Grammar.Statement true _ (.print expr) false :=
          .print keyword derived isSemicolon
        have whole := Grammar.Declarations.cons (.statement statement) .nil
        rw [List.append_nil] at whole
        exact whole
      exact ⟨_, scanned', Parser.program_complete ends' printed⟩

/-! ### Running -/

/-- A machine that is new stores no function. -/
theorem Machine.new_functionless (sink : Sink) (readings : Readings) (journal : Journal) :
    (Machine.new sink readings journal).store.Functionless := by
  intro frame name value found
  rcases Store.local?_define_cases found with rfl | older
  · rfl
  · cases frame with
    | zero => cases older
    | succ frame => cases older

/-- What an expression is evaluated to where no function is stored depends neither on the sink nor
on the journal, nor on the fuel if there is enough of it. -/
theorem evaluate_elsewhere {machine machine' : Machine} {sink : Sink} {fuel fuel' : Nat}
    (functionless : machine.store.Functionless)
    (same : machine'.renumber id = (machine.printTo sink).renumber id) (enough : fuel ≤ fuel')
    (expr : Expr) :
    evaluate fuel expr machine = .exhausted ∨
      (evaluate fuel' expr machine').renumber id (Value.renumber id) =
        ((evaluate fuel expr machine).mapState (·.printTo sink)).renumber id
          (Value.renumber id) := by
  obtain ⟨extra, rfl⟩ := Nat.exists_eq_add_of_le' enough
  have unchanged : expr.retouch (.lines id) = expr := expr.retouch_same
  have silent := (renumbers id 0 (extra + fuel)).evaluate expr machine'
  have longer := (renumbers id extra fuel).evaluate expr (machine.printTo sink)
  rw [unchanged, evaluate_printTo functionless] at longer
  rw [unchanged, Nat.zero_add, same] at silent
  rcases longer with ⟨_, out⟩ | longer
  · left
    cases ended : evaluate fuel expr machine with
    | exhausted => rfl
    | value value later | failure fault later =>
        rw [ended] at out
        cases out
  · right
    rw [← longer]
    exact (silent.resolve_left fun more => Nat.lt_irrefl 0 more.1).symm

/-- Running a text whose one statement prints an expression. -/
theorem runSource_print {source : String} {tokens : List Token} {expr : Expr}
    (scanned : tokens? source = .ok tokens) (clean : (Parser.program tokens).errors = [])
    (statements : (Parser.program tokens).statements = [.print expr]) (fuel : Nat)
    (machine : Machine) :
    ∃ begun, machine.EqExceptJournal begun ∧ runSource fuel source machine =
      match interpret fuel [.print expr] begun with
      | .value _ later => some (⟨[], none⟩, later)
      | .failure fault later => some (⟨[], some fault⟩, later.note (.runFailed fault))
      | .exhausted => none := by
  have unresolved : expr.Unresolved := by
    have shaped := (Parser.program_shaped tokens).unresolved
    rw [statements] at shaped
    exact Stmt.print.inj (List.cons.inj shaped).1
  unfold runSource
  rw [scanned]
  dsimp only
  rw [clean, statements, if_neg (show ¬[Stmt.print expr].isEmpty = true from Bool.false_ne_true)]
  generalize starts : (machine.noteAll _).noteAll _ = started
  have resolved := Resolver.resolve_print unresolved started.globalNames
  unfold runStatements
  dsimp only
  rw [resolved.2, resolved.1]
  refine ⟨_, ?_, rfl⟩
  rw [← starts]
  rfl

theorem Outcome.of_renumber_value {outcome : Outcome Fault Machine Value} {value : Value}
    {later : Machine} (same : outcome.renumber id (Value.renumber id) =
      (Outcome.value value later).renumber id (Value.renumber id)) :
    ∃ later', outcome = .value value later' ∧ later'.sink = later.sink := by
  cases outcome with
  | value value' later' =>
      injection same with values machines
      rw [Value.renumber_id, Value.renumber_id] at values
      have sinks : (later'.renumber id).sink = (later.renumber id).sink :=
        congrArg Machine.sink machines
      exact ⟨later', congrArg (Outcome.value · later') values, sinks⟩
  | failure fault later' | exhausted => cases same

theorem Outcome.of_renumber_failure {outcome : Outcome Fault Machine Value} {fault : Fault}
    {later : Machine} (same : outcome.renumber id (Value.renumber id) =
      (Outcome.failure fault later).renumber id (Value.renumber id)) :
    ∃ later', outcome = .failure fault later' ∧ later'.sink = later.sink := by
  cases outcome with
  | failure fault' later' =>
      injection same with faults machines
      rw [Fault.renumber_id, Fault.renumber_id] at faults
      have sinks : (later'.renumber id).sink = (later.renumber id).sink :=
        congrArg Machine.sink machines
      exact ⟨later', congrArg (Outcome.failure · later') faults, sinks⟩
  | value value later' | exhausted => cases same

section

variable {fuel : Nat} {expr : Expr} {begun later : Machine}

theorem interpret_print {value : Value}
    (evaluated : evaluate fuel expr (begun.note (.interpreting 1)) = .value value later)
    (endless : later.sink.capacity = none) (flushes : later.sink.flushFails = false) :
    ∃ final, interpret (fuel + 1) [.print expr] begun = .value () final ∧
      final.sink.accepted = later.sink.accepted ++ (value.text ++ "\n") := by
  let printed : Sink := ⟨later.sink.accepted ++ (value.text ++ "\n"), none, later.sink.flushFails⟩
  have executed : executeEach (fuel + 1) [.print expr] (begun.note (.interpreting 1)) =
      .value () { later with sink := printed } := by
    simp only [executeEach, execute, Attempt.bind_apply, evaluated, Exec.write, Sink.write, endless]
    rfl
  have flushed : printed.flush = none := by
    simp [printed, Sink.flush, flushes]
  unfold interpret
  rw [List.length_singleton, executed]
  dsimp only
  rw [flushed]
  exact ⟨_, rfl, rfl⟩

theorem interpret_print_failure {fault : Fault}
    (evaluated : evaluate fuel expr (begun.note (.interpreting 1)) = .failure fault later)
    (flushes : later.sink.flushFails = false) :
    interpret (fuel + 1) [.print expr] begun = .failure fault later := by
  have executed : executeEach (fuel + 1) [.print expr] (begun.note (.interpreting 1)) =
      .failure fault later := by
    simp only [executeEach, execute, Attempt.bind_apply, evaluated]
  have flushed : later.sink.flush = none := by
    simp [Sink.flush, flushes]
  unfold interpret
  rw [List.length_singleton, executed]
  dsimp only
  rw [flushed]

end

/-- A text that is one expression gives the same when it is evaluated on a new machine, without
resolution, and when it is printed by a program that is run in a new session, if the clocks agree
and the sink of the session takes everything.  A value is printed with a line feed behind it and
nothing goes wrong; a fault ends the run without static errors and with nothing printed. -/
theorem printing_agrees_with_evaluation {source : String} {expr : Expr}
    (read : (readExpression source).1 = .ok expr) {fuel fuel' : Nat} (more : fuel < fuel')
    (readings : Readings) (journal journal' : Journal) (sink sink' : Sink)
    (endless : sink'.capacity = none) (flushes : sink'.flushFails = false) :
    match evaluate fuel expr (Machine.new sink readings journal) with
    | .value value _ => ∃ later,
        runSource fuel' ("print " ++ source ++ "\n;") (Machine.new sink' readings journal') =
          some (⟨[], none⟩, later) ∧
        later.sink.accepted = sink'.accepted ++ (value.text ++ "\n")
    | .failure fault _ => ∃ later,
        runSource fuel' ("print " ++ source ++ "\n;") (Machine.new sink' readings journal') =
          some (⟨[], some fault⟩, later) ∧
        later.sink.accepted = sink'.accepted
    | .exhausted => True := by
  obtain ⟨tokens, scanned, clean, statements⟩ := program_printed read
  cases fuel' with
  | zero => cases more
  | succ fuel' =>
      obtain ⟨begun, sameRest, ran⟩ := runSource_print scanned clean statements (fuel' + 1)
        (Machine.new sink' readings journal')
      have noted : (Machine.new sink' readings journal').EqExceptJournal
          (begun.note (.interpreting 1)) := by
        rw [sameRest]
        rfl
      have silent : (begun.note (.interpreting 1)).renumber id =
          ((Machine.new sink readings journal).printTo sink').renumber id := by
        rw [noted]
        rfl
      have elsewhere := evaluate_elsewhere (Machine.new_functionless sink readings journal) silent
        (Nat.le_of_lt_succ more) expr
      rw [ran]
      cases ended : evaluate fuel expr (Machine.new sink readings journal) with
      | exhausted => trivial
      | value value later =>
          rw [ended] at elsewhere
          obtain ⟨later', ended', same⟩ :=
            Outcome.of_renumber_value (elsewhere.resolve_left fun out => nomatch out)
          obtain ⟨final, printed, accepted⟩ := interpret_print ended' (same ▸ endless)
            (same ▸ flushes)
          rw [printed]
          rw [same] at accepted
          exact ⟨final, rfl, accepted⟩
      | failure fault later =>
          rw [ended] at elsewhere
          obtain ⟨later', ended', same⟩ :=
            Outcome.of_renumber_failure (elsewhere.resolve_left fun out => nomatch out)
          rw [interpret_print_failure ended' (same ▸ flushes)]
          exact ⟨_, rfl, congrArg Sink.accepted same⟩

/-- The text ends in a comment, so that the line feed in front of the semicolon is needed. -/
theorem printing_agrees_with_evaluation_joined :
    ∃ later, runSource 9 ("print " ++ "\"a\" + \"b\" // both" ++ "\n;")
        (Machine.new .unbounded (fun _ => .ok 0) .silent) = some (⟨[], none⟩, later) ∧
      later.sink.accepted = "ab\n" := by
  have joins : (readExpression "\"a\" + \"b\" // both").1.toOption.any (fun expr =>
      (evaluate 8 expr (Machine.new .unbounded (fun _ => .ok 0) .silent)).value?.any fun ended =>
        ended.1.text == "ab") = true := by
    decide +kernel
  cases read : (readExpression "\"a\" + \"b\" // both").1 with
  | error diagnostic =>
      rw [read] at joins
      cases joins
  | ok expr =>
      have agrees := printing_agrees_with_evaluation read (Nat.lt_succ_self 8) (fun _ => .ok 0)
        .silent .silent .unbounded .unbounded rfl rfl
      rw [read] at joins
      obtain ⟨_, ⟨⟩, joins⟩ := (Option.any_eq_true _ _).mp joins
      obtain ⟨⟨value, later⟩, ended, text⟩ := (Option.any_eq_true _ _).mp joins
      rw [Outcome.of_value? ended] at agrees
      obtain ⟨final, ran, accepted⟩ := agrees
      rw [eq_of_beq text] at accepted
      exact ⟨final, ran, accepted⟩

end LexicalScript
