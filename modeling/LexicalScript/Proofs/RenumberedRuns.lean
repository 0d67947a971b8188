import LexicalScript.Proofs.Renumbering

/-!
Runs of renumbered programs.

Executing a renumbered program on a renumbered machine gives what the program itself gives,
renumbered: an execution does not look at lines, it only reports them.  More fuel does not change
what is given either.
-/

set_option autoImplicit false

namespace LexicalScript

def RuntimeError.renumber (lines : Nat → Nat) (error : RuntimeError) : RuntimeError :=
  { error with line := lines error.line }

def Fault.renumber (lines : Nat → Nat) : Fault → Fault
  | .runtime error => .runtime (error.renumber lines)
  | .output error => .output error

theorem Fault.renumber_id (fault : Fault) : fault.renumber id = fault := by
  cases fault <;> rfl

def Flow.renumber (lines : Nat → Nat) : Flow → Flow
  | .normal => .normal
  | .returned value => .returned (value.renumber lines)

/-- The outcome with its fault and its machine renumbered, and its result changed. -/
def Outcome.renumber {α : Type} (lines : Nat → Nat) (image : α → α) :
    Outcome Fault Machine α → Outcome Fault Machine α
  | .value result machine => .value (image result) (machine.renumber lines)
  | .failure fault machine => .failure (fault.renumber lines) (machine.renumber lines)
  | .exhausted => .exhausted

/-- On a renumbered machine the second rule ends as the first one does on the machine itself,
renumbered.  If there is fuel to spare, it may go on where the first one is out of fuel. -/
def Exec.Follows {α : Type} (spare : Prop) (lines : Nat → Nat) (image : α → α)
    (rule renumbered : Exec α) : Prop :=
  ∀ machine : Machine, (spare ∧ rule machine = .exhausted) ∨
    renumbered (machine.renumber lines) = (rule machine).renumber lines image

/-! ### Steps -/

namespace Exec.Follows

variable {spare : Prop} {lines : Nat → Nat} {α β : Type} {image : α → α} {image' : β → β}

theorem pure (result : α) :
    Follows spare lines image (Pure.pure result) (Pure.pure (image result)) :=
  fun _ => Or.inr rfl

theorem bind {first first' : Exec α} {next next' : α → Exec β}
    (follows : Follows spare lines image first first')
    (after : ∀ result, Follows spare lines image' (next result) (next' (image result))) :
    Follows spare lines image' (first >>= next) (first' >>= next') := by
  intro machine
  rw [Attempt.bind_apply, Attempt.bind_apply]
  rcases follows machine with ⟨more, out⟩ | same
  · rw [out]
    exact Or.inl ⟨more, rfl⟩
  · rw [same]
    cases first machine with
    | value result later => exact after result later
    | failure fault later | exhausted => exact Or.inr rfl

theorem note (event event' : Event) :
    Follows spare lines id (Exec.note event) (Exec.note event') :=
  fun _ => Or.inr rfl

theorem raise (error : RuntimeError) :
    Follows spare lines image (Exec.raise error) (Exec.raise (error.renumber lines)) :=
  fun _ => Or.inr rfl

theorem ofExcept {result result' : Except RuntimeError α}
    (same : result' = (result.map image).mapError (RuntimeError.renumber lines)) :
    Follows spare lines image (Exec.ofExcept result) (Exec.ofExcept result') := by
  subst same
  cases result with
  | ok result => exact pure result
  | error error => exact raise error

theorem write (text : String) : Follows spare lines id (Exec.write text) (Exec.write text) := by
  intro machine
  have same : (machine.renumber lines).sink = machine.sink := rfl
  unfold Exec.write
  rw [same]
  obtain ⟨error, sink⟩ := machine.sink.write text
  cases error <;> exact Or.inr rfl

theorem readVariable (name : Token) (depth : Option Nat) :
    Follows spare lines (Value.renumber lines) (Exec.readVariable name depth)
      (Exec.readVariable (name.renumber lines) depth) := by
  intro machine
  unfold Exec.readVariable
  dsimp only
  refine ofExcept ?_ machine
  cases depth with
  | none =>
      simp only [Store.get, Store.owner?, Machine.renumber, Token.renumber,
        Store.ownerWithin?_renumber]
      cases machine.store.ownerWithin? name.lexeme (machine.globals + 1) machine.globals with
      | none => rfl
      | some owner =>
          simp only [Option.bind_some, Store.local?_renumber]
          cases machine.store.local? owner name.lexeme <;> rfl
  | some hops =>
      simp only [Store.getAt, Machine.renumber, Token.renumber, Store.ancestor?_renumber]
      cases machine.store.ancestor? machine.active hops with
      | none => rfl
      | some owner =>
          simp only [Option.bind_some, Store.local?_renumber]
          cases machine.store.local? owner name.lexeme <;> rfl

theorem define (machine : Machine) (frame : FrameId) (name : String) (value : Value) :
    Outcome.value () { machine.renumber lines with
      store := (machine.renumber lines).store.define frame name (value.renumber lines) } =
    Outcome.renumber lines id
      (.value () { machine with store := machine.store.define frame name value }) := by
  simp only [Outcome.renumber, Machine.renumber, Store.renumber_define, id]

theorem assignVariable (name : Token) (depth : Option Nat) (value : Value) :
    Follows spare lines id (Exec.assignVariable name depth value)
      (Exec.assignVariable (name.renumber lines) depth (value.renumber lines)) := by
  intro machine
  have target : Exec.target? (machine.renumber lines) (name.renumber lines) depth =
      Exec.target? machine name depth := by
    cases depth with
    | none => exact Store.ownerWithin?_renumber lines _ _ _ _
    | some hops => exact Store.ancestor?_renumber lines _ _ _
  unfold Exec.assignVariable
  rw [target]
  cases Exec.target? machine name depth with
  | none => exact raise (Store.undefinedVariable name depth) machine
  | some owner => exact Or.inr (define machine owner name.lexeme value)

theorem defineVariable (name : String) (value : Value) :
    Follows spare lines id (Exec.defineVariable name value)
      (Exec.defineVariable name (value.renumber lines)) :=
  fun machine => Or.inr (define machine machine.active name value)

theorem makeList (elements : List Value) :
    Follows spare lines (Value.renumber lines) (Exec.makeList elements)
      (Exec.makeList (Value.renumberAll lines elements)) :=
  fun _ => Or.inr rfl

theorem makeFunction (declaration : Declaration) :
    Follows spare lines (Value.renumber lines) (Exec.makeFunction declaration)
      (Exec.makeFunction (declaration.retouch (.lines lines))) :=
  fun _ => Or.inr rfl

theorem readClock (line : Nat) :
    Follows spare lines (Value.renumber lines) (Exec.readClock line)
      (Exec.readClock (lines line)) := by
  intro machine
  have same : (machine.renumber lines).clock = machine.clock := rfl
  unfold Exec.readClock
  rw [same]
  obtain ⟨reading, clock⟩ := machine.clock.read
  cases reading <;> exact Or.inr rfl

theorem takeReply (arguments : List Value) (reply : Reply) :
    Follows spare lines (Value.renumber lines) (Exec.takeReply arguments reply)
      (Exec.takeReply (Value.renumberAll lines arguments) reply) := by
  intro machine
  have same : (machine.renumber lines).store.fresh = machine.store.fresh := rfl
  unfold Exec.takeReply
  rw [same, Reply.build_renumber]
  exact Or.inr rfl

theorem nestedFrame : Follows spare lines id Exec.nestedFrame Exec.nestedFrame := by
  intro machine
  right
  simp only [Exec.nestedFrame, Store.create, Machine.renumber, Store.renumber, Outcome.renumber,
    Array.size_map, Array.map_push, id]
  rfl

theorem foldl_define (frame : FrameId) (parameters : List Token) (arguments : List Value)
    (store : Store) :
    ((parameters.map (Token.renumber lines)).zip (Value.renumberAll lines arguments)).foldl
      (fun store (parameter, argument) => store.define frame parameter.lexeme argument)
      (store.renumber lines) =
    Store.renumber lines ((parameters.zip arguments).foldl
      (fun store (parameter, argument) => store.define frame parameter.lexeme argument)
      store) := by
  induction parameters generalizing arguments store with
  | nil => rfl
  | cons parameter rest ih =>
      cases arguments with
      | nil => rfl
      | cons argument others =>
          simp only [List.map_cons, Value.renumberAll, List.zip_cons_cons, List.foldl_cons]
          rw [← ih, Store.renumber_define]
          rfl

theorem callFrame (declaration : Declaration) (closure : FrameId) (arguments : List Value) :
    Follows spare lines id (Exec.callFrame declaration closure arguments)
      (Exec.callFrame (declaration.retouch (.lines lines)) closure
        (Value.renumberAll lines arguments)) := by
  intro machine
  right
  have created : (machine.store.renumber lines).create (some closure) =
      ((machine.store.create (some closure)).1,
        (machine.store.create (some closure)).2.renumber lines) := by
    simp only [Store.create, Store.renumber, Array.size_map, Array.map_push]
    rfl
  simp only [Exec.callFrame, Machine.renumber, created, Declaration.retouch, Retouch.lines,
    foldl_define, Outcome.renumber, id]

theorem within {rule rule' : Exec α} (frame : FrameId)
    (follows : Follows spare lines image rule rule') :
    Follows spare lines image (Exec.within frame rule) (Exec.within frame rule') := by
  intro machine
  unfold Exec.within
  dsimp only
  rcases follows { machine with active := frame } with ⟨more, out⟩ | inside
  · rw [out]
    exact Or.inl ⟨more, rfl⟩
  · rw [show ({ machine.renumber lines with active := frame } : Machine) =
      Machine.renumber lines { machine with active := frame } from rfl, inside]
    cases rule { machine with active := frame } <;> exact Or.inr rfl

end Exec.Follows

/-! ### Operators -/

section

variable (lines : Nat → Nat)

theorem applyUnary_renumber (operator : Token) (operand : Value) :
    applyUnary (operator.renumber lines) (operand.renumber lines) =
      ((applyUnary operator operand).map (Value.renumber lines)).mapError
        (RuntimeError.renumber lines) := by
  unfold applyUnary
  simp only [Token.renumber, Value.isTruthy_renumber]
  split
  · cases operand <;> rfl
  · rfl
  · rfl

theorem applyArithmetic_renumber (operator : Token) (left right : Float) :
    applyArithmetic (operator.renumber lines) left right =
      ((applyArithmetic operator left right).map (Value.renumber lines)).mapError
        (RuntimeError.renumber lines) := by
  unfold applyArithmetic
  simp only [Token.renumber]
  split
  case h_3 => split <;> rfl
  all_goals rfl

theorem applyPlus_renumber (operator : Token) (left right : Value) :
    applyPlus (operator.renumber lines) (left.renumber lines) (right.renumber lines) =
      ((applyPlus operator left right).map (Value.renumber lines)).mapError
        (RuntimeError.renumber lines) := by
  have texts := Value.text_renumber lines
  cases left with
  | string value =>
      exact congrArg (fun text => Except.ok (Value.string (value ++ text))) (texts right)
  | list identity elements =>
      cases right with
      | string value =>
          exact congrArg (fun text => Except.ok (Value.string (text ++ value)))
            (texts (.list identity elements))
      | _ => rfl
  | _ => cases right <;> rfl

theorem applyBinary_renumber (operator : Token) (left right : Value) :
    applyBinary (operator.renumber lines) (left.renumber lines) (right.renumber lines) =
      ((applyBinary operator left right).map (Value.renumber lines)).mapError
        (RuntimeError.renumber lines) := by
  unfold applyBinary
  rw [applyPlus_renumber, Value.same_renumber, show (operator.renumber lines).kind = operator.kind
    from rfl]
  split
  · rfl
  · rfl
  · rfl
  · cases left with
    | number value =>
        cases right with
        | number value' => exact applyArithmetic_renumber lines operator value value'
        | _ => rfl
    | _ => rfl

theorem settles_renumber (operator : Token) (left : Value) :
    settles (operator.renumber lines) (left.renumber lines) = settles operator left := by
  unfold settles
  rw [Value.isTruthy_renumber]
  rfl

theorem applyIndex_renumber (bracket : Token) (object index : Value) :
    applyIndex (bracket.renumber lines) (object.renumber lines) (index.renumber lines) =
      ((applyIndex bracket object index).map (Value.renumber lines)).mapError
        (RuntimeError.renumber lines) := by
  cases object with
  | list identity elements =>
      cases index with
      | number value =>
          simp only [Value.renumber, applyIndex, Value.renumberAll_eq_map]
          cases position? value with
          | none => rfl
          | some position =>
              simp only [Option.bind_some, List.getElem?_map]
              cases elements[position]? <;> rfl
      | _ => rfl
  | _ => rfl

end

/-! ### Rules -/

/-- With one amount of fuel every rule follows itself with another amount. -/
structure Renumbers (spare : Prop) (lines : Nat → Nat) (fuel more : Nat) : Prop where
  evaluate : ∀ expr : Expr, Exec.Follows spare lines (Value.renumber lines) (evaluate fuel expr)
    (LexicalScript.evaluate more (expr.retouch (.lines lines)))
  evaluateAll : ∀ exprs : List Expr, Exec.Follows spare lines (Value.renumberAll lines)
    (evaluateAll fuel exprs) (LexicalScript.evaluateAll more (Expr.retouchAll (.lines lines) exprs))
  callCounted : ∀ (callee : Value) (arguments : List Value) (paren : Token),
    Exec.Follows spare lines (Value.renumber lines) (callCounted fuel callee arguments paren)
      (LexicalScript.callCounted more (callee.renumber lines) (Value.renumberAll lines arguments)
        (paren.renumber lines))
  invoke : ∀ (callable : Callable) (arguments : List Value) (paren : Token),
    Exec.Follows spare lines (Value.renumber lines) (invoke fuel callable arguments paren)
      (LexicalScript.invoke more (callable.renumber lines) (Value.renumberAll lines arguments)
        (paren.renumber lines))
  execute : ∀ stmt : Stmt, Exec.Follows spare lines (Flow.renumber lines) (execute fuel stmt)
    (LexicalScript.execute more (stmt.retouch (.lines lines)))
  executeLoop : ∀ (condition : Expr) (body : Stmt), Exec.Follows spare lines (Flow.renumber lines)
    (executeLoop fuel condition body)
    (LexicalScript.executeLoop more (condition.retouch (.lines lines))
      (body.retouch (.lines lines)))
  executeAll : ∀ statements : List Stmt, Exec.Follows spare lines (Flow.renumber lines)
    (executeAll fuel statements)
    (LexicalScript.executeAll more (Stmt.retouchAll (.lines lines) statements))

section

variable {spare : Prop} {lines : Nat → Nat} {fuel more : Nat}

theorem callNative_follows (native : Native) (arguments : List Value) (line : Nat) :
    Exec.Follows spare lines (Value.renumber lines) (callNative native arguments line)
      (callNative native (Value.renumberAll lines arguments) (lines line)) := by
  unfold callNative
  apply Exec.Follows.bind (.note _ _)
  intro _
  cases native.action with
  | readClock => exact .readClock line
  | answer host =>
      dsimp only
      rw [Value.viewAll_renumberAll]
      cases host (Value.viewAll arguments) with
      | error message => exact fun _ => Or.inr rfl
      | ok reply => exact .takeReply arguments reply

theorem Renumbers.evaluate_succ (renumbers : Renumbers spare lines fuel more) (expr : Expr) :
    Exec.Follows spare lines (Value.renumber lines) (LexicalScript.evaluate (fuel + 1) expr)
      (LexicalScript.evaluate (more + 1) (expr.retouch (.lines lines))) := by
  cases expr with
  | literal value =>
      have same : Exec.Follows spare lines (Value.renumber lines) (pure (Value.ofLiteral value))
          (pure ((Value.ofLiteral value).renumber lines)) := .pure _
      rw [Value.renumber_ofLiteral] at same
      exact same
  | grouping inner => exact renumbers.evaluate inner
  | unary operator operand =>
      apply Exec.Follows.bind (renumbers.evaluate operand)
      intro value
      exact .ofExcept (applyUnary_renumber lines operator value)
  | binary left operator right =>
      apply Exec.Follows.bind (renumbers.evaluate left)
      intro value
      apply Exec.Follows.bind (renumbers.evaluate right)
      intro value'
      exact .ofExcept (applyBinary_renumber lines operator value value')
  | logical left operator right =>
      apply Exec.Follows.bind (renumbers.evaluate left)
      intro value
      rw [show (Retouch.lines lines).token operator = operator.renumber lines from rfl,
        settles_renumber]
      split
      · exact .pure value
      · exact renumbers.evaluate right
  | reference name depth => exact .readVariable name depth
  | assign name value depth =>
      apply Exec.Follows.bind (renumbers.evaluate value)
      intro value
      apply Exec.Follows.bind (.assignVariable name depth value)
      intro _
      exact .pure value
  | call callee paren arguments =>
      apply Exec.Follows.bind (renumbers.evaluate callee)
      intro callee
      apply Exec.Follows.bind (renumbers.evaluateAll arguments)
      intro arguments
      exact renumbers.callCounted callee arguments paren
  | list bracket elements =>
      apply Exec.Follows.bind (renumbers.evaluateAll elements)
      intro elements
      exact .makeList elements
  | index object bracket position =>
      apply Exec.Follows.bind (renumbers.evaluate object)
      intro object
      apply Exec.Follows.bind (renumbers.evaluate position)
      intro position
      have indexed : Exec.Follows spare lines (Value.renumber lines)
          (Exec.ofExcept (applyIndex bracket object position))
          (Exec.ofExcept (applyIndex (bracket.renumber lines) (object.renumber lines)
            (position.renumber lines))) :=
        .ofExcept (applyIndex_renumber lines bracket object position)
      cases object with
      | list identity elements => exact indexed
      | _ => exact .bind (.note _ _) fun _ => indexed

theorem Renumbers.evaluateAll_succ (renumbers : Renumbers spare lines fuel more)
    (exprs : List Expr) :
    Exec.Follows spare lines (Value.renumberAll lines) (LexicalScript.evaluateAll (fuel + 1) exprs)
      (LexicalScript.evaluateAll (more + 1) (Expr.retouchAll (.lines lines) exprs)) := by
  cases exprs with
  | nil => exact .pure []
  | cons expr rest =>
      apply Exec.Follows.bind (renumbers.evaluate expr)
      intro value
      apply Exec.Follows.bind (renumbers.evaluateAll rest)
      intro values
      exact .pure (value :: values)

theorem Renumbers.callCounted_succ (renumbers : Renumbers spare lines fuel more) (callee : Value)
    (arguments : List Value) (paren : Token) :
    Exec.Follows spare lines (Value.renumber lines)
      (LexicalScript.callCounted (fuel + 1) callee arguments paren)
      (LexicalScript.callCounted (more + 1) (callee.renumber lines)
        (Value.renumberAll lines arguments) (paren.renumber lines)) := by
  unfold LexicalScript.callCounted
  rw [Value.callable?_renumber]
  cases callee.callable? with
  | none => exact .bind (.note _ _) fun _ => .raise _
  | some callable =>
      have counted : (Value.renumberAll lines arguments).length = arguments.length := by
        rw [Value.renumberAll_eq_map, List.length_map]
      simp only [Option.map_some, counted, Callable.arity_renumber]
      split
      · apply Exec.Follows.bind (renumbers.invoke callable arguments paren)
        intro result
        exact .bind (.note _ _) fun _ => .pure result
      · exact .raise _

theorem Renumbers.invoke_succ (renumbers : Renumbers spare lines fuel more) (callable : Callable)
    (arguments : List Value) (paren : Token) :
    Exec.Follows spare lines (Value.renumber lines)
      (LexicalScript.invoke (fuel + 1) callable arguments paren)
      (LexicalScript.invoke (more + 1) (callable.renumber lines)
        (Value.renumberAll lines arguments) (paren.renumber lines)) := by
  cases callable with
  | native native => exact callNative_follows native arguments paren.line
  | function declaration closure =>
      apply Exec.Follows.bind (.note _ _)
      intro _
      apply Exec.Follows.bind (.callFrame declaration closure arguments)
      intro frame
      apply Exec.Follows.bind (.within frame (renumbers.executeAll declaration.body))
      intro flow
      cases flow with
      | normal => exact .pure Value.nil
      | returned value => exact .pure value

theorem Renumbers.execute_succ (renumbers : Renumbers spare lines fuel more) (stmt : Stmt) :
    Exec.Follows spare lines (Flow.renumber lines) (LexicalScript.execute (fuel + 1) stmt)
      (LexicalScript.execute (more + 1) (stmt.retouch (.lines lines))) := by
  cases stmt with
  | expression expr =>
      apply Exec.Follows.bind (renumbers.evaluate expr)
      intro _
      exact .pure Flow.normal
  | print expr =>
      apply Exec.Follows.bind (renumbers.evaluate expr)
      intro value
      rw [Value.text_renumber]
      exact .bind (.write _) fun _ => .pure Flow.normal
  | var name initializer =>
      have bound : ∀ value : Value, Exec.Follows spare lines (Flow.renumber lines)
          (do
            Exec.note (.variableDefined name.lexeme value)
            Exec.defineVariable name.lexeme value
            return .normal)
          (do
            Exec.note (.variableDefined name.lexeme (value.renumber lines))
            Exec.defineVariable name.lexeme (value.renumber lines)
            return .normal) := by
        intro value
        apply Exec.Follows.bind (.note _ _)
        intro _
        exact .bind (.defineVariable name.lexeme value) fun _ => .pure Flow.normal
      cases initializer with
      | none => exact bound .nil
      | some expr => exact .bind (renumbers.evaluate expr) bound
  | block body =>
      apply Exec.Follows.bind .nestedFrame
      intro frame
      exact .within frame (renumbers.executeAll body)
  | conditional condition thenBranch elseBranch =>
      apply Exec.Follows.bind (renumbers.evaluate condition)
      intro test
      rw [Value.isTruthy_renumber]
      split
      · exact renumbers.execute thenBranch
      · cases elseBranch with
        | none => exact .pure Flow.normal
        | some stmt => exact renumbers.execute stmt
  | loop condition body => exact renumbers.executeLoop condition body
  | function name parameters body =>
      apply Exec.Follows.bind (.note _ _)
      intro _
      apply Exec.Follows.bind (.makeFunction ⟨name, parameters, body⟩)
      intro function
      exact .bind (.defineVariable name.lexeme function) fun _ => .pure Flow.normal
  | returnValue keyword value =>
      cases value with
      | none => exact .pure (Flow.returned .nil)
      | some expr =>
          apply Exec.Follows.bind (renumbers.evaluate expr)
          intro value
          exact .pure (Flow.returned value)

theorem Renumbers.executeLoop_succ (renumbers : Renumbers spare lines fuel more) (condition : Expr)
    (body : Stmt) :
    Exec.Follows spare lines (Flow.renumber lines)
      (LexicalScript.executeLoop (fuel + 1) condition body)
      (LexicalScript.executeLoop (more + 1) (condition.retouch (.lines lines))
        (body.retouch (.lines lines))) := by
  apply Exec.Follows.bind (renumbers.evaluate condition)
  intro test
  rw [Value.isTruthy_renumber]
  split
  · apply Exec.Follows.bind (renumbers.execute body)
    intro flow
    cases flow with
    | normal => exact renumbers.executeLoop condition body
    | returned value => exact .pure (Flow.returned value)
  · exact .pure Flow.normal

theorem Renumbers.executeAll_succ (renumbers : Renumbers spare lines fuel more)
    (statements : List Stmt) :
    Exec.Follows spare lines (Flow.renumber lines) (LexicalScript.executeAll (fuel + 1) statements)
      (LexicalScript.executeAll (more + 1) (Stmt.retouchAll (.lines lines) statements)) := by
  cases statements with
  | nil => exact .pure Flow.normal
  | cons stmt rest =>
      apply Exec.Follows.bind (renumbers.execute stmt)
      intro flow
      cases flow with
      | normal => exact renumbers.executeAll rest
      | returned value => exact .pure (Flow.returned value)

end

theorem renumbers (lines : Nat → Nat) (extra fuel : Nat) :
    Renumbers (0 < extra) lines fuel (extra + fuel) := by
  induction fuel with
  | zero =>
      have out {α : Type} {image : α → α} {rule renumbered : Exec α}
          (first : rule = .exhausted) (second : extra = 0 → renumbered = .exhausted) :
          Exec.Follows (0 < extra) lines image rule renumbered := by
        intro machine
        rw [first]
        rcases Nat.eq_zero_or_pos extra with none | more
        · rw [second none]
          exact Or.inr rfl
        · exact Or.inl ⟨more, rfl⟩
      constructor
      all_goals
        intros
        refine out rfl ?_
        rintro rfl
        rfl
  | succ fuel ih =>
      exact ⟨ih.evaluate_succ, ih.evaluateAll_succ, ih.callCounted_succ, ih.invoke_succ,
        ih.execute_succ, ih.executeLoop_succ, ih.executeAll_succ⟩

/-- A renumbered program ends on a renumbered machine as the program itself does, renumbered. -/
theorem executeEach_renumber (lines : Nat → Nat) (fuel : Nat) (statements : List Stmt)
    (machine : Machine) :
    executeEach fuel (Stmt.retouchAll (.lines lines) statements) (machine.renumber lines) =
      (executeEach fuel statements machine).renumber lines id := by
  have follows : Exec.Follows (0 < 0) lines id (executeEach fuel statements)
      (executeEach fuel (Stmt.retouchAll (.lines lines) statements)) := by
    induction statements with
    | nil => exact .pure ()
    | cons stmt rest ih =>
        have rules := renumbers lines 0 fuel
        rw [Nat.zero_add] at rules
        exact .bind (rules.execute stmt) fun _ => ih
  exact (follows machine).resolve_left fun more => Nat.lt_irrefl 0 more.1

end LexicalScript
