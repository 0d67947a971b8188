import LexicalScript.Proofs.Mirroring

/-!
Depths implement lexical scoping.

Running resolved code on frames is mirrored, step by step, by running the same code without its
depths in the reference.  The induction is on the fuel, and each rule is compared with its
counterpart under the scopes that the code was resolved under.
-/

set_option autoImplicit false

namespace LexicalScript

open Reference (Datum Environment Location Place State Run)

/-- Values agree in the paired state that they were reached in. -/
abbrev ValuesAgree (later : PairedState) (value : Value) (datum : Datum) : Prop :=
  value.Agrees later.closing datum

/-- With a given amount of fuel, the rules are mirrored by those of the reference. -/
structure Mirrored (fuel : Nat) : Prop where
  evaluate : ∀ (expr : Expr) (pending : Option String) {pair : PairedState} {scopes : Scopes}
    {environment : Environment}, pair.Reads scopes environment → expr.Scoped scopes pending →
    (evaluate fuel expr).Mirrors (Reference.evaluate fuel environment (expr.retouch .erasing))
      pair [] ValuesAgree
  evaluateAll : ∀ (exprs : List Expr) (pending : Option String) {pair : PairedState}
    {scopes : Scopes} {environment : Environment}, pair.Reads scopes environment →
    Expr.ScopedAll scopes pending exprs →
    (evaluateAll fuel exprs).Mirrors
      (Reference.evaluateAll fuel environment (Expr.retouchAll .erasing exprs)) pair []
      (fun later values data => Value.AgreesAll later.closing values data)
  call : ∀ {callee : Value} {callee' : Datum} {arguments : List Value} {arguments' : List Datum}
    (paren : Token) {pair : PairedState}, pair.Matches → callee.Agrees pair.closing callee' →
    Value.AgreesAll pair.closing arguments arguments' →
    (callCounted fuel callee arguments paren).Mirrors
      (Reference.call fuel callee' arguments' paren) pair [] ValuesAgree
  invoke : ∀ {callee : Value} {callable : Callable} {callee' : Datum} {arguments : List Value}
    {arguments' : List Datum} (paren : Token) {pair : PairedState}, pair.Matches →
    callee.callable? = some callable → callee.Agrees pair.closing callee' →
    arguments.length = callable.arity → Value.AgreesAll pair.closing arguments arguments' →
    (invoke fuel callable arguments paren).Mirrors
      (Reference.invoke fuel callee' arguments' paren) pair [] ValuesAgree
  execute : ∀ (stmt : Stmt) {pair : PairedState} {scopes : Scopes} {place : Place},
    pair.Stands scopes place → stmt.Scoped scopes →
    (execute fuel stmt).Mirrors (Reference.execute fuel place (stmt.retouch .erasing)) pair
      (Stmt.declaredNames [stmt])
      (fun later flow result => FlowsAgree later.closing flow result.1 ∧
        later.Stands (stmt.extend scopes) result.2)
  executeLoop : ∀ (condition : Expr) (body : Stmt) {pair : PairedState} {scopes : Scopes}
    {place : Place}, pair.Stands scopes place → condition.Scoped scopes none →
    body.declared? = none → body.Scoped scopes →
    (executeLoop fuel condition body).Mirrors
      (Reference.executeLoop fuel place (condition.retouch .erasing) (body.retouch .erasing))
      pair [] (fun later flow flow' => FlowsAgree later.closing flow flow')
  executeAll : ∀ (statements : List Stmt) {pair : PairedState} {scopes : Scopes}
    {environment : Environment}, pair.Stands scopes (.inside environment) →
    Stmt.ScopedAll scopes statements →
    (executeAll fuel statements).Mirrors
      (Reference.executeAll fuel environment (Stmt.retouchAll .erasing statements)) pair
      (Stmt.declaredNames statements)
      (fun later flow flow' => FlowsAgree later.closing flow flow')

namespace Mirrored

variable {fuel : Nat} {pair : PairedState} {scopes : Scopes} {environment : Environment}

open Exec

theorem evaluate_succ (ih : Mirrored fuel) (expr : Expr) (pending : Option String)
    (reads : pair.Reads scopes environment) (placed : expr.Scoped scopes pending) :
    (LexicalScript.evaluate (fuel + 1) expr).Mirrors
      (Reference.evaluate (fuel + 1) environment (expr.retouch .erasing)) pair [] ValuesAgree := by
  cases expr with
  | literal value => exact .pure reads.matched (Value.agrees_ofLiteral value)
  | grouping inner => exact ih.evaluate inner pending reads placed
  | unary operator operand =>
      refine (ih.evaluate operand pending reads placed).bind
        fun later value datum advances agrees => ?_
      have result : ResultsAgree later.closing (applyUnary operator value)
          ((applyUnary operator datum.face).map Datum.ofResult) := by
        rw [← agrees.face_eq, applyUnary_face]
        exact .ofPlain fun result applied => applyUnary_plain applied
      exact ofExcept_mirrors advances.matched result
  | binary left operator right =>
      refine (ih.evaluate left pending reads placed.1).bind
        fun later first first' advances agrees => ?_
      refine (ih.evaluate right pending (reads.advance advances) placed.2).bind
        fun last second second' advances' agrees' => ?_
      have result : ResultsAgree last.closing (applyBinary operator first second)
          ((applyBinary operator first'.face second'.face).map Datum.ofResult) := by
        rw [← agrees.face_eq, ← agrees'.face_eq, applyBinary_face]
        exact .ofPlain fun result applied => applyBinary_plain applied
      exact ofExcept_mirrors advances'.matched result
  | logical left operator right =>
      refine (ih.evaluate left pending reads placed.1).bind
        fun later first first' advances agrees => ?_
      have same : settles operator first'.face = settles operator first := by
        rw [← agrees.face_eq, settles_face]
      change Mirrors (if settles operator first then Pure.pure first else _)
        (if settles operator first'.face then Pure.pure first' else _) _ _ _
      rw [same]
      cases settles operator first with
      | true => exact .pure advances.matched agrees
      | false => exact ih.evaluate right pending (reads.advance advances) placed.2
  | reference name depth => exact read_mirrors reads placed.1
  | assign name value depth =>
      refine (ih.evaluate value pending reads placed.1).bind
        fun later result datum advances agrees => ?_
      refine (assign_mirrors (reads.advance advances) placed.2 agrees).bind
        fun last _ _ advances' _ => ?_
      exact .pure advances'.matched (advances'.agrees agrees)
  | call callee paren arguments =>
      refine (ih.evaluate callee pending reads placed.1).bind
        fun later function function' advances agrees => ?_
      refine (ih.evaluateAll arguments pending (reads.advance advances) placed.2).bind
        fun last values data advances' agrees' => ?_
      exact ih.call paren advances'.matched (advances'.agrees agrees) agrees'
  | list bracket elements =>
      refine (ih.evaluateAll elements pending reads placed).bind
        fun later values data advances agrees => ?_
      exact makeList_mirrors advances.matched agrees
  | index object bracket position =>
      refine (ih.evaluate object pending reads placed.1).bind
        fun later list list' advances agrees => ?_
      refine (ih.evaluate position pending (reads.advance advances) placed.2).bind
        fun last number number' advances' agrees' => ?_
      have agrees'' := advances'.agrees agrees
      have access : ∀ {pair : PairedState}, last.Advances [] pair →
          (Exec.ofExcept (applyIndex bracket list number)).Mirrors
            (Reference.ofExcept (Reference.index bracket list' number')) pair [] ValuesAgree :=
        fun advances'' => ofExcept_mirrors advances''.matched
          (applyIndex_agrees (advances''.agrees agrees'') (advances''.agrees agrees'))
      have refused : (note (.indexRefused list.typeName) >>= fun _ =>
          Exec.ofExcept (applyIndex bracket list number)).Mirrors
            (Reference.ofExcept (Reference.index bracket list' number')) last [] ValuesAgree :=
        .note advances'.matched fun noted advances'' => access advances''
      cases list with
      | list identity elements => exact access (.refl advances'.matched)
      | _ => exact refused

theorem evaluateAll_succ (ih : Mirrored fuel) (exprs : List Expr) (pending : Option String)
    (reads : pair.Reads scopes environment) (placed : Expr.ScopedAll scopes pending exprs) :
    (LexicalScript.evaluateAll (fuel + 1) exprs).Mirrors
      (Reference.evaluateAll (fuel + 1) environment (Expr.retouchAll .erasing exprs)) pair []
      (fun later values data => Value.AgreesAll later.closing values data) := by
  cases exprs with
  | nil => exact .pure reads.matched .nil
  | cons expr rest =>
      refine (ih.evaluate expr pending reads placed.1).bind
        fun later value datum advances agrees => ?_
      refine (ih.evaluateAll rest pending (reads.advance advances) placed.2).bind
        fun last values data advances' agrees' => ?_
      exact .pure advances'.matched (.cons (advances'.agrees agrees) agrees')

theorem call_succ (ih : Mirrored fuel) {callee : Value} {callee' : Datum}
    {arguments : List Value} {arguments' : List Datum} (paren : Token)
    (matched : pair.Matches) (agrees : callee.Agrees pair.closing callee')
    (all : Value.AgreesAll pair.closing arguments arguments') :
    (LexicalScript.callCounted (fuel + 1) callee arguments paren).Mirrors
      (Reference.call (fuel + 1) callee' arguments' paren) pair [] ValuesAgree := by
  have counted : ∀ {callable : Callable}, callee.callable? = some callable →
      (if arguments.length = callable.arity then do
        let result ← LexicalScript.invoke fuel callable arguments paren
        note (.returned callable.name result)
        return result
      else raise ⟨.arity callable.arity arguments.length, paren.line⟩ : Exec Value).Mirrors
        (if arguments'.length = callable.arity then Reference.invoke fuel callee' arguments' paren
        else Reference.raise ⟨.arity callable.arity arguments'.length, paren.line⟩) pair []
        ValuesAgree := by
    intro callable found
    rw [← all.length_eq]
    by_cases enough : arguments.length = callable.arity
    · rw [if_pos enough, if_pos enough]
      have finished : (LexicalScript.invoke fuel callable arguments paren >>= fun result =>
          note (.returned callable.name result) >>= fun _ => Pure.pure result).Mirrors
            (Reference.invoke fuel callee' arguments' paren >>= Pure.pure) pair [] ValuesAgree :=
        (ih.invoke paren matched found agrees enough all).bind
          fun later result datum advances agrees => .note advances.matched
            fun noted advances' => .pure advances'.matched (advances'.agrees agrees)
      rw [bind_pure] at finished
      exact finished
    · rw [if_neg enough, if_neg enough]
      exact raise_mirrors matched rfl rfl
  have refused : (note (.callRefused callee.typeName) >>= fun _ =>
      (raise ⟨.notCallable, paren.line⟩ : Exec Value)).Mirrors
        (Reference.raise ⟨.notCallable, paren.line⟩) pair [] ValuesAgree :=
    .note matched fun noted advances => raise_mirrors advances.matched rfl rfl
  cases agrees with
  | native => exact counted rfl
  | @function identity declaration closure environment closed =>
      have arity : (declaration.retouch .erasing).parameters.length =
          declaration.parameters.length := List.length_map _
      change Mirrors _ (if arguments'.length = (declaration.retouch .erasing).parameters.length
        then _ else Reference.raise
          ⟨.arity (declaration.retouch .erasing).parameters.length arguments'.length, _⟩) _ _ _
      rw [arity]
      exact counted rfl
  | _ => exact refused

theorem callNative_mirrors (native : Native) {arguments : List Value} {arguments' : List Datum}
    (line : Nat) (matched : pair.Matches)
    (all : Value.AgreesAll pair.closing arguments arguments') :
    (callNative native arguments line).Mirrors (Reference.callNative native arguments' line)
      pair [] ValuesAgree := by
  refine .note matched fun later advances => ?_
  have all' := advances.agreesAll all
  unfold Reference.callNative
  cases native.action with
  | readClock => exact readClock_mirrors advances.matched line
  | answer host =>
      have seen : Value.viewAll (Reference.Datum.faceAll arguments') = Value.viewAll arguments := by
        rw [← all.face_eq, Value.viewAll_faceAll]
      dsimp only
      rw [seen]
      cases host (Value.viewAll arguments) with
      | error message => exact raise_mirrors advances.matched rfl rfl
      | ok reply => exact takeReply_mirrors advances.matched all' reply

theorem invoke_succ (ih : Mirrored fuel) {callee : Value} {callable : Callable}
    {callee' : Datum} {arguments : List Value} {arguments' : List Datum} (paren : Token)
    (matched : pair.Matches) (found : callee.callable? = some callable)
    (agrees : callee.Agrees pair.closing callee') (counted : arguments.length = callable.arity)
    (all : Value.AgreesAll pair.closing arguments arguments') :
    (LexicalScript.invoke (fuel + 1) callable arguments paren).Mirrors
      (Reference.invoke (fuel + 1) callee' arguments' paren) pair [] ValuesAgree := by
  cases agrees with
  | native =>
      cases found
      exact callNative_mirrors _ paren.line matched all
  | @function identity declaration closure environment closed =>
      cases found
      refine .note matched fun later advances => ?_
      obtain ⟨scopes, linked, distinct, placed⟩ := advances.closing closed
      have extended : later.Advances [] (later.extend closure) := advances.matched.extend closure
      have stands := advances.matched.enterFrame linked
      have all' := extended.agreesAll (advances.agreesAll all)
      obtain ⟨bound, environment', binds, machine, state, stands'⟩ :=
        stands.bindParameters all' counted ((List.reverse_perm _).nodup_iff.mp distinct)
          fun name _ inside => nomatch inside
      rw [List.append_nil] at stands'
      have body : (callFrame declaration closure arguments >>= fun frame =>
          within frame (LexicalScript.executeAll fuel declaration.body)).Mirrors
            (Reference.bindParameters declaration.parameters arguments' environment >>=
              fun environment => Reference.executeAll fuel environment
                (Stmt.retouchAll .erasing declaration.body)) later []
            (fun last flow flow' => FlowsAgree last.closing flow flow') := by
        refine within_mirrors (ih.executeAll declaration.body stands' placed)
          (extended.leave (Nat.le_refl _) binds) ?_ ?_ ?_
        · rw [machine]
          exact Nat.le_refl _
        · rw [PairedState.enter, machine]
          rfl
        · rw [Attempt.bind_apply, show Reference.bindParameters _ _ _ later.state = _ from state]
      rw [Declaration.erase_eq, ← bind_assoc]
      change Mirrors _ (Reference.bindParameters declaration.parameters arguments' environment >>=
        fun environment => Reference.executeAll fuel environment
          (Stmt.retouchAll .erasing declaration.body) >>= fun flow => _) _ _ _
      rw [← bind_assoc]
      refine body.bind fun last flow flow' advances' agree => ?_
      cases agree with
      | normal => exact .pure advances'.matched .nil
      | returned agrees => exact .pure advances'.matched agrees
  | _ => cases found

/-- What statements are compared by: how they end, and where they leave the code that follows. -/
abbrev EndsAgree (scopes : Scopes) (later : PairedState) (flow : Flow)
    (result : Reference.Flow × Place) : Prop :=
  FlowsAgree later.closing flow result.1 ∧ later.Stands scopes result.2

theorem defineGlobal_mirrors {name : String} {fresh : List String} {value : Value} {datum : Datum}
    (stands : pair.Stands [] .top) (agrees : value.Agrees pair.closing datum) :
    (defineVariable name value >>= fun _ => Pure.pure Flow.normal).Mirrors
      (Reference.declareGlobal name datum >>= fun _ =>
        Pure.pure (Reference.Flow.normal, Place.top)) pair fresh (EndsAgree []) := by
  have atTop : pair.machine.active = pair.machine.globals := stands.reads.linked.eq_globals
  change PairedState.Ends pair fresh _ (.value Flow.normal
    { pair.machine with store := pair.machine.store.define pair.machine.active name value }) _
  rw [atTop]
  have matched := stands.reads.matched
  exact .value (matched.storeGlobal name agrees)
    ⟨.normal, stands.advance (matched.storeGlobal name agrees)⟩

theorem defineLocal_mirrors {name : String} {location : Location} {fresh : List String}
    {value : Value} {datum : Datum} (stands : pair.Stands scopes (.inside environment))
    (placed : pair.places pair.machine.active name = some location)
    (agrees : value.Agrees pair.closing datum) :
    (defineVariable name value >>= fun _ => Pure.pure Flow.normal).Mirrors
      (Reference.fill location datum >>= fun _ =>
        Pure.pure (Reference.Flow.normal, Place.inside environment)) pair fresh
      (EndsAgree scopes) := by
  have matched := stands.reads.matched
  exact .value (matched.storeLocal placed agrees)
    ⟨.normal, stands.advance (matched.storeLocal placed agrees)⟩

theorem globalVariable_mirrors (ih : Mirrored fuel) {name : Token} {initializer : Option Expr}
    {fresh : List String} (stands : pair.Stands [] .top)
    (placed : (Stmt.var name initializer).Scoped []) :
    (LexicalScript.execute (fuel + 1) (.var name initializer)).Mirrors
      (Reference.execute (fuel + 1) .top ((Stmt.var name initializer).retouch .erasing)) pair
      fresh (EndsAgree []) := by
  have defined : ∀ {later : PairedState} {value : Value} {datum : Datum}, pair.Advances [] later →
      value.Agrees later.closing datum →
      (note (.variableDefined name.lexeme value) >>= fun _ =>
        defineVariable name.lexeme value >>= fun _ => Pure.pure Flow.normal).Mirrors
          (Reference.declareGlobal name.lexeme datum >>= fun _ =>
            Pure.pure (Reference.Flow.normal, Place.top)) later fresh (EndsAgree []) := by
    intro later value datum advances agrees
    refine .note advances.matched fun last advances' => ?_
    exact defineGlobal_mirrors ((stands.advance advances).advance advances')
      (advances'.agrees agrees)
  cases initializer with
  | none => exact defined (.refl stands.reads.matched) .nil
  | some expr =>
      exact (ih.evaluate expr (some name.lexeme) stands.reads placed.2).bindStill
        fun later value datum advances agrees => defined advances agrees

theorem localVariable_mirrors (ih : Mirrored fuel) {name : Token} {initializer : Option Expr}
    {scope : List String}
    (stands : pair.Stands (scope :: scopes) (.inside environment))
    (placed : (Stmt.var name initializer).Scoped (scope :: scopes)) :
    (LexicalScript.execute (fuel + 1) (.var name initializer)).Mirrors
      (Reference.execute (fuel + 1) (.inside environment)
        ((Stmt.var name initializer).retouch .erasing)) pair
      (Stmt.declaredNames [.var name initializer])
      (EndsAgree ((name.lexeme :: scope) :: scopes)) := by
  have declared : name.lexeme ∈ Stmt.declaredNames [.var name initializer] :=
    List.mem_singleton.mpr rfl
  obtain ⟨allocated, held, stands'⟩ := stands.declare placed.1 declared
  have defined : ∀ {later : PairedState} {value : Value} {datum : Datum},
      (pair.place pair.machine.active name.lexeme).Advances [] later →
      value.Agrees later.closing datum →
      (note (.variableDefined name.lexeme value) >>= fun _ =>
        defineVariable name.lexeme value >>= fun _ => Pure.pure Flow.normal).Mirrors
          (Reference.fill pair.state.heap.length datum >>= fun _ => Pure.pure
            (Reference.Flow.normal,
              Place.inside ((name.lexeme, pair.state.heap.length) :: environment))) later
          (Stmt.declaredNames [.var name initializer])
          (EndsAgree ((name.lexeme :: scope) :: scopes)) := by
    intro later value datum advances agrees
    refine .note advances.matched fun last advances' => ?_
    refine defineLocal_mirrors ((stands'.advance advances).advance advances') ?_
      (advances'.agrees agrees)
    rw [advances'.active, advances.active]
    exact advances'.kept _ _ _ (advances.kept _ _ _ held)
  cases initializer with
  | none =>
      have rest := defined (.refl allocated.matched) .nil
      exact .start allocated rfl rfl rest
  | some expr =>
      have rest := (ih.evaluate expr (some name.lexeme) stands'.reads placed.2).bindStill
        fun later value datum advances agrees => defined advances agrees
      exact .start allocated rfl rfl rest

theorem globalFunction_mirrors {name : Token} {parameters : List Token} {body : List Stmt}
    {fresh : List String} (stands : pair.Stands [] .top)
    (placed : (Stmt.function name parameters body).Scoped []) :
    (LexicalScript.execute (fuel + 1) (.function name parameters body)).Mirrors
      (Reference.execute (fuel + 1) .top ((Stmt.function name parameters body).retouch .erasing))
      pair fresh (EndsAgree []) := by
  refine .note stands.reads.matched fun noted advances => ?_
  refine makeFunction_mirrors advances.matched fun made identity advances' => ?_
  have stands' := (stands.advance advances).advance advances'
  refine defineGlobal_mirrors stands' (.function ⟨[], ?_, placed.2.1, placed.2.2⟩)
  rw [← advances'.active]
  exact stands'.reads.linked

theorem localFunction_mirrors {name : Token} {parameters : List Token} {body : List Stmt}
    {scope : List String} (stands : pair.Stands (scope :: scopes) (.inside environment))
    (placed : (Stmt.function name parameters body).Scoped (scope :: scopes)) :
    (LexicalScript.execute (fuel + 1) (.function name parameters body)).Mirrors
      (Reference.execute (fuel + 1) (.inside environment)
        ((Stmt.function name parameters body).retouch .erasing)) pair
      (Stmt.declaredNames [.function name parameters body])
      (EndsAgree ((name.lexeme :: scope) :: scopes)) := by
  have declared : name.lexeme ∈ Stmt.declaredNames [.function name parameters body] :=
    List.mem_singleton.mpr rfl
  refine .note stands.reads.matched fun noted advances => ?_
  refine makeFunction_mirrors advances.matched fun made identity advances' => ?_
  obtain ⟨allocated, held, stands'⟩ :=
    ((stands.advance advances).advance advances').declare placed.1 declared
  -- The function's own location is in the environment that it keeps.
  have closed : (made.place made.machine.active name.lexeme).closing ⟨name, parameters, body⟩
      noted.machine.active ((name.lexeme, made.state.heap.length) :: environment) := by
    rw [← advances'.active]
    exact ⟨_, stands'.reads.linked, placed.2.1, placed.2.2⟩
  have agrees : (Value.function identity ⟨name, parameters, body⟩ noted.machine.active).Agrees
      (made.place made.machine.active name.lexeme).closing
      (.function identity (Declaration.retouch .erasing ⟨name, parameters, body⟩)
        ((name.lexeme, made.state.heap.length) :: environment)) := .function closed
  have rest : (defineVariable name.lexeme
        (.function identity ⟨name, parameters, body⟩ noted.machine.active) >>= fun _ =>
          Pure.pure Flow.normal).Mirrors _ _
      (Stmt.declaredNames [.function name parameters body]) _ :=
    defineLocal_mirrors stands' held agrees
  exact .start allocated rfl rfl rest

theorem branch_mirrors (ih : Mirrored fuel) {branch : Stmt} {place : Place} {fresh : List String}
    (stands : pair.Stands scopes place) (plain : branch.declared? = none)
    (placed : branch.Scoped scopes) :
    (LexicalScript.execute fuel branch).Mirrors
      (Reference.execute fuel place (branch.retouch .erasing)) pair fresh (EndsAgree scopes) := by
  have executed := ih.execute branch stands placed
  rw [Stmt.extend_of_plain plain] at executed
  refine PairedState.Ends.mono executed ?_ fun later flow result _ agree => agree
  intro name member
  obtain ⟨token, declares, _⟩ := Stmt.mem_declaredNames_singleton.mp member
  cases plain.symm.trans declares

theorem execute_succ (ih : Mirrored fuel) (stmt : Stmt) {place : Place}
    (stands : pair.Stands scopes place) (placed : stmt.Scoped scopes) :
    (LexicalScript.execute (fuel + 1) stmt).Mirrors
      (Reference.execute (fuel + 1) place (stmt.retouch .erasing)) pair
      (Stmt.declaredNames [stmt]) (EndsAgree (stmt.extend scopes)) := by
  have reads := stands.reads
  cases stmt with
  | expression expr =>
      refine (ih.evaluate expr none reads placed).bindStill fun later _ _ advances _ => ?_
      exact .pure advances.matched ⟨.normal, stands.advance advances⟩
  | print expr =>
      refine (ih.evaluate expr none reads placed).bindStill
        fun later value datum advances agrees => ?_
      rw [← agrees.face_eq, Value.text_face]
      refine (write_mirrors advances.matched _).bindStill fun last _ _ advances' _ => ?_
      exact .pure advances'.matched ⟨.normal, (stands.advance advances).advance advances'⟩
  | var name initializer =>
      cases place with
      | top =>
          cases stands.level.mpr rfl
          exact globalVariable_mirrors ih stands placed
      | inside environment =>
          cases scopes with
          | nil => cases stands.level.mp rfl
          | cons scope scopes => exact localVariable_mirrors ih stands placed
  | block body =>
      have inside := ih.executeAll body (reads.matched.enterFrame reads.linked) placed
      have entered : (nestedFrame >>= fun frame =>
          within frame (LexicalScript.executeAll fuel body)).Mirrors
            (Reference.executeAll fuel place.environment (Stmt.retouchAll .erasing body)) pair []
            (fun later flow flow' => FlowsAgree later.closing flow flow') :=
        within_mirrors inside (reads.matched.extend _) (Nat.le_refl _) rfl rfl
      exact entered.rearrange fun later flow flow' advances agree =>
        ⟨agree, stands.advance advances⟩
  | conditional condition thenBranch elseBranch =>
      refine (ih.evaluate condition none reads placed.1).bindStill
        fun later value datum advances agrees => ?_
      rw [← agrees.face_eq, Value.isTruthy_face]
      have stands' := stands.advance advances
      obtain ⟨-, ⟨thenPlain, thenPlaced⟩, elsePlaced⟩ := placed
      cases value.isTruthy with
      | true => exact branch_mirrors ih stands' thenPlain thenPlaced
      | false =>
          cases elseBranch with
          | none => exact .pure advances.matched ⟨.normal, stands'⟩
          | some branch => exact branch_mirrors ih stands' elsePlaced.1 elsePlaced.2
  | loop condition body =>
      obtain ⟨conditionPlaced, plain, bodyPlaced⟩ := placed
      exact (ih.executeLoop condition body stands conditionPlaced plain bodyPlaced).rearrange
        fun later flow flow' advances agree => ⟨agree, stands.advance advances⟩
  | function name parameters body =>
      cases place with
      | top =>
          cases stands.level.mpr rfl
          exact globalFunction_mirrors stands placed
      | inside environment =>
          cases scopes with
          | nil => cases stands.level.mp rfl
          | cons scope scopes => exact localFunction_mirrors stands placed
  | returnValue keyword value =>
      cases value with
      | none => exact .pure reads.matched ⟨.returned .nil, stands⟩
      | some expr =>
          refine (ih.evaluate expr none reads placed).bindStill
            fun later value datum advances agrees => ?_
          exact .pure advances.matched ⟨.returned agrees, stands.advance advances⟩

theorem executeLoop_succ (ih : Mirrored fuel) (condition : Expr) (body : Stmt) {place : Place}
    (stands : pair.Stands scopes place) (conditionPlaced : condition.Scoped scopes none)
    (plain : body.declared? = none) (bodyPlaced : body.Scoped scopes) :
    (LexicalScript.executeLoop (fuel + 1) condition body).Mirrors
      (Reference.executeLoop (fuel + 1) place (condition.retouch .erasing)
        (body.retouch .erasing)) pair []
      (fun later flow flow' => FlowsAgree later.closing flow flow') := by
  refine (ih.evaluate condition none stands.reads conditionPlaced).bind
    fun later value datum advances agrees => ?_
  rw [← agrees.face_eq, Value.isTruthy_face]
  have stands' := stands.advance advances
  cases value.isTruthy with
  | false => exact .pure advances.matched .normal
  | true =>
      refine (branch_mirrors ih stands' plain bodyPlaced).bind
        fun last flow result advances' agree => ?_
      obtain ⟨flow', place'⟩ := result
      cases agree.1 with
      | normal =>
          exact ih.executeLoop condition body (stands'.advance advances') conditionPlaced plain
            bodyPlaced
      | returned agrees => exact .pure advances'.matched (.returned agrees)

theorem executeAll_succ (ih : Mirrored fuel) (statements : List Stmt)
    (stands : pair.Stands scopes (.inside environment))
    (placed : Stmt.ScopedAll scopes statements) :
    (LexicalScript.executeAll (fuel + 1) statements).Mirrors
      (Reference.executeAll (fuel + 1) environment (Stmt.retouchAll .erasing statements)) pair
      (Stmt.declaredNames statements)
      (fun later flow flow' => FlowsAgree later.closing flow flow') := by
  cases statements with
  | nil => exact .pure stands.reads.matched .normal
  | cons stmt rest =>
      rw [Stmt.declaredNames_cons]
      have first : (LexicalScript.execute fuel stmt).Mirrors
          (Reference.execute fuel (.inside environment) (stmt.retouch .erasing)) pair
          (Stmt.declaredNames [stmt] ++ Stmt.declaredNames rest) (EndsAgree (stmt.extend scopes)) :=
        PairedState.Ends.mono (ih.execute stmt stands placed.1)
          (fun name member => List.mem_append_left _ member) fun _ _ _ _ agree => agree
      refine first.bind fun later flow result advances agree => ?_
      obtain ⟨flow', place⟩ := result
      obtain ⟨agree, stands'⟩ := agree
      cases agree with
      | returned agrees => exact .pure advances.matched (.returned agrees)
      | normal =>
          have inside : place = .inside place.environment := by
            cases place with
            | top => cases stands.level.mp (Stmt.extend_eq_nil_iff.mp (stands'.level.mpr rfl))
            | inside environment' => rfl
          rw [inside] at stands'
          refine PairedState.Ends.mono (ih.executeAll rest stands' placed.2) ?_
            fun _ _ _ _ agree => agree
          exact fun name member => List.mem_append_right _ member

end Mirrored

theorem mirrored (fuel : Nat) : Mirrored fuel := by
  induction fuel with
  | zero =>
      constructor
      all_goals
        intros
        exact PairedState.Ends.exhausted
  | succ fuel ih =>
      exact {
        evaluate := fun expr pending => ih.evaluate_succ expr pending
        evaluateAll := fun exprs pending => ih.evaluateAll_succ exprs pending
        call := fun paren => ih.call_succ paren
        invoke := fun paren => ih.invoke_succ paren
        execute := fun stmt => ih.execute_succ stmt
        executeLoop := fun condition body => ih.executeLoop_succ condition body
        executeAll := fun statements => ih.executeAll_succ statements }

end LexicalScript
