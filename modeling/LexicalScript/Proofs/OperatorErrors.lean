import LexicalScript.Proofs.Erasure
import LexicalScript.Proofs.Recovery
import LexicalScript.Proofs.RunRules
import LexicalScript.Proofs.Sessions

/-!
Operators and names of parsed trees.

The parser puts an operator or a name only where the grammar has one of its kind, also in programs
with errors.  Depths do not matter for this.  Functions that a program makes keep their bodies, so a
machine that has run nothing but parsed programs never comes to an operator that it does not know.
-/

set_option autoImplicit false

namespace LexicalScript

/-! ### Grammatical trees -/

mutual

/-- Every operator in the expression is one of its kind of node, and every name an identifier. -/
def Expr.Grammatical : Expr → Prop
  | .literal _ => True
  | .unary operator operand => unaryMarks.any operator.is = true ∧ operand.Grammatical
  | .binary left operator right =>
      binaryMarks.any operator.is = true ∧ left.Grammatical ∧ right.Grammatical
  | .logical left operator right =>
      logicalMarks.any operator.is = true ∧ left.Grammatical ∧ right.Grammatical
  | .grouping inner => inner.Grammatical
  | .reference name _ => name.is .identifier = true
  | .assign name value _ => name.is .identifier = true ∧ value.Grammatical
  | .call callee _ arguments => callee.Grammatical ∧ Expr.GrammaticalAll arguments
  | .list _ elements => Expr.GrammaticalAll elements
  | .index object _ position => object.Grammatical ∧ position.Grammatical

def Expr.GrammaticalAll : List Expr → Prop
  | [] => True
  | expr :: rest => expr.Grammatical ∧ Expr.GrammaticalAll rest

end

def Expr.GrammaticalOption : Option Expr → Prop
  | none => True
  | some expr => expr.Grammatical

mutual

/-- The expressions in the statement are grammatical, the names that it declares are identifiers,
and a branch or the body of a loop is no declaration. -/
def Stmt.Grammatical : Stmt → Prop
  | .expression expr => expr.Grammatical
  | .print expr => expr.Grammatical
  | .var name initializer => name.is .identifier = true ∧ Expr.GrammaticalOption initializer
  | .block body => Stmt.GrammaticalAll body
  | .conditional condition thenBranch elseBranch =>
      condition.Grammatical ∧ (thenBranch.Grammatical ∧ thenBranch.declared? = none) ∧
        Stmt.GrammaticalBranch elseBranch
  | .loop condition body => condition.Grammatical ∧ body.Grammatical ∧ body.declared? = none
  | .function name parameters body =>
      name.is .identifier = true ∧
        (∀ parameter, parameter ∈ parameters → parameter.is .identifier = true) ∧
        Stmt.GrammaticalAll body
  | .returnValue _ value => Expr.GrammaticalOption value

def Stmt.GrammaticalBranch : Option Stmt → Prop
  | none => True
  | some stmt => stmt.Grammatical ∧ stmt.declared? = none

def Stmt.GrammaticalAll : List Stmt → Prop
  | [] => True
  | stmt :: rest => stmt.Grammatical ∧ Stmt.GrammaticalAll rest

end

theorem Expr.grammaticalAll_iff {exprs : List Expr} :
    Expr.GrammaticalAll exprs ↔ ∀ expr, expr ∈ exprs → expr.Grammatical := by
  induction exprs with
  | nil => simp [Expr.GrammaticalAll]
  | cons expr rest ih => simp [Expr.GrammaticalAll, ih]

theorem Expr.grammaticalOption_iff {found : Option Expr} :
    Expr.GrammaticalOption found ↔ ∀ expr, found = some expr → expr.Grammatical := by
  cases found <;> simp [Expr.GrammaticalOption]

theorem Stmt.grammaticalAll_iff {statements : List Stmt} :
    Stmt.GrammaticalAll statements ↔ ∀ stmt, stmt ∈ statements → stmt.Grammatical := by
  induction statements with
  | nil => simp [Stmt.GrammaticalAll]
  | cons stmt rest ih => simp [Stmt.GrammaticalAll, ih]

/-- Every way of putting a tree together makes a grammatical one of grammatical ones. -/
def grammaticalTrees : TreeLaws fun _ => True where
  expr := Expr.Grammatical
  stmt := Stmt.Grammatical
  literal _ _ := trivial
  always := trivial
  unary _ own held := ⟨own, held⟩
  binary _ own held held' := ⟨own, held, held'⟩
  logical _ own held held' := ⟨own, held, held'⟩
  grouping held := held
  reference _ isName := isName
  assign isName held := ⟨isName, held⟩
  call held _ _ each := ⟨held, Expr.grammaticalAll_iff.mpr each⟩
  list _ _ each := Expr.grammaticalAll_iff.mpr each
  index held _ _ held' := ⟨held, held'⟩
  expression held := held
  print held := held
  var _ isName each := ⟨isName, Expr.grammaticalOption_iff.mpr each⟩
  block each := Stmt.grammaticalAll_iff.mpr each
  conditional := by
    intro condition thenBranch elseBranch held first second
    cases elseBranch with
    | none => exact ⟨held, first, trivial⟩
    | some other => exact ⟨held, first, second other rfl⟩
  loop held body := ⟨held, body⟩
  function _ isName areNames each :=
    ⟨isName, fun name member => (areNames name member).2, Stmt.grammaticalAll_iff.mpr each⟩
  returnValue _ _ each := Expr.grammaticalOption_iff.mpr each

/-! ### Depths do not matter -/

mutual

theorem Expr.grammatical_of_erased (expr : Expr) (erased : (expr.retouch .erasing).Grammatical) :
    expr.Grammatical := by
  cases expr with
  | literal value => trivial
  | unary operator operand => exact ⟨erased.1, operand.grammatical_of_erased erased.2⟩
  | binary left operator right | logical left operator right =>
      exact ⟨erased.1, left.grammatical_of_erased erased.2.1,
        right.grammatical_of_erased erased.2.2⟩
  | grouping inner => exact inner.grammatical_of_erased erased
  | reference name depth => exact erased
  | assign name value depth => exact ⟨erased.1, value.grammatical_of_erased erased.2⟩
  | call callee paren arguments =>
      exact ⟨callee.grammatical_of_erased erased.1,
        Expr.grammaticalAll_of_erased arguments erased.2⟩
  | list bracket elements => exact Expr.grammaticalAll_of_erased elements erased
  | index object bracket position =>
      exact ⟨object.grammatical_of_erased erased.1, position.grammatical_of_erased erased.2⟩

theorem Expr.grammaticalAll_of_erased (exprs : List Expr)
    (erased : Expr.GrammaticalAll (Expr.retouchAll .erasing exprs)) :
    Expr.GrammaticalAll exprs := by
  cases exprs with
  | nil => trivial
  | cons expr rest =>
      exact ⟨expr.grammatical_of_erased erased.1, Expr.grammaticalAll_of_erased rest erased.2⟩

end

theorem Expr.grammaticalOption_of_erased (found : Option Expr)
    (erased : Expr.GrammaticalOption (Expr.retouchOption .erasing found)) :
    Expr.GrammaticalOption found := by
  cases found with
  | none => trivial
  | some expr => exact expr.grammatical_of_erased erased

theorem Stmt.declared?_of_erased {stmt : Stmt}
    (plain : (stmt.retouch .erasing).declared? = none) : stmt.declared? = none := by
  cases stmt with
  | var name initializer | function name parameters body => cases plain
  | _ => rfl

mutual

theorem Stmt.grammatical_of_erased (stmt : Stmt) (erased : (stmt.retouch .erasing).Grammatical) :
    stmt.Grammatical := by
  cases stmt with
  | expression expr | print expr => exact expr.grammatical_of_erased erased
  | var name initializer =>
      exact ⟨erased.1, Expr.grammaticalOption_of_erased initializer erased.2⟩
  | block body => exact Stmt.grammaticalAll_of_erased body erased
  | conditional condition thenBranch elseBranch =>
      obtain ⟨test, ⟨held, plain⟩, other⟩ := erased
      refine ⟨condition.grammatical_of_erased test,
        ⟨thenBranch.grammatical_of_erased held, Stmt.declared?_of_erased plain⟩, ?_⟩
      cases elseBranch with
      | none => trivial
      | some branch =>
          exact ⟨branch.grammatical_of_erased other.1, Stmt.declared?_of_erased other.2⟩
  | loop condition body =>
      exact ⟨condition.grammatical_of_erased erased.1, body.grammatical_of_erased erased.2.1,
        Stmt.declared?_of_erased erased.2.2⟩
  | function name parameters body =>
      obtain ⟨isName, areNames, held⟩ := erased
      refine ⟨isName, ?_, Stmt.grammaticalAll_of_erased body held⟩
      intro parameter member
      exact areNames parameter (List.mem_map.mpr ⟨parameter, member, rfl⟩)
  | returnValue keyword value => exact Expr.grammaticalOption_of_erased value erased

theorem Stmt.grammaticalAll_of_erased (statements : List Stmt)
    (erased : Stmt.GrammaticalAll (Stmt.retouchAll .erasing statements)) :
    Stmt.GrammaticalAll statements := by
  cases statements with
  | nil => trivial
  | cons stmt rest =>
      exact ⟨stmt.grammatical_of_erased erased.1, Stmt.grammaticalAll_of_erased rest erased.2⟩

end

/-! ### Machines that hold grammatical code -/

/-- What is called runs grammatical code, or it is the clock. -/
def Callable.Grammatical : Callable → Prop
  | .native supplied => supplied.action = .readClock
  | .function declaration _ => Stmt.GrammaticalAll declaration.body

mutual

/-- Whatever in the value can be called runs grammatical code. -/
def Value.Grammatical : Value → Prop
  | .list _ elements => Value.GrammaticalAll elements
  | .native _ supplied => supplied.action = .readClock
  | .function _ declaration _ => Stmt.GrammaticalAll declaration.body
  | _ => True

def Value.GrammaticalAll : List Value → Prop
  | [] => True
  | value :: rest => value.Grammatical ∧ Value.GrammaticalAll rest

end

theorem Value.grammaticalAll_iff {values : List Value} :
    Value.GrammaticalAll values ↔ ∀ value, value ∈ values → value.Grammatical := by
  induction values with
  | nil => simp [Value.GrammaticalAll]
  | cons value rest ih => simp [Value.GrammaticalAll, ih]

theorem Value.Plain.grammatical {value : Value} (plain : value.Plain) : value.Grammatical := by
  cases value with
  | list identity elements | native identity supplied | function identity declaration closure =>
      exact absurd plain id
  | _ => trivial

theorem Value.Grammatical.callable {value : Value} (held : value.Grammatical) {callable : Callable}
    (found : value.callable? = some callable) : callable.Grammatical := by
  cases value with
  | native identity supplied | function identity declaration closure =>
      cases found
      exact held
  | _ => cases found

/-- All stored values are grammatical. -/
def Store.Grammatical (store : Store) : Prop :=
  ∀ frame name value, store.local? frame name = some value → value.Grammatical

namespace Store.Grammatical

variable {store : Store}

theorem define (held : store.Grammatical) (owner : FrameId) (name : String) {value : Value}
    (grammatical : value.Grammatical) : (store.define owner name value).Grammatical := by
  intro frame other stored found
  rcases Store.local?_define_cases found with new | old
  · rw [new]
    exact grammatical
  · exact held frame other stored old

theorem create (held : store.Grammatical) (parent : Option FrameId) :
    (store.create parent).2.Grammatical := by
  intro frame name value found
  rw [Store.local?_create] at found
  exact held frame name value found

theorem bindArguments (held : store.Grammatical) (frame : FrameId) (parameters : List Token)
    {arguments : List Value} (each : Value.GrammaticalAll arguments) :
    (store.bindArguments frame parameters arguments).Grammatical := by
  induction parameters generalizing store arguments with
  | nil => exact held
  | cons parameter rest ih =>
      cases arguments with
      | nil => exact held
      | cons argument others => exact ih (held.define frame parameter.lexeme each.1) each.2

end Store.Grammatical

/-! ### Errors that are not about operators -/

/-- The cause is not an operator, and of the native functions only the clock says what it likes. -/
def RuntimeCause.Ordinary : RuntimeCause → Prop
  | .unaryOperator _ => False
  | .binaryOperator _ => False
  | .native message => ∃ problem, message = "Clock error: " ++ problem
  | _ => True

def Fault.Ordinary : Fault → Prop
  | .runtime error => error.cause.Ordinary
  | .output _ => True

/-- The fault says that an operator is invalid. -/
def Fault.BlamesOperator (fault : Fault) : Prop :=
  ∃ error, fault = .runtime error ∧
    ("Invalid unary operator".toList <+: error.cause.message.toList ∨
      "Invalid binary operator".toList <+: error.cause.message.toList)

theorem take_toList_append {text rest : String} {count : Nat}
    (long : count ≤ text.toList.length) :
    (text ++ rest).toList.take count = text.toList.take count := by
  rw [String.toList_append, List.take_append_of_le_length long]

/-- No other wording begins like those about operators. -/
theorem RuntimeCause.Ordinary.take_message {cause : RuntimeCause} (ordinary : cause.Ordinary) :
    cause.message.toList.take 3 ≠ ['I', 'n', 'v'] := by
  cases cause with
  | unaryOperator lexeme | binaryOperator lexeme => exact absurd ordinary id
  | native message =>
      obtain ⟨problem, rfl⟩ := ordinary
      change ("Clock error: " ++ problem).toList.take 3 ≠ _
      rw [take_toList_append (by decide)]
      decide
  | undefinedVariable name hops =>
      change ("Undefined variable '" ++ name ++ "'.").toList.take 3 ≠ _
      rw [String.append_assoc, take_toList_append (by decide)]
      decide
  | arity expected actual =>
      change ("Expected " ++ toString expected ++ " arguments but got " ++ toString actual ++
        ".").toList.take 3 ≠ _
      rw [String.append_assoc, String.append_assoc, String.append_assoc,
        take_toList_append (by decide)]
      decide
  | _ => decide

theorem Fault.Ordinary.not_blamesOperator {fault : Fault} (ordinary : fault.Ordinary) :
    ¬ fault.BlamesOperator := by
  rintro ⟨error, rfl, ⟨rest, begins⟩ | ⟨rest, begins⟩⟩
  all_goals
    apply RuntimeCause.Ordinary.take_message ordinary
    rw [← begins]
    rfl

theorem applyUnary_ordinary {operator : Token} {operand : Value} {error : RuntimeError}
    (own : unaryMarks.any operator.is = true)
    (refused : applyUnary operator operand = .error error) : error.cause.Ordinary := by
  unfold applyUnary at refused
  split at refused
  · split at refused
    · cases refused
    · cases refused
      trivial
  · cases refused
  · rename_i notMinus notBang
    obtain ⟨mark, member, isMark⟩ := List.any_eq_true.mp own
    have kind := Token.kind_of_is isMark
    simp only [unaryMarks, List.mem_cons, List.not_mem_nil, or_false] at member
    rcases member with rfl | rfl
    · exact absurd kind notBang
    · exact absurd kind notMinus

theorem applyArithmetic_ordinary {operator : Token} {left right : Float} {error : RuntimeError}
    (own : binaryMarks.any operator.is = true) (notPlus : operator.kind ≠ .mark .plus)
    (notEqual : operator.kind ≠ .mark .equalEqual) (notUnequal : operator.kind ≠ .mark .bangEqual)
    (refused : applyArithmetic operator left right = .error error) : error.cause.Ordinary := by
  unfold applyArithmetic at refused
  split at refused
  case h_3 =>
      split at refused
      · cases refused
        trivial
      · cases refused
  case h_8 notMinus notStar notSlash notGreater notGreaterEqual notLess notLessEqual =>
      obtain ⟨mark, member, isMark⟩ := List.any_eq_true.mp own
      have kind := Token.kind_of_is isMark
      simp only [binaryMarks, List.mem_cons, List.not_mem_nil, or_false] at member
      rcases member with rfl | rfl | rfl | rfl | rfl | rfl | rfl | rfl | rfl | rfl
      all_goals contradiction
  all_goals cases refused

theorem applyBinary_ordinary {operator : Token} {left right : Value} {error : RuntimeError}
    (own : binaryMarks.any operator.is = true)
    (refused : applyBinary operator left right = .error error) : error.cause.Ordinary := by
  unfold applyBinary at refused
  split at refused
  · unfold applyPlus at refused
    split at refused
    · cases refused
    · cases refused
    · cases refused
    · cases refused
      trivial
  · cases refused
  · cases refused
  · rename_i notPlus notEqual notUnequal
    split at refused
    · exact applyArithmetic_ordinary own notPlus notEqual notUnequal refused
    · cases refused
      trivial

theorem applyIndex_ordinary {bracket : Token} {object index : Value} {error : RuntimeError}
    (refused : applyIndex bracket object index = .error error) : error.cause.Ordinary := by
  unfold applyIndex at refused
  split at refused
  · split at refused
    · split at refused
      · cases refused
      · cases refused
        trivial
    · cases refused
      trivial
  · cases refused
    trivial

/-! ### Runs of grammatical code -/

theorem Expr.Grammatical.parts {whole : Expr} (held : whole.Grammatical) :
    ∀ part, part ∈ whole.parts → part.Grammatical := by
  intro part member
  cases whole <;> grind [Expr.parts, Expr.Grammatical, Expr.grammaticalAll_iff]

theorem Stmt.Grammatical.exprs {whole : Stmt} (held : whole.Grammatical) :
    ∀ part, part ∈ whole.exprs → part.Grammatical := by
  intro part member
  cases whole <;> grind [Stmt.exprs, Stmt.Grammatical, Expr.grammaticalOption_iff]

theorem Stmt.Grammatical.parts {whole : Stmt} (held : whole.Grammatical) :
    ∀ part, part ∈ whole.parts → part.Grammatical := by
  intro part member
  cases whole <;>
    grind [Stmt.parts, Stmt.Grammatical, Stmt.GrammaticalBranch, Stmt.grammaticalAll_iff]

/-- The laws of runs that make only grammatical values and whose faults are not about operators. -/
def grammaticality : RunLaws where
  fit machine := machine.store.Grammatical
  grows _ later := later.store.Grammatical
  passes _ _ := True
  value value _ := value.Grammatical
  callable callable _ := callable.Grammatical
  expr := Expr.Grammatical
  stmt := Stmt.Grammatical
  exprParts := Expr.Grammatical.parts
  stmtExprs := Stmt.Grammatical.exprs
  stmtParts := Stmt.Grammatical.parts
  refl held := held
  trans _ held := held
  kept held := held
  passing _ := trivial
  passingOn _ _ := trivial
  quiet := by
    intro machine later held _ _ frames frame name value found
    unfold Store.local? at found
    rw [frames] at found
    exact held frame name value found
  define name held grammatical _ := held.define _ name grammatical
  enterBlock held := ⟨held.create _, trivial, fun _ held' => held'⟩
  enterCall held _ each :=
    ⟨(held.create _).bindArguments _ _ (Value.grammaticalAll_iff.mpr each), trivial,
      fun _ held' => held'⟩
  older _ held := held
  outside _ held := held
  plain := by
    rintro machine value (plain | rfl)
    · exact plain.grammatical
    · trivial
  list _ each := Value.grammaticalAll_iff.mpr each
  element held member := Value.grammaticalAll_iff.mp held _ member
  function _ _ grammatical := grammatical.2.2
  stored held _ found := held _ _ _ found
  called held found := held.callable found
  body held := Stmt.grammaticalAll_iff.mp held

theorem ofExcept_error?_ordinary {α : Type} {outcome : Except RuntimeError α} {machine : Machine}
    {fault : Fault} (ordinary : ∀ error, outcome = .error error → error.cause.Ordinary)
    (failed : (Exec.ofExcept outcome machine).error? = some fault) : fault.Ordinary := by
  cases outcome with
  | ok result => cases failed
  | error error =>
      cases failed
      exact ordinary error rfl

theorem callNative_ordinary {native : Native} {arguments : List Value} {line : Nat}
    {machine : Machine} {fault : Fault} (timed : native.action = .readClock)
    (failed : (callNative native arguments line machine).error? = some fault) :
    fault.Ordinary := by
  obtain ⟨message, rfl, worded⟩ := callNative_error? failed
  exact worded timed

theorem Point.Raises.ordinary {point : Point} {fault : Fault} (raises : point.Raises fault)
    (admits : grammaticality.Admits point) : fault.Ordinary := by
  obtain ⟨α, held, machine, action, gives, step, failed⟩ := raises
  have code := admits.code
  cases step with
  | quiet step =>
      cases step with
      | exhausted | pure | note | makeList => cases failed
      | notCallable | miscounted =>
          cases failed
          trivial
      | unary value same =>
          rw [same] at code
          exact ofExcept_error?_ordinary (fun _ => applyUnary_ordinary code.1) failed
      | binary first second same =>
          rw [same] at code
          exact ofExcept_error?_ordinary (fun _ => applyBinary_ordinary code.1) failed
      | index => exact ofExcept_error?_ordinary (fun _ => applyIndex_ordinary) failed
      | write =>
          unfold Exec.write at failed
          split at failed
          · cases failed
          · cases failed
            trivial
      | read =>
          rw [Exec.readVariable_error? failed]
          trivial
      | native same =>
          have supplied := admits.supplied
          rw [same] at supplied
          obtain ⟨⟨callee, grammatical, called⟩, _⟩ := supplied
          exact callNative_ordinary (Value.Grammatical.callable grammatical called) failed
  | assign =>
      rw [Exec.assignVariable_error? failed]
      trivial
  | define | declare => cases failed

theorem RunLaws.Admits.ordinary {point : Point} {fault : Fault}
    (admits : grammaticality.Admits point) (failed : point.error? = some fault) :
    fault.Ordinary := by
  obtain ⟨place, reaches, raises⟩ := point.exists_raises failed
  exact raises.ordinary (admits.reach reaches).1

theorem executeEach_ordinary {fuel : Nat} {statements : List Stmt} {machine : Machine}
    {fault : Fault} (grammatical : Stmt.GrammaticalAll statements)
    (held : machine.store.Grammatical)
    (failed : (executeEach fuel statements machine).error? = some fault) : fault.Ordinary := by
  obtain ⟨start, starts, found⟩ := starts_of_failure failed
  have admits := (grammaticality.starts starts (Stmt.grammaticalAll_iff.mp grammatical) held).1
  exact admits.ordinary found

theorem interpret_grammatical (fuel : Nat) {statements : List Stmt} {machine : Machine}
    (grammatical : Stmt.GrammaticalAll statements) (held : machine.store.Grammatical) :
    (interpret fuel statements machine).Meets (fun _ later => later.store.Grammatical)
      fun fault later => fault.Ordinary ∧ later.store.Grammatical := by
  have noted : (machine.note (.interpreting statements.length)).store.Grammatical := held
  have keeps := grammaticality.executeEach fuel (Stmt.grammaticalAll_iff.mp grammatical) noted
  unfold interpret
  cases ended : executeEach fuel statements (machine.note (.interpreting statements.length)) with
  | exhausted => trivial
  | value result later =>
      have held' := (Outcome.Meets.of_value keeps ended).1
      dsimp only
      cases later.sink.flush with
      | some error => exact ⟨trivial, held'⟩
      | none => exact held'
  | failure fault later =>
      have held' := Outcome.Meets.of_failure keeps ended
      have ordinary : fault.Ordinary :=
        executeEach_ordinary grammatical noted (congrArg Outcome.error? ended)
      dsimp only
      cases later.sink.flush with
      | some error => exact ⟨trivial, held'⟩
      | none => exact ⟨ordinary, held'⟩

/-! ### Parsed programs -/

/-- The statements are those of a parsed program, with whatever depths. -/
def Stmt.ParsedAll (statements : List Stmt) : Prop :=
  ∃ tokens, Stmt.retouchAll .erasing statements = (Parser.program tokens).statements

/-- The expression was parsed alone; its depths may be any. -/
def Expr.Parsed (expr : Expr) : Prop :=
  ∃ tokens, (Parser.single tokens).1 = .ok (expr.retouch .erasing)

/-- The machines that come of a new one by running parsed programs and evaluating parsed
expressions, however that ends. -/
inductive Machine.Used : Machine → Prop
  | new (sink : Sink) (readings : Readings) (journal : Journal) :
      Used (.new sink readings journal)
  | noted {machine later : Machine} : Used machine → machine.EqExceptJournal later → Used later
  | ran {machine later : Machine} {fuel : Nat} {statements : List Stmt} :
      Used machine → Stmt.ParsedAll statements →
      (interpret fuel statements machine).state? = some later → Used later
  | evaluated {machine later : Machine} {fuel : Nat} {expr : Expr} :
      Used machine → expr.Parsed → (evaluate fuel expr machine).state? = some later → Used later

theorem Stmt.ParsedAll.grammatical {statements : List Stmt} (parsed : Stmt.ParsedAll statements) :
    Stmt.GrammaticalAll statements := by
  obtain ⟨tokens, same⟩ := parsed
  apply Stmt.grammaticalAll_of_erased
  rw [same]
  exact Stmt.grammaticalAll_iff.mpr (Parser.program_yields grammaticalTrees tokens)

theorem Expr.Parsed.grammatical {expr : Expr} (parsed : expr.Parsed) : expr.Grammatical := by
  obtain ⟨tokens, same⟩ := parsed
  exact expr.grammatical_of_erased (Parser.single_yields grammaticalTrees same)

theorem Stmt.ParsedAll.of_resolve (resolver : Resolver) (tokens : List Token) :
    Stmt.ParsedAll (resolver.resolve (Parser.program tokens).statements).statements :=
  ⟨tokens, (resolver.erase_resolve _).trans (Parser.program_shaped tokens).unresolved⟩

theorem Machine.Used.grammatical {machine : Machine} (used : machine.Used) :
    machine.store.Grammatical := by
  induction used with
  | new sink readings journal =>
      intro frame name value found
      rcases Store.local?_define_cases found with new | old
      · rw [new]
        exact rfl
      · change (Store.empty.create none).2.local? frame name = some value at old
        rw [Store.local?_create] at old
        cases old
  | noted _ sameRest ih =>
      rw [sameRest]
      exact ih
  | @ran _ _ fuel _ _ parsed left ih =>
      have met := (interpret_grammatical fuel parsed.grammatical ih).mono
        (fun _ _ held => held) fun _ _ both => both.2
      exact met.of_state? left
  | evaluated _ parsed left ih =>
      exact (grammaticality.evaluate _ parsed.grammatical ih).grows left

/-- All that the parser returns is grammatical.  Resolved or not, a parsed program is one up to its
depths, and no machine that has run only such programs ever blames an operator. -/
theorem parsed_operators_are_valid :
    (∀ tokens, Stmt.GrammaticalAll (Parser.program tokens).statements) ∧
    (∀ tokens expr, (Parser.single tokens).1 = .ok expr → expr.Grammatical) ∧
    (∀ tokens, Stmt.ParsedAll (Parser.program tokens).statements ∧
      ∀ resolver : Resolver,
        Stmt.ParsedAll (resolver.resolve (Parser.program tokens).statements).statements) ∧
    ∀ machine, Machine.Used machine → ∀ fuel fault later,
      (∀ statements, Stmt.ParsedAll statements →
        executeEach fuel statements machine = .failure fault later ∨
          interpret fuel statements machine = .failure fault later → ¬ fault.BlamesOperator) ∧
      ∀ expr, Expr.Parsed expr → evaluate fuel expr machine = .failure fault later →
        ¬ fault.BlamesOperator := by
  refine ⟨?_, ?_, ?_, ?_⟩
  · intro tokens
    exact Stmt.grammaticalAll_iff.mpr (Parser.program_yields grammaticalTrees tokens)
  · intro tokens expr parsed
    exact Parser.single_yields grammaticalTrees parsed
  · intro tokens
    exact ⟨⟨tokens, (Parser.program_shaped tokens).unresolved⟩,
      fun resolver => .of_resolve resolver tokens⟩
  · intro machine used fuel fault later
    have held := used.grammatical
    constructor
    · rintro statements parsed (failed | failed)
      · have ordinary : fault.Ordinary :=
          executeEach_ordinary parsed.grammatical held (congrArg Outcome.error? failed)
        exact ordinary.not_blamesOperator
      · have met := Outcome.Meets.of_failure
          (interpret_grammatical fuel parsed.grammatical held) failed
        exact met.1.not_blamesOperator
    · intro expr parsed failed
      have admits : grammaticality.Admits ⟨fuel, .evaluate expr, machine, []⟩ :=
        ⟨held, parsed.grammatical, trivial⟩
      exact (admits.ordinary (congrArg Outcome.error? failed)).not_blamesOperator

/-- A function of one program negates nil when the next one calls it.  That fails, but not for the
operator; a tree that no parser returns fails for its operator. -/
theorem parsed_operators_are_valid_negation :
    let machine := Machine.new ⟨"", none, false⟩ (fun _ => .ok 0) .silent
    let first := (Parser.program (Parser.wordsOf "fun f ( ) \x7b return - nil ; \x7d")).statements
    let second := (Parser.program (Parser.wordsOf "f ( ) ;")).statements
    (∃ middle fault later, middle.Used ∧ (interpret 9 first machine).state? = some middle ∧
      interpret 9 second middle = .failure fault later ∧ ¬ fault.BlamesOperator) ∧
    ∃ fault later, evaluate 2 (.unary ⟨.mark .plus, "+", 1⟩ (.literal .nil)) machine =
      .failure fault later ∧ fault.BlamesOperator := by
  intro machine first second
  have parsed (tokens : List Token) : Stmt.ParsedAll (Parser.program tokens).statements :=
    ⟨tokens, (Parser.program_shaped tokens).unresolved⟩
  constructor
  · have checked : (interpret 9 first machine).value?.any (fun ended =>
        (interpret 9 second ended.2).failure?.isSome) = true := by
      decide +kernel
    obtain ⟨⟨_, middle⟩, ran, fails⟩ := (Option.any_eq_true _ _).mp checked
    obtain ⟨⟨fault, later⟩, failed⟩ := Option.isSome_iff_exists.mp fails
    have failed := Outcome.of_failure? failed
    have left : (interpret 9 first machine).state? = some middle := by
      rw [Outcome.of_value? ran]
      rfl
    have used : middle.Used := .ran (.new _ _ _) (parsed _) left
    exact ⟨middle, fault, later, used, left, failed,
      (parsed_operators_are_valid.2.2.2 middle used 9 fault later).1 second (parsed _)
        (.inr failed)⟩
  · refine ⟨_, _, rfl, _, rfl, .inl ?_⟩
    decide

end LexicalScript
