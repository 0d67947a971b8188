import LexicalScript.Proofs.Scoping
import LexicalScript.Scope

/-!
The trees that scope resolution accepts.

A walk of the resolver that is not stopped has left every tree it passed scoped, and has moved only
by the declarations it passed.  Expressions do not move a walk at all.  The main result is about
whole programs: accepted statements are scoped at the top level, and exactly the names they declare
there are added to the known globals.
-/

set_option autoImplicit false

namespace LexicalScript

/-! ### Steps of a walk -/

/-- The names of the scopes that a resolver has around its place. -/
def Resolver.names (resolver : Resolver) : Scopes :=
  resolver.scopes.map fun scope => scope.map Prod.fst

namespace Walking

variable {α β : Type}

theorem bind_apply (first : Walking α) (next : α → Walking β) (walk : Walk) :
    (first >>= next) walk = next (first walk).1 (first walk).2 := rfl

theorem pure_apply (result : α) (walk : Walk) : (pure result : Walking α) walk = (result, walk) :=
  rfl

theorem map_apply (change : α → β) (first : Walking α) (walk : Walk) :
    (change <$> first) walk = (change (first walk).1, (first walk).2) := rfl

theorem get_apply (walk : Walk) : (get : Walking Walk) walk = (walk, walk) := rfl

end Walking

theorem lookup_isSome_eq_contains {α : Type} (entries : List (String × α)) (name : String) :
    (entries.lookup name).isSome = (entries.map Prod.fst).contains name := by
  induction entries with
  | nil => rfl
  | cons entry rest ih =>
      rw [List.lookup_cons, List.map_cons, List.contains_cons]
      cases same : name == entry.1 with
      | true => rfl
      | false => simpa using ih

theorem Resolver.depth?_eq_locate (resolver : Resolver) (name : String) :
    resolver.depth? name = resolver.names.locate name := by
  unfold Resolver.depth? Resolver.names Scopes.locate
  rw [List.findIdx?_map]
  congr 1
  funext scope
  exact lookup_isSome_eq_contains scope name

/-! ### Expressions -/

/-- A step that leaves the place of the walk as it is and does not restart a stopped walk. -/
structure Walking.Still {α : Type} (action : Walking α) : Prop where
  resolver : ∀ walk, (action walk).2.resolver = walk.resolver
  unstopped : ∀ walk, (action walk).2.stopped = none → walk.stopped = none

namespace Walking

variable {α β : Type}

theorem Still.pure (result : α) : (Pure.pure result : Walking α).Still :=
  ⟨fun _ => rfl, fun _ running => running⟩

theorem Still.bind {first : Walking α} {next : α → Walking β} (still : first.Still)
    (after : ∀ result, (next result).Still) : (first >>= next).Still where
  resolver walk := by
    rw [bind_apply, (after _).resolver, still.resolver]
  unstopped walk running := by
    rw [bind_apply] at running
    exact still.unstopped walk ((after _).unstopped _ running)

theorem stop_eq (cause : ResolveCause) (line : Nat) (walk : Walk) :
    (stop cause line walk).2 =
      match walk.stopped with
      | some _ => walk
      | none =>
          { walk with
            stopped := some ⟨cause, line⟩
            notes := walk.notes.push (.failed ⟨cause, line⟩) } :=
  rfl

theorem moveUnlessStopped_eq (change : Resolver → Resolver) (walk : Walk) :
    (moveUnlessStopped change walk).2 =
      match walk.stopped with
      | some _ => walk
      | none => { walk with resolver := change walk.resolver } :=
  rfl

theorem stop_still (cause : ResolveCause) (line : Nat) : (stop cause line).Still := by
  constructor
  · intro walk
    rw [stop_eq]
    cases walk.stopped <;> rfl
  · intro walk running
    rw [stop_eq] at running
    cases stopped : walk.stopped with
    | none => rfl
    | some error =>
        rw [stopped] at running
        exact stopped.symm.trans running

theorem stop_stopped (cause : ResolveCause) (line : Nat) (walk : Walk) :
    (stop cause line walk).2.stopped ≠ none := by
  intro running
  have before := (stop_still cause line).unstopped walk running
  rw [stop_eq, before] at running
  cases running

theorem locate_still (name : Token) (old : Option Nat) : (locate name old).Still := by
  constructor
  · intro walk
    unfold locate
    cases walk.stopped <;> rfl
  · intro walk running
    unfold locate at running
    cases stopped : walk.stopped with
    | none => rfl
    | some error =>
        rw [stopped] at running
        exact stopped.symm.trans running

theorem locate_running (name : Token) (old : Option Nat) (walk : Walk)
    (running : walk.stopped = none) :
    (locate name old walk).1 = walk.resolver.names.locate name.lexeme := by
  unfold locate
  rw [running]
  exact walk.resolver.depth?_eq_locate name.lexeme

theorem get_still : (get : Walking Walk).Still :=
  ⟨fun _ => rfl, fun _ running => running⟩

theorem read_still (name : Token) (old : Option Nat) : (read name old).Still := by
  unfold read
  refine get_still.bind fun walk => ?_
  split
  · exact (stop_still _ _).bind fun _ => Still.pure old
  · refine (locate_still name old).bind fun depth => ?_
    split
    · exact (stop_still _ _).bind fun _ => Still.pure depth
    · exact Still.pure depth

/-- A read that does not stop the walk finds the distance of the name, which the innermost scope
does not hold as still waiting for its initializer. -/
theorem read_running (name : Token) (old : Option Nat) (walk : Walk)
    (running : (read name old walk).2.stopped = none) :
    (read name old walk).1 = walk.resolver.names.locate name.lexeme ∧
      ∀ scope scopes, walk.resolver.scopes = scope :: scopes →
        scope.lookup name.lexeme ≠ some false := by
  have before := (read_still name old).unstopped walk running
  unfold read at running ⊢
  rw [bind_apply, get_apply] at running ⊢
  dsimp only at running ⊢
  split at running
  · exact absurd ((Still.pure old).unstopped _ running) (stop_stopped _ _ walk)
  · rename_i ready
    rw [if_neg ready]
    constructor
    · rw [bind_apply]
      rw [← locate_running name old walk before]
      split <;> rfl
    · intro scope scopes same waiting
      rw [same] at ready
      exact ready (by simp [waiting])

end Walking

mutual

theorem Expr.resolve_still : (expr : Expr) → expr.resolve.Still
  | .literal _ => Walking.Still.pure _
  | .unary _ operand => operand.resolve_still.bind fun _ => Walking.Still.pure _
  | .binary left _ right =>
      left.resolve_still.bind fun _ => right.resolve_still.bind fun _ => Walking.Still.pure _
  | .logical left _ right =>
      left.resolve_still.bind fun _ => right.resolve_still.bind fun _ => Walking.Still.pure _
  | .grouping inner => inner.resolve_still.bind fun _ => Walking.Still.pure _
  | .reference name depth => (Walking.read_still name depth).bind fun _ => Walking.Still.pure _
  | .assign name value depth =>
      value.resolve_still.bind fun _ =>
        (Walking.locate_still name depth).bind fun _ => Walking.Still.pure _
  | .call callee _ arguments =>
      callee.resolve_still.bind fun _ =>
        (Expr.resolveAll_still arguments).bind fun _ => Walking.Still.pure _
  | .list _ elements => (Expr.resolveAll_still elements).bind fun _ => Walking.Still.pure _
  | .index object _ position =>
      object.resolve_still.bind fun _ => position.resolve_still.bind fun _ => Walking.Still.pure _

theorem Expr.resolveAll_still : (exprs : List Expr) → (Expr.resolveAll exprs).Still
  | [] => Walking.Still.pure _
  | expr :: rest =>
      expr.resolve_still.bind fun _ => (Expr.resolveAll_still rest).bind fun _ =>
        Walking.Still.pure _

end

/-- The innermost scope, if there is one, holds the pending name as waiting for its initializer. -/
def Resolver.Awaits (resolver : Resolver) (pending : Option String) : Prop :=
  ∀ name, pending = some name → ∀ scope scopes, resolver.scopes = scope :: scopes →
    scope.lookup name = some false

theorem Resolver.awaits_none (resolver : Resolver) : resolver.Awaits none := by
  intro name absent
  cases absent

/-- What is known of the second of two still steps when the walk goes on behind both. -/
theorem Walking.Still.split {α β : Type} {first : Walking α} {second : Walking β}
    (firstStill : first.Still) (secondStill : second.Still) {walk : Walk}
    (running : (second (first walk).2).2.stopped = none) :
    (first walk).2.stopped = none ∧ (first walk).2.resolver = walk.resolver :=
  ⟨secondStill.unstopped _ running, firstStill.resolver walk⟩

mutual

theorem Expr.resolve_scoped : (expr : Expr) → ∀ (walk : Walk) (pending : Option String),
    walk.resolver.Awaits pending → (expr.resolve walk).2.stopped = none →
    (expr.resolve walk).1.Scoped walk.resolver.names pending
  | .literal _, _, _, _, _ => trivial
  | .unary _ operand, walk, pending, awaits, running =>
      operand.resolve_scoped walk pending awaits running
  | .binary left _ right, walk, pending, awaits, running => by
      obtain ⟨leftRunning, same⟩ := left.resolve_still.split right.resolve_still running
      refine ⟨left.resolve_scoped walk pending awaits leftRunning, ?_⟩
      have placed := right.resolve_scoped _ pending (same.symm ▸ awaits) running
      rw [same] at placed
      exact placed
  | .logical left _ right, walk, pending, awaits, running => by
      obtain ⟨leftRunning, same⟩ := left.resolve_still.split right.resolve_still running
      refine ⟨left.resolve_scoped walk pending awaits leftRunning, ?_⟩
      have placed := right.resolve_scoped _ pending (same.symm ▸ awaits) running
      rw [same] at placed
      exact placed
  | .grouping inner, walk, pending, awaits, running =>
      inner.resolve_scoped walk pending awaits running
  | .reference name depth, walk, pending, awaits, running => by
      obtain ⟨located, ready⟩ := Walking.read_running name depth walk running
      refine ⟨located, fun innermost waits => ?_⟩
      change (Walking.read name depth walk).1 = some 0 at innermost
      rw [located] at innermost
      cases scopes : walk.resolver.scopes with
      | nil =>
          rw [Resolver.names, scopes] at innermost
          cases innermost
      | cons scope rest =>
          exact ready scope rest scopes (awaits name.lexeme waits scope rest scopes)
  | .assign name value depth, walk, pending, awaits, running => by
      obtain ⟨valueRunning, same⟩ :=
        value.resolve_still.split (Walking.locate_still name depth) running
      refine ⟨value.resolve_scoped walk pending awaits valueRunning, ?_⟩
      have located := Walking.locate_running name depth _ valueRunning
      rw [same] at located
      exact located
  | .call callee _ arguments, walk, pending, awaits, running => by
      obtain ⟨calleeRunning, same⟩ :=
        callee.resolve_still.split (Expr.resolveAll_still arguments) running
      refine ⟨callee.resolve_scoped walk pending awaits calleeRunning, ?_⟩
      have placed := Expr.resolveAll_scoped arguments _ pending (same.symm ▸ awaits) running
      rw [same] at placed
      exact placed
  | .list _ elements, walk, pending, awaits, running =>
      Expr.resolveAll_scoped elements walk pending awaits running
  | .index object _ position, walk, pending, awaits, running => by
      obtain ⟨objectRunning, same⟩ := object.resolve_still.split position.resolve_still running
      refine ⟨object.resolve_scoped walk pending awaits objectRunning, ?_⟩
      have placed := position.resolve_scoped _ pending (same.symm ▸ awaits) running
      rw [same] at placed
      exact placed

theorem Expr.resolveAll_scoped : (exprs : List Expr) → ∀ (walk : Walk) (pending : Option String),
    walk.resolver.Awaits pending → (Expr.resolveAll exprs walk).2.stopped = none →
    Expr.ScopedAll walk.resolver.names pending (Expr.resolveAll exprs walk).1
  | [], _, _, _, _ => trivial
  | expr :: rest, walk, pending, awaits, running => by
      obtain ⟨exprRunning, same⟩ :=
        expr.resolve_still.split (Expr.resolveAll_still rest) running
      refine ⟨expr.resolve_scoped walk pending awaits exprRunning, ?_⟩
      have placed := Expr.resolveAll_scoped rest _ pending (same.symm ▸ awaits) running
      rw [same] at placed
      exact placed

end

/-! ### Declarations -/

/-- The globals known after a declaration that stands in the given scopes. -/
def Scopes.learn (scopes : Scopes) (declared : Option Token) (known : List String) : List String :=
  match scopes, declared with
  | [], some name => if known.contains name.lexeme then known else known ++ [name.lexeme]
  | _, _ => known

/-- The scopes after a declaration, or after none. -/
def Scopes.extend (scopes : Scopes) (declared : Option Token) : Scopes :=
  match declared with
  | none => scopes
  | some name => scopes.declare name.lexeme

/-- A walk that goes on has changed its place from the first to the second only by a declaration. -/
structure Resolver.Passes (before : Resolver) (declared : Option Token) (after : Resolver) :
    Prop where
  names : after.names = before.names.extend declared
  inFunction : after.inFunction = before.inFunction
  initializing : before.initializing = none → after.initializing = none
  known : after.known = before.names.learn declared before.known

theorem Resolver.Passes.refl (resolver : Resolver) : resolver.Passes none resolver where
  names := rfl
  inFunction := rfl
  initializing := id
  known := by
    unfold Scopes.learn
    split <;> simp_all

theorem Scope.map_mark (name : String) (ready : Bool) (scope : Scope) :
    (scope.mark name ready).map Prod.fst = name :: (scope.map Prod.fst).filter (· != name) := by
  unfold Scope.mark
  rw [List.map_cons, List.filter_map]
  rfl

namespace Walking

/-- A declaration that does not stop the walk puts a new name, waiting for its initializer, into
the innermost scope. -/
theorem declare_running (name : Token) (walk : Walk)
    (running : (declare name walk).2.stopped = none) :
    walk.stopped = none ∧ walk.resolver.names.Admits name.lexeme ∧
      (declare name walk).2.resolver =
        { walk.resolver with
          scopes := match walk.resolver.scopes with
            | [] => []
            | scope :: scopes => scope.mark name.lexeme false :: scopes } := by
  obtain ⟨⟨scopes, inFunction, initializing, known⟩, stopped, notes⟩ := walk
  cases scopes with
  | nil => exact ⟨running, trivial, rfl⟩
  | cons scope rest =>
      change ((if scope.declares name.lexeme then stop _ name.line
        else moveUnlessStopped _ : Walking Unit) _).2.stopped = none at running
      change _ ∧ _ ∧ ((if scope.declares name.lexeme then stop _ name.line
        else moveUnlessStopped _ : Walking Unit) _).2.resolver = _
      split at running
      · exact absurd running (stop_stopped _ _ _)
      · rename_i absent
        rw [if_neg absent]
        cases stopped with
        | some error => cases running
        | none =>
            rw [Scope.declares, lookup_isSome_eq_contains] at absent
            refine ⟨rfl, ?_, rfl⟩
            change name.lexeme ∉ scope.map Prod.fst
            simpa using absent

/-- A name that is ready stays in its scope; at the top level it becomes known. -/
theorem define_running (name : Token) (walk : Walk)
    (running : (define name walk).2.stopped = none) :
    walk.stopped = none ∧
      (define name walk).2.resolver =
        { walk.resolver with
          scopes := match walk.resolver.scopes with
            | [] => []
            | scope :: scopes => scope.mark name.lexeme true :: scopes
          known := walk.resolver.names.learn (some name) walk.resolver.known } := by
  obtain ⟨⟨scopes, inFunction, initializing, known⟩, stopped, notes⟩ := walk
  cases stopped with
  | some error => cases running
  | none =>
      refine ⟨rfl, ?_⟩
      cases scopes with
      | cons scope rest => rfl
      | nil =>
          change (if known.contains name.lexeme then _ else _ : Resolver) =
            ⟨[], inFunction, initializing,
              if known.contains name.lexeme then known else known ++ [name.lexeme]⟩
          split <;> rfl

theorem names_mark_fresh (resolver : Resolver) (name : String) (ready : Bool)
    (fresh : resolver.names.Admits name) :
    Resolver.names
      { resolver with
        scopes := match resolver.scopes with
          | [] => []
          | scope :: scopes => scope.mark name ready :: scopes } =
      resolver.names.declare name := by
  obtain ⟨scopes, inFunction, initializing, known⟩ := resolver
  cases scopes with
  | nil => rfl
  | cons scope rest =>
      change name ∉ scope.map Prod.fst at fresh
      change (scope.mark name ready).map Prod.fst :: _ = (name :: scope.map Prod.fst) :: _
      have others : (scope.map Prod.fst).filter (· != name) = scope.map Prod.fst := by
        rw [List.filter_eq_self]
        intro other member
        simpa using fun same : other = name => fresh (same ▸ member)
      rw [Scope.map_mark, others]

/-- Marking a name again that was declared last changes no scope. -/
theorem names_mark_declared (resolver : Resolver) (name : String) (ready : Bool) {scopes : Scopes}
    (fresh : scopes.Admits name) (declared : resolver.names = scopes.declare name) :
    Resolver.names
      { resolver with
        scopes := match resolver.scopes with
          | [] => []
          | scope :: scopes => scope.mark name ready :: scopes } =
      scopes.declare name := by
  obtain ⟨inner, inFunction, initializing, known⟩ := resolver
  cases inner with
  | nil => rw [← declared]
  | cons scope rest =>
      cases scopes with
      | nil => cases declared
      | cons outer others =>
          change scope.map Prod.fst :: _ = (name :: outer) :: others at declared
          injection declared with head tail
          change (scope.mark name ready).map Prod.fst :: _ = (name :: outer) :: others
          have kept : outer.filter (· != name) = outer := by
            rw [List.filter_eq_self]
            intro other member
            simpa using fun same : other = name => fresh (same ▸ member)
          rw [Scope.map_mark, head, ← tail]
          simp [kept]

/-- A name passes as a declaration if nothing but the mark of an initializer changes between its
being declared and its being readied. -/
theorem define_after_declare (name : Token) (walk middle : Walk) (initializing : Option String)
    (declared : (declare name walk).2.stopped = none)
    (same : middle.resolver =
      { (declare name walk).2.resolver with initializing := initializing })
    (idle : walk.resolver.initializing = none → initializing = none)
    (running : (define name middle).2.stopped = none) :
    walk.resolver.Passes (some name) (define name middle).2.resolver := by
  obtain ⟨_, fresh, placed⟩ := declare_running name walk declared
  obtain ⟨_, defined⟩ := define_running name middle running
  have names : middle.resolver.names = walk.resolver.names.declare name.lexeme := by
    rw [same, placed]
    exact names_mark_fresh walk.resolver name.lexeme false fresh
  rw [defined]
  constructor
  · exact names_mark_declared _ name.lexeme true fresh names
  · rw [same, placed]
  · rw [same]
    exact idle
  · change middle.resolver.names.learn (some name) middle.resolver.known = _
    rw [names, same, placed]
    cases walk.resolver.names <;> rfl

theorem introduce_running (name : Token) (walk : Walk)
    (running : (define name (declare name walk).2).2.stopped = none) :
    walk.stopped = none ∧ walk.resolver.names.Admits name.lexeme ∧
      walk.resolver.Passes (some name) (define name (declare name walk).2).2.resolver := by
  have declared := (define_running name _ running).1
  obtain ⟨before, fresh, placed⟩ := declare_running name walk declared
  refine ⟨before, fresh, define_after_declare name walk _ _ declared rfl ?_ running⟩
  intro idle
  change (declare name walk).2.resolver.initializing = none
  rw [placed]
  exact idle

theorem bindParameters_unstopped (parameters : List Token) (walk : Walk)
    (running : (bindParameters parameters walk).2.stopped = none) : walk.stopped = none := by
  induction parameters generalizing walk with
  | nil => exact running
  | cons parameter rest ih =>
      have middle := ih (define parameter (declare parameter walk).2).2 running
      exact (introduce_running parameter walk middle).1

/-- Parameters go one by one into the innermost scope, which held none of them before. -/
theorem bindParameters_running (parameters : List Token) (walk : Walk) (scope : List String)
    (scopes : Scopes) (around : walk.resolver.names = scope :: scopes) (distinct : scope.Nodup)
    (running : (bindParameters parameters walk).2.stopped = none) :
    (parameterNames parameters ++ scope).Nodup ∧
      (bindParameters parameters walk).2.resolver.names =
        (parameterNames parameters ++ scope) :: scopes ∧
      (bindParameters parameters walk).2.resolver.inFunction = walk.resolver.inFunction ∧
      (walk.resolver.initializing = none →
        (bindParameters parameters walk).2.resolver.initializing = none) ∧
      (bindParameters parameters walk).2.resolver.known = walk.resolver.known := by
  induction parameters generalizing walk scope with
  | nil => exact ⟨distinct, around, rfl, id, rfl⟩
  | cons parameter rest ih =>
      have middle := bindParameters_unstopped rest (define parameter (declare parameter walk).2).2
        running
      obtain ⟨_, fresh, passes⟩ := introduce_running parameter walk middle
      have names := passes.names
      have known := passes.known
      rw [around] at fresh names known
      obtain ⟨nodup, later, inFunction, initializing, learnt⟩ :=
        ih (define parameter (declare parameter walk).2).2 (parameter.lexeme :: scope) names
          (List.nodup_cons.mpr ⟨fresh, distinct⟩) running
      have shifted : parameterNames rest ++ parameter.lexeme :: scope =
          parameterNames (parameter :: rest) ++ scope := by
        simp [parameterNames]
      rw [shifted] at nodup later
      refine ⟨nodup, later, inFunction.trans passes.inFunction, ?_, learnt.trans known⟩
      exact fun idle => initializing (passes.initializing idle)

end Walking

/-! ### Statements -/

namespace Scopes

theorem learn_of_ne_nil {scopes : Scopes} (around : scopes ≠ []) (declared : Option Token)
    (known : List String) : scopes.learn declared known = known := by
  cases scopes with
  | nil => exact absurd rfl around
  | cons scope rest => rfl

theorem learn_none (scopes : Scopes) (known : List String) : scopes.learn none known = known := by
  cases scopes <;> rfl

theorem foldl_learn_of_ne_nil {scopes : Scopes} (around : scopes ≠ []) (statements : List Stmt)
    (known : List String) :
    statements.foldl (fun known stmt => scopes.learn stmt.declared? known) known = known := by
  induction statements with
  | nil => rfl
  | cons stmt rest ih =>
      rw [List.foldl_cons, learn_of_ne_nil around]
      exact ih

/-- Whether a declaration is a global one does not change with further declarations. -/
theorem learn_extend (scopes : Scopes) (first : Option Token) :
    (scopes.extend first).learn = scopes.learn := by
  cases scopes with
  | nil => cases first <;> rfl
  | cons scope rest =>
      funext declared known
      cases first <;> rfl

theorem foldl_extend_cons (statements : List Stmt) (scope : List String) (scopes : Scopes) :
    ∃ inner, statements.foldl Stmt.extend (scope :: scopes) = inner :: scopes := by
  induction statements generalizing scope with
  | nil => exact ⟨scope, rfl⟩
  | cons stmt rest ih =>
      rw [List.foldl_cons]
      unfold Stmt.extend
      cases stmt.declared? with
      | none => exact ih scope
      | some name => exact ih (name.lexeme :: scope)

end Scopes

/-- A walk that goes on has passed a list of statements. -/
structure Resolver.PassesAll (before : Resolver) (statements : List Stmt) (after : Resolver) :
    Prop where
  names : after.names = statements.foldl Stmt.extend before.names
  inFunction : after.inFunction = before.inFunction
  initializing : before.initializing = none → after.initializing = none
  known : after.known =
    statements.foldl (fun known stmt => before.names.learn stmt.declared? known) before.known

theorem Resolver.Passes.cons {before middle after : Resolver} {stmt : Stmt} {rest : List Stmt}
    (first : before.Passes stmt.declared? middle) (others : middle.PassesAll rest after) :
    before.PassesAll (stmt :: rest) after where
  names := by
    rw [others.names, first.names]
    rfl
  inFunction := others.inFunction.trans first.inFunction
  initializing idle := others.initializing (first.initializing idle)
  known := by
    rw [others.known, first.names, first.known, Scopes.learn_extend]
    rfl

theorem Resolver.Passes.trans_none {before middle after : Resolver} {declared : Option Token}
    (first : before.Passes declared middle) (second : middle.Passes none after) :
    before.Passes declared after where
  names := by
    rw [second.names, first.names]
    rfl
  inFunction := second.inFunction.trans first.inFunction
  initializing idle := second.initializing (first.initializing idle)
  known := by
    rw [second.known, Scopes.learn_none, first.known]

/-- A walk that passes statements inside a scope of their own has not moved afterwards. -/
theorem Resolver.PassesAll.leave {before after : Resolver} {statements : List Stmt}
    {scope : List String} {entered : Resolver} (inside : entered.PassesAll statements after)
    (names : entered.names = scope :: before.names)
    (idle : before.initializing = none → entered.initializing = none)
    (known : entered.known = before.known) (inFunction : Bool)
    (same : inFunction = before.inFunction) :
    before.Passes none
      { after with scopes := after.scopes.tail, inFunction := inFunction } where
  names := by
    obtain ⟨inner, grown⟩ := Scopes.foldl_extend_cons statements scope before.names
    have around := inside.names
    rw [names, grown] at around
    unfold Resolver.names at around ⊢
    rw [List.map_tail, around]
    rfl
  inFunction := same
  initializing quiet := inside.initializing (idle quiet)
  known := by
    have around : entered.names ≠ [] := by
      rw [names]
      exact List.cons_ne_nil _ _
    change after.known = _
    rw [inside.known, Scopes.foldl_learn_of_ne_nil around, Scopes.learn_none, known]

theorem Expr.resolveOption_still (found : Option Expr) : (Expr.resolveOption found).Still := by
  cases found with
  | none => exact Walking.Still.pure none
  | some expr => exact expr.resolve_still.bind fun _ => Walking.Still.pure _

theorem Expr.resolveOption_scoped (found : Option Expr) (walk : Walk)
    (running : (Expr.resolveOption found walk).2.stopped = none) :
    Expr.ScopedOption walk.resolver.names none (Expr.resolveOption found walk).1 := by
  cases found with
  | none => trivial
  | some expr => exact expr.resolve_scoped walk none walk.resolver.awaits_none running

/-- The walk as it enters the initializer of a variable, with the name declared. -/
def Walk.entered (walk : Walk) (name : Token) : Walk :=
  ((Walking.move fun resolver =>
    if resolver.scopes.isEmpty && !resolver.known.contains name.lexeme then
      { resolver with initializing := some name.lexeme }
    else resolver) (Walking.declare name walk).2).2

/-- The walk as it leaves the initializer of a variable, with the name unmarked. -/
def Walk.left (walk : Walk) (name : Token) (expr : Expr) : Walk :=
  { (expr.resolve (walk.entered name)).2 with
    resolver := { (expr.resolve (walk.entered name)).2.resolver with initializing := none } }

theorem Walk.left_resolver (walk : Walk) (name : Token) (expr : Expr) :
    (walk.left name expr).resolver =
      { (Walking.declare name walk).2.resolver with initializing := none } := by
  unfold Walk.left
  rw [expr.resolve_still.resolver]
  change { (if _ then _ else _ : Resolver) with initializing := none } = _
  split <;> rfl

theorem Walk.left_running {walk : Walk} {name : Token} {expr : Expr}
    (running : (Walking.define name (walk.left name expr)).2.stopped = none) :
    (expr.resolve (walk.entered name)).2.stopped = none ∧
      (Walking.declare name walk).2.stopped = none := by
  have ended : (expr.resolve (walk.entered name)).2.stopped = none :=
    (Walking.define_running name _ running).1
  exact ⟨ended, expr.resolve_still.unstopped (walk.entered name) ended⟩

/-- A variable passes as a declaration of its name, with its initializer walked in between. -/
theorem Stmt.resolve_var_running (name : Token) (initializer : Option Expr) (walk : Walk)
    (running : ((Stmt.var name initializer).resolve walk).2.stopped = none) :
    walk.stopped = none ∧
      walk.resolver.Passes (some name) ((Stmt.var name initializer).resolve walk).2.resolver ∧
      ((Stmt.var name initializer).resolve walk).1.declared? = some name ∧
      ((Stmt.var name initializer).resolve walk).1.Scoped walk.resolver.names := by
  cases initializer with
  | none =>
      obtain ⟨before, fresh, passes⟩ := Walking.introduce_running name walk running
      exact ⟨before, passes, rfl, fresh, trivial⟩
  | some expr =>
      change (Walking.define name (walk.left name expr)).2.stopped = none at running
      obtain ⟨ended, declared⟩ := Walk.left_running running
      obtain ⟨before, fresh, placed⟩ := Walking.declare_running name walk declared
      have scopes : (walk.entered name).resolver.scopes =
          (Walking.declare name walk).2.resolver.scopes := by
        change (if _ then _ else _ : Resolver).scopes = _
        split <;> rfl
      have names : (walk.entered name).resolver.names =
          walk.resolver.names.declare name.lexeme := by
        unfold Resolver.names
        rw [scopes, placed]
        exact Walking.names_mark_fresh walk.resolver name.lexeme false fresh
      have awaits : (walk.entered name).resolver.Awaits (some name.lexeme) := by
        intro other found scope rest around
        cases found
        rw [scopes, placed] at around
        cases inner : walk.resolver.scopes with
        | nil =>
            rw [inner] at around
            cases around
        | cons first others =>
            rw [inner] at around
            cases around
            exact List.lookup_cons_self
      have initialized := expr.resolve_scoped _ (some name.lexeme) awaits ended
      rw [names] at initialized
      exact ⟨before, Walking.define_after_declare name walk _ none declared
        (walk.left_resolver name expr) (fun _ => rfl) running, rfl, fresh, initialized⟩

/-- A walk that goes on behind a statement has passed it and left it scoped. -/
structure Walk.Clears (walk : Walk) (stmt : Stmt) (resolved : Stmt) (after : Walk) : Prop where
  unstopped : walk.stopped = none
  passes : walk.resolver.Passes stmt.declared? after.resolver
  declared : resolved.declared? = stmt.declared?
  placed : resolved.Scoped walk.resolver.names

structure Walk.ClearsBranch (walk : Walk) (resolved : Option Stmt) (after : Walk) : Prop where
  unstopped : walk.stopped = none
  passes : walk.resolver.Passes none after.resolver
  placed : Stmt.ScopedBranch walk.resolver.names resolved

structure Walk.ClearsAll (walk : Walk) (statements resolved : List Stmt) (after : Walk) : Prop where
  unstopped : walk.stopped = none
  passes : walk.resolver.PassesAll statements after.resolver
  placed : Stmt.ScopedAll walk.resolver.names resolved

/-- A function passes as a declaration of its name, with its parameters and body walked in a scope
of their own. -/
theorem Stmt.resolve_function_running (name : Token) (parameters : List Token) (body : List Stmt)
    (walk : Walk)
    (inside : ∀ entered : Walk, (Stmt.resolveAll body entered).2.stopped = none →
      entered.ClearsAll body (Stmt.resolveAll body entered).1 (Stmt.resolveAll body entered).2)
    (running : ((Stmt.function name parameters body).resolve walk).2.stopped = none) :
    walk.Clears (.function name parameters body)
      ((Stmt.function name parameters body).resolve walk).1
      ((Stmt.function name parameters body).resolve walk).2 := by
  let defined : Walk := (Walking.define name (Walking.declare name walk).2).2
  let entered : Walk :=
    { defined with
      resolver :=
        { defined.resolver with scopes := [] :: defined.resolver.scopes, inFunction := true } }
  let bound : Walk := (Walking.bindParameters parameters entered).2
  change (Stmt.resolveAll body bound).2.stopped = none at running
  obtain ⟨boundRunning, passes, placed⟩ := inside bound running
  have definedRunning : defined.stopped = none :=
    Walking.bindParameters_unstopped parameters entered boundRunning
  obtain ⟨before, fresh, introduced⟩ := Walking.introduce_running name walk definedRunning
  obtain ⟨distinct, names, inFunction, idle, known⟩ :=
    Walking.bindParameters_running parameters entered [] defined.resolver.names rfl List.nodup_nil
      boundRunning
  rw [List.append_nil] at distinct names
  have left : defined.resolver.Passes none
      { (Stmt.resolveAll body bound).2.resolver with
        scopes := (Stmt.resolveAll body bound).2.resolver.scopes.tail
        inFunction := defined.resolver.inFunction } :=
    passes.leave names idle known _ rfl
  refine ⟨before, introduced.trans_none left, rfl, fresh, distinct, ?_⟩
  rw [names, introduced.names] at placed
  exact placed

theorem Expr.resolve_passes (expr : Expr) (walk : Walk) :
    walk.resolver.Passes none (expr.resolve walk).2.resolver := by
  rw [expr.resolve_still.resolver walk]
  exact Resolver.Passes.refl _

mutual

theorem Stmt.resolve_running : (stmt : Stmt) → stmt.Proper → ∀ walk : Walk,
    (stmt.resolve walk).2.stopped = none →
    walk.Clears stmt (stmt.resolve walk).1 (stmt.resolve walk).2
  | .expression expr, _, walk, running =>
      { unstopped := expr.resolve_still.unstopped walk running
        passes := expr.resolve_passes walk
        declared := rfl
        placed := expr.resolve_scoped walk none walk.resolver.awaits_none running }
  | .print expr, _, walk, running =>
      { unstopped := expr.resolve_still.unstopped walk running
        passes := expr.resolve_passes walk
        declared := rfl
        placed := expr.resolve_scoped walk none walk.resolver.awaits_none running }
  | .var name initializer, _, walk, running => by
      obtain ⟨before, passes, declared, placed⟩ :=
        Stmt.resolve_var_running name initializer walk running
      exact ⟨before, passes, declared, placed⟩
  | .block body, proper, walk, running => by
      let entered : Walk :=
        { walk with resolver := { walk.resolver with scopes := [] :: walk.resolver.scopes } }
      obtain ⟨before, passes, placed⟩ := Stmt.resolveAll_running body proper entered running
      exact ⟨before, passes.leave rfl id rfl _ passes.inFunction, rfl, placed⟩
  | .conditional condition thenBranch elseBranch, proper, walk, running => by
      have same := condition.resolve_still.resolver walk
      have other := Stmt.resolveOption_running elseBranch proper.2 _ running
      have first := thenBranch.resolve_running proper.1.2 _ other.unstopped
      have passed := first.passes
      have otherPlaced := other.placed
      have firstPlaced := first.placed
      rw [passed.names] at otherPlaced
      rw [proper.1.1] at passed otherPlaced
      rw [same] at passed otherPlaced firstPlaced
      exact
        { unstopped := condition.resolve_still.unstopped walk first.unstopped
          passes := passed.trans_none other.passes
          declared := rfl
          placed := ⟨condition.resolve_scoped walk none walk.resolver.awaits_none first.unstopped,
            ⟨first.declared.trans proper.1.1, firstPlaced⟩, otherPlaced⟩ }
  | .loop condition body, proper, walk, running => by
      have same := condition.resolve_still.resolver walk
      have inside := body.resolve_running proper.2 _ running
      have passed := inside.passes
      have placed := inside.placed
      rw [proper.1] at passed
      rw [same] at passed placed
      exact
        { unstopped := condition.resolve_still.unstopped walk inside.unstopped
          passes := passed
          declared := rfl
          placed := ⟨condition.resolve_scoped walk none walk.resolver.awaits_none inside.unstopped,
            inside.declared.trans proper.1, placed⟩ }
  | .function name parameters body, proper, walk, running =>
      Stmt.resolve_function_running name parameters body walk
        (Stmt.resolveAll_running body proper) running
  | .returnValue keyword value, _, walk, running => by
      cases inside : walk.resolver.inFunction with
      | false =>
          have reduced : (Stmt.returnValue keyword value).resolve walk =
              ((Walking.stop .returnOutsideFunction keyword.line >>= fun _ =>
                Expr.resolveOption value >>= fun value => pure (.returnValue keyword value) :
                  Walking Stmt) walk) := by
            rw [Stmt.resolve, Walking.bind_apply, Walking.get_apply]
            dsimp only
            rw [inside]
            rfl
          rw [reduced] at running
          have ended := (Expr.resolveOption_still value).unstopped _ running
          exact absurd ended (Walking.stop_stopped _ _ walk)
      | true =>
          have reduced : (Stmt.returnValue keyword value).resolve walk =
              (.returnValue keyword (Expr.resolveOption value walk).1,
                (Expr.resolveOption value walk).2) := by
            rw [Stmt.resolve, Walking.bind_apply, Walking.get_apply]
            dsimp only
            rw [inside]
            rfl
          rw [reduced] at running ⊢
          exact
            { unstopped := (Expr.resolveOption_still value).unstopped walk running
              passes := by
                change walk.resolver.Passes none (Expr.resolveOption value walk).2.resolver
                rw [(Expr.resolveOption_still value).resolver walk]
                exact Resolver.Passes.refl _
              declared := rfl
              placed := Expr.resolveOption_scoped value walk running }

theorem Stmt.resolveOption_running : (found : Option Stmt) → Stmt.ProperBranch found →
    ∀ walk : Walk, (Stmt.resolveOption found walk).2.stopped = none →
    walk.ClearsBranch (Stmt.resolveOption found walk).1 (Stmt.resolveOption found walk).2
  | none, _, walk, running => ⟨running, Resolver.Passes.refl _, trivial⟩
  | some stmt, proper, walk, running => by
      have inside := stmt.resolve_running proper.2 walk running
      have passed := inside.passes
      rw [proper.1] at passed
      exact ⟨inside.unstopped, passed, inside.declared.trans proper.1, inside.placed⟩

theorem Stmt.resolveAll_running : (statements : List Stmt) → Stmt.ProperAll statements →
    ∀ walk : Walk, (Stmt.resolveAll statements walk).2.stopped = none →
    walk.ClearsAll statements (Stmt.resolveAll statements walk).1
      (Stmt.resolveAll statements walk).2
  | [], _, walk, running => ⟨running, ⟨rfl, rfl, id, rfl⟩, trivial⟩
  | stmt :: rest, proper, walk, running => by
      have others := Stmt.resolveAll_running rest proper.2 (stmt.resolve walk).2 running
      have first := stmt.resolve_running proper.1 walk others.unstopped
      refine ⟨first.unstopped, first.passes.cons others.passes, first.placed, ?_⟩
      have placed := others.placed
      rw [first.passes.names] at placed
      unfold Stmt.extend
      rw [first.declared]
      exact placed

end

/-- Statements that a resolver between walks accepts are scoped at the top level, and the names
they declare there are known afterwards. -/
theorem Resolver.resolve_accepted (known : List String) (statements : List Stmt)
    (proper : Stmt.ProperAll statements)
    (accepted : ((Resolver.ofGlobals known).resolve statements).error = none) :
    Stmt.ScopedAll [] ((Resolver.ofGlobals known).resolve statements).statements ∧
      ((Resolver.ofGlobals known).resolve statements).resolver =
        Resolver.ofGlobals
          (statements.foldl (fun known stmt => Scopes.learn [] stmt.declared? known) known) := by
  have cleared := Stmt.resolveAll_running statements proper
    ⟨Resolver.ofGlobals known, none, #[.beginning statements.length]⟩ accepted
  refine ⟨cleared.placed, ?_⟩
  obtain ⟨names, inFunction, initializing, learnt⟩ := cleared.passes
  have flat : ∀ list : List Stmt, list.foldl Stmt.extend [] = [] := by
    intro list
    induction list with
    | nil => rfl
    | cons stmt rest ih =>
        rw [List.foldl_cons]
        unfold Stmt.extend
        cases stmt.declared? <;> exact ih
  change Resolver.names _ = statements.foldl Stmt.extend [] at names
  rw [flat statements] at names
  have top := List.map_eq_nil_iff.mp names
  have idle := initializing rfl
  change (Stmt.resolveAll statements _).2.resolver = _
  generalize (Stmt.resolveAll statements _).2.resolver = final at top idle inFunction learnt ⊢
  obtain ⟨scopes, inside, marked, finalKnown⟩ := final
  cases top
  cases idle
  cases inFunction
  cases learnt
  rfl

end LexicalScript
