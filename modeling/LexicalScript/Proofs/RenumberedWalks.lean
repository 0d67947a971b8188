import LexicalScript.Proofs.Renumbering
import LexicalScript.Proofs.Resolution

/-!
Resolving renumbered statements.

A walk looks neither at lines nor at the order in which globals became known.  Two walks over the
same statements, up to lines, that know the same globals stop at the same place or not at all, and
give the same depths.
-/

set_option autoImplicit false

namespace LexicalScript

def ResolveError.renumber (lines : Nat → Nat) (error : ResolveError) : ResolveError :=
  { error with line := lines error.line }

/-- The resolvers are at the same place and know the same globals. -/
structure Resolver.Alongside (resolver other : Resolver) : Prop where
  scopes : other.scopes = resolver.scopes
  inFunction : other.inFunction = resolver.inFunction
  initializing : other.initializing = resolver.initializing
  known : ∀ name, name ∈ other.known ↔ name ∈ resolver.known

/-- The walks are at the same place, and stopped with the same error up to its line if they are. -/
structure Walk.Alongside (lines : Nat → Nat) (walk other : Walk) : Prop where
  resolver : walk.resolver.Alongside other.resolver
  stopped : other.stopped = walk.stopped.map (ResolveError.renumber lines)

theorem Resolver.Alongside.contains {resolver other : Resolver}
    (alongside : resolver.Alongside other) (name : String) :
    other.known.contains name = resolver.known.contains name := by
  rw [Bool.eq_iff_iff, List.contains_iff_mem, List.contains_iff_mem]
  exact alongside.known name

/-- From places alongside each other, the rules end alongside each other and with results that
correspond. -/
def Walking.Follows {α : Type} (lines : Nat → Nat) (image : α → α)
    (rule renumbered : Walking α) : Prop :=
  ∀ walk other : Walk, walk.Alongside lines other →
    (renumbered other).1 = image (rule walk).1 ∧ (rule walk).2.Alongside lines (renumbered other).2

/-! ### Steps -/

namespace Walking.Follows

variable {lines : Nat → Nat} {α β : Type} {image : α → α} {image' : β → β}

theorem pure (result : α) : Follows lines image (Pure.pure result) (Pure.pure (image result)) :=
  fun _ _ alongside => ⟨rfl, alongside⟩

theorem bind {first first' : Walking α} {next next' : α → Walking β}
    (follows : Follows lines image first first')
    (after : ∀ result, Follows lines image' (next result) (next' (image result))) :
    Follows lines image' (first >>= next) (first' >>= next') := by
  intro walk other alongside
  obtain ⟨same, alongside'⟩ := follows walk other alongside
  rw [bind_apply, bind_apply, same]
  exact after _ _ _ alongside'

/-- A rule that looks at its place first may be compared at each pair of places alongside each
other. -/
theorem look {next next' : Walk → Walking α}
    (after : ∀ walk other : Walk, walk.Alongside lines other →
      Follows lines image (next walk) (next' other)) :
    Follows lines image (get >>= next) (get >>= next') :=
  fun walk other alongside => after walk other alongside walk other alongside

theorem map {rule rule' : Walking α} {change : α → β}
    (follows : Follows lines image rule rule')
    (commutes : ∀ result, change (image result) = image' (change result)) :
    Follows lines image' (change <$> rule) (change <$> rule') := by
  intro walk other alongside
  obtain ⟨same, alongside'⟩ := follows walk other alongside
  rw [map_apply, map_apply, same]
  exact ⟨commutes _, alongside'⟩

theorem stop (cause : ResolveCause) (line : Nat) :
    Follows lines id (Walking.stop cause line) (Walking.stop cause (lines line)) := by
  intro walk other alongside
  obtain ⟨resolver, stopped, notes⟩ := walk
  obtain ⟨resolver', stopped', notes'⟩ := other
  obtain ⟨places, rfl⟩ := alongside
  cases stopped with
  | none => exact ⟨rfl, places, rfl⟩
  | some error => exact ⟨rfl, places, rfl⟩

theorem move {change change' : Resolver → Resolver}
    (moves : ∀ resolver other : Resolver, resolver.Alongside other →
      (change resolver).Alongside (change' other)) :
    Follows lines id (Walking.move change) (Walking.move change') :=
  fun _ _ alongside => ⟨rfl, moves _ _ alongside.resolver, alongside.stopped⟩

theorem moveUnlessStopped {change change' : Resolver → Resolver}
    (moves : ∀ resolver other : Resolver, resolver.Alongside other →
      (change resolver).Alongside (change' other)) :
    Follows lines id (Walking.moveUnlessStopped change) (Walking.moveUnlessStopped change') := by
  intro walk other alongside
  obtain ⟨resolver, stopped, notes⟩ := walk
  obtain ⟨resolver', stopped', notes'⟩ := other
  obtain ⟨places, rfl⟩ := alongside
  cases stopped with
  | none => exact ⟨rfl, moves _ _ places, rfl⟩
  | some error => exact ⟨rfl, places, rfl⟩

theorem declare (name : Token) :
    Follows lines id (Walking.declare name) (Walking.declare (name.renumber lines)) := by
  apply look
  intro walk other alongside
  rw [alongside.resolver.scopes]
  cases walk.resolver.scopes with
  | nil => exact pure ()
  | cons scope scopes =>
      dsimp only
      rw [show (name.renumber lines).lexeme = name.lexeme from rfl]
      split
      · exact stop _ _
      · apply moveUnlessStopped
        intro resolver other places
        exact ⟨rfl, places.inFunction, places.initializing, places.known⟩

theorem define (name : Token) :
    Follows lines id (Walking.define name) (Walking.define (name.renumber lines)) := by
  apply moveUnlessStopped
  intro resolver other places
  rw [show (name.renumber lines).lexeme = name.lexeme from rfl, places.scopes, places.contains]
  cases resolver.scopes with
  | nil =>
      dsimp only
      split
      · exact places
      · refine ⟨rfl, places.inFunction, places.initializing, ?_⟩
        intro other
        rw [List.mem_append, List.mem_append, places.known]
  | cons scope scopes => exact ⟨rfl, places.inFunction, places.initializing, places.known⟩

theorem locate (name : Token) (old : Option Nat) :
    Follows lines id (Walking.locate name old) (Walking.locate (name.renumber lines) old) := by
  intro walk other alongside
  obtain ⟨resolver, stopped, notes⟩ := walk
  obtain ⟨resolver', stopped', notes'⟩ := other
  obtain ⟨places, rfl⟩ := alongside
  cases stopped with
  | none =>
      refine ⟨?_, places, rfl⟩
      change resolver'.scopes.findIdx? _ = resolver.scopes.findIdx? _
      rw [places.scopes]
      rfl
  | some error => exact ⟨rfl, places, rfl⟩

theorem read (name : Token) (old : Option Nat) :
    Follows lines id (Walking.read name old) (Walking.read (name.renumber lines) old) := by
  apply look
  intro walk other alongside
  rw [alongside.resolver.scopes, alongside.resolver.initializing,
    show (name.renumber lines).lexeme = name.lexeme from rfl]
  split
  · apply bind (stop _ _)
    intro _
    exact pure old
  · apply bind (locate name old)
    intro depth
    dsimp only [id]
    split
    · apply bind (stop _ _)
      intro _
      exact pure depth
    · exact pure depth

theorem inScope {body body' : Walking α} (follows : Follows lines image body body') :
    Follows lines image (Walking.inScope body) (Walking.inScope body') := by
  apply bind
  · apply move
    intro resolver other places
    exact ⟨congrArg (List.cons []) places.scopes, places.inFunction, places.initializing,
      places.known⟩
  intro _
  apply bind follows
  intro result
  apply bind
  · apply move
    intro resolver other places
    exact ⟨congrArg List.tail places.scopes, places.inFunction, places.initializing, places.known⟩
  intro _
  exact pure result

theorem inFunction {body body' : Walking α} (follows : Follows lines image body body') :
    Follows lines image (Walking.inFunction body) (Walking.inFunction body') := by
  apply look
  intro walk other alongside
  apply bind
  · apply move
    intro resolver other places
    exact ⟨places.scopes, rfl, places.initializing, places.known⟩
  intro _
  apply bind (inScope follows)
  intro result
  apply bind
  · apply move
    intro resolver other places
    exact ⟨places.scopes, alongside.resolver.inFunction, places.initializing, places.known⟩
  intro _
  exact pure result

theorem inInitializer (name : Token) {body body' : Walking α}
    (follows : Follows lines image body body') :
    Follows lines image (Walking.inInitializer name body)
      (Walking.inInitializer (name.renumber lines) body') := by
  apply bind
  · apply move
    intro resolver other places
    rw [show (name.renumber lines).lexeme = name.lexeme from rfl, places.scopes, places.contains]
    split
    · exact ⟨rfl, places.inFunction, rfl, places.known⟩
    · exact places
  intro _
  apply bind follows
  intro result
  apply bind
  · apply move
    intro resolver other places
    exact ⟨places.scopes, places.inFunction, rfl, places.known⟩
  intro _
  exact pure result

theorem bindParameters (parameters : List Token) :
    Follows lines id (Walking.bindParameters parameters)
      (Walking.bindParameters (parameters.map (Token.renumber lines))) := by
  induction parameters with
  | nil => exact pure ()
  | cons parameter rest ih =>
      apply bind (declare parameter)
      intro _
      apply bind (define parameter)
      intro _
      exact ih

end Walking.Follows

/-! ### Trees -/

section

variable {lines : Nat → Nat}

mutual

theorem Expr.resolve_follows (expr : Expr) :
    Walking.Follows lines (Expr.retouch (.lines lines)) expr.resolve
      (expr.retouch (.lines lines)).resolve := by
  cases expr with
  | literal value => exact .pure _
  | unary operator operand =>
      apply Walking.Follows.bind (Expr.resolve_follows operand)
      intro operand
      exact .pure (Expr.unary operator operand)
  | binary left operator right =>
      apply Walking.Follows.bind (Expr.resolve_follows left)
      intro left
      apply Walking.Follows.bind (Expr.resolve_follows right)
      intro right
      exact .pure (Expr.binary left operator right)
  | logical left operator right =>
      apply Walking.Follows.bind (Expr.resolve_follows left)
      intro left
      apply Walking.Follows.bind (Expr.resolve_follows right)
      intro right
      exact .pure (Expr.logical left operator right)
  | grouping inner =>
      apply Walking.Follows.bind (Expr.resolve_follows inner)
      intro inner
      exact .pure (Expr.grouping inner)
  | reference name depth =>
      apply Walking.Follows.bind (.read name depth)
      intro depth
      exact .pure (Expr.reference name depth)
  | assign name value depth =>
      apply Walking.Follows.bind (Expr.resolve_follows value)
      intro value
      apply Walking.Follows.bind (.locate name depth)
      intro depth
      exact .pure (Expr.assign name value depth)
  | call callee paren arguments =>
      apply Walking.Follows.bind (Expr.resolve_follows callee)
      intro callee
      apply Walking.Follows.bind (Expr.resolveAll_follows arguments)
      intro arguments
      exact .pure (Expr.call callee paren arguments)
  | list bracket elements =>
      apply Walking.Follows.bind (Expr.resolveAll_follows elements)
      intro elements
      exact .pure (Expr.list bracket elements)
  | index object bracket position =>
      apply Walking.Follows.bind (Expr.resolve_follows object)
      intro object
      apply Walking.Follows.bind (Expr.resolve_follows position)
      intro position
      exact .pure (Expr.index object bracket position)

theorem Expr.resolveAll_follows (exprs : List Expr) :
    Walking.Follows lines (Expr.retouchAll (.lines lines)) (Expr.resolveAll exprs)
      (Expr.resolveAll (Expr.retouchAll (.lines lines) exprs)) := by
  cases exprs with
  | nil => exact .pure []
  | cons expr rest =>
      apply Walking.Follows.bind (Expr.resolve_follows expr)
      intro expr
      apply Walking.Follows.bind (Expr.resolveAll_follows rest)
      intro rest
      exact .pure (expr :: rest)

end

theorem Expr.resolveOption_follows (expr : Option Expr) :
    Walking.Follows lines (Expr.retouchOption (.lines lines)) (Expr.resolveOption expr)
      (Expr.resolveOption (Expr.retouchOption (.lines lines) expr)) := by
  cases expr with
  | none => exact .pure none
  | some expr =>
      apply Walking.Follows.bind expr.resolve_follows
      intro expr
      exact .pure (some expr)

mutual

theorem Stmt.resolve_follows (stmt : Stmt) :
    Walking.Follows lines (Stmt.retouch (.lines lines)) stmt.resolve
      (stmt.retouch (.lines lines)).resolve := by
  cases stmt with
  | expression expr =>
      apply Walking.Follows.bind expr.resolve_follows
      intro expr
      exact .pure (Stmt.expression expr)
  | print expr =>
      apply Walking.Follows.bind expr.resolve_follows
      intro expr
      exact .pure (Stmt.print expr)
  | var name initializer =>
      apply Walking.Follows.bind (.declare name)
      intro _
      have ready : ∀ initializer : Option Expr,
          Walking.Follows lines (Stmt.retouch (.lines lines))
            (do
              Walking.define name
              return .var name initializer)
            (do
              Walking.define (name.renumber lines)
              return .var (name.renumber lines)
                (Expr.retouchOption (.lines lines) initializer)) := by
        intro initializer
        apply Walking.Follows.bind (.define name)
        intro _
        exact .pure (Stmt.var name initializer)
      cases initializer with
      | none => exact ready none
      | some expr =>
          have walked : Walking.Follows lines (Expr.retouchOption (.lines lines))
              (some <$> Walking.inInitializer name expr.resolve)
              (some <$> Walking.inInitializer (name.renumber lines)
                (expr.retouch (.lines lines)).resolve) :=
            .map (.inInitializer name expr.resolve_follows) fun _ => rfl
          exact .bind walked ready
  | block body =>
      apply Walking.Follows.bind (.inScope (Stmt.resolveAll_follows body))
      intro body
      exact .pure (Stmt.block body)
  | conditional condition thenBranch elseBranch =>
      apply Walking.Follows.bind condition.resolve_follows
      intro condition
      apply Walking.Follows.bind (Stmt.resolve_follows thenBranch)
      intro thenBranch
      apply Walking.Follows.bind (Stmt.resolveOption_follows elseBranch)
      intro elseBranch
      exact .pure (Stmt.conditional condition thenBranch elseBranch)
  | loop condition body =>
      apply Walking.Follows.bind condition.resolve_follows
      intro condition
      apply Walking.Follows.bind (Stmt.resolve_follows body)
      intro body
      exact .pure (Stmt.loop condition body)
  | function name parameters body =>
      apply Walking.Follows.bind (.declare name)
      intro _
      apply Walking.Follows.bind (.define name)
      intro _
      apply Walking.Follows.bind
        (.inFunction (.bind (.bindParameters parameters) fun _ => Stmt.resolveAll_follows body))
      intro body
      exact .pure (Stmt.function name parameters body)
  | returnValue keyword value =>
      apply Walking.Follows.look
      intro walk other alongside
      have valued : Walking.Follows lines (Stmt.retouch (.lines lines))
          (do
            let value ← Expr.resolveOption value
            return .returnValue keyword value)
          (do
            let value ← Expr.resolveOption (Expr.retouchOption (.lines lines) value)
            return .returnValue (keyword.renumber lines) value) := by
        apply Walking.Follows.bind (Expr.resolveOption_follows value)
        intro value
        exact .pure (Stmt.returnValue keyword value)
      rw [alongside.resolver.inFunction]
      cases walk.resolver.inFunction with
      | true => exact valued
      | false => exact .bind (.stop .returnOutsideFunction keyword.line) fun _ => valued

theorem Stmt.resolveOption_follows (stmt : Option Stmt) :
    Walking.Follows lines (Stmt.retouchOption (.lines lines)) (Stmt.resolveOption stmt)
      (Stmt.resolveOption (Stmt.retouchOption (.lines lines) stmt)) := by
  cases stmt with
  | none => exact .pure none
  | some stmt =>
      apply Walking.Follows.bind (Stmt.resolve_follows stmt)
      intro stmt
      exact .pure (some stmt)

theorem Stmt.resolveAll_follows (statements : List Stmt) :
    Walking.Follows lines (Stmt.retouchAll (.lines lines)) (Stmt.resolveAll statements)
      (Stmt.resolveAll (Stmt.retouchAll (.lines lines) statements)) := by
  cases statements with
  | nil => exact .pure []
  | cons stmt rest =>
      apply Walking.Follows.bind (Stmt.resolve_follows stmt)
      intro stmt
      apply Walking.Follows.bind (Stmt.resolveAll_follows rest)
      intro rest
      exact .pure (stmt :: rest)

end

end

/-! ### Programs -/

theorem Stmt.resolveAll_append (first second : List Stmt) (walk : Walk) :
    Stmt.resolveAll (first ++ second) walk =
      ((Stmt.resolveAll first walk).1 ++ (Stmt.resolveAll second (Stmt.resolveAll first walk).2).1,
        (Stmt.resolveAll second (Stmt.resolveAll first walk).2).2) := by
  induction first generalizing walk with
  | nil => rfl
  | cons stmt rest ih =>
      simp only [List.cons_append, Stmt.resolveAll, Walking.bind_apply, Walking.pure_apply, ih]

/-- Statements behind accepted ones are resolved as they are by a resolver that knows the globals
known by then. -/
theorem Resolver.resolve_append (lines : Nat → Nat) {resolver later : Resolver}
    {first : List Stmt} (second : List Stmt) (accepted : (resolver.resolve first).error = none)
    (alongside : later.Alongside (resolver.resolve first).resolver) :
    (resolver.resolve (first ++ Stmt.retouchAll (.lines lines) second)).error =
      (later.resolve second).error.map (ResolveError.renumber lines) ∧
    (resolver.resolve (first ++ Stmt.retouchAll (.lines lines) second)).statements =
      (resolver.resolve first).statements ++
        Stmt.retouchAll (.lines lines) (later.resolve second).statements := by
  let start : Walk := ⟨resolver, none, #[.beginning first.length]⟩
  let whole : Walk := ⟨resolver, none,
    #[.beginning (first ++ Stmt.retouchAll (.lines lines) second).length]⟩
  have starts : start.Alongside id whole := ⟨⟨rfl, rfl, rfl, fun _ => Iff.rfl⟩, rfl⟩
  -- the notes differ from the start on, and nothing else does
  obtain ⟨same, passed⟩ := Stmt.resolveAll_follows first start whole starts
  rw [Stmt.renumberAll_id, Stmt.renumberAll_id] at same
  rw [Stmt.renumberAll_id] at passed
  have running : (Stmt.resolveAll first whole).2.stopped = none := by
    rw [passed.stopped, show (Stmt.resolveAll first start).2.stopped = none from accepted]
    rfl
  have begins : Walk.Alongside lines ⟨later, none, #[.beginning second.length]⟩
      (Stmt.resolveAll first whole).2 :=
    ⟨⟨passed.resolver.scopes.trans alongside.scopes,
      passed.resolver.inFunction.trans alongside.inFunction,
      passed.resolver.initializing.trans alongside.initializing,
      fun name => (passed.resolver.known name).trans (alongside.known name)⟩, running⟩
  obtain ⟨same', passed'⟩ := Stmt.resolveAll_follows second _ _ begins
  have split := Stmt.resolveAll_append first (Stmt.retouchAll (.lines lines) second) whole
  constructor
  · change (Stmt.resolveAll (first ++ Stmt.retouchAll (.lines lines) second) whole).2.stopped = _
    rw [split]
    exact passed'.stopped
  · change (Stmt.resolveAll (first ++ Stmt.retouchAll (.lines lines) second) whole).1 = _
    rw [split, same, same']
    rfl

end LexicalScript
