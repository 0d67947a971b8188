import LexicalScript.Proofs.Positions

/-!
Walks that stop.

An action of the resolver on a walk that has stopped leaves its error as it is.  A walk through an
expression stops at the first occurrence that the resolver objects to, and changes nothing else.
-/

set_option autoImplicit false

namespace LexicalScript

/-! ### A stopped walk keeps its error -/

/-- A step that does not replace the error of a stopped walk. -/
def Walking.Sticky {α : Type} (action : Walking α) : Prop :=
  ∀ walk error, walk.stopped = some error → (action walk).2.stopped = some error

namespace Walking

variable {α β : Type}

theorem Sticky.pure (result : α) : (Pure.pure result : Walking α).Sticky :=
  fun _ _ stopped => stopped

theorem Sticky.bind {first : Walking α} {next : α → Walking β} (sticky : first.Sticky)
    (after : ∀ result, (next result).Sticky) : (first >>= next).Sticky :=
  fun walk error stopped => after _ _ error (sticky walk error stopped)

theorem Sticky.map {first : Walking α} (sticky : first.Sticky) (change : α → β) :
    (change <$> first).Sticky :=
  sticky

theorem get_sticky : (get : Walking Walk).Sticky := fun _ _ stopped => stopped

theorem move_sticky (change : Resolver → Resolver) : (move change).Sticky :=
  fun _ _ stopped => stopped

theorem moveUnlessStopped_sticky (change : Resolver → Resolver) :
    (moveUnlessStopped change).Sticky := by
  intro walk error stopped
  rw [moveUnlessStopped_eq, stopped]
  exact stopped

theorem stop_sticky (cause : ResolveCause) (line : Nat) : (stop cause line).Sticky := by
  intro walk error stopped
  rw [stop_eq, stopped]
  exact stopped

theorem stop_running (cause : ResolveCause) (line : Nat) (walk : Walk)
    (running : walk.stopped = none) : (stop cause line walk).2.stopped = some ⟨cause, line⟩ := by
  rw [stop_eq, running]

theorem locate_sticky (name : Token) (old : Option Nat) : (locate name old).Sticky := by
  intro walk error stopped
  unfold locate
  rw [stopped]
  exact stopped

theorem read_sticky (name : Token) (old : Option Nat) : (read name old).Sticky := by
  unfold read
  refine get_sticky.bind fun walk => ?_
  split
  · exact (stop_sticky _ _).bind fun _ => Sticky.pure old
  · refine (locate_sticky name old).bind fun depth => ?_
    split
    · exact (stop_sticky _ _).bind fun _ => Sticky.pure depth
    · exact Sticky.pure depth

theorem declare_sticky (name : Token) : (declare name).Sticky := by
  unfold declare
  refine get_sticky.bind fun walk => ?_
  split
  · exact Sticky.pure ()
  · split
    · exact stop_sticky _ _
    · exact moveUnlessStopped_sticky _

theorem define_sticky (name : Token) : (define name).Sticky := moveUnlessStopped_sticky _

theorem inScope_sticky {body : Walking α} (sticky : body.Sticky) : (inScope body).Sticky :=
  (move_sticky _).bind fun _ => sticky.bind fun _ => (move_sticky _).bind fun _ => Sticky.pure _

theorem inFunction_sticky {body : Walking α} (sticky : body.Sticky) : (inFunction body).Sticky :=
  get_sticky.bind fun _ => (move_sticky _).bind fun _ => (inScope_sticky sticky).bind fun _ =>
    (move_sticky _).bind fun _ => Sticky.pure _

theorem inInitializer_sticky (name : Token) {body : Walking α} (sticky : body.Sticky) :
    (inInitializer name body).Sticky :=
  (move_sticky _).bind fun _ => sticky.bind fun _ => (move_sticky _).bind fun _ => Sticky.pure _

theorem bindParameters_sticky (parameters : List Token) : (bindParameters parameters).Sticky := by
  induction parameters with
  | nil => exact Sticky.pure ()
  | cons parameter rest ih =>
      exact (declare_sticky parameter).bind fun _ => (define_sticky parameter).bind fun _ => ih

end Walking

open Walking (Sticky)

mutual

theorem Expr.resolve_sticky : (expr : Expr) → expr.resolve.Sticky
  | .literal _ => Sticky.pure _
  | .unary _ operand => operand.resolve_sticky.bind fun _ => Sticky.pure _
  | .binary left _ right | .logical left _ right | .index left _ right =>
      left.resolve_sticky.bind fun _ => right.resolve_sticky.bind fun _ => Sticky.pure _
  | .grouping inner => inner.resolve_sticky.bind fun _ => Sticky.pure _
  | .reference name depth => (Walking.read_sticky name depth).bind fun _ => Sticky.pure _
  | .assign name value depth =>
      value.resolve_sticky.bind fun _ =>
        (Walking.locate_sticky name depth).bind fun _ => Sticky.pure _
  | .call callee _ arguments =>
      callee.resolve_sticky.bind fun _ =>
        (Expr.resolveAll_sticky arguments).bind fun _ => Sticky.pure _
  | .list _ elements => (Expr.resolveAll_sticky elements).bind fun _ => Sticky.pure _

theorem Expr.resolveAll_sticky : (exprs : List Expr) → (Expr.resolveAll exprs).Sticky
  | [] => Sticky.pure _
  | expr :: rest =>
      expr.resolve_sticky.bind fun _ => (Expr.resolveAll_sticky rest).bind fun _ => Sticky.pure _

end

theorem Expr.resolveOption_sticky (found : Option Expr) : (Expr.resolveOption found).Sticky := by
  cases found with
  | none => exact Sticky.pure none
  | some expr => exact expr.resolve_sticky.bind fun _ => Sticky.pure _

mutual

theorem Stmt.resolve_sticky : (stmt : Stmt) → stmt.resolve.Sticky
  | .expression expr | .print expr => expr.resolve_sticky.bind fun _ => Sticky.pure _
  | .var name none =>
      (Walking.declare_sticky name).bind fun _ => (Sticky.pure none).bind fun _ =>
        (Walking.define_sticky name).bind fun _ => Sticky.pure _
  | .var name (some expr) =>
      (Walking.declare_sticky name).bind fun _ =>
        ((Walking.inInitializer_sticky name expr.resolve_sticky).map some).bind fun _ =>
          (Walking.define_sticky name).bind fun _ => Sticky.pure _
  | .block body =>
      (Walking.inScope_sticky (Stmt.resolveAll_sticky body)).bind fun _ => Sticky.pure _
  | .conditional condition thenBranch elseBranch =>
      condition.resolve_sticky.bind fun _ => thenBranch.resolve_sticky.bind fun _ =>
        (Stmt.resolveOption_sticky elseBranch).bind fun _ => Sticky.pure _
  | .loop condition body =>
      condition.resolve_sticky.bind fun _ => body.resolve_sticky.bind fun _ => Sticky.pure _
  | .function name parameters body =>
      (Walking.declare_sticky name).bind fun _ => (Walking.define_sticky name).bind fun _ =>
        (Walking.inFunction_sticky ((Walking.bindParameters_sticky parameters).bind fun _ =>
          Stmt.resolveAll_sticky body)).bind fun _ => Sticky.pure _
  | .returnValue keyword value => by
      unfold Stmt.resolve
      refine Walking.get_sticky.bind fun walk => ?_
      have rest := (Expr.resolveOption_sticky value).bind fun value =>
        Sticky.pure (Stmt.returnValue keyword value)
      split
      · exact rest
      · exact (Walking.stop_sticky _ _).bind fun _ => rest

theorem Stmt.resolveOption_sticky : (found : Option Stmt) → (Stmt.resolveOption found).Sticky
  | none => Sticky.pure _
  | some stmt => stmt.resolve_sticky.bind fun _ => Sticky.pure _

theorem Stmt.resolveAll_sticky : (statements : List Stmt) → (Stmt.resolveAll statements).Sticky
  | [] => Sticky.pure _
  | stmt :: rest =>
      stmt.resolve_sticky.bind fun _ => (Stmt.resolveAll_sticky rest).bind fun _ => Sticky.pure _

end

/-! ### Expressions -/

/-- What a walk at the given position objects to in an occurrence. -/
def Resolver.objection? (resolver : Resolver) (found : Occurrence) : Option ResolveError :=
  if found.assigned then none
  else if resolver.scopes.head?.any fun scope => scope.lookup found.name.lexeme == some false then
    some ⟨.localInOwnInitializer found.name.lexeme, found.name.line⟩
  else if (resolver.depth? found.name.lexeme).isNone &&
      resolver.initializing == some found.name.lexeme then
    some ⟨.globalInOwnInitializer found.name.lexeme, found.name.line⟩
  else none

/-- A step that stays at its position and stops at the first objection to the occurrences. -/
structure Walking.Objects {α : Type} (action : Walking α) (occurrences : List Occurrence) :
    Prop where
  still : action.Still
  sticky : action.Sticky
  stopped : ∀ walk, walk.stopped = none →
    (action walk).2.stopped = occurrences.findSome? walk.resolver.objection?

namespace Walking.Objects

variable {α β : Type} {occurrences occurrences' : List Occurrence}

theorem pure (result : α) : Objects (Pure.pure result) [] :=
  ⟨Still.pure result, Sticky.pure result, fun _ running => running⟩

theorem bind {first : Walking α} {next : α → Walking β} (objects : first.Objects occurrences)
    (after : ∀ result, (next result).Objects occurrences') :
    (first >>= next).Objects (occurrences ++ occurrences') where
  still := objects.still.bind fun result => (after result).still
  sticky := objects.sticky.bind fun result => (after result).sticky
  stopped walk running := by
    rw [Walking.bind_apply, List.findSome?_append, ← objects.stopped walk running]
    cases ended : (first walk).2.stopped with
    | some error => exact (after _).sticky _ error ended
    | none =>
        rw [(after _).stopped _ ended, objects.still.resolver]
        rfl

theorem map {first : Walking α} (objects : first.Objects occurrences) (change : α → β) :
    (first >>= fun result => Pure.pure (change result)).Objects occurrences := by
  have mapped := objects.bind fun result => pure (change result)
  rwa [List.append_nil] at mapped

theorem locate (name : Token) (old : Option Nat) :
    (Walking.locate name old).Objects [⟨name, true, old⟩] where
  still := locate_still name old
  sticky := locate_sticky name old
  stopped walk running := by
    unfold Walking.locate
    rw [running]
    rfl

theorem read (name : Token) (old : Option Nat) :
    (Walking.read name old).Objects [⟨name, false, old⟩] where
  still := read_still name old
  sticky := read_sticky name old
  stopped walk running := by
    rw [List.findSome?_singleton]
    unfold Walking.read Resolver.objection?
    rw [bind_apply, get_apply, if_neg Bool.false_ne_true]
    dsimp only
    split
    · exact stop_running _ _ walk running
    · rw [bind_apply]
      have located : (Walking.locate name old walk).1 = walk.resolver.depth? name.lexeme ∧
          (Walking.locate name old walk).2.stopped = none := by
        unfold Walking.locate
        rw [running]
        exact ⟨rfl, rfl⟩
      rw [located.1]
      split
      · exact stop_running _ _ _ located.2
      · exact located.2

end Walking.Objects

open Walking (Objects)

mutual

theorem Expr.resolve_objects : (expr : Expr) → expr.resolve.Objects expr.occurrences
  | .literal _ => .pure _
  | .unary _ operand => operand.resolve_objects.map _
  | .binary left _ right | .logical left _ right | .index left _ right =>
      left.resolve_objects.bind fun _ => right.resolve_objects.map _
  | .grouping inner => inner.resolve_objects.map _
  | .reference name depth => (Objects.read name depth).map _
  | .assign name value depth =>
      value.resolve_objects.bind fun _ => (Objects.locate name depth).map _
  | .call callee _ arguments =>
      callee.resolve_objects.bind fun _ => (Expr.resolveAll_objects arguments).map _
  | .list _ elements => (Expr.resolveAll_objects elements).map _

theorem Expr.resolveAll_objects : (exprs : List Expr) →
    (Expr.resolveAll exprs).Objects (Expr.occurrencesAll exprs)
  | [] => .pure _
  | expr :: rest => expr.resolve_objects.bind fun _ => (Expr.resolveAll_objects rest).map _

end

theorem Expr.resolveOption_objects (found : Option Expr) :
    (Expr.resolveOption found).Objects (Expr.occurrencesOption found) := by
  cases found with
  | none => exact .pure none
  | some expr => exact expr.resolve_objects.map _

end LexicalScript
