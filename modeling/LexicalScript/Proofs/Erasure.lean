import LexicalScript.Proofs.Resolution

/-!
Resolution writes depths and changes nothing else: a resolved tree and the tree it was made from are
the same once all depths are erased.
-/

set_option autoImplicit false

namespace LexicalScript

mutual

theorem Expr.erase_resolve (expr : Expr) (walk : Walk) :
    (expr.resolve walk).1.retouch .erasing = expr.retouch .erasing := by
  cases expr with
  | literal value => rfl
  | reference name depth => rfl
  | unary operator operand =>
      simp only [Expr.resolve, Walking.bind_apply, Walking.pure_apply, Expr.retouch]
      rw [Expr.erase_resolve operand]
  | grouping inner =>
      simp only [Expr.resolve, Walking.bind_apply, Walking.pure_apply, Expr.retouch]
      rw [Expr.erase_resolve inner]
  | binary left operator right | logical left operator right | index left operator right =>
      simp only [Expr.resolve, Walking.bind_apply, Walking.pure_apply, Expr.retouch]
      rw [Expr.erase_resolve left, Expr.erase_resolve right]
  | assign name value depth =>
      simp only [Expr.resolve, Walking.bind_apply, Walking.pure_apply, Expr.retouch]
      rw [Expr.erase_resolve value]
      rfl
  | call callee paren arguments =>
      simp only [Expr.resolve, Walking.bind_apply, Walking.pure_apply, Expr.retouch]
      rw [Expr.erase_resolve callee, Expr.erase_resolveAll arguments]
  | list bracket elements =>
      simp only [Expr.resolve, Walking.bind_apply, Walking.pure_apply, Expr.retouch]
      rw [Expr.erase_resolveAll elements]

theorem Expr.erase_resolveAll (exprs : List Expr) (walk : Walk) :
    Expr.retouchAll .erasing (Expr.resolveAll exprs walk).1 = Expr.retouchAll .erasing exprs := by
  cases exprs with
  | nil => rfl
  | cons expr rest =>
      simp only [Expr.resolveAll, Walking.bind_apply, Walking.pure_apply, Expr.retouchAll]
      rw [Expr.erase_resolve expr, Expr.erase_resolveAll rest]

end

theorem Expr.erase_resolveOption (expr : Option Expr) (walk : Walk) :
    Expr.retouchOption .erasing (Expr.resolveOption expr walk).1 =
      Expr.retouchOption .erasing expr := by
  cases expr with
  | none => rfl
  | some expr =>
      simp only [Expr.resolveOption, Walking.bind_apply, Walking.pure_apply, Expr.retouchOption]
      rw [Expr.erase_resolve expr]

mutual

theorem Stmt.erase_resolve (stmt : Stmt) (walk : Walk) :
    (stmt.resolve walk).1.retouch .erasing = stmt.retouch .erasing := by
  cases stmt with
  | expression expr | print expr =>
      simp only [Stmt.resolve, Walking.bind_apply, Walking.pure_apply, Stmt.retouch]
      rw [Expr.erase_resolve expr]
  | var name initializer =>
      cases initializer with
      | none => rfl
      | some expr =>
          simp only [Stmt.resolve, Walking.inInitializer, Walking.bind_apply, Walking.pure_apply,
            Walking.map_apply, Stmt.retouch, Expr.retouchOption]
          rw [Expr.erase_resolve expr]
  | block body =>
      simp only [Stmt.resolve, Walking.inScope, Walking.bind_apply, Walking.pure_apply,
        Stmt.retouch]
      rw [Stmt.erase_resolveAll body]
  | conditional condition thenBranch elseBranch =>
      simp only [Stmt.resolve, Walking.bind_apply, Walking.pure_apply, Stmt.retouch]
      rw [Expr.erase_resolve condition, Stmt.erase_resolve thenBranch,
        Stmt.erase_resolveOption elseBranch]
  | loop condition body =>
      simp only [Stmt.resolve, Walking.bind_apply, Walking.pure_apply, Stmt.retouch]
      rw [Expr.erase_resolve condition, Stmt.erase_resolve body]
  | function name parameters body =>
      simp only [Stmt.resolve, Walking.inFunction, Walking.inScope, Walking.bind_apply,
        Walking.pure_apply, Stmt.retouch]
      rw [Stmt.erase_resolveAll body]
  | returnValue keyword value =>
      simp only [Stmt.resolve, Walking.bind_apply]
      split
      all_goals
        simp only [Walking.bind_apply, Walking.pure_apply, Stmt.retouch]
        rw [Expr.erase_resolveOption value]

theorem Stmt.erase_resolveOption (stmt : Option Stmt) (walk : Walk) :
    Stmt.retouchOption .erasing (Stmt.resolveOption stmt walk).1 =
      Stmt.retouchOption .erasing stmt := by
  cases stmt with
  | none => rfl
  | some stmt =>
      simp only [Stmt.resolveOption, Walking.bind_apply, Walking.pure_apply, Stmt.retouchOption]
      rw [Stmt.erase_resolve stmt]

theorem Stmt.erase_resolveAll (statements : List Stmt) (walk : Walk) :
    Stmt.retouchAll .erasing (Stmt.resolveAll statements walk).1 =
      Stmt.retouchAll .erasing statements := by
  cases statements with
  | nil => rfl
  | cons stmt rest =>
      simp only [Stmt.resolveAll, Walking.bind_apply, Walking.pure_apply, Stmt.retouchAll]
      rw [Stmt.erase_resolve stmt, Stmt.erase_resolveAll rest]

end

/-- Resolution changes depths only. -/
theorem Resolver.erase_resolve (resolver : Resolver) (statements : List Stmt) :
    Stmt.retouchAll .erasing (resolver.resolve statements).statements =
      Stmt.retouchAll .erasing statements :=
  Stmt.erase_resolveAll statements _

end LexicalScript
