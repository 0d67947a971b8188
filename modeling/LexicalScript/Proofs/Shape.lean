import LexicalScript.Proofs.ParsedTrees
import LexicalScript.Proofs.Retouch

/-!
The shape of parsed statements.

A declaration stands in a list of statements and never alone as the branch of a conditional or the
body of a loop.  The grammar has no such place for one, so every statement that the parser returns
has this shape, whether or not errors were recorded on the way.  Nor does the parser give any
occurrence of a name a depth.
-/

set_option autoImplicit false

namespace LexicalScript

mutual

/-- Branches and loop bodies inside the statement are no declarations. -/
def Stmt.Proper : Stmt → Prop
  | .block body => Stmt.ProperAll body
  | .conditional _ thenBranch elseBranch =>
      (thenBranch.declared? = none ∧ thenBranch.Proper) ∧ Stmt.ProperBranch elseBranch
  | .loop _ body => body.declared? = none ∧ body.Proper
  | .function _ _ body => Stmt.ProperAll body
  | _ => True

/-- A branch that may be missing is proper and no declaration. -/
def Stmt.ProperBranch : Option Stmt → Prop
  | none => True
  | some stmt => stmt.declared? = none ∧ stmt.Proper

/-- All statements of a list are proper. -/
def Stmt.ProperAll : List Stmt → Prop
  | [] => True
  | stmt :: rest => stmt.Proper ∧ Stmt.ProperAll rest

end

/-! ### Trees without depths -/

theorem Expr.retouchAll_erasing {exprs : List Expr}
    (each : ∀ expr, expr ∈ exprs → expr.Unresolved) :
    Expr.retouchAll .erasing exprs = exprs := by
  induction exprs with
  | nil => rfl
  | cons expr rest ih =>
      obtain ⟨first, others⟩ := List.forall_mem_cons.mp each
      simp only [Expr.retouchAll]
      rw [first, ih others]

theorem Expr.retouchOption_erasing {found : Option Expr}
    (each : ∀ expr, found = some expr → expr.Unresolved) :
    Expr.retouchOption .erasing found = found := by
  cases found with
  | none => rfl
  | some expr => exact congrArg some (each expr rfl)

/-- A statement that may stand in a list of statements. -/
structure Stmt.Shaped (stmt : Stmt) : Prop where
  proper : stmt.Proper
  unresolved : stmt.Unresolved

/-- All statements of a list may stand in it. -/
structure Stmt.ShapedAll (statements : List Stmt) : Prop where
  proper : Stmt.ProperAll statements
  unresolved : Stmt.retouchAll .erasing statements = statements

theorem Stmt.ShapedAll.of_forall {statements : List Stmt}
    (each : ∀ stmt, stmt ∈ statements → stmt.Shaped) : Stmt.ShapedAll statements := by
  induction statements with
  | nil => exact ⟨trivial, rfl⟩
  | cons stmt rest ih =>
      obtain ⟨first, others⟩ := List.forall_mem_cons.mp each
      refine ⟨⟨first.proper, (ih others).proper⟩, ?_⟩
      simp only [Stmt.retouchAll]
      rw [first.unresolved, (ih others).unresolved]

/-! ### Parsed trees -/

/-- Trees without depths in which branches and loop bodies are no declarations. -/
def shapedTrees : TreeLaws fun _ => True where
  expr := Expr.Unresolved
  stmt := Stmt.Shaped
  literal _ _ := rfl
  always := rfl
  unary _ _ held := by
    simp only [Expr.Unresolved, Expr.retouch]
    rw [held]
    rfl
  binary _ _ held held' := by
    simp only [Expr.Unresolved, Expr.retouch]
    rw [held, held']
    rfl
  logical _ _ held held' := by
    simp only [Expr.Unresolved, Expr.retouch]
    rw [held, held']
    rfl
  grouping held := congrArg Expr.grouping held
  reference _ _ := rfl
  assign _ held := by
    simp only [Expr.Unresolved, Expr.retouch]
    rw [held]
    rfl
  call held _ _ each := by
    simp only [Expr.Unresolved, Expr.retouch]
    rw [held, Expr.retouchAll_erasing each]
    rfl
  list _ _ each := by
    simp only [Expr.Unresolved, Expr.retouch]
    rw [Expr.retouchAll_erasing each]
    rfl
  index held _ _ held' := by
    simp only [Expr.Unresolved, Expr.retouch]
    rw [held, held']
    rfl
  expression held := ⟨trivial, congrArg Stmt.expression held⟩
  print held := ⟨trivial, congrArg Stmt.print held⟩
  var _ _ each := by
    refine ⟨trivial, ?_⟩
    simp only [Stmt.Unresolved, Stmt.retouch]
    rw [Expr.retouchOption_erasing each]
    rfl
  block each :=
    have body := Stmt.ShapedAll.of_forall each
    ⟨body.proper, congrArg Stmt.block body.unresolved⟩
  conditional := by
    rintro condition thenBranch elseBranch held ⟨first, plain⟩ second
    cases elseBranch with
    | none =>
        refine ⟨⟨⟨plain, first.proper⟩, trivial⟩, ?_⟩
        simp only [Stmt.Unresolved, Stmt.retouch, Stmt.retouchOption]
        rw [held, first.unresolved]
    | some other =>
        obtain ⟨shaped, plain'⟩ := second other rfl
        refine ⟨⟨⟨plain, first.proper⟩, plain', shaped.proper⟩, ?_⟩
        simp only [Stmt.Unresolved, Stmt.retouch, Stmt.retouchOption]
        rw [held, first.unresolved, shaped.unresolved]
  loop held body := by
    refine ⟨⟨body.2, body.1.proper⟩, ?_⟩
    simp only [Stmt.Unresolved, Stmt.retouch]
    rw [held, body.1.unresolved]
  function _ _ _ each := by
    have body := Stmt.ShapedAll.of_forall each
    refine ⟨body.proper, ?_⟩
    simp only [Stmt.Unresolved, Stmt.retouch]
    rw [body.unresolved, show Retouch.erasing.token = id from rfl, List.map_id]
    rfl
  returnValue _ _ each := by
    refine ⟨trivial, ?_⟩
    simp only [Stmt.Unresolved, Stmt.retouch]
    rw [Expr.retouchOption_erasing each]
    rfl

/-- Every statement of a parsed program is proper and without depths, whether or not errors were
recorded. -/
theorem Parser.program_shaped (tokens : List Token) :
    Stmt.ShapedAll (Parser.program tokens).statements :=
  .of_forall (Parser.program_yields shapedTrees tokens)

end LexicalScript
