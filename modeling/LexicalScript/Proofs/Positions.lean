import LexicalScript.Proofs.Resolution

/-!
Positions of a program and what stands around them.

The positions are the declarations, the occurrences of names and the returns, in the order of the
text, except that a name that is assigned comes after the value.  Around a position stand lists of
statements: the innermost block or function first, the program last.  Each is cut at the statement
that the position is in, so that it shows what is declared before the position.
-/

set_option autoImplicit false

namespace LexicalScript

/-- What a list of statements belongs to. -/
inductive Region where
  | program
  | block
  | function (parameters : List Token)

namespace Region

def parameters : Region → List Token
  | .function parameters => parameters
  | _ => []

/-- Blocks and functions are scopes, the program is none. -/
def isScope : Region → Bool
  | .program => false
  | _ => true

def isFunction : Region → Bool
  | .function _ => true
  | _ => false

end Region

/-- A list of statements around a position: those in front of the one that the position is in, and
that one.  A parameter is in no statement, and only the parameters in front of it belong to the
region around it. -/
structure Enclosure where
  region : Region
  earlier : List Stmt
  own : Option Stmt

namespace Enclosure

/-- The parameters and the direct declarations in front of the statement that the position is in. -/
def before (enclosure : Enclosure) : List Token :=
  enclosure.region.parameters ++ enclosure.earlier.filterMap Stmt.declared?

/-- The declarations placed before the position: a variable is declared before its own initializer,
and a function before its own body. -/
def declared (enclosure : Enclosure) : List Token :=
  enclosure.before ++ (enclosure.own.bind Stmt.declared?).toList

/-- The names declared before the position, the last one first. -/
def names (enclosure : Enclosure) : List String :=
  (enclosure.declared.map Token.lexeme).reverse

end Enclosure

/-- What is found at a position. -/
inductive Site where
  | declaration (name : Token)
  | occurrence (found : Occurrence)
  | returning (keyword : Token)

structure Position where
  site : Site
  /-- Innermost first. -/
  around : List Enclosure

namespace Position

/-- The blocks and functions around a position, innermost first. -/
def scopes (position : Position) : List Enclosure :=
  position.around.filter (·.region.isScope)

def occurrence? (position : Position) : Option Occurrence :=
  match position.site with
  | .occurrence found => some found
  | _ => none

/-- The positions of occurrences that have the same surroundings. -/
def mentions (around : List Enclosure) (occurrences : List Occurrence) : List Position :=
  occurrences.map fun found => ⟨.occurrence found, around⟩

/-- The positions of parameters, each behind those in front of it. -/
def parameters (outer : List Enclosure) : List Token → List Token → List Position
  | _, [] => []
  | before, parameter :: rest =>
      ⟨.declaration parameter, ⟨.function before, [], none⟩ :: outer⟩ ::
        parameters outer (before ++ [parameter]) rest

end Position

mutual

/-- The positions of a statement. -/
def Stmt.positions (around : List Enclosure) : Stmt → List Position
  | .expression expr => Position.mentions around expr.occurrences
  | .print expr => Position.mentions around expr.occurrences
  | .var name initializer =>
      ⟨.declaration name, around⟩ :: Position.mentions around (Expr.occurrencesOption initializer)
  | .block body => Stmt.positionsAll .block around [] body
  | .conditional condition thenBranch elseBranch =>
      Position.mentions around condition.occurrences ++ thenBranch.positions around ++
        Stmt.positionsOption around elseBranch
  | .loop condition body => Position.mentions around condition.occurrences ++ body.positions around
  | .function name parameters body =>
      ⟨.declaration name, around⟩ ::
        (Position.parameters around [] parameters ++
          Stmt.positionsAll (.function parameters) around [] body)
  | .returnValue keyword value =>
      ⟨.returning keyword, around⟩ :: Position.mentions around (Expr.occurrencesOption value)

def Stmt.positionsOption (around : List Enclosure) : Option Stmt → List Position
  | none => []
  | some stmt => stmt.positions around

/-- The positions of statements that stand in a region behind the given ones. -/
def Stmt.positionsAll (region : Region) (outer : List Enclosure) (earlier : List Stmt) :
    List Stmt → List Position
  | [] => []
  | stmt :: rest =>
      stmt.positions (⟨region, earlier, some stmt⟩ :: outer) ++
        Stmt.positionsAll region outer (earlier ++ [stmt]) rest

end

def programPositions (statements : List Stmt) : List Position :=
  Stmt.positionsAll .program [] [] statements

/-! ### Every occurrence has a position -/

namespace Position

theorem occurrence?_mentions (around : List Enclosure) (occurrences : List Occurrence) :
    (mentions around occurrences).filterMap occurrence? = occurrences := by
  unfold mentions
  rw [List.filterMap_map]
  exact List.filterMap_some

theorem occurrence?_parameters (outer : List Enclosure) (before parameters : List Token) :
    (Position.parameters outer before parameters).filterMap occurrence? = [] := by
  induction parameters generalizing before with
  | nil => rfl
  | cons parameter rest ih => exact ih (before ++ [parameter])

end Position

mutual

theorem Stmt.occurrence?_positions (stmt : Stmt) (around : List Enclosure) :
    (stmt.positions around).filterMap Position.occurrence? = stmt.occurrences := by
  cases stmt with
  | expression expr | print expr => exact Position.occurrence?_mentions around _
  | var name initializer | returnValue name initializer =>
      exact Position.occurrence?_mentions around _
  | block body => exact Stmt.occurrence?_positionsAll body .block around []
  | conditional condition thenBranch elseBranch =>
      unfold Stmt.positions Stmt.occurrences
      rw [List.filterMap_append, List.filterMap_append, Position.occurrence?_mentions,
        Stmt.occurrence?_positions thenBranch, Stmt.occurrence?_positionsOption elseBranch]
  | loop condition body =>
      unfold Stmt.positions Stmt.occurrences
      rw [List.filterMap_append, Position.occurrence?_mentions, Stmt.occurrence?_positions body]
  | function name parameters body =>
      change (Position.parameters around [] parameters ++ _).filterMap Position.occurrence? = _
      rw [List.filterMap_append, Position.occurrence?_parameters, List.nil_append]
      exact Stmt.occurrence?_positionsAll body (.function parameters) around []

theorem Stmt.occurrence?_positionsOption (stmt : Option Stmt) (around : List Enclosure) :
    (Stmt.positionsOption around stmt).filterMap Position.occurrence? =
      Stmt.occurrencesOption stmt := by
  cases stmt with
  | none => rfl
  | some stmt => exact Stmt.occurrence?_positions stmt around

theorem Stmt.occurrence?_positionsAll (statements : List Stmt) (region : Region)
    (outer : List Enclosure) (earlier : List Stmt) :
    (Stmt.positionsAll region outer earlier statements).filterMap Position.occurrence? =
      Stmt.occurrencesAll statements := by
  cases statements with
  | nil => rfl
  | cons stmt rest =>
      unfold Stmt.positionsAll Stmt.occurrencesAll
      rw [List.filterMap_append, Stmt.occurrence?_positions stmt,
        Stmt.occurrence?_positionsAll rest]

end

/-! ### The names around a position -/

/-- The names that the scopes around a position declare before it. -/
def scopeNames (around : List Enclosure) : Scopes :=
  (around.filter (·.region.isScope)).map Enclosure.names

theorem scopeNames_cons (inner : Enclosure) (outer : List Enclosure) :
    scopeNames (inner :: outer) =
      if inner.region.isScope then inner.names :: scopeNames outer else scopeNames outer := by
  unfold scopeNames
  rw [List.filter_cons]
  split <;> rfl

theorem Enclosure.names_own (region : Region) (earlier : List Stmt) (own : Option Stmt) :
    (Enclosure.mk region earlier own).names =
      ((own.bind Stmt.declared?).map Token.lexeme).toList ++
        (Enclosure.mk region earlier none).names := by
  unfold Enclosure.names Enclosure.declared
  cases own.bind Stmt.declared? <;> simp [Enclosure.before]

theorem Enclosure.names_behind (region : Region) (earlier : List Stmt) (stmt : Stmt) :
    (Enclosure.mk region (earlier ++ [stmt]) none).names =
      (Enclosure.mk region earlier (some stmt)).names := by
  unfold Enclosure.names Enclosure.declared Enclosure.before
  cases declared : stmt.declared? <;> simp [declared]

/-- A statement adds the name that it declares to the innermost scope.  The program, which is no
scope, stands outermost. -/
theorem scopeNames_own {region : Region} {outer : List Enclosure}
    (rooted : region.isScope = true ∨ outer = []) (earlier : List Stmt) (own : Option Stmt) :
    scopeNames (⟨region, earlier, own⟩ :: outer) =
      (scopeNames (⟨region, earlier, none⟩ :: outer)).extend (own.bind Stmt.declared?) := by
  rw [scopeNames_cons, scopeNames_cons, Enclosure.names_own]
  split
  · cases own.bind Stmt.declared? <;> rfl
  · rename_i notScope
    rw [rooted.resolve_left notScope]
    cases own.bind Stmt.declared? <;> rfl

/-- Behind a statement its declaration is one of the earlier ones. -/
theorem scopeNames_behind (region : Region) (outer : List Enclosure) (earlier : List Stmt)
    (stmt : Stmt) :
    scopeNames (⟨region, earlier ++ [stmt], none⟩ :: outer) =
      scopeNames (⟨region, earlier, some stmt⟩ :: outer) := by
  rw [scopeNames_cons, scopeNames_cons, Enclosure.names_behind]

/-- At the start of a block or function only the parameters are declared in it. -/
theorem scopeNames_entered {region : Region} (isScope : region.isScope = true)
    (outer : List Enclosure) :
    scopeNames (⟨region, [], none⟩ :: outer) =
      parameterNames region.parameters :: scopeNames outer := by
  rw [scopeNames_cons, if_pos isScope]
  simp [Enclosure.names, Enclosure.declared, Enclosure.before, parameterNames]

end LexicalScript
