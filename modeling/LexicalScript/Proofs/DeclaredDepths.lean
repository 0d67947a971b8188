import LexicalScript.Proofs.Erasure
import LexicalScript.Proofs.Positions
import LexicalScript.Proofs.Recovery

/-!
Depths count the scopes up to the declaration.

Which scope declares a name is read off the program text around the occurrence, without a walk: the
scopes are searched from the innermost outwards for a declaration placed before the occurrence.
Resolution gives every occurrence of an accepted program the number that this search gives.
-/

set_option autoImplicit false

namespace LexicalScript

/-- The enclosure declares the name before the position that it is cut at. -/
def Enclosure.Declares (enclosure : Enclosure) (name : String) : Prop :=
  ∃ declaration, declaration ∈ enclosure.declared ∧ declaration.lexeme = name

/-- The scope with the given number, counted outwards, is the first to declare the name before the
position. -/
structure Position.DeclaredAt (position : Position) (name : String) (depth : Nat) : Prop where
  declares : ∃ scope, position.scopes[depth]? = some scope ∧ scope.Declares name
  nearest : ∀ nearer scope, nearer < depth → position.scopes[nearer]? = some scope →
    ¬ scope.Declares name

theorem Enclosure.contains_names {enclosure : Enclosure} {name : String} :
    enclosure.names.contains name = true ↔ enclosure.Declares name := by
  unfold Enclosure.names Enclosure.Declares
  rw [List.contains_iff_mem, List.mem_reverse, List.mem_map]

namespace Position

variable {position : Position} {name : String}

/-- Searching the names of the scopes finds the first scope with a declaration. -/
theorem locate_eq_some_iff {depth : Nat} :
    (scopeNames position.around).locate name = some depth ↔ position.DeclaredAt name depth := by
  change ((position.scopes.map Enclosure.names).findIdx? (·.contains name)) = some depth ↔ _
  rw [List.findIdx?_map, List.findIdx?_eq_some_iff_getElem]
  constructor
  · rintro ⟨within, found, nearer⟩
    refine ⟨⟨position.scopes.get ⟨depth, within⟩, List.getElem?_eq_getElem within,
      Enclosure.contains_names.mp found⟩, ?_⟩
    intro index scope less located declares
    obtain ⟨inside, rfl⟩ := List.getElem?_eq_some_iff.mp located
    exact nearer index less (Enclosure.contains_names.mpr declares)
  · rintro ⟨⟨scope, located, declares⟩, nearest⟩
    obtain ⟨within, rfl⟩ := List.getElem?_eq_some_iff.mp located
    refine ⟨within, Enclosure.contains_names.mpr declares, ?_⟩
    intro index less found
    have inside : index < position.scopes.length := Nat.lt_trans less within
    exact nearest index _ less (List.getElem?_eq_getElem inside) (Enclosure.contains_names.mp found)

theorem locate_eq_none_iff :
    (scopeNames position.around).locate name = none ↔
      ∀ scope, scope ∈ position.scopes → ¬ scope.Declares name := by
  change ((position.scopes.map Enclosure.names).findIdx? (·.contains name)) = none ↔ _
  rw [List.findIdx?_map, List.findIdx?_eq_none_iff]
  refine forall₂_congr fun scope _ => ?_
  rw [← Enclosure.contains_names, Bool.not_eq_true]
  rfl

end Position

/-! ### Scoped trees have the depths of the text -/

/-- Every occurrence among the positions has the distance to the scope that declares it. -/
def Located (positions : List Position) : Prop :=
  ∀ position, position ∈ positions → ∀ found, position.occurrence? = some found →
    found.depth = (scopeNames position.around).locate found.name.lexeme

namespace Located

variable {around : List Enclosure} {positions positions' : List Position}

theorem nil : Located [] := by
  intro position member
  exact absurd member List.not_mem_nil

theorem append (first : Located positions) (second : Located positions') :
    Located (positions ++ positions') := by
  intro position member
  rcases List.mem_append.mp member with early | late
  · exact first position early
  · exact second position late

theorem declaration {name : Token} (rest : Located positions) :
    Located (⟨.declaration name, around⟩ :: positions) := by
  intro position member found occurs
  rcases List.mem_cons.mp member with rfl | later
  · cases occurs
  · exact rest position later found occurs

theorem returning {keyword : Token} (rest : Located positions) :
    Located (⟨.returning keyword, around⟩ :: positions) := by
  intro position member found occurs
  rcases List.mem_cons.mp member with rfl | later
  · cases occurs
  · exact rest position later found occurs

theorem parameters (outer : List Enclosure) (before parameters : List Token) :
    Located (Position.parameters outer before parameters) := by
  induction parameters generalizing before with
  | nil => exact .nil
  | cons parameter rest ih => exact (ih (before ++ [parameter])).declaration

theorem mentions {occurrences : List Occurrence}
    (located : ∀ found, found ∈ occurrences →
      found.depth = (scopeNames around).locate found.name.lexeme) :
    Located (Position.mentions around occurrences) := by
  intro position member found occurs
  obtain ⟨own, within, rfl⟩ := List.mem_map.mp member
  cases occurs
  exact located _ within

end Located

section Expressions

variable {scopes : Scopes} {pending : Option String}

mutual

theorem Expr.Scoped.located : (expr : Expr) → expr.Scoped scopes pending →
    ∀ found, found ∈ expr.occurrences → found.depth = scopes.locate found.name.lexeme
  | .literal _, _, _, member => nomatch member
  | .unary _ operand, placed, found, member =>
      Expr.Scoped.located operand placed found member
  | .grouping inner, placed, found, member => Expr.Scoped.located inner placed found member
  | .binary left _ right, placed, found, member
  | .logical left _ right, placed, found, member
  | .index left _ right, placed, found, member =>
      (List.mem_append.mp member).elim (Expr.Scoped.located left placed.1 found)
        (Expr.Scoped.located right placed.2 found)
  | .reference _ _, placed, found, member => by
      rw [List.mem_singleton.mp member]
      exact placed.1
  | .assign _ value _, placed, found, member => by
      rcases List.mem_append.mp member with inValue | own
      · exact Expr.Scoped.located value placed.1 found inValue
      · rw [List.mem_singleton.mp own]
        exact placed.2
  | .call callee _ arguments, placed, found, member =>
      (List.mem_append.mp member).elim (Expr.Scoped.located callee placed.1 found)
        (Expr.ScopedAll.located arguments placed.2 found)
  | .list _ elements, placed, found, member =>
      Expr.ScopedAll.located elements placed found member

theorem Expr.ScopedAll.located : (exprs : List Expr) → Expr.ScopedAll scopes pending exprs →
    ∀ found, found ∈ Expr.occurrencesAll exprs → found.depth = scopes.locate found.name.lexeme
  | [], _, _, member => nomatch member
  | expr :: rest, placed, found, member =>
      (List.mem_append.mp member).elim (Expr.Scoped.located expr placed.1 found)
        (Expr.ScopedAll.located rest placed.2 found)

end

theorem Expr.ScopedOption.located {expr : Option Expr}
    (placed : Expr.ScopedOption scopes pending expr) :
    ∀ found, found ∈ Expr.occurrencesOption expr →
      found.depth = scopes.locate found.name.lexeme := by
  cases expr with
  | none =>
      intro found member
      exact absurd member List.not_mem_nil
  | some expr => exact Expr.Scoped.located expr placed

end Expressions

mutual

/-- A scoped statement has the depths of the text, in whatever list it stands. -/
theorem Stmt.Scoped.located : (stmt : Stmt) → ∀ {region : Region} {earlier : List Stmt}
    {own : Option Stmt} {outer : List Enclosure}, (region.isScope = true ∨ outer = []) →
    own.bind Stmt.declared? = stmt.declared? →
    stmt.Scoped (scopeNames (⟨region, earlier, none⟩ :: outer)) →
    Located (stmt.positions (⟨region, earlier, own⟩ :: outer))
  | .expression expr, region, earlier, own, outer, rooted, declares, placed
  | .print expr, region, earlier, own, outer, rooted, declares, placed => by
      have names := scopeNames_own rooted earlier own
      rw [declares] at names
      exact .mentions (names ▸ Expr.Scoped.located expr placed)
  | .var _ _, region, earlier, own, outer, rooted, declares, placed => by
      have names := scopeNames_own rooted earlier own
      rw [declares] at names
      exact .declaration (.mentions (names ▸ Expr.ScopedOption.located placed.2))
  | .block body, region, earlier, own, outer, rooted, declares, placed => by
      have names := scopeNames_own rooted earlier own
      rw [declares] at names
      apply Stmt.ScopedAll.located body (Or.inl rfl)
      rw [scopeNames_entered rfl, names]
      exact placed
  | .conditional condition thenBranch elseBranch, region, earlier, own, outer, rooted, declares,
      placed => by
      have names := scopeNames_own rooted earlier own
      rw [declares] at names
      refine .append (.append (.mentions (names ▸ Expr.Scoped.located condition placed.1)) ?_) ?_
      · exact Stmt.Scoped.located thenBranch rooted (declares.trans placed.2.1.1.symm) placed.2.1.2
      · exact Stmt.ScopedBranch.located elseBranch rooted declares placed.2.2
  | .loop condition body, region, earlier, own, outer, rooted, declares, placed => by
      have names := scopeNames_own rooted earlier own
      rw [declares] at names
      refine .append (.mentions (names ▸ Expr.Scoped.located condition placed.1)) ?_
      exact Stmt.Scoped.located body rooted (declares.trans placed.2.1.symm) placed.2.2
  | .function name parameters body, region, earlier, own, outer, rooted, declares, placed => by
      have names := scopeNames_own rooted earlier own
      rw [declares] at names
      refine .declaration (.append (.parameters _ _ _) ?_)
      apply Stmt.ScopedAll.located body (Or.inl rfl)
      rw [scopeNames_entered rfl, names]
      exact placed.2.2
  | .returnValue _ _, region, earlier, own, outer, rooted, declares, placed => by
      have names := scopeNames_own rooted earlier own
      rw [declares] at names
      exact .returning (.mentions (names ▸ Expr.ScopedOption.located placed))

theorem Stmt.ScopedBranch.located : (branch : Option Stmt) → ∀ {region : Region}
    {earlier : List Stmt} {own : Option Stmt} {outer : List Enclosure},
    (region.isScope = true ∨ outer = []) → own.bind Stmt.declared? = none →
    Stmt.ScopedBranch (scopeNames (⟨region, earlier, none⟩ :: outer)) branch →
    Located (Stmt.positionsOption (⟨region, earlier, own⟩ :: outer) branch)
  | none, _, _, _, _, _, _, _ => .nil
  | some stmt, _, _, _, _, rooted, plain, placed =>
      Stmt.Scoped.located stmt rooted (plain.trans placed.1.symm) placed.2

theorem Stmt.ScopedAll.located : (statements : List Stmt) → ∀ {region : Region}
    {earlier : List Stmt} {outer : List Enclosure}, (region.isScope = true ∨ outer = []) →
    Stmt.ScopedAll (scopeNames (⟨region, earlier, none⟩ :: outer)) statements →
    Located (Stmt.positionsAll region outer earlier statements)
  | [], _, _, _, _, _ => .nil
  | stmt :: rest, region, earlier, outer, rooted, placed => by
      refine .append (Stmt.Scoped.located stmt rooted rfl placed.1) ?_
      apply Stmt.ScopedAll.located rest rooted
      rw [scopeNames_behind, scopeNames_own rooted]
      exact placed.2

end

/-- Resolution of a parsed program writes depths only, and writes to every occurrence of a name the
number of the innermost scope around it that declares the name before it, or none where no scope
does. -/
theorem accepted_depths_are_declared (known : List String) (tokens : List Token)
    (accepted : ((Resolver.ofGlobals known).resolve (Parser.program tokens).statements).error =
      none) :
    let resolved :=
      ((Resolver.ofGlobals known).resolve (Parser.program tokens).statements).statements
    Stmt.retouchAll .erasing resolved = (Parser.program tokens).statements ∧
    (programPositions resolved).filterMap Position.occurrence? = Stmt.occurrencesAll resolved ∧
    ∀ position, position ∈ programPositions resolved → ∀ found, position.occurrence? = some found →
      (∀ depth, found.depth = some depth ↔ position.DeclaredAt found.name.lexeme depth) ∧
      (found.depth = none ↔
        ∀ scope, scope ∈ position.scopes → ¬ scope.Declares found.name.lexeme) := by
  intro resolved
  have shaped := Parser.program_shaped tokens
  have placed := (Resolver.resolve_accepted known _ shaped.proper accepted).1
  refine ⟨?_, Stmt.occurrence?_positionsAll resolved .program [] [], ?_⟩
  · exact (Resolver.erase_resolve _ _).trans shaped.unresolved
  · intro position member found occurs
    have located : Located (programPositions resolved) :=
      Stmt.ScopedAll.located resolved (Or.inr rfl) placed
    rw [located position member found occurs]
    exact ⟨fun _ => Position.locate_eq_some_iff, Position.locate_eq_none_iff⟩

/-- A variable is read in an inner block before the block declares it again, so the outer
declaration is the one that counts; behind the inner declaration that one counts. -/
theorem accepted_depths_are_declared_shadowed :
    let source := "\x7b var a; fun f(b) \x7b \x7b a; var a = b; a; c = f; \x7d \x7d \x7d"
    let tokens := Parser.wordsOf source ++ [Token.endOfInput 1]
    let answer := (Resolver.ofGlobals []).resolve (Parser.program tokens).statements
    answer.error = none ∧
    (Stmt.occurrencesAll answer.statements).map Occurrence.depth =
      [some 2, some 1, some 0, some 2, none] ∧
    ∃ position found, position ∈ programPositions answer.statements ∧
      position.occurrence? = some found ∧ found.depth = some 2 ∧
      position.DeclaredAt found.name.lexeme 2 := by
  intro source tokens answer
  have accepted : answer.error = none := by decide +kernel
  obtain ⟨_, occurrences, depths⟩ := accepted_depths_are_declared [] tokens accepted
  have outer : ∃ found, found ∈ Stmt.occurrencesAll answer.statements ∧ found.depth = some 2 := by
    decide +kernel
  obtain ⟨found, member, deep⟩ := outer
  rw [← occurrences] at member
  obtain ⟨position, within, occurs⟩ := List.mem_filterMap.mp member
  refine ⟨accepted, by decide +kernel, position, found, within, occurs, deep, ?_⟩
  exact ((depths position within found occurs).1 2).mp deep

end LexicalScript
