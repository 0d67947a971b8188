import LexicalScript.Diagnostic
import LexicalScript.Proofs.StoppedWalks

/-!
The static errors of a program.

A static error is a matter of a position and of what stands around it in the text.  The resolver
walks the positions in order with a stack of scopes, a flag and a pending name, and stops at the
first position with an error: what it keeps is at every moment what the text around the current
position says.
-/

set_option autoImplicit false

namespace LexicalScript

/-! ### Errors of positions -/

/-- The message and the line of the error at a position, where the given globals are known before
the program. -/
inductive Position.Violates (known : List String) : Position → String → Nat → Prop
  /-- The block or function declares the name already, a parameter included. -/
  | redeclared {name earlier : Token} {scope : Enclosure} {outer : List Enclosure} :
      scope.region.isScope = true → earlier ∈ scope.before → earlier.lexeme = name.lexeme →
      Violates known ⟨.declaration name, scope :: outer⟩
        ("Already a variable named '" ++ name.lexeme ++ "' in this scope.") name.line
  /-- A variable of a block or function is read in its own initializer. -/
  | localRead {name owner : Token} {depth : Option Nat} {initializer : Option Expr}
      {scope : Enclosure} {outer : List Enclosure} :
      scope.region.isScope = true → scope.own = some (.var owner initializer) →
      owner.lexeme = name.lexeme →
      Violates known ⟨.occurrence ⟨name, false, depth⟩, scope :: outer⟩
        ("Can't read local variable '" ++ name.lexeme ++ "' in its own initializer.") name.line
  /-- A global variable that is new is read in its own initializer. -/
  | globalRead {name owner : Token} {depth : Option Nat} {initializer : Option Expr}
      {program : Enclosure} {outer : List Enclosure} :
      program.region.isScope = false → program.own = some (.var owner initializer) →
      owner.lexeme = name.lexeme → name.lexeme ∉ known →
      (∀ earlier, earlier ∈ program.before → earlier.lexeme ≠ name.lexeme) →
      Violates known ⟨.occurrence ⟨name, false, depth⟩, program :: outer⟩
        ("Can't read global variable '" ++ name.lexeme ++ "' in its own initializer.") name.line
  | returnOutside {keyword : Token} {around : List Enclosure} :
      (∀ enclosure, enclosure ∈ around → enclosure.region.isFunction = false) →
      Violates known ⟨.returning keyword, around⟩ "Can't return from top-level code." keyword.line

namespace Enclosure

/-- Whether the statement that the position is in is a variable of the given name. -/
def initializes (enclosure : Enclosure) (name : String) : Bool :=
  match enclosure.own with
  | some (.var owner _) => owner.lexeme == name
  | _ => false

/-- Whether the name is declared in front of the statement that the position is in. -/
def declaresBefore (enclosure : Enclosure) (name : String) : Bool :=
  enclosure.before.any (·.lexeme == name)

theorem initializes_iff {enclosure : Enclosure} {name : String} :
    enclosure.initializes name = true ↔
      ∃ owner initializer, enclosure.own = some (.var owner initializer) ∧
        owner.lexeme = name := by
  unfold initializes
  split
  · rename_i owner initializer same
    rw [same]
    simp
  · rename_i other
    constructor
    · nofun
    · rintro ⟨owner, initializer, same, -⟩
      exact absurd same (other owner initializer)

end Enclosure

/-- The error at a position, computed. -/
def Position.violation? (known : List String) : Position → Option ResolveError
  | ⟨.declaration name, scope :: _⟩ =>
      if scope.region.isScope && scope.declaresBefore name.lexeme then
        some ⟨.alreadyDeclared name.lexeme, name.line⟩
      else none
  | ⟨.occurrence ⟨name, false, _⟩, inner :: _⟩ =>
      if inner.initializes name.lexeme then
        if inner.region.isScope then some ⟨.localInOwnInitializer name.lexeme, name.line⟩
        else if known.contains name.lexeme || inner.declaresBefore name.lexeme then none
        else some ⟨.globalInOwnInitializer name.lexeme, name.line⟩
      else none
  | ⟨.returning keyword, around⟩ =>
      if around.any (·.region.isFunction) then none
      else some ⟨.returnOutsideFunction, keyword.line⟩
  | _ => none

namespace Position

variable {known : List String} {position : Position} {error : ResolveError} {message : String}
  {line : Nat}

theorem violates_of_violation? (found : position.violation? known = some error) :
    position.Violates known error.cause.message error.line := by
  unfold violation? at found
  split at found
  · split at found
    · rename_i holds
      cases found
      simp only [Bool.and_eq_true, Enclosure.declaresBefore, List.any_eq_true, beq_iff_eq]
        at holds
      obtain ⟨isScope, earlier, member, same⟩ := holds
      exact .redeclared isScope member same
    · cases found
  · split at found
    · rename_i initializes
      obtain ⟨owner, initializer, own, same⟩ := Enclosure.initializes_iff.mp initializes
      split at found
      · rename_i isScope
        cases found
        exact .localRead isScope own same
      · rename_i notScope
        split at found
        · cases found
        · rename_i fresh
          cases found
          simp only [Bool.or_eq_true, List.contains_iff_mem, Enclosure.declaresBefore,
            List.any_eq_true, beq_iff_eq, not_or, not_exists, not_and] at fresh
          exact .globalRead (by simpa using notScope) own same fresh.1 fresh.2
    · cases found
  · split at found
    · cases found
    · rename_i outside
      cases found
      simp only [List.any_eq_true, not_exists, not_and, Bool.not_eq_true] at outside
      exact .returnOutside outside
  · cases found

theorem violation?_of_violates (violates : position.Violates known message line) :
    ∃ error, position.violation? known = some error ∧ error.cause.message = message ∧
      error.line = line := by
  cases violates with
  | redeclared isScope member same =>
      have declares : Enclosure.declaresBefore _ _ = true :=
        List.any_eq_true.mpr ⟨_, member, beq_iff_eq.mpr same⟩
      simp only [violation?, isScope, declares, Bool.and_self, if_true]
      exact ⟨_, rfl, rfl, rfl⟩
  | localRead isScope own same =>
      have initializes := Enclosure.initializes_iff.mpr ⟨_, _, own, same⟩
      simp only [violation?, initializes, isScope, if_true]
      exact ⟨_, rfl, rfl, rfl⟩
  | @globalRead name owner depth initializer program outer notScope own same unknown fresh =>
      have initializes := Enclosure.initializes_iff.mpr ⟨_, _, own, same⟩
      have new : (known.contains name.lexeme || program.declaresBefore name.lexeme) = false := by
        simpa [Enclosure.declaresBefore] using ⟨unknown, fresh⟩
      simp only [violation?, initializes, notScope, new, if_true, Bool.false_eq_true, if_false]
      exact ⟨_, rfl, rfl, rfl⟩
  | @returnOutside keyword around outside =>
      have none : around.any (·.region.isFunction) = false := by simpa using outside
      simp only [violation?, none, Bool.false_eq_true, if_false]
      exact ⟨_, rfl, rfl, rfl⟩

theorem violation?_eq_none_iff :
    position.violation? known = none ↔ ∀ message line, ¬ position.Violates known message line := by
  constructor
  · intro free message line violates
    obtain ⟨error, found, _⟩ := violation?_of_violates violates
    cases free.symm.trans found
  · intro free
    rw [Option.eq_none_iff_forall_ne_some]
    exact fun error found => free _ _ (violates_of_violation? found)

end Position

/-! ### What the walk keeps -/

/-- The walk keeps what the text says about its position: the names of the scopes, all with their
initializers passed, whether it is in a function, and which globals are known. -/
structure Resolver.Stands (known : List String) (around : List Enclosure) (resolver : Resolver) :
    Prop where
  names : resolver.names = scopeNames around
  ready : ∀ scope, scope ∈ resolver.scopes → ∀ name, scope.lookup name ≠ some false
  inFunction : resolver.inFunction = around.any (·.region.isFunction)
  initializing : resolver.initializing = none
  learnt : ∀ enclosure, enclosure ∈ around → enclosure.region.isScope = false →
    ∀ name, name ∈ resolver.known ↔ name ∈ known ∨ name ∈ enclosure.names

/-- A walk has come past the positions: it is stopped by the first error among them, or it stands in
the given surroundings. -/
structure Walk.Settled (known : List String) (positions : List Position) (around : List Enclosure)
    (walk : Walk) : Prop where
  stopped : walk.stopped = positions.findSome? (Position.violation? known)
  stands : walk.stopped = none → walk.resolver.Stands known around

section Settling

variable {known : List String} {region : Region} {earlier : List Stmt} {own : Option Stmt}
  {outer : List Enclosure} {around around' : List Enclosure} {positions positions' : List Position}

theorem Walk.Settled.trans {middle later : Walk} (first : middle.Settled known positions around)
    (second : middle.stopped = none → middle.resolver.Stands known around →
      later.Settled known positions' around')
    (kept : ∀ error, middle.stopped = some error → later.stopped = some error) :
    later.Settled known (positions ++ positions') around' := by
  cases ended : middle.stopped with
  | none =>
      have rest := second ended (first.stands ended)
      refine ⟨?_, rest.stands⟩
      rw [List.findSome?_append, ← first.stopped, ended, rest.stopped]
      rfl
  | some error =>
      have stopped := kept error ended
      refine ⟨?_, fun running => ?_⟩
      · rw [List.findSome?_append, ← first.stopped, ended, stopped]
        rfl
      · rw [stopped] at running
        cases running

/-- A statement that declares nothing adds nothing to what stands around the next one. -/
theorem Resolver.Stands.plain {resolver : Resolver} {own' : Option Stmt}
    (stands : resolver.Stands known (⟨region, earlier, own⟩ :: outer))
    (plain : own.bind Stmt.declared? = own'.bind Stmt.declared?) :
    resolver.Stands known (⟨region, earlier, own'⟩ :: outer) := by
  have same : (Enclosure.mk region earlier own').names =
      (Enclosure.mk region earlier own).names := by
    rw [Enclosure.names_own, ← plain, ← Enclosure.names_own]
  refine ⟨?_, stands.ready, stands.inFunction, stands.initializing, ?_⟩
  · rw [stands.names, scopeNames_cons, scopeNames_cons, same]
  · intro enclosure member
    rcases List.mem_cons.mp member with rfl | outside
    · rw [same]
      exact stands.learnt _ List.mem_cons_self
    · exact stands.learnt enclosure (List.mem_cons_of_mem _ outside)

/-- Behind a statement its declaration is one of the earlier ones. -/
theorem Resolver.Stands.behind {resolver : Resolver} {stmt : Stmt}
    (stands : resolver.Stands known (⟨region, earlier, some stmt⟩ :: outer)) :
    resolver.Stands known (⟨region, earlier ++ [stmt], none⟩ :: outer) := by
  refine ⟨?_, stands.ready, stands.inFunction, stands.initializing, ?_⟩
  · rw [stands.names, scopeNames_behind]
  · intro enclosure member
    rcases List.mem_cons.mp member with rfl | outside
    · rw [Enclosure.names_behind]
      exact stands.learnt _ List.mem_cons_self
    · exact stands.learnt enclosure (List.mem_cons_of_mem _ outside)

/-- Outside of initializers a walk has no objection, and there is no error in the text. -/
theorem Walking.Objects.settles {α : Type} {action : Walking α} {occurrences : List Occurrence}
    (objects : action.Objects occurrences) {walk : Walk} (running : walk.stopped = none)
    (stands : walk.resolver.Stands known (⟨region, earlier, own⟩ :: outer))
    (plain : own.bind Stmt.declared? = none) :
    (action walk).2.Settled known (Position.mentions (⟨region, earlier, own⟩ :: outer) occurrences)
      (⟨region, earlier, own⟩ :: outer) := by
  have noObjection : ∀ found, walk.resolver.objection? found = none := by
    intro found
    have ready : (walk.resolver.scopes.head?.any fun scope =>
        scope.lookup found.name.lexeme == some false) = false := by
      cases scopes : walk.resolver.scopes with
      | nil => rfl
      | cons scope rest =>
          have read := stands.ready scope (by simp [scopes]) found.name.lexeme
          simpa using read
    unfold Resolver.objection?
    simp [ready, stands.initializing]
  have noVariable : ∀ name, (Enclosure.mk region earlier own).initializes name = false := by
    intro name
    rw [Bool.eq_false_iff]
    intro initializes
    obtain ⟨owner, initializer, same, -⟩ := Enclosure.initializes_iff.mp initializes
    change own = _ at same
    rw [same] at plain
    cases plain
  have noError : ∀ found, (Position.mk (.occurrence found)
      (⟨region, earlier, own⟩ :: outer)).violation? known = none := by
    rintro ⟨name, assigned, depth⟩
    cases assigned with
    | true => rfl
    | false => simp only [Position.violation?, noVariable, Bool.false_eq_true, if_false]
  constructor
  · rw [objects.stopped walk running, Position.mentions, List.findSome?_map]
    congr 1
    funext found
    exact (noObjection found).trans (noError found).symm
  · intro _
    rw [objects.still.resolver]
    exact stands

/-! ### Declarations -/

theorem Scope.lookup_filter_ne (scope : Scope) {name other : String} (apart : other ≠ name) :
    (scope.filter fun entry => entry.1 != name).lookup other = scope.lookup other := by
  induction scope with
  | nil => rfl
  | cons entry rest ih =>
      rw [List.filter_cons]
      split
      · rw [List.lookup_cons, List.lookup_cons, ih]
      · rename_i dropped
        have key : entry.1 = name := by simpa using dropped
        rw [ih, List.lookup_cons, key, beq_false_of_ne apart]

theorem Scope.lookup_mark (scope : Scope) (name other : String) (ready : Bool) :
    (scope.mark name ready).lookup other =
      if other = name then some ready else scope.lookup other := by
  unfold Scope.mark
  rw [List.lookup_cons]
  by_cases same : other = name
  · rw [if_pos same, same, beq_self_eq_true]
  · rw [if_neg same, beq_false_of_ne same]
    exact scope.lookup_filter_ne same

/-- A name that is declared and not defined is the one that waits. -/
theorem Scope.waits_mark {scope : Scope} {other : String} (ready : scope.lookup other ≠ some false)
    (name : String) :
    ((scope.mark name false).lookup other == some false) = (name == other) := by
  rw [Scope.lookup_mark]
  split
  · rename_i same
    rw [same, beq_self_eq_true, beq_self_eq_true]
  · rename_i apart
    rw [beq_false_of_ne ready, beq_false_of_ne (Ne.symm apart)]

theorem Scope.ready_mark {scope : Scope} {other : String} (ready : scope.lookup other ≠ some false)
    (name : String) : ((scope.mark name false).mark name true).lookup other ≠ some false := by
  rw [Scope.lookup_mark, Scope.lookup_mark]
  split
  · nofun
  · exact ready

theorem Scopes.mem_learn {name : Token} {known : List String} {other : String} :
    other ∈ Scopes.learn [] (some name) known ↔ other = name.lexeme ∨ other ∈ known := by
  unfold Scopes.learn
  dsimp only
  split
  · rename_i present
    have own := List.contains_iff_mem.mp present
    constructor
    · exact Or.inr
    · rintro (rfl | already)
      · exact own
      · exact already
  · rw [List.mem_append, List.mem_singleton, or_comm]

theorem Enclosure.contains_names_before (region : Region) (earlier : List Stmt)
    (own : Option Stmt) (name : String) :
    (Enclosure.mk region earlier none).names.contains name =
      (Enclosure.mk region earlier own).declaresBefore name := by
  have all : (Enclosure.mk region earlier none).declared =
      (Enclosure.mk region earlier own).before := List.append_nil _
  unfold Enclosure.names Enclosure.declaresBefore
  rw [all, Bool.eq_iff_iff, List.contains_iff_mem, List.mem_reverse, List.mem_map,
    List.any_eq_true]
  simp only [beq_iff_eq]

/-- Declaring a name stops the walk exactly if the scope declares it already. -/
theorem Walking.declare_violation (name : Token) {walk : Walk} (running : walk.stopped = none)
    (stands : walk.resolver.Stands known (⟨region, earlier, none⟩ :: outer))
    (rooted : region.isScope = true ∨ outer = []) (own : Option Stmt) :
    (declare name walk).2.stopped =
      (Position.mk (.declaration name) (⟨region, earlier, own⟩ :: outer)).violation? known := by
  have names := stands.names
  obtain ⟨⟨scopes, inFunction, initializing, globals⟩, stopped, notes⟩ := walk
  cases running
  rw [scopeNames_cons] at names
  change scopes.map (fun scope => scope.map Prod.fst) = _ at names
  cases isScope : region.isScope with
  | false =>
      rw [if_neg (by simp [isScope]), rooted.resolve_left (by simp [isScope])] at names
      cases List.map_eq_nil_iff.mp names
      simp only [Position.violation?, isScope, Bool.false_and, Bool.false_eq_true, if_false]
      rfl
  | true =>
      rw [if_pos (by simp [isScope])] at names
      obtain ⟨scope, rest, rfl, inner, -⟩ := List.map_eq_cons_iff.mp names
      have same : scope.declares name.lexeme =
          (Enclosure.mk region earlier own).declaresBefore name.lexeme := by
        rw [Scope.declares, lookup_isSome_eq_contains, inner]
        exact Enclosure.contains_names_before region earlier own name.lexeme
      simp only [Position.violation?, isScope, Bool.true_and, ← same]
      change ((if scope.declares name.lexeme then stop _ name.line
        else moveUnlessStopped _ : Walking Unit) _).2.stopped = _
      split <;> rfl

theorem Walking.define_stopped (name : Token) (walk : Walk) :
    (define name walk).2.stopped = walk.stopped := by
  obtain ⟨resolver, stopped, notes⟩ := walk
  cases stopped <;> rfl

/-- A name that is declared and then defined belongs to what stands around. -/
theorem Walking.define_stands (name : Token) {walk middle : Walk} {inner inner' : Enclosure}
    (stands : walk.resolver.Stands known (inner :: outer))
    (declared : (declare name walk).2.stopped = none)
    (same : middle.resolver = (declare name walk).2.resolver) (running : middle.stopped = none)
    (rooted : inner.region.isScope = true ∨ outer = [])
    (isScope : inner'.region.isScope = inner.region.isScope)
    (isFunction : inner'.region.isFunction = inner.region.isFunction)
    (names : inner'.names = name.lexeme :: inner.names) :
    (define name middle).2.resolver.Stands known (inner' :: outer) := by
  obtain ⟨_, fresh, placed⟩ := declare_running name walk declared
  obtain ⟨_, defined⟩ := define_running name middle ((define_stopped name middle).trans running)
  have between : middle.resolver.names = walk.resolver.names.declare name.lexeme := by
    rw [same, placed]
    exact names_mark_fresh walk.resolver name.lexeme false fresh
  rw [defined]
  constructor
  · refine (names_mark_declared middle.resolver name.lexeme true fresh between).trans ?_
    rw [stands.names, scopeNames_cons, scopeNames_cons, isScope, names]
    split
    · rfl
    · rename_i top
      rw [rooted.resolve_left top]
      rfl
  · rw [same, placed]
    intro scope member other
    cases scopes : walk.resolver.scopes with
    | nil =>
        rw [scopes] at member
        cases member
    | cons first rest =>
        have ready := stands.ready
        rw [scopes] at member ready
        rcases List.mem_cons.mp member with rfl | outside
        · exact Scope.ready_mark (ready first List.mem_cons_self other) name.lexeme
        · exact ready scope (List.mem_cons_of_mem first outside) other
  · rw [same, placed]
    refine stands.inFunction.trans ?_
    rw [List.any_cons, List.any_cons, isFunction]
  · rw [same, placed]
    exact stands.initializing
  · -- Only a declaration at the top level makes a global known.
    intro enclosure member notScope other
    change other ∈ middle.resolver.names.learn (some name) middle.resolver.known ↔ _
    rw [between, same, placed, stands.names, scopeNames_cons]
    rcases rooted with inScope | top
    · rw [if_pos inScope]
      rcases List.mem_cons.mp member with rfl | outside
      · rw [isScope, inScope] at notScope
        cases notScope
      · exact stands.learnt enclosure (List.mem_cons_of_mem inner outside) notScope other
    · subst top
      cases List.mem_singleton.mp member
      rw [isScope] at notScope
      rw [if_neg (by simp [notScope]), names]
      change other ∈ Scopes.learn [] (some name) walk.resolver.known ↔ _
      rw [Scopes.mem_learn, stands.learnt inner List.mem_cons_self notScope other, List.mem_cons]
      exact or_left_comm

theorem Walking.introduce_settles (name : Token) {walk : Walk} (running : walk.stopped = none)
    (stands : walk.resolver.Stands known (⟨region, earlier, none⟩ :: outer))
    (rooted : region.isScope = true ∨ outer = []) (own : Option Stmt) {inner : Enclosure}
    (isScope : inner.region.isScope = region.isScope)
    (isFunction : inner.region.isFunction = region.isFunction)
    (names : inner.names = name.lexeme :: (Enclosure.mk region earlier none).names) :
    (define name (declare name walk).2).2.Settled known
      [⟨.declaration name, ⟨region, earlier, own⟩ :: outer⟩] (inner :: outer) := by
  constructor
  · rw [define_stopped, declare_violation name running stands rooted own, List.findSome?_singleton]
  · intro ended
    rw [define_stopped] at ended
    exact define_stands name stands ended rfl ended rooted isScope isFunction names

theorem Resolver.Stands.contains_known {resolver : Resolver}
    (stands : resolver.Stands known (⟨region, earlier, none⟩ :: outer))
    (top : region.isScope = false) (own : Option Stmt) (name : String) :
    resolver.known.contains name =
      (known.contains name || (Enclosure.mk region earlier own).declaresBefore name) := by
  have learnt := stands.learnt _ List.mem_cons_self top name
  rw [← Enclosure.contains_names_before, Bool.eq_iff_iff, Bool.or_eq_true,
    List.contains_iff_mem, List.contains_iff_mem, List.contains_iff_mem]
  exact learnt

/-- At the top level, a walk objects to the global that is being initialized if it is new. -/
theorem Resolver.objection?_top (inFunction : Bool) (globals : List String) (name read : Token)
    (depth : Option Nat) :
    Resolver.objection?
      (if ([] : List Scope).isEmpty && !globals.contains name.lexeme then
        ⟨[], inFunction, some name.lexeme, globals⟩
      else ⟨[], inFunction, none, globals⟩) ⟨read, false, depth⟩ =
      if name.lexeme = read.lexeme then
        if globals.contains name.lexeme then none
        else some ⟨.globalInOwnInitializer read.lexeme, read.line⟩
      else none := by
  cases globals.contains name.lexeme <;> simp [Resolver.objection?, Resolver.depth?]

/-- The walk objects to what is an error in the text of an initializer. -/
theorem Resolver.Stands.objection?_initializer {walk : Walk} {name : Token}
    {initializer : Option Expr}
    (stands : walk.resolver.Stands known (⟨region, earlier, none⟩ :: outer))
    (rooted : region.isScope = true ∨ outer = [])
    (declared : (Walking.declare name walk).2.stopped = none) (found : Occurrence) :
    Resolver.objection?
      (if (Walking.declare name walk).2.resolver.scopes.isEmpty &&
          !(Walking.declare name walk).2.resolver.known.contains name.lexeme then
        { (Walking.declare name walk).2.resolver with initializing := some name.lexeme }
      else (Walking.declare name walk).2.resolver) found =
      (Position.mk (.occurrence found)
        (⟨region, earlier, some (.var name initializer)⟩ :: outer)).violation? known := by
  have names := stands.names
  have idle := stands.initializing
  have ready := stands.ready
  rw [(Walking.declare_running name walk declared).2.2]
  obtain ⟨⟨scopes, inFunction, initializing, globals⟩, stopped, notes⟩ := walk
  obtain ⟨read, assigned, depth⟩ := found
  rw [scopeNames_cons] at names
  change scopes.map (fun scope => scope.map Prod.fst) = _ at names
  change initializing = none at idle
  subst idle
  cases assigned with
  | true => rfl
  | false =>
      cases isScope : region.isScope with
      | true =>
          rw [if_pos (by simp [isScope])] at names
          obtain ⟨scope, rest, rfl, -, -⟩ := List.map_eq_cons_iff.mp names
          -- Of the innermost scope, only the variable itself has its initializer before it.
          have waiting := Scope.waits_mark (ready scope List.mem_cons_self read.lexeme) name.lexeme
          simp only [Resolver.objection?, Position.violation?, Enclosure.initializes, isScope,
            List.isEmpty_cons, Bool.false_and, Bool.false_eq_true, if_false, List.head?_cons,
            Option.any_some, waiting, if_true]
          split
          · rfl
          · simp
      | false =>
          have same : globals.contains name.lexeme = _ :=
            stands.contains_known isScope (some (.var name initializer)) name.lexeme
          rw [if_neg (by simp [isScope]), rooted.resolve_left (by simp [isScope])] at names
          cases List.map_eq_nil_iff.mp names
          refine (Resolver.objection?_top inFunction globals name read depth).trans ?_
          rw [same]
          simp only [Position.violation?, Enclosure.initializes, isScope, Bool.false_eq_true,
            if_false, beq_iff_eq]
          split
          · rename_i own
            rw [own]
          · rfl

theorem Stmt.resolve_var_settles (name : Token) (initializer : Option Expr) {walk : Walk}
    (running : walk.stopped = none)
    (stands : walk.resolver.Stands known (⟨region, earlier, none⟩ :: outer))
    (rooted : region.isScope = true ∨ outer = []) :
    ((Stmt.var name initializer).resolve walk).2.Settled known
      ((Stmt.var name initializer).positions
        (⟨region, earlier, some (.var name initializer)⟩ :: outer))
      (⟨region, earlier, some (.var name initializer)⟩ :: outer) := by
  have names : (Enclosure.mk region earlier (some (.var name initializer))).names =
      name.lexeme :: (Enclosure.mk region earlier none).names := Enclosure.names_own _ _ _
  cases initializer with
  | none => exact Walking.introduce_settles name running stands rooted _ rfl rfl names
  | some expr =>
      change (Walking.define name (walk.left name expr)).2.Settled known
        (⟨.declaration name, _⟩ :: Position.mentions _ expr.occurrences) _
      have declaration := Walking.declare_violation name running stands rooted
        (some (.var name (some expr)))
      cases declared : (Walking.declare name walk).2.stopped with
      | some error =>
          -- The declaration is an error, and nothing in the initializer replaces it.
          have ended : (Walking.define name (walk.left name expr)).2.stopped = some error :=
            Walking.define_sticky name _ error (expr.resolve_sticky _ error declared)
          rw [declared] at declaration
          constructor
          · rw [List.findSome?_cons, ← declaration, ended]
          · intro running
            rw [ended] at running
            cases running
      | none =>
          rw [declared] at declaration
          have objected : (expr.resolve (walk.entered name)).2.stopped =
              expr.occurrences.findSome? (walk.entered name).resolver.objection? :=
            expr.resolve_objects.stopped _ declared
          -- The pending name is there for the initializer only.
          have idle : (Walking.declare name walk).2.resolver.initializing = none := by
            rw [(Walking.declare_running name walk declared).2.2]
            exact stands.initializing
          have same := walk.left_resolver name expr
          rw [← idle] at same
          constructor
          · rw [List.findSome?_cons, ← declaration, Walking.define_stopped]
            change (expr.resolve (walk.entered name)).2.stopped = _
            rw [objected, Position.mentions, List.findSome?_map]
            congr 1
            funext found
            exact stands.objection?_initializer rooted declared found
          · intro ended
            rw [Walking.define_stopped] at ended
            exact Walking.define_stands name stands declared same ended rooted rfl rfl names

/-! ### Statements -/

theorem Resolver.Stands.enter {resolver : Resolver} (stands : resolver.Stands known around)
    (isScope : region.isScope = true) (bare : region.parameters = []) {inFunction : Bool}
    (inside : inFunction = (region.isFunction || resolver.inFunction)) :
    Resolver.Stands known (⟨region, [], none⟩ :: around)
      { resolver with scopes := [] :: resolver.scopes, inFunction := inFunction } where
  names := by
    rw [scopeNames_entered isScope, bare, ← stands.names]
    rfl
  ready scope member name := by
    rcases List.mem_cons.mp member with rfl | outside
    · nofun
    · exact stands.ready scope outside name
  inFunction := by
    rw [List.any_cons, ← stands.inFunction]
    exact inside
  initializing := stands.initializing
  learnt enclosure member notScope := by
    rcases List.mem_cons.mp member with rfl | outside
    · rw [isScope] at notScope
      cases notScope
    · exact stands.learnt enclosure outside notScope

/-- A walk that leaves a block or a function stands around it again. -/
theorem Walk.Settled.leave {walk : Walk}
    (settled : walk.Settled known positions (⟨region, earlier, none⟩ :: around))
    (isScope : region.isScope = true) {inFunction : Bool}
    (outside : walk.stopped = none → inFunction = around.any (·.region.isFunction)) :
    Walk.Settled known positions around
      { walk with
        resolver :=
          { walk.resolver with
            scopes := walk.resolver.scopes.tail, inFunction := inFunction } } where
  stopped := settled.stopped
  stands running := by
    have stands := settled.stands running
    refine ⟨?_, ?_, outside running, stands.initializing, ?_⟩
    · have names := stands.names
      rw [scopeNames_cons, if_pos isScope] at names
      unfold Resolver.names at names ⊢
      rw [List.map_tail, names]
      rfl
    · exact fun scope member => stands.ready scope (List.mem_of_mem_tail member)
    · exact fun enclosure member => stands.learnt enclosure (List.mem_cons_of_mem _ member)

theorem Walking.bindParameters_settles (parameters before : List Token) {walk : Walk}
    (running : walk.stopped = none)
    (stands : walk.resolver.Stands known (⟨.function before, [], none⟩ :: outer)) :
    (bindParameters parameters walk).2.Settled known (Position.parameters outer before parameters)
      (⟨.function (before ++ parameters), [], none⟩ :: outer) := by
  induction parameters generalizing before walk with
  | nil =>
      rw [List.append_nil]
      exact ⟨running, fun _ => stands⟩
  | cons parameter rest ih =>
      have names : (Enclosure.mk (.function (before ++ [parameter])) [] none).names =
          parameter.lexeme :: (Enclosure.mk (.function before) [] none).names := by
        simp [Enclosure.names, Enclosure.declared, Enclosure.before, Region.parameters]
      have first : (define parameter (declare parameter walk).2).2.Settled known
          [⟨.declaration parameter, ⟨.function before, [], none⟩ :: outer⟩]
          (⟨.function (before ++ [parameter]), [], none⟩ :: outer) :=
        introduce_settles parameter running stands (Or.inl rfl) none rfl rfl names
      have all := first.trans (fun ended standing => ih (before ++ [parameter]) ended standing)
        (fun error ended => bindParameters_sticky rest _ error ended)
      rw [List.append_assoc] at all
      exact all

theorem Stmt.resolve_function_settles (name : Token) (parameters : List Token) (body : List Stmt)
    {walk : Walk} (running : walk.stopped = none)
    (stands : walk.resolver.Stands known (⟨region, earlier, none⟩ :: outer))
    (rooted : region.isScope = true ∨ outer = [])
    (inside : ∀ {bound : Walk} {around : List Enclosure}, bound.stopped = none →
      bound.resolver.Stands known (⟨.function parameters, [], none⟩ :: around) →
      (Stmt.resolveAll body bound).2.Settled known
        (Stmt.positionsAll (.function parameters) around [] body)
        (⟨.function parameters, body, none⟩ :: around)) :
    ((Stmt.function name parameters body).resolve walk).2.Settled known
      ((Stmt.function name parameters body).positions
        (⟨region, earlier, some (.function name parameters body)⟩ :: outer))
      (⟨region, earlier, some (.function name parameters body)⟩ :: outer) := by
  let around : List Enclosure :=
    ⟨region, earlier, some (.function name parameters body)⟩ :: outer
  let defined : Walk := (Walking.define name (Walking.declare name walk).2).2
  let entered : Walk :=
    { defined with
      resolver :=
        { defined.resolver with scopes := [] :: defined.resolver.scopes, inFunction := true } }
  have introduced : defined.Settled known [⟨.declaration name, around⟩] around :=
    Walking.introduce_settles name running stands rooted _ rfl rfl (Enclosure.names_own _ _ _)
  apply introduced.trans
  · intro ended standing
    have inner : entered.resolver.Stands known (⟨.function [], [], none⟩ :: around) :=
      standing.enter rfl rfl rfl
    have unstopped : entered.stopped = none := ended
    have bound := Walking.bindParameters_settles parameters [] unstopped inner
    have walked := bound.trans (fun ended standing => inside ended standing)
      (fun error ended => Stmt.resolveAll_sticky body _ error ended)
    exact walked.leave rfl fun _ => standing.inFunction
  · intro error ended
    exact Stmt.resolveAll_sticky body _ error
      (Walking.bindParameters_sticky parameters entered error ended)

/-- The statement is the one that the position is in, or both declare nothing. -/
def Stmt.Suits (own : Option Stmt) (stmt : Stmt) : Prop :=
  own = some stmt ∨ stmt.declared? = none ∧ own.bind Stmt.declared? = none

theorem Stmt.Suits.plain {stmt : Stmt} (suits : stmt.Suits own) (plain : stmt.declared? = none) :
    own.bind Stmt.declared? = none := by
  rcases suits with rfl | ⟨-, both⟩
  · exact plain
  · exact both

theorem Stmt.resolve_return_settles (keyword : Token) (value : Option Expr) {walk : Walk}
    (running : walk.stopped = none)
    (stands : walk.resolver.Stands known (⟨region, earlier, own⟩ :: outer))
    (plain : own.bind Stmt.declared? = none) :
    ((Stmt.returnValue keyword value).resolve walk).2.Settled known
      ((Stmt.returnValue keyword value).positions (⟨region, earlier, own⟩ :: outer))
      (⟨region, earlier, own⟩ :: outer) := by
  have inside := stands.inFunction
  have violation : (Position.mk (.returning keyword)
      (⟨region, earlier, own⟩ :: outer)).violation? known =
      if walk.resolver.inFunction then none
      else some ⟨.returnOutsideFunction, keyword.line⟩ := by
    rw [inside]
    rfl
  cases returns : walk.resolver.inFunction with
  | true =>
      have reduced : ((Stmt.returnValue keyword value).resolve walk).2 =
          (Expr.resolveOption value walk).2 := by
        rw [Stmt.resolve, Walking.bind_apply, Walking.get_apply]
        dsimp only
        rw [returns]
        rfl
      have settled := (Expr.resolveOption_objects value).settles running stands plain
      rw [returns] at violation
      rw [reduced]
      refine ⟨?_, settled.stands⟩
      rw [settled.stopped, Stmt.positions, List.findSome?_cons, violation]
      rfl
  | false =>
      have reduced : ((Stmt.returnValue keyword value).resolve walk).2 = (Expr.resolveOption value
          (Walking.stop .returnOutsideFunction keyword.line walk).2).2 := by
        rw [Stmt.resolve, Walking.bind_apply, Walking.get_apply]
        dsimp only
        rw [returns]
        rfl
      have ended := Expr.resolveOption_sticky value _ _
        (Walking.stop_running .returnOutsideFunction keyword.line walk running)
      rw [returns] at violation
      rw [reduced]
      constructor
      · rw [ended, Stmt.positions, List.findSome?_cons, violation]
        rfl
      · intro running
        rw [ended] at running
        cases running

mutual

/-- A statement stops the walk at its first error, in whatever list it stands. -/
theorem Stmt.resolve_settles : (stmt : Stmt) → stmt.Proper → ∀ {region : Region}
    {earlier : List Stmt} {own : Option Stmt} {outer : List Enclosure} {walk : Walk},
    walk.stopped = none → walk.resolver.Stands known (⟨region, earlier, none⟩ :: outer) →
    (region.isScope = true ∨ outer = []) → stmt.Suits own →
    (stmt.resolve walk).2.Settled known (stmt.positions (⟨region, earlier, own⟩ :: outer))
      (⟨region, earlier, own⟩ :: outer)
  | .expression expr, _, region, earlier, own, outer, walk, running, stands, _, suits
  | .print expr, _, region, earlier, own, outer, walk, running, stands, _, suits => by
      have plain := suits.plain rfl
      exact expr.resolve_objects.settles running (stands.plain plain.symm) plain
  | .var name initializer, _, _, _, _, _, _, running, stands, rooted, suits => by
      rcases suits with rfl | ⟨declares, -⟩
      · exact Stmt.resolve_var_settles name initializer running stands rooted
      · cases declares
  | .block body, proper, region, earlier, own, outer, walk, running, stands, _, suits => by
      let around : List Enclosure := ⟨region, earlier, own⟩ :: outer
      let entered : Walk :=
        { walk with resolver := { walk.resolver with scopes := [] :: walk.resolver.scopes } }
      have standing : walk.resolver.Stands known around := stands.plain (suits.plain rfl).symm
      have inner : entered.resolver.Stands known (⟨.block, [], none⟩ :: around) :=
        standing.enter rfl rfl rfl
      have unstopped : entered.stopped = none := running
      have inside := Stmt.resolveAll_settles body proper unstopped inner (Or.inl rfl)
      exact inside.leave rfl fun ended => (inside.stands ended).inFunction
  | .conditional condition thenBranch elseBranch, proper, region, earlier, own, outer, walk,
      running, stands, rooted, suits => by
      have plain := suits.plain rfl
      have first := condition.resolve_objects.settles running (stands.plain plain.symm) plain
      have second := first.trans
        (fun ended standing => Stmt.resolve_settles thenBranch proper.1.2 ended
          (standing.plain plain) rooted (Or.inr ⟨proper.1.1, plain⟩))
        (fun error ended => thenBranch.resolve_sticky _ error ended)
      exact second.trans
        (fun ended standing => Stmt.resolveOption_settles elseBranch proper.2 ended
          (standing.plain plain) rooted plain)
        (fun error ended => Stmt.resolveOption_sticky elseBranch _ error ended)
  | .loop condition body, proper, region, earlier, own, outer, walk, running, stands, rooted,
      suits => by
      have plain := suits.plain rfl
      have first := condition.resolve_objects.settles running (stands.plain plain.symm) plain
      exact first.trans
        (fun ended standing => Stmt.resolve_settles body proper.2 ended (standing.plain plain)
          rooted (Or.inr ⟨proper.1, plain⟩))
        (fun error ended => body.resolve_sticky _ error ended)
  | .function name parameters body, proper, region, earlier, own, outer, walk, running, stands,
      rooted, suits => by
      rcases suits with rfl | ⟨declares, -⟩
      · refine Stmt.resolve_function_settles name parameters body running stands rooted ?_
        intro bound around ended standing
        exact Stmt.resolveAll_settles body proper ended standing (Or.inl rfl)
      · cases declares
  | .returnValue keyword value, _, region, earlier, own, outer, walk, running, stands, _, suits =>
      Stmt.resolve_return_settles keyword value running
        (stands.plain (suits.plain rfl).symm) (suits.plain rfl)

theorem Stmt.resolveOption_settles : (branch : Option Stmt) → Stmt.ProperBranch branch →
    ∀ {region : Region} {earlier : List Stmt} {own : Option Stmt} {outer : List Enclosure}
    {walk : Walk}, walk.stopped = none →
    walk.resolver.Stands known (⟨region, earlier, none⟩ :: outer) →
    (region.isScope = true ∨ outer = []) → own.bind Stmt.declared? = none →
    (Stmt.resolveOption branch walk).2.Settled known
      (Stmt.positionsOption (⟨region, earlier, own⟩ :: outer) branch)
      (⟨region, earlier, own⟩ :: outer)
  | none, _, _, _, _, _, _, running, stands, _, plain =>
      ⟨running, fun _ => stands.plain plain.symm⟩
  | some stmt, proper, _, _, _, _, _, running, stands, rooted, plain =>
      Stmt.resolve_settles stmt proper.2 running stands rooted (Or.inr ⟨proper.1, plain⟩)

theorem Stmt.resolveAll_settles : (statements : List Stmt) → Stmt.ProperAll statements →
    ∀ {region : Region} {earlier : List Stmt} {outer : List Enclosure} {walk : Walk},
    walk.stopped = none → walk.resolver.Stands known (⟨region, earlier, none⟩ :: outer) →
    (region.isScope = true ∨ outer = []) →
    (Stmt.resolveAll statements walk).2.Settled known
      (Stmt.positionsAll region outer earlier statements)
      (⟨region, earlier ++ statements, none⟩ :: outer)
  | [], _, region, earlier, outer, walk, running, stands, _ => by
      rw [List.append_nil]
      exact ⟨running, fun _ => stands⟩
  | stmt :: rest, proper, region, earlier, outer, walk, running, stands, rooted => by
      have first := Stmt.resolve_settles stmt proper.1 running stands rooted (Or.inl rfl)
      have all := first.trans (fun ended standing =>
          Stmt.resolveAll_settles rest proper.2 ended standing.behind rooted)
        (fun error ended => Stmt.resolveAll_sticky rest _ error ended)
      rw [List.append_assoc] at all
      exact all

end

end Settling

/-- Resolution of a parsed program with some globals known succeeds if and only if no position has a
static error.  Otherwise it reports the message and the line of the first position that has one, and
these make up its text. -/
theorem first_static_error_is_reported (known : List String) (tokens : List Token) :
    let statements := (Parser.program tokens).statements
    let reported := ((Resolver.ofGlobals known).resolve statements).error
    (reported = none ↔
      ∀ position, position ∈ programPositions statements →
        ∀ message line, ¬ position.Violates known message line) ∧
    (∀ message line,
      (∃ error, reported = some error ∧ error.cause.message = message ∧ error.line = line ∧
        (Diagnostic.resolve error).text = "[line " ++ toString line ++ "] Error: " ++ message) ↔
      ∃ front position back,
        programPositions statements = front ++ position :: back ∧
        position.Violates known message line ∧
        ∀ earlier, earlier ∈ front → ∀ message line, ¬ earlier.Violates known message line) := by
  intro statements reported
  have stands : (Resolver.ofGlobals known).Stands known [⟨.program, [], none⟩] :=
    { names := rfl
      ready := nofun
      inFunction := rfl
      initializing := rfl
      learnt := by
        intro enclosure member _ name
        rw [List.mem_singleton.mp member]
        exact (or_iff_left List.not_mem_nil).symm }
  let begun : Walk := ⟨Resolver.ofGlobals known, none, #[.beginning statements.length]⟩
  have running : begun.stopped = none := rfl
  have settled := Stmt.resolveAll_settles statements (Parser.program_shaped tokens).proper running
    stands (Or.inr rfl)
  have found : reported = (programPositions statements).findSome? (Position.violation? known) :=
    settled.stopped
  rw [found]
  constructor
  · rw [List.findSome?_eq_none_iff]
    exact forall₂_congr fun position _ => Position.violation?_eq_none_iff
  · intro message line
    simp only [List.findSome?_eq_some_iff]
    constructor
    · rintro ⟨error, ⟨front, position, back, split, violation, before⟩, rfl, rfl, _⟩
      exact ⟨front, position, back, split, Position.violates_of_violation? violation,
        fun earlier member => Position.violation?_eq_none_iff.mp (before earlier member)⟩
    · rintro ⟨front, position, back, split, violates, before⟩
      obtain ⟨error, violation, rfl, rfl⟩ := Position.violation?_of_violates violates
      refine ⟨error, ⟨front, position, back, split, violation, ?_⟩, rfl, rfl, ?_⟩
      · exact fun earlier member => Position.violation?_eq_none_iff.mpr (before earlier member)
      · simp only [Diagnostic.text, staticText, String.append_assoc]
        rfl

/-- A parameter that is declared again, with its own initializer reading it. -/
def redeclaredParameter : List Token :=
  (tokens? "fun f(a) \x7b\n  var a = a;\n\x7d\nreturn;").toOption.getD []

/-- The declaration is reported, neither its initializer nor the return behind it. -/
theorem first_static_error_is_reported_parameter :
    let statements := (Parser.program redeclaredParameter).statements
    ∃ error front position back,
      ((Resolver.ofGlobals []).resolve statements).error = some error ∧
      (Diagnostic.resolve error).text =
        "[line 2] Error: Already a variable named 'a' in this scope." ∧
      programPositions statements = front ++ position :: back ∧
      position.Violates [] "Already a variable named 'a' in this scope." 2 := by
  intro statements
  have checked : (((Resolver.ofGlobals []).resolve statements).error.map fun error =>
      (error.cause.message, error.line, (Diagnostic.resolve error).text)) =
        some ("Already a variable named 'a' in this scope.", 2,
          "[line 2] Error: Already a variable named 'a' in this scope.") := by
    decide +kernel
  obtain ⟨error, reported, same⟩ := Option.map_eq_some_iff.mp checked
  simp only [Prod.mk.injEq] at same
  obtain ⟨message, line, text⟩ := same
  obtain ⟨front, position, back, split, violates, _⟩ :=
    ((first_static_error_is_reported [] redeclaredParameter).2 _ 2).mp
      ⟨error, reported, message, line, text⟩
  exact ⟨error, front, position, back, reported, text, split, violates⟩

end LexicalScript
