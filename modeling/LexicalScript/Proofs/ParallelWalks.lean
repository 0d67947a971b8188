import LexicalScript.Proofs.BareTrees

/-!
Walks that differ in their globals.

A walk notes every depth that it writes, so its notes tell how far it came: the occurrences in front
have the depths noted and those behind have their old ones.  Two walks that take the same steps
stay equal but for their globals, as long as the globals that are asked for are known to both or to
neither.
-/

set_option autoImplicit false

namespace LexicalScript

/-! ### What a walk writes -/

/-- The entry that a note tells of. -/
def ResolveNote.entry? : ResolveNote → Option Entry
  | .resolved name depth => some (name, depth)
  | _ => none

def Walk.written (walk : Walk) : List Entry := walk.notes.toList.filterMap ResolveNote.entry?

/-- The entries that the steps write. -/
def Walk.writes (walk : Walk) : List Step → List Entry
  | [] => []
  | step :: rest =>
      (if walk.stopped.isNone then step.entries walk else []) ++ (step.take walk).writes rest

theorem Walking.stop_written (cause : ResolveCause) (line : Nat) (walk : Walk) :
    (Walking.stop cause line walk).2.written = walk.written := by
  cases stopped : walk.stopped with
  | some error => rw [Walking.stop_stopped_eq stopped]
  | none =>
      rw [Walking.stop_eq, stopped]
      simp [Walk.written, ResolveNote.entry?]

theorem Walking.moveUnlessStopped_written (change : Resolver → Resolver) (walk : Walk) :
    (Walking.moveUnlessStopped change walk).2.written = walk.written := by
  cases stopped : walk.stopped with
  | some error => rw [Walking.moveUnlessStopped_stopped_eq stopped]
  | none =>
      rw [Walking.moveUnlessStopped_running_eq stopped]
      rfl

theorem Walking.declare_written (name : Token) (walk : Walk) :
    (Walking.declare name walk).2.written = walk.written := by
  cases inner : walk.resolver.scopes with
  | nil => rw [Walking.declare_top_eq name inner]
  | cons scope scopes =>
      rw [Walking.declare_inner_eq name inner]
      split
      · exact Walking.stop_written _ _ walk
      · exact Walking.moveUnlessStopped_written _ walk

/-- Only a step that locates a name writes, and it notes what it writes. -/
theorem Step.written_take (step : Step) (walk : Walk) :
    (step.take walk).written =
      walk.written ++ if walk.stopped.isNone then step.entries walk else [] := by
  cases step with
  | locate name old =>
      change (Walking.locate name old walk).2.written =
        _ ++ if _ then [(name.lexeme, (Walking.locate name old walk).1)] else []
      cases stopped : walk.stopped with
      | some error =>
          rw [Walking.locate_stopped_eq stopped]
          simp
      | none =>
          rw [Walking.locate_running_eq stopped]
          unfold Walking.locate
          rw [stopped]
          simp [Walk.written, ResolveNote.entry?]
  | declare name => simp [take, entries, Walking.declare_written]
  | define name =>
      simp only [entries, ite_self, List.append_nil]
      exact Walking.moveUnlessStopped_written _ walk
  | checkLocal name =>
      simp only [take, entries, ite_self, List.append_nil]
      split
      · exact Walking.stop_written _ _ walk
      · rfl
  | checkGlobal owner name =>
      simp only [take, entries, ite_self, List.append_nil]
      split
      · exact Walking.stop_written _ _ walk
      · rfl
  | checkReturn keyword =>
      simp only [take, entries, ite_self, List.append_nil]
      split
      · rfl
      · exact Walking.stop_written _ _ walk
  | openInitializer owner | closeInitializer | enter inFunction | leave inFunction =>
      simp only [entries, ite_self, List.append_nil]
      rfl

theorem Walk.written_follow (walk : Walk) (steps : List Step) :
    (walk.follow steps).written = walk.written ++ walk.writes steps := by
  induction steps generalizing walk with
  | nil => exact (List.append_nil _).symm
  | cons step rest ih =>
      change ((step.take walk).follow rest).written = walk.written ++ (_ ++ _)
      rw [ih, Step.written_take, List.append_assoc]

theorem Step.stopped_take {walk : Walk} {error : ResolveError}
    (stopped : walk.stopped = some error) (step : Step) :
    (step.take walk).stopped = some error := by
  cases step with
  | declare name => exact Walking.declare_sticky name walk error stopped
  | define name => exact Walking.define_sticky name walk error stopped
  | locate name old => exact Walking.locate_sticky name old walk error stopped
  | checkLocal name => rw [Step.take_checkLocal_stopped stopped, stopped]
  | checkGlobal owner name => rw [Step.take_checkGlobal_stopped stopped, stopped]
  | checkReturn keyword =>
      rw [take, Walking.stop_stopped_eq stopped, ite_self, stopped]
  | openInitializer owner | closeInitializer | enter inFunction | leave inFunction =>
      exact stopped

/-- What a step leaves at an occurrence takes the place of what was there before. -/
theorem Step.length_entries (step : Step) (walk : Walk) :
    (step.entries walk).length = step.old.length := by
  cases step <;> rfl

theorem Step.entries_stopped {walk : Walk} {error : ResolveError}
    (stopped : walk.stopped = some error) (step : Step) : step.entries walk = step.old := by
  cases step with
  | locate name old => simp only [entries, Walking.locate_stopped_eq stopped, Step.old]
  | _ => rfl

theorem Walk.writes_stopped {walk : Walk} {error : ResolveError}
    (stopped : walk.stopped = some error) (steps : List Step) : walk.writes steps = [] := by
  induction steps generalizing walk with
  | nil => rfl
  | cons step rest ih => simp [Walk.writes, stopped, ih (step.stopped_take stopped)]

theorem Walk.settle_stopped {walk : Walk} {error : ResolveError}
    (stopped : walk.stopped = some error) (steps : List Step) :
    walk.settle steps = oldEntries steps := by
  induction steps generalizing walk with
  | nil => rfl
  | cons step rest ih =>
      change step.entries walk ++ (step.take walk).settle rest = step.old ++ oldEntries rest
      rw [step.entries_stopped stopped, ih (step.stopped_take stopped)]

/-- The occurrences that a walk comes to have the depths that it writes, and the others keep their
old ones. -/
theorem Walk.settle_eq_writes (walk : Walk) (steps : List Step) :
    walk.settle steps =
      walk.writes steps ++ (oldEntries steps).drop (walk.writes steps).length := by
  induction steps generalizing walk with
  | nil => rfl
  | cons step rest ih =>
      cases stopped : walk.stopped with
      | some error =>
          rw [Walk.settle_stopped stopped, Walk.writes_stopped stopped]
          rfl
      | none =>
          have written : walk.writes (step :: rest) =
              step.entries walk ++ (step.take walk).writes rest := by
            simp [Walk.writes, stopped]
          have old : oldEntries (step :: rest) = step.old ++ oldEntries rest := rfl
          rw [written, old, List.length_append, step.length_entries, List.drop_length_add_append,
            List.append_assoc, ← ih]
          rfl

/-! ### Two walks over the same steps -/

/-- Two walks at the same place, with the same scopes around them, the same error and the same
notes.  They may know different globals. -/
structure Walk.EqExceptGlobals (one two : Walk) : Prop where
  scopes : one.resolver.scopes = two.resolver.scopes
  inFunction : one.resolver.inFunction = two.resolver.inFunction
  stopped : one.stopped = two.stopped
  notes : one.notes = two.notes

/-- Whether a step finds a global read in its own initializer. -/
def Step.readsOwnGlobal (walk : Walk) : Step → Bool
  | .checkGlobal owner name =>
      (walk.resolver.depth? name.lexeme).isNone &&
        walk.resolver.awaited (some owner) == some name.lexeme
  | _ => false

namespace Walk.EqExceptGlobals

variable {one two : Walk}

theorem symm (parallel : one.EqExceptGlobals two) : two.EqExceptGlobals one :=
  ⟨parallel.scopes.symm, parallel.inFunction.symm, parallel.stopped.symm, parallel.notes.symm⟩

theorem depth (parallel : one.EqExceptGlobals two) (name : String) :
    one.resolver.depth? name = two.resolver.depth? name := by
  unfold Resolver.depth?
  rw [parallel.scopes]

theorem entries (parallel : one.EqExceptGlobals two) (running : two.stopped = none) {step : Step} :
    step.entries one = step.entries two := by
  cases step with
  | locate name old =>
      simp only [Step.entries, Walking.locate_running_eq running,
        Walking.locate_running_eq (parallel.stopped.trans running), parallel.depth]
  | _ => rfl

theorem stop (parallel : one.EqExceptGlobals two) (cause : ResolveCause) (line : Nat) :
    (Walking.stop cause line one).2.EqExceptGlobals (Walking.stop cause line two).2 := by
  obtain ⟨resolver, stopped, notes⟩ := one
  obtain ⟨resolver', stopped', notes'⟩ := two
  obtain ⟨scopes, inFunction, rfl, rfl⟩ := parallel
  cases stopped <;> exact ⟨scopes, inFunction, rfl, rfl⟩

theorem move (parallel : one.EqExceptGlobals two) {change change' : Resolver → Resolver}
    (scopes : (change one.resolver).scopes = (change' two.resolver).scopes)
    (inFunction : (change one.resolver).inFunction = (change' two.resolver).inFunction) :
    (Walking.moveUnlessStopped change one).2.EqExceptGlobals
      (Walking.moveUnlessStopped change' two).2 := by
  cases stopped : one.stopped with
  | some error =>
      rw [Walking.moveUnlessStopped_stopped_eq stopped,
        Walking.moveUnlessStopped_stopped_eq (parallel.stopped ▸ stopped)]
      exact parallel
  | none =>
      rw [Walking.moveUnlessStopped_running_eq stopped,
        Walking.moveUnlessStopped_running_eq (parallel.stopped ▸ stopped)]
      exact ⟨scopes, inFunction, parallel.stopped, parallel.notes⟩

theorem declare (parallel : one.EqExceptGlobals two) (name : Token) :
    (Walking.declare name one).2.EqExceptGlobals (Walking.declare name two).2 := by
  cases inner : one.resolver.scopes with
  | nil =>
      have inner' := parallel.scopes ▸ inner
      rw [Walking.declare_top_eq name inner, Walking.declare_top_eq name inner']
      exact parallel
  | cons scope scopes =>
      have inner' := parallel.scopes ▸ inner
      rw [Walking.declare_inner_eq name inner, Walking.declare_inner_eq name inner']
      split
      · exact parallel.stop _ _
      · exact parallel.move rfl parallel.inFunction

theorem define (parallel : one.EqExceptGlobals two) (name : Token) :
    (Walking.define name one).2.EqExceptGlobals (Walking.define name two).2 := by
  unfold Walking.define
  apply parallel.move
  · rw [parallel.scopes]
    split
    · split <;> split <;> simp [parallel.scopes]
    · rfl
  · rw [parallel.scopes]
    split
    · split <;> split <;> simp [parallel.inFunction]
    · exact parallel.inFunction

theorem locate (parallel : one.EqExceptGlobals two) (name : Token) (old : Option Nat) :
    (Walking.locate name old one).2.EqExceptGlobals (Walking.locate name old two).2 := by
  have found := parallel.depth name.lexeme
  obtain ⟨resolver, stopped, notes⟩ := one
  obtain ⟨resolver', stopped', notes'⟩ := two
  obtain ⟨scopes, inFunction, rfl, rfl⟩ := parallel
  cases stopped with
  | some error => exact ⟨scopes, inFunction, rfl, rfl⟩
  | none =>
      refine ⟨scopes, inFunction, rfl, ?_⟩
      exact congrArg (fun depth => notes.push (.resolved name.lexeme depth)) found

/-- Walks stay equal but for their globals in a step that finds the same global read in its own
initializer. -/
theorem take (parallel : one.EqExceptGlobals two) {step : Step}
    (same : step.readsOwnGlobal one = step.readsOwnGlobal two) :
    (step.take one).EqExceptGlobals (step.take two) := by
  cases step with
  | declare name => exact parallel.declare name
  | define name => exact parallel.define name
  | locate name old => exact parallel.locate name old
  | checkLocal name =>
      simp only [Step.take, parallel.scopes]
      split
      · exact parallel.stop _ _
      · exact parallel
  | checkGlobal owner name =>
      change
        (if (Step.checkGlobal owner name).readsOwnGlobal one then _ else one : Walk).EqExceptGlobals
          (if (Step.checkGlobal owner name).readsOwnGlobal two then _ else two)
      rw [same]
      split
      · exact parallel.stop _ _
      · exact parallel
  | checkReturn keyword =>
      simp only [Step.take, parallel.inFunction]
      split
      · exact parallel
      · exact parallel.stop _ _
  | openInitializer owner =>
      have kept : ∀ walk : Walk,
          ((Step.openInitializer owner).take walk).resolver.scopes = walk.resolver.scopes ∧
          ((Step.openInitializer owner).take walk).resolver.inFunction =
            walk.resolver.inFunction := by
        intro walk
        simp only [Step.take]
        split <;> exact ⟨rfl, rfl⟩
      exact ⟨(kept one).1.trans (parallel.scopes.trans (kept two).1.symm),
        (kept one).2.trans (parallel.inFunction.trans (kept two).2.symm), parallel.stopped,
        parallel.notes⟩
  | closeInitializer =>
      exact ⟨parallel.scopes, parallel.inFunction, parallel.stopped, parallel.notes⟩
  | enter inFunction =>
      exact ⟨congrArg ([] :: ·) parallel.scopes, rfl, parallel.stopped, parallel.notes⟩
  | leave inFunction =>
      exact ⟨congrArg List.tail parallel.scopes, rfl, parallel.stopped, parallel.notes⟩

theorem readsOwnGlobal (parallel : one.EqExceptGlobals two)
    (known : ∀ name, name ∈ one.resolver.known ↔ name ∈ two.resolver.known) (step : Step) :
    step.readsOwnGlobal one = step.readsOwnGlobal two := by
  cases step with
  | checkGlobal owner name =>
      have contains : one.resolver.known.contains owner.lexeme =
          two.resolver.known.contains owner.lexeme := by
        rw [Bool.eq_iff_iff, List.contains_iff_mem, List.contains_iff_mem]
        exact known owner.lexeme
      simp only [Step.readsOwnGlobal, Resolver.awaited, parallel.depth, parallel.scopes, contains]
  | _ => rfl

end Walk.EqExceptGlobals

/-! ### The globals that a walk learns -/

/-- The step makes a global known: a running walk defines the name outside of all scopes. -/
def Step.Learns (walk : Walk) (name : String) : Step → Prop
  | .define token =>
      token.lexeme = name ∧ walk.stopped = none ∧ walk.resolver.scopes = []
  | _ => False

theorem Walking.declare_known (name : Token) (walk : Walk) :
    (Walking.declare name walk).2.resolver.known = walk.resolver.known := by
  cases inner : walk.resolver.scopes with
  | nil => rw [Walking.declare_top_eq name inner]
  | cons scope scopes =>
      rw [Walking.declare_inner_eq name inner]
      split
      · rw [(Walking.stop_still _ _).resolver]
      · cases stopped : walk.stopped with
        | some error => rw [Walking.moveUnlessStopped_stopped_eq stopped]
        | none => rw [Walking.moveUnlessStopped_running_eq stopped]

theorem Walking.define_known (name : Token) (walk : Walk) :
    (Walking.define name walk).2.resolver.known =
      if walk.stopped = none ∧ walk.resolver.scopes = [] ∧ name.lexeme ∉ walk.resolver.known then
        walk.resolver.known ++ [name.lexeme]
      else walk.resolver.known := by
  obtain ⟨⟨scopes, inFunction, initializing, known⟩, stopped, notes⟩ := walk
  cases stopped with
  | some error => simp [Walking.define, Walking.moveUnlessStopped_stopped_eq]
  | none =>
      rw [Walking.define, Walking.moveUnlessStopped_running_eq rfl]
      cases scopes with
      | cons scope rest => simp
      | nil => by_cases listed : name.lexeme ∈ known <;> simp [listed]

/-- Only a definition may make a name known. -/
theorem Step.known_take (step : Step) (walk : Walk) (other : ∀ name, step ≠ .define name) :
    (step.take walk).resolver.known = walk.resolver.known := by
  cases step with
  | define name => exact absurd rfl (other name)
  | declare name => exact Walking.declare_known name walk
  | locate name old => exact congrArg Resolver.known ((Walking.locate_still name old).resolver walk)
  | checkLocal name | checkGlobal owner name =>
      simp only [take]
      split
      · rw [(Walking.stop_still _ _).resolver]
      · rfl
  | checkReturn keyword =>
      simp only [take]
      split
      · rfl
      · rw [(Walking.stop_still _ _).resolver]
  | openInitializer owner =>
      simp only [take]
      split <;> rfl
  | closeInitializer | enter inFunction | leave inFunction => rfl

theorem Step.mem_known_take (step : Step) (walk : Walk) (name : String) :
    name ∈ (step.take walk).resolver.known ↔
      name ∈ walk.resolver.known ∨ step.Learns walk name := by
  cases step with
  | define token =>
      change name ∈ (Walking.define token walk).2.resolver.known ↔
        _ ∨ token.lexeme = name ∧ walk.stopped = none ∧ walk.resolver.scopes = []
      rw [Walking.define_known]
      grind
  | _ =>
      rw [Step.known_take]
      · simp [Learns]
      · exact fun _ => nofun

/-- A step that learns nothing new leaves the list of the known globals as it is. -/
theorem Step.known_take_of_learnt {step : Step} {walk : Walk}
    (learnt : ∀ name, step.Learns walk name → name ∈ walk.resolver.known) :
    (step.take walk).resolver.known = walk.resolver.known := by
  cases step with
  | define token =>
      change (Walking.define token walk).2.resolver.known = _
      rw [Walking.define_known, if_neg]
      rintro ⟨running, top, absent⟩
      exact absent (learnt token.lexeme ⟨rfl, running, top⟩)
  | _ => exact Step.known_take _ _ (fun _ => nofun)

theorem Step.Learns.of_eqExceptGlobals {one two : Walk} (parallel : one.EqExceptGlobals two)
    {step : Step} {name : String} (learns : step.Learns two name) : step.Learns one name := by
  cases step with
  | define token =>
      exact ⟨learns.1, parallel.stopped.trans learns.2.1, parallel.scopes.trans learns.2.2⟩
  | _ => exact learns

/-- A walk knows the globals that it knew before and those that a step on its way learns. -/
theorem Walk.mem_known_follow (walk : Walk) (steps : List Step) (name : String) :
    name ∈ (walk.follow steps).resolver.known ↔
      name ∈ walk.resolver.known ∨
        ∃ front step back, steps = front ++ step :: back ∧
          step.Learns (walk.follow front) name := by
  induction steps generalizing walk with
  | nil =>
      change name ∈ walk.resolver.known ↔ _
      simp
  | cons step rest ih =>
      change name ∈ ((step.take walk).follow rest).resolver.known ↔ _
      rw [ih, step.mem_known_take, or_assoc]
      refine or_congr_right ⟨?_, ?_⟩
      · rintro (learns | ⟨front, middle, back, rfl, learns⟩)
        · exact ⟨[], step, rest, rfl, learns⟩
        · exact ⟨step :: front, middle, back, rfl, learns⟩
      · rintro ⟨front, middle, back, split, learns⟩
        cases front with
        | nil =>
            cases split
            exact .inl learns
        | cons first front =>
            cases split
            exact .inr ⟨front, middle, back, rfl, learns⟩

theorem Walk.mem_known_follow_of_mem {walk : Walk} {name : String}
    (known : name ∈ walk.resolver.known) (steps : List Step) :
    name ∈ (walk.follow steps).resolver.known :=
  (walk.mem_known_follow steps name).mpr (.inl known)

theorem Step.not_learns_of_stopped {walk : Walk} {error : ResolveError}
    (stopped : walk.stopped = some error) {step : Step} {name : String} :
    ¬step.Learns walk name := by
  cases step with
  | define token =>
      intro learns
      cases stopped.symm.trans learns.2.1
  | _ => exact id

/-- A stopped walk learns nothing. -/
theorem Walk.known_follow_stopped {walk : Walk} {error : ResolveError}
    (stopped : walk.stopped = some error) (steps : List Step) :
    (walk.follow steps).resolver.known = walk.resolver.known := by
  induction steps generalizing walk with
  | nil => rfl
  | cons step rest ih =>
      change ((step.take walk).follow rest).resolver.known = _
      rw [ih (step.stopped_take stopped), Step.known_take_of_learnt]
      exact fun name learns => absurd learns (Step.not_learns_of_stopped stopped)

/-! ### Parallel runs -/

/-- Walks that know the same globals stay equal but for their order and learn the same. -/
theorem Walk.EqExceptGlobals.follow {one two : Walk} (parallel : one.EqExceptGlobals two)
    (known : ∀ name, name ∈ one.resolver.known ↔ name ∈ two.resolver.known) (steps : List Step) :
    (one.follow steps).EqExceptGlobals (two.follow steps) ∧
      ∀ name, name ∈ (one.follow steps).resolver.known ↔
        name ∈ (two.follow steps).resolver.known := by
  induction steps generalizing one two with
  | nil => exact ⟨parallel, known⟩
  | cons step rest ih =>
      refine ih (parallel.take (parallel.readsOwnGlobal known step)) fun name => ?_
      rw [step.mem_known_take, step.mem_known_take, known]
      exact or_congr_right ⟨.of_eqExceptGlobals parallel.symm, .of_eqExceptGlobals parallel⟩

theorem Step.stopped_of_readsOwnGlobal {walk : Walk} {step : Step}
    (reads : step.readsOwnGlobal walk = true) :
    ∃ error, (step.take walk).stopped = some error := by
  cases step with
  | checkGlobal owner name =>
      apply Option.ne_none_iff_exists'.mp
      change (if (Step.checkGlobal owner name).readsOwnGlobal walk then _ else walk :
        Walk).stopped ≠ none
      rw [if_pos reads]
      exact Walking.stop_stopped _ _ walk
  | _ => cases reads

/-- A walk that knows more globals objects to fewer names. -/
theorem Walk.EqExceptGlobals.readsOwnGlobal_of_subset {one two : Walk}
    (parallel : one.EqExceptGlobals two)
    (known : ∀ name, name ∈ one.resolver.known → name ∈ two.resolver.known) {step : Step}
    (reads : step.readsOwnGlobal two = true) : step.readsOwnGlobal one = true := by
  cases step with
  | checkGlobal owner name =>
      simp only [Step.readsOwnGlobal, Resolver.awaited, parallel.depth, parallel.scopes] at reads ⊢
      have kept := known owner.lexeme
      grind
  | _ => cases reads

/-- A walk that knows from the start what another one comes to know retraces it and learns nothing
more: at a check where the first walk stops, it learns nothing from then on either. -/
theorem Walk.EqExceptGlobals.retrace {one two : Walk} (parallel : one.EqExceptGlobals two)
    {steps : List Step}
    (known : ∀ name, name ∈ (one.follow steps).resolver.known ↔ name ∈ two.resolver.known) :
    (one.follow steps).EqExceptGlobals (two.follow steps) ∧
      (two.follow steps).resolver.known = two.resolver.known := by
  induction steps generalizing one two with
  | nil => exact ⟨parallel, rfl⟩
  | cons step rest ih =>
      -- The second walk knows at least what the first one knows here, so it may only object less.
      -- Where the first one objects it stops, and what it knows then is all that it comes to know.
      have same : step.readsOwnGlobal one = step.readsOwnGlobal two := by
        cases reads : step.readsOwnGlobal one with
        | true =>
            obtain ⟨error, stopped⟩ := Step.stopped_of_readsOwnGlobal reads
            have unlearnt : (one.follow (step :: rest)).resolver.known = one.resolver.known := by
              change ((step.take one).follow rest).resolver.known = _
              rw [Walk.known_follow_stopped stopped, Step.known_take]
              rintro name rfl
              cases reads
            rw [unlearnt] at known
            rw [← reads, parallel.readsOwnGlobal known]
        | false =>
            cases bars' : step.readsOwnGlobal two with
            | false => rfl
            | true =>
                have sooner := parallel.readsOwnGlobal_of_subset
                  (fun name member => (known name).mp (Walk.mem_known_follow_of_mem member _)) bars'
                exact reads.symm.trans sooner
      have kept : (step.take two).resolver.known = two.resolver.known := by
        apply Step.known_take_of_learnt
        intro name learns
        apply (known name).mp
        apply (one.mem_known_follow (step :: rest) name).mpr
        exact .inr ⟨[], step, rest, rfl, .of_eqExceptGlobals parallel learns⟩
      have later := ih (parallel.take same) (by rw [kept]; exact known)
      exact ⟨later.1, later.2.trans kept⟩

/-- Of two walks from one place, one writes what the other writes and may go on, whatever globals
they know: they part only where one of them stops. -/
theorem Walk.EqExceptGlobals.writes_comparable {one two : Walk} (parallel : one.EqExceptGlobals two)
    (steps : List Step) :
    one.writes steps <+: two.writes steps ∨ two.writes steps <+: one.writes steps := by
  induction steps generalizing one two with
  | nil => exact .inl (List.prefix_refl _)
  | cons step rest ih =>
      have same : (if one.stopped.isNone then step.entries one else []) =
          if two.stopped.isNone then step.entries two else [] := by
        rw [parallel.stopped]
        cases running : two.stopped with
        | some error => rfl
        | none => exact parallel.entries running
      simp only [Walk.writes, same, List.prefix_append_right_inj]
      -- a check on which the walks disagree stops one of them, and that one writes nothing more
      by_cases agreed : step.readsOwnGlobal one = step.readsOwnGlobal two
      · exact ih (parallel.take agreed)
      · cases reads : step.readsOwnGlobal one with
        | true =>
            obtain ⟨error, stopped⟩ := Step.stopped_of_readsOwnGlobal reads
            rw [Walk.writes_stopped stopped]
            exact .inl (List.nil_prefix)
        | false =>
            have bars' : step.readsOwnGlobal two = true := by simpa [reads] using agreed
            obtain ⟨error, stopped⟩ := Step.stopped_of_readsOwnGlobal bars'
            rw [Walk.writes_stopped stopped rest]
            exact .inr (List.nil_prefix)

/-! ### The answer of a resolver -/

def Resolved.written (answer : Resolved) : List Entry :=
  answer.notes.filterMap ResolveNote.entry?

theorem Resolver.written_resolve (known : List String) (statements : List Stmt) :
    ((Resolver.ofGlobals known).resolve statements).written =
      (Walk.begin known statements).writes (Stmt.stepsAll false statements) := by
  unfold Resolved.written
  rw [Resolver.notes_resolve]
  exact Walk.written_follow _ _

/-- The occurrences in front have the depths that are noted, and those behind their old ones. -/
theorem Resolver.entries_resolve (known : List String) (statements : List Stmt) :
    entriesOf (Stmt.occurrencesAll ((Resolver.ofGlobals known).resolve statements).statements) =
      ((Resolver.ofGlobals known).resolve statements).written ++
        (entriesOf (Stmt.occurrencesAll statements)).drop
          ((Resolver.ofGlobals known).resolve statements).written.length := by
  rw [(Resolver.resolve_covers known statements).settles, Resolver.written_resolve,
    Walk.settle_eq_writes, Stmt.oldEntries_stepsAll]

/-- The statements of two answers are the same if the trees resolved were the same but for their
depths, the notes are the same, and the old depths behind them are the same. -/
theorem Resolver.statements_resolve_eq {known known' : List String} {statements others : List Stmt}
    (same : Stmt.retouchAll .erasing statements = Stmt.retouchAll .erasing others)
    (notes : ((Resolver.ofGlobals known).resolve statements).notes =
      ((Resolver.ofGlobals known').resolve others).notes)
    (behind : (entriesOf (Stmt.occurrencesAll statements)).drop
        ((Resolver.ofGlobals known).resolve statements).written.length =
      (entriesOf (Stmt.occurrencesAll others)).drop
        ((Resolver.ofGlobals known).resolve statements).written.length) :
    ((Resolver.ofGlobals known).resolve statements).statements =
      ((Resolver.ofGlobals known').resolve others).statements := by
  have written : ((Resolver.ofGlobals known).resolve statements).written =
      ((Resolver.ofGlobals known').resolve others).written := by
    unfold Resolved.written
    rw [notes]
  have erased :
      Stmt.retouchAll .erasing ((Resolver.ofGlobals known).resolve statements).statements =
        Stmt.retouchAll .erasing ((Resolver.ofGlobals known').resolve others).statements := by
    rw [Resolver.erase_resolve, Resolver.erase_resolve, same]
  have entries :
      entriesOf (Stmt.occurrencesAll ((Resolver.ofGlobals known).resolve statements).statements) =
        entriesOf (Stmt.occurrencesAll
          ((Resolver.ofGlobals known').resolve others).statements) := by
    rw [Resolver.entries_resolve, Resolver.entries_resolve, behind, written]
  exact (Stmt.eq_of_eraseAll _ _ erased (congrArg (· ++ []) entries)).1

end LexicalScript
