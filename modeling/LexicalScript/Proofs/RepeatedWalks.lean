import LexicalScript.Proofs.UnwoundWalks

/-!
Resolving again.

A second walk over statements knows from the start what the first one came to know.  It could pass a
check that stopped the first walk only if that walk had learnt the name later, and a stopped walk
learns nothing.  So it retraces the first walk step by step, and writes what is there already.
-/

set_option autoImplicit false

namespace LexicalScript

/-- Resolves statements and then resolves them a number of times more, each time with the depths and
the resolver that the time before left. -/
def Resolver.resolveTimes (resolver : Resolver) (statements : List Stmt) : Nat → Resolved
  | 0 => resolver.resolve statements
  | times + 1 =>
      let answer := resolver.resolveTimes statements times
      answer.resolver.resolve answer.statements

/-! ### Old depths -/

theorem Stmt.length_retouchAll (change : Retouch) (statements : List Stmt) :
    (Stmt.retouchAll change statements).length = statements.length := by
  induction statements with
  | nil => rfl
  | cons stmt rest ih => simp [Stmt.retouchAll, ih]

section SameErasure

variable {statements others : List Stmt}
  (same : Stmt.retouchAll .erasing others = Stmt.retouchAll .erasing statements)
include same

theorem Stmt.bare_of_erase (inside : Bool) :
    (Stmt.stepsAll inside others).map Step.bare =
      (Stmt.stepsAll inside statements).map Step.bare := by
  rw [← Stmt.stepsAll_erase, ← Stmt.stepsAll_erase, same]

theorem Walk.follow_of_erase (walk : Walk) (inside : Bool) :
    walk.follow (Stmt.stepsAll inside others) = walk.follow (Stmt.stepsAll inside statements) := by
  rw [← Walk.follow_bare, Stmt.bare_of_erase same, Walk.follow_bare]

theorem Walk.begin_of_erase (known : List String) :
    Walk.begin known others = Walk.begin known statements := by
  have length : others.length = statements.length := by
    rw [← Stmt.length_retouchAll .erasing others, same, Stmt.length_retouchAll]
  rw [Walk.begin, length]
  rfl

/-- The error, the notes and the resolver left do not depend on old depths. -/
theorem Resolver.resolve_of_erase (known : List String) :
    let answer := (Resolver.ofGlobals known).resolve others
    let answer' := (Resolver.ofGlobals known).resolve statements
    answer.error = answer'.error ∧ answer.resolver = answer'.resolver ∧
      answer.notes = answer'.notes := by
  intro answer answer'
  have begun := Walk.begin_of_erase same known
  have followed := Walk.follow_of_erase same (Walk.begin known others) false
  rw [begun] at followed
  refine ⟨?_, ?_, ?_⟩
  · rw [Resolver.error_resolve known others, Resolver.error_resolve known statements, begun,
      followed]
  · rw [Resolver.place_resolve known others, Resolver.place_resolve known statements, begun,
      followed]
  · rw [Resolver.notes_resolve known others, Resolver.notes_resolve known statements, begun,
      followed]

theorem Walk.writes_of_erase (walk : Walk) (inside : Bool) :
    walk.writes (Stmt.stepsAll inside others) = walk.writes (Stmt.stepsAll inside statements) := by
  have written := congrArg Walk.written (Walk.follow_of_erase same walk inside)
  rw [Walk.written_follow, Walk.written_follow] at written
  exact List.append_cancel_left written

/-- What a resolver writes depends neither on old depths nor on the globals that it knows: of two
walks, one writes the same as the other and may go on. -/
theorem Resolver.written_comparable (known known' : List String) :
    ((Resolver.ofGlobals known).resolve statements).written <+:
        ((Resolver.ofGlobals known').resolve others).written ∨
      ((Resolver.ofGlobals known').resolve others).written <+:
        ((Resolver.ofGlobals known).resolve statements).written := by
  rw [Resolver.written_resolve, Resolver.written_resolve, Walk.begin_of_erase same,
    Walk.writes_of_erase same]
  have begun : (Walk.begin known statements).EqExceptGlobals (Walk.begin known' statements) :=
    ⟨rfl, rfl, rfl, rfl⟩
  exact begun.writes_comparable _

end SameErasure

/-! ### The second time -/

/-- A resolver that knows what another one came to know gives the same error and the same notes, and
learns nothing. -/
theorem Resolver.resolve_retraces (known : List String) (statements : List Stmt) :
    let answer := (Resolver.ofGlobals known).resolve statements
    let second := (Resolver.ofGlobals answer.resolver.known).resolve statements
    second.error = answer.error ∧ second.resolver = answer.resolver ∧
      second.notes = answer.notes := by
  intro answer second
  have begun : (Walk.begin known statements).EqExceptGlobals
      (Walk.begin answer.resolver.known statements) :=
    ⟨rfl, rfl, rfl, rfl⟩
  have known' : ∀ name,
      name ∈ ((Walk.begin known statements).follow
        (Stmt.stepsAll false statements)).resolver.known ↔ name ∈ answer.resolver.known := by
    intro name
    rw [Resolver.place_resolve known statements]
  obtain ⟨parallel, kept⟩ := begun.retrace known'
  refine ⟨?_, ?_, ?_⟩
  · rw [Resolver.error_resolve _ statements, Resolver.error_resolve known statements,
      parallel.stopped]
  · have learnt : second.resolver.known = answer.resolver.known := by
      rw [Resolver.place_resolve _ statements]
      exact kept
    rw [Resolver.resolver_resolve _ statements, learnt]
    exact (Resolver.resolver_resolve known statements).symm
  · rw [Resolver.notes_resolve _ statements, Resolver.notes_resolve known statements,
      parallel.notes]

/-- The second time a resolver gives the answer of the first time. -/
theorem Resolver.resolve_again (known : List String) (statements : List Stmt) :
    let answer := (Resolver.ofGlobals known).resolve statements
    answer.resolver.resolve answer.statements = answer := by
  intro answer
  have erased := (Resolver.ofGlobals known).erase_resolve statements
  have unwound : answer.resolver = _ := Resolver.resolver_resolve known statements
  rw [unwound]
  let second := (Resolver.ofGlobals answer.resolver.known).resolve answer.statements
  obtain ⟨error, place, notes⟩ := Resolver.resolve_of_erase erased answer.resolver.known
  obtain ⟨error', place', notes'⟩ := Resolver.resolve_retraces known statements
  have statements' : second.statements = answer.statements := by
    apply Resolver.statements_resolve_eq erased (notes.trans notes')
    have written : second.written = answer.written :=
      congrArg (List.filterMap ResolveNote.entry?) (notes.trans notes')
    -- behind the walk the first answer still has the depths that were there before it
    rw [written, Resolver.entries_resolve, List.drop_left]
  calc second
    _ = ⟨second.statements, second.error, second.resolver, second.notes⟩ := rfl
    _ = ⟨answer.statements, answer.error, answer.resolver, answer.notes⟩ := by
        rw [statements', error.trans error', place.trans place', notes.trans notes']

theorem Resolver.resolveTimes_eq (known : List String) (statements : List Stmt) (times : Nat) :
    (Resolver.ofGlobals known).resolveTimes statements times =
      (Resolver.ofGlobals known).resolve statements := by
  induction times with
  | zero => rfl
  | succ times ih =>
      rw [Resolver.resolveTimes, ih]
      exact Resolver.resolve_again known statements

/-- Resolving is repeatable and ignores old depths.  However often statements are resolved with one
resolver, the whole answer is that of the first time.  With other old depths the error, the resolver
left and all that is written are the same.  With other known globals too, the occurrences in front
have the depths written and those behind their old ones, and what is written differs only in how far
the walk comes. -/
theorem resolving_is_repeatable (known known' : List String) (statements others : List Stmt)
    (same : Stmt.retouchAll .erasing others = Stmt.retouchAll .erasing statements) :
    let answer := (Resolver.ofGlobals known).resolve statements
    let redone := (Resolver.ofGlobals known).resolve others
    let other := (Resolver.ofGlobals known').resolve others
    (∀ times, (Resolver.ofGlobals known).resolveTimes statements times = answer) ∧
    (redone.error = answer.error ∧ redone.resolver = answer.resolver ∧
      redone.written = answer.written) ∧
    entriesOf (Stmt.occurrencesAll other.statements) =
      other.written ++
        (entriesOf (Stmt.occurrencesAll others)).drop other.written.length ∧
    (answer.written <+: other.written ∨ other.written <+: answer.written) := by
  intro answer redone other
  obtain ⟨error, place, notes⟩ := Resolver.resolve_of_erase same known
  have written : redone.written = answer.written :=
    congrArg (List.filterMap ResolveNote.entry?) notes
  exact ⟨Resolver.resolveTimes_eq known statements, ⟨error, place, written⟩,
    Resolver.entries_resolve known' others, Resolver.written_comparable same known known'⟩

/-- A walk that fails at once, over statements that a resolver with more globals has walked before
and that has failed further behind. -/
theorem resolving_is_repeatable_cut :
    let statements := (Parser.program (Parser.wordsOf
      "var a = a; \x7b var b = a; print b; var b = c; print c; \x7d" ++
        [Token.endOfInput 1])).statements
    let others := ((Resolver.ofGlobals ["a"]).resolve statements).statements
    let answer := (Resolver.ofGlobals []).resolve statements
    let other := (Resolver.ofGlobals ["a"]).resolve others
    answer.error = some ⟨.globalInOwnInitializer "a", 1⟩ ∧ answer.written = [("a", none)] ∧
    (Resolver.ofGlobals []).resolveTimes statements 7 = answer ∧
    other.error = some ⟨.alreadyDeclared "b", 1⟩ ∧
    other.written = [("a", none), ("a", none), ("b", some 0)] ∧
    ((Resolver.ofGlobals []).resolve others).written = [("a", none)] ∧
    (answer.written <+: other.written ∨ other.written <+: answer.written) := by
  intro statements others answer other
  have erased := (Resolver.ofGlobals ["a"]).erase_resolve statements
  obtain ⟨repeated, ⟨-, -, written⟩, -, comparable⟩ :=
    resolving_is_repeatable [] ["a"] statements others erased
  have first : answer.written = [("a", none)] := by decide +kernel
  exact ⟨by decide +kernel, first, repeated 7, by decide +kernel, by decide +kernel,
    written.trans first, comparable⟩

end LexicalScript
