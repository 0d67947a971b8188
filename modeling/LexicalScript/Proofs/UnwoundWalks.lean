import LexicalScript.Proofs.ParallelWalks
import LexicalScript.Proofs.Recovery

/-!
A resolver after a walk.

A walk leaves every scope, function and initializer that it enters, also when an error stops it in
the midst of them.  All that is left of it is what it has learnt: the globals that a running walk
came to define.  A resolver that has failed is therefore as good as a new one.
-/

set_option autoImplicit false

namespace LexicalScript

theorem Resolver.eq_ofGlobals {resolver : Resolver} (top : resolver.scopes = [])
    (outside : resolver.inFunction = false) (plain : resolver.initializing = none) :
    resolver = .ofGlobals resolver.known := by
  obtain ⟨scopes, inFunction, initializing, known⟩ := resolver
  cases top
  cases outside
  cases plain
  rfl

/-- After a walk the resolver is between walks again. -/
theorem Resolver.resolver_resolve (known : List String) (statements : List Stmt) :
    ((Resolver.ofGlobals known).resolve statements).resolver =
      .ofGlobals ((Resolver.ofGlobals known).resolve statements).resolver.known := by
  have covers := Resolver.resolve_covers known statements
  exact Resolver.eq_ofGlobals (List.length_eq_zero_iff.mp covers.nesting) covers.inFunction
    covers.initializing

/-- Resolvers that know the same globals give the same answers. -/
theorem Resolver.resolve_of_same_known {known known' : List String}
    (same : ∀ name, name ∈ known ↔ name ∈ known') (statements : List Stmt) :
    let answer := (Resolver.ofGlobals known).resolve statements
    let answer' := (Resolver.ofGlobals known').resolve statements
    answer.error = answer'.error ∧ answer.statements = answer'.statements ∧
      answer.notes = answer'.notes ∧
      ∀ name, name ∈ answer.resolver.known ↔ name ∈ answer'.resolver.known := by
  intro answer answer'
  have begun : (Walk.begin known statements).EqExceptGlobals (Walk.begin known' statements) :=
    ⟨rfl, rfl, rfl, rfl⟩
  obtain ⟨parallel, learnt⟩ := begun.follow same (Stmt.stepsAll false statements)
  have notes : answer.notes = answer'.notes :=
    (Resolver.notes_resolve known statements).trans
      ((congrArg Array.toList parallel.notes).trans (Resolver.notes_resolve known' statements).symm)
  have error : answer.error = answer'.error :=
    (Resolver.error_resolve known statements).trans
      (parallel.stopped.trans (Resolver.error_resolve known' statements).symm)
  refine ⟨error, Resolver.statements_resolve_eq rfl notes rfl, notes, fun name => ?_⟩
  rw [Resolver.place_resolve known, Resolver.place_resolve known']
  exact learnt name

/-- The globals known after a walk: those known before, and those that the walk came to define
outside of all scopes before it stopped. -/
theorem Resolver.mem_known_resolve (known : List String) (statements : List Stmt) (name : String) :
    name ∈ ((Resolver.ofGlobals known).resolve statements).resolver.known ↔
      name ∈ known ∨
        ∃ front token back,
          Stmt.stepsAll false statements = front ++ .define token :: back ∧
          token.lexeme = name ∧
          ((Walk.begin known statements).follow front).stopped = none ∧
          ((Walk.begin known statements).follow front).resolver.scopes = [] := by
  rw [Resolver.place_resolve]
  refine (Walk.mem_known_follow _ _ name).trans (or_congr_right ⟨?_, ?_⟩)
  · rintro ⟨front, step, back, split, learns⟩
    cases step with
    | define token => exact ⟨front, token, back, split, learns⟩
    | _ => exact learns.elim
  · rintro ⟨front, token, back, split, learns⟩
    exact ⟨front, .define token, back, split, learns⟩

/-- After any walk, with an error or without, the resolver is outside of all scopes, functions and
initializers and knows the globals that the walk came to define besides those known before.  So it
resolves all further statements as a new resolver with these globals does. -/
theorem failed_resolver_is_usable (known : List String) (statements : List Stmt) :
    let answer := (Resolver.ofGlobals known).resolve statements
    let begun := Walk.begin known statements
    let steps := Stmt.stepsAll false statements
    (answer.resolver.scopes = [] ∧ answer.resolver.inFunction = false ∧
      answer.resolver.initializing = none) ∧
    (answer.error = (begun.follow steps).stopped ∧
      answer.resolver = (begun.follow steps).resolver) ∧
    (∀ name, name ∈ answer.resolver.known ↔
      name ∈ known ∨ ∃ front token back, steps = front ++ .define token :: back ∧
        token.lexeme = name ∧ (begun.follow front).stopped = none ∧
        (begun.follow front).resolver.scopes = []) ∧
    ∀ fresh, (∀ name, name ∈ fresh ↔ name ∈ answer.resolver.known) → ∀ further,
      let later := answer.resolver.resolve further
      let new := (Resolver.ofGlobals fresh).resolve further
      later.error = new.error ∧ later.statements = new.statements ∧ later.notes = new.notes ∧
        ∀ name, name ∈ later.resolver.known ↔ name ∈ new.resolver.known := by
  intro answer begun steps
  have unwound : answer.resolver = .ofGlobals answer.resolver.known :=
    Resolver.resolver_resolve known statements
  refine ⟨?_, ⟨Resolver.error_resolve known statements, Resolver.place_resolve known statements⟩,
    Resolver.mem_known_resolve known statements, ?_⟩
  · rw [unwound]
    exact ⟨rfl, rfl, rfl⟩
  · intro fresh same further
    rw [unwound]
    exact Resolver.resolve_of_same_known (fun name => (same name).symm) further

/-- An error in an initializer, in a block, in a function.  The function is known, and what comes
after it is not. -/
theorem failed_resolver_is_usable_nested :
    let statementsOf := fun source =>
      (Parser.program (Parser.wordsOf source ++ [Token.endOfInput 1])).statements
    let broken := statementsOf
      "var a = true; fun f(x) \x7b \x7b var b = b; \x7d \x7d var c = nil;"
    let further := statementsOf "var a = a; \x7b var f = a; print f; \x7d var c = c;"
    let answer := (Resolver.ofGlobals []).resolve broken
    answer.error = some ⟨.localInOwnInitializer "b", 1⟩ ∧
    (∀ name, name ∈ ["f", "a"] ↔ name ∈ answer.resolver.known) ∧
    ((Resolver.ofGlobals ["f", "a"]).resolve further).error =
      some ⟨.globalInOwnInitializer "c", 1⟩ ∧
    (answer.resolver.resolve further).error = some ⟨.globalInOwnInitializer "c", 1⟩ ∧
    (answer.resolver.resolve further).statements =
      ((Resolver.ofGlobals ["f", "a"]).resolve further).statements := by
  intro statementsOf broken further answer
  have learnt : answer.resolver.known = ["a", "f"] := by decide +kernel
  have same : ∀ name, name ∈ ["f", "a"] ↔ name ∈ answer.resolver.known := by
    rw [learnt]
    simp [or_comm]
  have barred : ((Resolver.ofGlobals ["f", "a"]).resolve further).error =
      some ⟨.globalInOwnInitializer "c", 1⟩ := by
    decide +kernel
  have later := (failed_resolver_is_usable [] broken).2.2.2 ["f", "a"] same further
  exact ⟨by decide +kernel, same, barred, later.1.trans barred, later.2.1⟩

end LexicalScript
