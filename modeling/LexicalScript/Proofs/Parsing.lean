import LexicalScript.Proofs.ParserCompleteness
import LexicalScript.Session

/-!
The parser accepts exactly the grammar.
-/

set_option autoImplicit false

namespace LexicalScript.Parser

open Grammar

/-- The state in which the parsing of a program begins. -/
def opening (tokens : List Token) : State := (start tokens).note .beginning

theorem opening_rest {body : List Token} {last : Token} (ends : last.is .endOfInput = true) :
    (opening (body ++ [last])).rest = body ++ [last] := by
  change close (body ++ [last]) = body ++ [last]
  unfold close
  rw [List.getLast?_concat]
  dsimp only
  rw [if_pos ends]

/-- Parsing a program ends with its declarations; what is returned and recorded is theirs. -/
theorem program_cases (tokens : List Token) :
    (∃ statements final,
      declarations (budget (opening tokens).rest) false (opening tokens) =
        .value statements final ∧
      (program tokens).statements = statements ∧
      (program tokens).errors = final.errors.toList) ∨
    (∃ error final, declarations (budget (opening tokens).rest) false (opening tokens) =
      .failure error final ∧ (program tokens).errors ≠ []) := by
  unfold program
  dsimp only
  cases ended : declarations (budget (opening tokens).rest) false (opening tokens) with
  | exhausted => exact absurd ended (declarations_ne_exhausted false (opening tokens))
  | value statements final =>
      rw [show declarations (budget ((start tokens).note .beginning).rest) false
        ((start tokens).note .beginning) = _ from ended]
      exact Or.inl ⟨statements, final, rfl, rfl, rfl⟩
  | failure error final =>
      rw [show declarations (budget ((start tokens).note .beginning).rest) false
        ((start tokens).note .beginning) = _ from ended]
      refine Or.inr ⟨error, final, rfl, ?_⟩
      simp [State.record]

/-- Tokens without an end of input, in front of what begins with one. -/
theorem eq_of_ends {body tokens rest : List Token} {last : Token} (inner : Proceeds body)
    (whole : body ++ [last] = tokens ++ rest) (proceeds : Proceeds tokens)
    (stops : (upcoming rest).is .endOfInput = true) (ends : last.is .endOfInput = true) :
    tokens = body := by
  rcases List.append_eq_append_iff.mp whole with ⟨more, rfl, split⟩ | ⟨more, rfl, split⟩
  · cases more with
    | nil => exact List.append_nil _
    | cons token others =>
        have same : last = token := by
          have heads := congrArg List.head? split
          exact Option.some.inj heads
        have member : token ∈ body ++ token :: others :=
          List.mem_append_right _ List.mem_cons_self
        rw [← same] at member
        cases ends.symm.trans (proceeds last (same ▸ member))
  · cases more with
    | nil => exact (List.append_nil _).symm
    | cons token others =>
        rw [split] at stops
        have member : token ∈ tokens ++ token :: others :=
          List.mem_append_right _ List.mem_cons_self
        cases stops.symm.trans (inner token member)

section

variable {body : List Token} {last : Token}

/-- What was parsed without errors derives, in the plain reading and in the strict one. -/
theorem program_sound (ends : last.is .endOfInput = true) (inner : Proceeds body)
    (clean : (program (body ++ [last])).errors = []) (strict : Bool) :
    Program strict body (program (body ++ [last])).statements := by
  rcases program_cases (body ++ [last]) with ⟨statements, final, ended, same, errors⟩ | failed
  · have runs := declarations_run (derivations strict) True
      (budget (opening (body ++ [last])).rest) false (opening (body ++ [last])) (.inl trivial)
    rw [errors] at clean
    have none : final.errors = #[] := Array.toList_eq_nil_iff.mp clean
    obtain ⟨tokens, whole, proceeds, derived⟩ := runs.takes ended (.inr (none ▸ Nat.zero_le _))
    have stops := (runs.of_value ended).2.1.ends
    rw [opening_rest ends] at whole
    rw [eq_of_ends inner whole proceeds stops ends] at derived
    rw [same]
    exact derived
  · obtain ⟨error, final, _, dirty⟩ := failed
    exact absurd clean dirty

/-- What derives strictly is parsed without errors, to the trees of the derivation. -/
theorem program_complete (ends : last.is .endOfInput = true) {trees : List Stmt}
    (derived : Program true body trees) :
    (program (body ++ [last])).errors = [] ∧ (program (body ++ [last])).statements = trees := by
  have concludes : Concluded false [last] := Or.inl ends
  have accepts := (completeStatements (budget (opening (body ++ [last])).rest)).declarations
    derived concludes (opening (body ++ [last])) (opening_rest ends)
  rcases program_cases (body ++ [last]) with ⟨statements, final, ended, same, errors⟩ | failed
  · obtain ⟨found, _, unchanged⟩ := accepts.of_value ended
    rw [errors, same, found, unchanged]
    exact ⟨rfl, rfl⟩
  · obtain ⟨error, final, ended, _⟩ := failed
    exact (accepts.of_failure ended).elim

end

/-- On tokens with the end of input at their end only, the parser records no error exactly if the
tokens before it derive from the grammar.  What it returns are then the trees of the one derivation
in which every `else` goes with the nearest open `if`. -/
theorem program_parses_the_grammar (body : List Token) (last : Token)
    (ends : last.is .endOfInput = true)
    (inner : ∀ token, token ∈ body → token.is .endOfInput = false) :
    ((program (body ++ [last])).errors = [] ↔ ∃ trees, Program false body trees) ∧
    ((program (body ++ [last])).errors = [] →
      ∀ trees, Program true body trees ↔ trees = (program (body ++ [last])).statements) := by
  refine ⟨⟨?_, ?_⟩, ?_⟩
  · intro clean
    exact ⟨_, program_sound ends inner clean false⟩
  · rintro ⟨trees, derived⟩
    obtain ⟨nearest, derived'⟩ := derived.nearest
    exact (program_complete ends derived').1
  · intro clean trees
    constructor
    · intro derived
      exact (program_complete ends derived).2.symm
    · rintro rfl
      exact program_sound ends inner clean true

/-- An `else` behind two conditions. -/
def dangling : List Token :=
  ((tokens? "if (a) if (b) print a; else print b;").toOption.getD []).dropLast

/-- The program is a condition around another one, and the `else` belongs to that one. -/
def elseInside : List Stmt → Bool
  | [.conditional _ (.conditional _ _ (some _)) none] => true
  | _ => false

/-- The `else` goes with the second condition. -/
theorem program_parses_the_grammar_dangling :
    (program (dangling ++ [Token.endOfInput 1])).errors = [] ∧
    Program true dangling (program (dangling ++ [Token.endOfInput 1])).statements ∧
    ∃ test test' first second,
      (program (dangling ++ [Token.endOfInput 1])).statements =
        [.conditional test (.conditional test' first (some second)) none] := by
  have inner : ∀ token, token ∈ dangling → token.is .endOfInput = false := by
    have checked : dangling.all (fun token => !token.is .endOfInput) = true := by decide +kernel
    intro token member
    have ordinary := List.all_eq_true.mp checked token member
    rw [Bool.not_eq_true'] at ordinary
    exact ordinary
  have clean : (program (dangling ++ [Token.endOfInput 1])).errors = [] := by
    apply List.isEmpty_iff.mp
    decide +kernel
  have grammar := program_parses_the_grammar dangling (Token.endOfInput 1) rfl inner
  refine ⟨clean, (grammar.2 clean _).mpr rfl, ?_⟩
  have checked : elseInside (program (dangling ++ [Token.endOfInput 1])).statements = true := by
    decide +kernel
  unfold elseInside at checked
  split at checked
  · rename_i shape
    exact ⟨_, _, _, _, shape⟩
  · cases checked

end LexicalScript.Parser
