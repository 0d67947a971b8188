import LexicalScript.Proofs.JoinedPrograms
import LexicalScript.Proofs.Recovery

/-!
What skipping leaves of declarations.

Skipping to a statement boundary stops in front of a word that starts a statement and behind a
semicolon, but pays no attention to braces.  In front of declarations that derive from the grammar
it may stop inside a block whose opening brace it skipped.  What is left of the declarations then
begins with the rest of that block and goes on, behind its closing brace, with the rest of what is
around it.
-/

set_option autoImplicit false

namespace LexicalScript.Grammar

open LexicalScript.Parser (statementMarks)

/-! ### Tokens that skipping passes -/

/-- The marks that skipping stops at, or right behind. -/
def breaks : List Mark := .semicolon :: .endOfInput :: statementMarks

/-- Skipping does not stop among the tokens. -/
def Inline (tokens : List Token) : Prop :=
  ∀ token, token ∈ tokens → ∀ mark, mark ∈ breaks → token.is mark = false

namespace Inline

variable {tokens others : List Token} {token : Token}

theorem nil : Inline [] := nofun

theorem append (inline : Inline tokens) (inline' : Inline others) : Inline (tokens ++ others) := by
  intro token member
  rcases List.mem_append.mp member with before | after
  · exact inline token before
  · exact inline' token after

theorem cons {mark : Mark} (own : token.is mark = true) (absent : mark ∉ breaks)
    (inline : Inline tokens) : Inline (token :: tokens) := by
  intro other member
  rcases List.mem_cons.mp member with rfl | later
  · intro mark' listed
    refine Token.not_is own ?_
    rintro rfl
    exact absent listed
  · exact inline other later

theorem single {mark : Mark} (own : token.is mark = true) (absent : mark ∉ breaks) :
    Inline [token] :=
  cons own absent nil

end Inline

theorem Atom.inline {token : Token} {tree : Expr} (atom : Atom token tree) : Inline [token] := by
  cases atom with
  | number kind | string kind =>
      intro other member mark _
      rw [List.mem_singleton.mp member, Bool.eq_false_iff]
      intro own
      cases kind.symm.trans (Token.kind_of_is own)
  | truth own | falsehood own | nothing own | name own => exact .single own (by decide)

theorem Row.passes {level operand : Parser.Level} {operators : List Mark}
    {node : Expr → Token → Expr → Expr} (row : Row level operand operators node) :
    ∀ mark, mark ∈ operators → mark ∉ breaks := by
  cases row <;> decide

mutual

theorem Expression.inline : ∀ {tokens : List Token} {tree : Expr}, Expression tokens tree →
    Inline tokens
  | _, _, .assignment isName isEquals value =>
      .cons isName (by decide) (.cons isEquals (by decide) value.inline)
  | _, _, .operation operand => operand.inline

theorem Operand.inline : ∀ {level : Parser.Level} {tokens : List Token} {tree : Expr},
    Operand level tokens tree → Inline tokens
  | _, _, _, .row row first rest => first.inline.append (rest.inline row.passes)
  | _, _, _, .unary (Or.inl own) operand => .cons own (by decide) operand.inline
  | _, _, _, .unary (Or.inr own) operand => .cons own (by decide) operand.inline
  | _, _, _, .call first rest => first.inline.append rest.inline

theorem Joined.inline : ∀ {operand : Parser.Level} {operators : List Mark}
    {node : Expr → Token → Expr → Expr} {left tree : Expr} {tokens : List Token},
    Joined operand operators node left tokens tree →
    (∀ mark, mark ∈ operators → mark ∉ breaks) → Inline tokens
  | _, _, _, _, _, _, .done, _ => .nil
  | _, _, _, _, _, _, .more member own right rest, passes =>
      .cons own (passes _ member) (right.inline.append (rest.inline passes))

theorem Suffixed.inline : ∀ {operand tree : Expr} {tokens : List Token},
    Suffixed operand tokens tree → Inline tokens
  | _, _, _, .done => .nil
  | _, _, _, .callNone isLeft isRight rest =>
      .cons isLeft (by decide) (.cons isRight (by decide) rest.inline)
  | _, _, _, .call isLeft arguments _ isRight rest =>
      .cons isLeft (by decide) (arguments.inline.append (.cons isRight (by decide) rest.inline))
  | _, _, _, .index isLeft position isRight rest =>
      .cons isLeft (by decide) (position.inline.append (.cons isRight (by decide) rest.inline))

theorem Items.inline : ∀ {tokens : List Token} {exprs : List Expr}, Items tokens exprs →
    Inline tokens
  | _, _, .last expression => expression.inline
  | _, _, .more expression isComma rest =>
      expression.inline.append (.cons isComma (by decide) rest.inline)

theorem Primary.inline : ∀ {tokens : List Token} {tree : Expr}, Primary tokens tree →
    Inline tokens
  | _, _, .atom atom => atom.inline
  | _, _, .grouping isLeft inner isRight =>
      .cons isLeft (by decide) (inner.inline.append (.single isRight (by decide)))
  | _, _, .listNone isLeft isRight => .cons isLeft (by decide) (.single isRight (by decide))
  | _, _, .list isLeft elements isRight =>
      .cons isLeft (by decide) (elements.inline.append (.single isRight (by decide)))

end

end LexicalScript.Grammar

namespace LexicalScript.Parser

open Grammar

/-! ### What is left -/

/-- The tokens left of declarations of which the front was skipped: declarations at the end of one
or more blocks, each up to its closing brace, and those behind the outermost block, which return the
statements. -/
inductive Unwound : List Token → List Stmt → Prop
  | outside {tokens : List Token} {stmts : List Stmt} : Declarations true tokens stmts →
      Unwound tokens stmts
  | inside {tokens rest : List Token} {right : Token} {body stmts : List Stmt} :
      Declarations true tokens body → right.is .rightBrace = true → Unwound rest stmts →
      Unwound (tokens ++ right :: rest) stmts

theorem Unwound.append {others : List Token} {stmts' : List Stmt}
    (derived : Declarations true others stmts') {tokens : List Token} {stmts : List Stmt}
    (unwound : Unwound tokens stmts) : Unwound (tokens ++ others) (stmts ++ stmts') := by
  induction unwound with
  | outside whole => exact .outside (derived.append whole)
  | inside inner isRight _ ih =>
      rw [List.append_assoc]
      exact .inside inner isRight ih

theorem Unwound.close {right : Token} (isRight : right.is .rightBrace = true)
    {tokens : List Token} {stmts : List Stmt} (unwound : Unwound tokens stmts) :
    Unwound (tokens ++ [right]) [] := by
  induction unwound with
  | outside whole => exact .inside whole isRight (.outside .nil)
  | inside inner isRight _ ih =>
      rw [List.append_assoc]
      exact .inside inner isRight ih

/-- Skipping goes past the tokens, or drops none of them, or stops among them with fewer of the
statements left. -/
def Skips (tokens : List Token) (stmts : List Stmt) : Prop :=
  ∀ (last : Token) (follow : List Token), last.is .semicolon = false →
    (∃ last', last'.is .semicolon = false ∧
      boundary last (tokens ++ follow) = boundary last' follow) ∨
    boundary last (tokens ++ follow) = tokens ++ follow ∨
    ∃ left kept, boundary last (tokens ++ follow) = left ++ follow ∧ Unwound left kept ∧
      kept.length < stmts.length

theorem boundary_passes {last token : Token} (unended : last.is .semicolon = false)
    (passes : ∀ mark, mark ∈ breaks → token.is mark = false) (rest : List Token) :
    boundary last (token :: rest) = boundary token rest := by
  have going : token.is .endOfInput = false := passes .endOfInput (by decide)
  have wordless : statementMarks.any token.is = false := by
    rw [List.any_eq_false]
    intro mark member
    have listed : mark ∈ breaks := List.mem_cons_of_mem _ (List.mem_cons_of_mem _ member)
    rw [passes mark listed]
    exact Bool.false_ne_true
  simp [boundary, going, unended, wordless]

namespace Skips

variable {tokens rest : List Token} {stmts : List Stmt} {stmt : Stmt}

theorem nil : Skips [] [] :=
  fun last _ unended => Or.inl ⟨last, unended, rfl⟩

theorem word {token : Token} {mark : Mark} (own : token.is mark = true)
    (member : mark ∈ statementMarks) : Skips (token :: rest) stmts := by
  intro last follow _
  have stops : statementMarks.any token.is = true := List.any_eq_true.mpr ⟨mark, member, own⟩
  have whole : boundary last (token :: (rest ++ follow)) = token :: (rest ++ follow) := by
    simp [boundary, stops]
  exact Or.inr (Or.inl whole)

theorem expression (statement : ExpressionStatement tokens stmt) : Skips tokens [stmt] := by
  intro last follow unended
  cases statement with
  | @mk inner expr semicolon expression isSemicolon =>
      have plain : ∀ token, token ∈ inner → token.is .semicolon = false ∧
          token.is .endOfInput = false ∧
          ∀ mark, mark ∈ statementMarks → token.is mark = false := by
        intro token member
        have passes := expression.inline token member
        refine ⟨passes .semicolon (by decide), passes .endOfInput (by decide), ?_⟩
        intro mark listed
        exact passes mark (List.mem_cons_of_mem _ (List.mem_cons_of_mem _ listed))
      have skipped : boundary last (inner ++ semicolon :: follow) = follow :=
        Fork.boundary_behind isSemicolon inner unended plain
      refine Or.inr (Or.inr ⟨[], [], ?_, .outside .nil, Nat.one_pos⟩)
      rw [List.append_assoc]
      exact skipped

theorem block {left right : Token} {body : List Stmt} (isLeft : left.is .leftBrace = true)
    (isRight : right.is .rightBrace = true) (derived : Declarations true tokens body)
    (skips : Skips tokens body) : Skips (left :: (tokens ++ [right])) [stmt] := by
  intro last follow unended
  have entered : boundary last (left :: (tokens ++ [right]) ++ follow) =
      boundary left (tokens ++ right :: follow) := by
    rw [List.cons_append, List.append_assoc]
    exact boundary_passes unended (Inline.single isLeft (by decide) left List.mem_cons_self) _
  rw [entered]
  rcases skips left (right :: follow) (Token.not_is isLeft (by decide)) with
    ⟨last', unended', past⟩ | none | ⟨others, kept, some, unwound, _⟩
  · refine Or.inl ⟨right, Token.not_is isRight (by decide), ?_⟩
    rw [past]
    exact boundary_passes unended' (Inline.single isRight (by decide) right List.mem_cons_self) _
  · refine Or.inr (Or.inr ⟨tokens ++ [right], [], ?_, ?_, Nat.one_pos⟩)
    · rw [none, List.append_assoc]
      rfl
    · exact (Unwound.outside derived).close isRight
  · refine Or.inr (Or.inr ⟨others ++ [right], [], ?_, unwound.close isRight, Nat.one_pos⟩)
    rw [some, List.append_assoc]
    rfl

theorem cons {first : List Token} (skips : Skips first [stmt])
    (derived : Declarations true rest stmts) (skips' : Skips rest stmts) :
    Skips (first ++ rest) (stmt :: stmts) := by
  intro last follow unended
  rw [List.append_assoc]
  rcases skips last (rest ++ follow) unended with
    ⟨last', unended', past⟩ | none | ⟨left, kept, some, unwound, fewer⟩
  · rw [past]
    rcases skips' last' follow unended' with
      further | none | ⟨left, kept, some, unwound, fewer⟩
    · exact Or.inl further
    · exact Or.inr (Or.inr ⟨rest, stmts, none, .outside derived, Nat.lt_succ_self _⟩)
    · exact Or.inr (Or.inr ⟨left, kept, some, unwound, Nat.lt_succ_of_lt fewer⟩)
  · exact Or.inr (Or.inl none)
  · obtain rfl : kept = [] := List.length_eq_zero_iff.mp (Nat.lt_one_iff.mp fewer)
    refine Or.inr (Or.inr ⟨left ++ rest, stmts, ?_, unwound.append derived, Nat.lt_succ_self _⟩)
    rw [some, List.append_assoc]

end Skips

end LexicalScript.Parser

namespace LexicalScript.Grammar

open LexicalScript.Parser

mutual

theorem Statement.skips : ∀ {tokens : List Token} {stmt : Stmt} {dangling : Bool},
    Statement true tokens stmt dangling → Skips tokens [stmt]
  | _, _, _, .expression statement => .expression statement
  | _, _, _, .block isLeft body isRight => .block isLeft isRight body body.skips
  | _, _, _, .print own _ _ => .word own (by decide)
  | _, _, _, .returned own _ _ => .word own (by decide)
  | _, _, _, .loop own _ _ _ _ => .word own (by decide)
  | _, _, _, .counting own _ _ _ _ _ _ _ => .word own (by decide)
  | _, _, _, .conditional own _ _ _ _ => .word own (by decide)
  | _, _, _, .alternative own _ _ _ _ _ _ _ => .word own (by decide)

theorem Declaration.skips : ∀ {tokens : List Token} {stmt : Stmt},
    Declaration true tokens stmt → Skips tokens [stmt]
  | _, _, .function own _ _ _ _ _ _ _ => .word own (by decide)
  | _, _, .var declaration => by
      obtain ⟨keyword, rest, rfl, own⟩ := declaration.keyword
      exact .word own (by decide)
  | _, _, .statement statement => statement.skips

theorem Declarations.skips : ∀ {tokens : List Token} {stmts : List Stmt},
    Declarations true tokens stmts → Skips tokens stmts
  | _, _, .nil => .nil
  | _, _, .cons first rest => .cons first.skips rest rest.skips

end

/-! ### One parse -/

theorem Declarations.declaration {strict : Bool} {tokens : List Token} {stmt : Stmt}
    (derived : Declarations strict tokens [stmt]) : Declaration strict tokens stmt := by
  cases derived with
  | cons first rest =>
      cases rest with
      | nil =>
          rw [List.append_nil]
          exact first

/-- Declarations that begin with an opening brace begin with a block. -/
theorem Declarations.opened {strict : Bool} {left : Token} {tokens : List Token}
    {stmts : List Stmt} (isLeft : left.is .leftBrace = true)
    (derived : Declarations strict (left :: tokens) stmts) :
    ∃ inner right rest body others, tokens = inner ++ right :: rest ∧
      right.is .rightBrace = true ∧ Declarations strict inner body ∧
      Declarations strict rest others ∧ stmts = .block body :: others := by
  generalize whole : left :: tokens = all at derived
  have other : ∀ {token : Token} {mark : Mark} {rest : List Token}, token.is mark = true →
      all = token :: rest → mark = .leftBrace := by
    intro token mark rest own same
    obtain ⟨rfl, _⟩ := List.cons.inj (whole.trans same)
    exact Token.is_unique own isLeft
  cases derived with
  | nil => cases whole
  | @cons _ rest _ _ first rest' =>
      cases first with
      | function own => cases other own rfl
      | var declaration =>
          obtain ⟨keyword, _, rfl, own⟩ := declaration.keyword
          cases other own rfl
      | statement statement =>
          cases statement with
          | print own | returned own | loop own | counting own | conditional own
          | alternative own => cases other own rfl
          | expression statement =>
              obtain ⟨token, _, rfl, only⟩ := statement.starts
              obtain ⟨rfl, _⟩ := List.cons.inj whole
              exact absurd (only _ isLeft) (by decide)
          | @block _ right inner body _ declarations isRight =>
              have behind : tokens = inner ++ [right] ++ rest := (List.cons.inj whole).2
              refine ⟨inner, right, rest, body, _, ?_, isRight, declarations, rest', rfl⟩
              rw [behind, List.append_assoc]
              rfl

theorem Declarations.unique {tokens : List Token} {stmts stmts' : List Stmt}
    (derived : Declarations true tokens stmts) (derived' : Declarations true tokens stmts') :
    stmts = stmts' := by
  have ends : (Token.endOfInput 1).is .endOfInput = true := rfl
  exact (program_complete ends derived).2.symm.trans (program_complete ends derived').2

/-- Declarations do not go on behind declarations and a closing brace. -/
theorem Declarations.unbraced {tokens rest : List Token} {right : Token} {stmts body : List Stmt}
    (isRight : right.is .rightBrace = true) (inner : Declarations true tokens body) :
    ¬Declarations true (tokens ++ right :: rest) stmts := by
  intro derived
  let last := Token.endOfInput 1
  let state : State := ⟨tokens ++ right :: (rest ++ [last]), #[], #[]⟩
  have complete := completeStatements (budget state.rest)
  have closed : Concluded true (right :: (rest ++ [last])) := Or.inr ⟨rfl, isRight⟩
  have ended : Concluded true [last] := Or.inl rfl
  have stops := complete.declarations inner closed state rfl
  have passes := complete.declarations derived ended state (by simp [state])
  -- Inside a block one run would have to stop at the brace and to go past it.
  cases run : declarations (budget state.rest) true state with
  | exhausted => exact declarations_ne_exhausted true state run
  | failure error final => exact stops.of_failure run
  | value found final =>
      have same := (stops.of_value run).2.1.symm.trans (passes.of_value run).2.1
      have longer := congrArg List.length same
      simp at longer

theorem Declarations.not_closing {rest : List Token} {right : Token} {stmts : List Stmt}
    (isRight : right.is .rightBrace = true) : ¬Declarations true (right :: rest) stmts :=
  Declarations.unbraced isRight .nil

/-- If skipping stops at a closing brace, what is behind it does not return the statements of the
declarations that were skipped. -/
theorem Declarations.not_kept {tokens rest : List Token} {stmts : List Stmt}
    {last right stop : Token} (derived : Declarations true tokens stmts)
    (unended : last.is .semicolon = false) (isRight : right.is .rightBrace = true)
    (ends : stop.is .endOfInput = true)
    (skipped : boundary last (tokens ++ [stop]) = right :: rest ++ [stop]) :
    ¬Declarations true rest stmts := by
  intro again
  rcases derived.skips last [stop] unended with
    ⟨last', _, past⟩ | none | ⟨left, kept, some, unwound, fewer⟩
  · have stopped : boundary last' [stop] = [stop] := by simp [boundary, ends]
    rw [skipped, stopped] at past
    have longer := congrArg List.length past
    simp at longer
  · rw [skipped] at none
    rw [← List.append_cancel_right none] at derived
    exact derived.not_closing isRight
  · rw [skipped] at some
    rw [← List.append_cancel_right some] at unwound
    -- The first brace ends a block of which no declaration is left.
    generalize whole : right :: rest = tokens at unwound
    cases unwound with
    | outside derived =>
        rw [← whole] at derived
        exact derived.not_closing isRight
    | @inside inner others brace _ _ derived _ unwound =>
        cases inner with
        | cons token inner =>
            obtain ⟨rfl, _⟩ := List.cons.inj whole
            exact derived.not_closing isRight
        | nil =>
            obtain ⟨_, rfl⟩ := List.cons.inj whole
            cases unwound with
            | outside left =>
                -- What is left returns fewer statements, and no text returns two lists of them.
                rw [again.unique left] at fewer
                exact absurd fewer (Nat.lt_irrefl _)
            | inside derived isRight _ => exact derived.unbraced isRight again

end LexicalScript.Grammar
