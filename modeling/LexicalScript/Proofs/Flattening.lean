import LexicalScript.Proofs.SingleExpressions
import Mathlib.Data.List.Forall2

/-!
Expressions and the tokens they are written with.

A tree is flattened, in order, to a list of slots.  A slot asks for a token that the tree keeps, or
for any token of a kind: the parser forgets the text and the line of brackets, commas, equals signs
and literals.  A tree is normal when every operand is at least as strong as its rule demands, so
that it needs no parentheses beyond its groupings.  The single expressions that parse are the
flattened normal trees, and each parses to the tree it was flattened from.
-/

set_option autoImplicit false

namespace LexicalScript

/-! ### Normal trees -/

/-- How strongly an infix operator holds its operands; other marks hold nothing. -/
def Mark.strength : Mark → Nat
  | .orWord => 1
  | .andWord => 2
  | .bangEqual | .equalEqual => 3
  | .greater | .greaterEqual | .less | .lessEqual => 4
  | .minus | .plus => 5
  | .slash | .star => 6
  | _ => 0

def Token.strength (token : Token) : Nat :=
  match token.kind with
  | .mark mark => mark.strength
  | _ => 0

/-- How strongly an expression holds together.  Assignments are the weakest, then come the infix
operators and the prefixed ones; calls, element accesses and primary expressions are the
strongest. -/
def Expr.strength : Expr → Nat
  | .assign .. => 0
  | .logical _ operator _ => operator.strength
  | .binary _ operator _ => operator.strength
  | .unary .. => 7
  | _ => 8

mutual

/-- Whether every operand is strong enough for its place, every token that the tree keeps is of the
kind its rule demands, no name has a depth, and no call has more than 255 arguments.  Infix
operators group to the left: their right operand must be stronger than they are. -/
def Expr.isNormal : Expr → Bool
  | .literal _ => true
  | .unary operator operand =>
      (operator.is .bang || operator.is .minus) && decide (7 ≤ operand.strength) &&
        operand.isNormal
  | .binary left operator right =>
      decide (3 ≤ operator.strength ∧ operator.strength ≤ left.strength ∧
        operator.strength < right.strength) && left.isNormal && right.isNormal
  | .logical left operator right =>
      decide (1 ≤ operator.strength ∧ operator.strength ≤ 2 ∧
        operator.strength ≤ left.strength ∧ operator.strength < right.strength) &&
        left.isNormal && right.isNormal
  | .grouping inner => inner.isNormal
  | .reference name depth => name.is .identifier && depth.isNone
  | .assign name value depth => name.is .identifier && depth.isNone && value.isNormal
  | .call callee paren arguments =>
      decide (8 ≤ callee.strength ∧ arguments.length ≤ 255) && paren.is .rightParen &&
        callee.isNormal && Expr.areNormal arguments
  | .list bracket elements => bracket.is .leftBracket && Expr.areNormal elements
  | .index object bracket position =>
      decide (8 ≤ object.strength) && bracket.is .rightBracket && object.isNormal &&
        position.isNormal

def Expr.areNormal : List Expr → Bool
  | [] => true
  | expr :: rest => expr.isNormal && Expr.areNormal rest

end

/-! ### Slots -/

/-- A place in a flattened tree: for the one token that the tree keeps, or for any of a kind. -/
inductive Slot where
  | kept (token : Token)
  | written (kind : Kind)

def Slot.Takes (token : Token) : Slot → Prop
  | .kept own => token = own
  | .written kind => token.kind = kind

/-- The tokens go into the slots, one into each. -/
abbrev Spelled (tokens : List Token) (slots : List Slot) : Prop :=
  List.Forall₂ Slot.Takes tokens slots

/-- The kind of the token that a literal is written as. -/
def Literal.kind : Literal → Kind
  | .nil => .mark .nilWord
  | .bool true => .mark .trueWord
  | .bool false => .mark .falseWord
  | .number value => .number value
  | .string value => .string value

mutual

/-- The slots of a tree, in the order in which its tokens are written. -/
def Expr.slots : Expr → List Slot
  | .literal value => [.written value.kind]
  | .unary operator operand => .kept operator :: operand.slots
  | .binary left operator right => left.slots ++ .kept operator :: right.slots
  | .logical left operator right => left.slots ++ .kept operator :: right.slots
  | .grouping inner =>
      .written (.mark .leftParen) :: (inner.slots ++ [.written (.mark .rightParen)])
  | .reference name _ => [.kept name]
  | .assign name value _ => .kept name :: .written (.mark .equal) :: value.slots
  | .call callee paren arguments =>
      callee.slots ++ .written (.mark .leftParen) :: (Expr.slotsAll arguments ++ [.kept paren])
  | .list bracket elements =>
      .kept bracket :: (Expr.slotsAll elements ++ [.written (.mark .rightBracket)])
  | .index object bracket position =>
      object.slots ++ .written (.mark .leftBracket) :: (position.slots ++ [.kept bracket])

/-- The slots of trees with commas between them. -/
def Expr.slotsAll : List Expr → List Slot
  | [] => []
  | [last] => last.slots
  | first :: rest => first.slots ++ .written (.mark .comma) :: Expr.slotsAll rest

end

/-- A token for a slot.  The text and the line of a token that is not kept play no part. -/
def Slot.token : Slot → Token
  | .kept token => token
  | .written kind => ⟨kind, "", 1⟩

/-- The tokens of a tree in order. -/
def Expr.flatten (tree : Expr) : List Token := tree.slots.map Slot.token

theorem Expr.flatten_spelled (tree : Expr) : Spelled tree.flatten tree.slots := by
  refine List.forall₂_map_left_iff.mpr (List.forall₂_same.mpr ?_)
  intro slot _
  cases slot <;> rfl

theorem Spelled.append {before after : List Token} {first rest : List Slot}
    (spelled : Spelled before first) (spelled' : Spelled after rest) :
    Spelled (before ++ after) (first ++ rest) :=
  List.rel_append spelled spelled'

theorem Spelled.split {tokens : List Token} {first rest : List Slot}
    (spelled : Spelled tokens (first ++ rest)) :
    ∃ before after, tokens = before ++ after ∧ Spelled before first ∧ Spelled after rest :=
  ⟨_, _, (List.take_append_drop first.length tokens).symm,
    List.forall₂_take_append _ _ _ spelled, List.forall₂_drop_append _ _ _ spelled⟩

theorem Spelled.head {tokens : List Token} {slot : Slot} {rest : List Slot}
    (spelled : Spelled tokens (slot :: rest)) :
    ∃ token after, tokens = token :: after ∧ slot.Takes token ∧ Spelled after rest := by
  obtain ⟨token, after, takes, spelled', rfl⟩ := List.forall₂_cons_right_iff.mp spelled
  exact ⟨token, after, rfl, takes, spelled'⟩

theorem Spelled.bracketed {tokens : List Token} {first last : Slot} {between : List Slot}
    (spelled : Spelled tokens (first :: (between ++ [last]))) :
    ∃ left inner right, tokens = left :: (inner ++ [right]) ∧ first.Takes left ∧
      Spelled inner between ∧ last.Takes right := by
  obtain ⟨left, _, rfl, takes, rest⟩ := spelled.head
  obtain ⟨inner, _, rfl, spelled', closing⟩ := rest.split
  obtain ⟨right, _, rfl, takes', none⟩ := closing.head
  cases none
  exact ⟨left, inner, right, rfl, takes, spelled', takes'⟩

/-! ### Levels -/

theorem Token.strength_eq {token : Token} {mark : Mark} (own : token.is mark = true) :
    token.strength = mark.strength := by
  unfold Token.strength
  rw [Token.kind_of_is own]

/-- The strength that a level demands of its operands' nodes. -/
def Parser.Level.strength : Parser.Level → Nat
  | .disjunction => 1
  | .conjunction => 2
  | .equality => 3
  | .comparison => 4
  | .term => 5
  | .factor => 6
  | .prefixed => 7

theorem Parser.Level.strength_le (level : Level) : 1 ≤ level.strength ∧ level.strength ≤ 7 := by
  cases level <;> decide

theorem Mark.level_of_strength {mark : Mark} (positive : 1 ≤ mark.strength) :
    ∃ level : Parser.Level, level.strength = mark.strength ∧ mark ∈ level.operators := by
  cases mark with
  | orWord => exact ⟨.disjunction, rfl, by decide⟩
  | andWord => exact ⟨.conjunction, rfl, by decide⟩
  | bangEqual | equalEqual => exact ⟨.equality, rfl, by decide⟩
  | greater | greaterEqual | less | lessEqual => exact ⟨.comparison, rfl, by decide⟩
  | minus | plus => exact ⟨.term, rfl, by decide⟩
  | slash | star => exact ⟨.factor, rfl, by decide⟩
  | _ => exact absurd positive (by decide)

namespace Grammar

section

variable {level operand : Parser.Level} {operators : List Mark}
  {node : Expr → Token → Expr → Expr} {mark : Mark} {operator : Token}

theorem Row.strength_operand (row : Row level operand operators node) :
    operand.strength = level.strength + 1 := by
  cases row <;> rfl

theorem Row.strength_operator (row : Row level operand operators node) (member : mark ∈ operators)
    (own : operator.is mark = true) : operator.strength = level.strength := by
  have table : ∀ mark, mark ∈ operators → mark.strength = level.strength := by
    cases row <;> decide
  rw [Token.strength_eq own]
  exact table mark member

/-- The row that an infix operator belongs to. -/
theorem exists_row (positive : 1 ≤ operator.strength) :
    ∃ level operand operators node mark, Row level operand operators node ∧ mark ∈ operators ∧
      operator.is mark = true ∧
      node = if operator.strength ≤ 2 then Expr.logical else Expr.binary := by
  cases kind : operator.kind with
  | string value | number value => simp [Token.strength, kind] at positive
  | mark mark =>
      have own : operator.is mark = true := Token.is_of_kind kind
      rw [Token.strength_eq own] at positive ⊢
      obtain ⟨level, same, member⟩ := mark.level_of_strength positive
      rw [← same]
      cases level with
      | prefixed => cases member
      | disjunction => exact ⟨_, _, _, _, mark, .disjunction, member, own, rfl⟩
      | conjunction => exact ⟨_, _, _, _, mark, .conjunction, member, own, rfl⟩
      | equality => exact ⟨_, _, _, _, mark, .equality, member, own, rfl⟩
      | comparison => exact ⟨_, _, _, _, mark, .comparison, member, own, rfl⟩
      | term => exact ⟨_, _, _, _, mark, .term, member, own, rfl⟩
      | factor => exact ⟨_, _, _, _, mark, .factor, member, own, rfl⟩

/-- The node of an infix operator is as strong as its row, and normal if the operands are strong
enough for it. -/
theorem Row.node_normal (row : Row level operand operators node) (member : mark ∈ operators)
    (own : operator.is mark = true) (left right : Expr) :
    (node left operator right).strength = level.strength ∧
    (node left operator right).slots = left.slots ++ .kept operator :: right.slots ∧
    ((node left operator right).isNormal = true ↔
      level.strength ≤ left.strength ∧ operand.strength ≤ right.strength ∧
        left.isNormal = true ∧ right.isNormal = true) := by
  have same := row.strength_operator member own
  cases row with
  | disjunction | conjunction =>
      refine ⟨same, by rw [Expr.slots], ?_⟩
      simp [Expr.isNormal, same, Parser.Level.strength, and_assoc, Nat.lt_iff_add_one_le]
  | equality | comparison | term | factor =>
      refine ⟨same, by rw [Expr.slots], ?_⟩
      simp [Expr.isNormal, same, Parser.Level.strength, and_assoc, Nat.lt_iff_add_one_le]

end

/-! ### Derivations are flattened normal trees -/

/-- The tokens are those of the tree, which is normal and has at least the given strength. -/
structure Flat (least : Nat) (tokens : List Token) (tree : Expr) : Prop where
  strong : least ≤ tree.strength
  normal : tree.isNormal = true
  spelled : Spelled tokens tree.slots

theorem Flat.weaken {least less : Nat} {tokens : List Token} {tree : Expr}
    (flat : Flat least tokens tree) (weaker : less ≤ least) : Flat less tokens tree :=
  ⟨Nat.le_trans weaker flat.strong, flat.normal, flat.spelled⟩

theorem Atom.flat {token : Token} {tree : Expr} (atom : Atom token tree) : Flat 8 [token] tree := by
  cases atom with
  | number kind | string kind => exact ⟨Nat.le_refl 8, rfl, .cons kind .nil⟩
  | truth own | falsehood own | nothing own =>
      exact ⟨Nat.le_refl 8, rfl, .cons (Token.kind_of_is own) .nil⟩
  | name own =>
      refine ⟨Nat.le_refl 8, ?_, .cons rfl .nil⟩
      simp [Expr.isNormal, own]

mutual

theorem Expression.flat : ∀ {tokens : List Token} {tree : Expr}, Expression tokens tree →
    Flat 0 tokens tree
  | _, _, .assignment isName isEquals value => by
      have inner := value.flat
      refine ⟨Nat.zero_le _, ?_, ?_⟩
      · simp [Expr.isNormal, isName, inner.normal]
      · exact .cons rfl (.cons (Token.kind_of_is isEquals) inner.spelled)
  | _, _, .operation operand => operand.flat.weaken (Nat.zero_le _)

theorem Operand.flat : ∀ {level : Parser.Level} {tokens : List Token} {tree : Expr},
    Operand level tokens tree → Flat level.strength tokens tree
  | _, _, _, .row row first joined => by
      have tighter := row.strength_operand
      exact joined.flat row (first.flat.weaken (by omega))
  | _, _, _, .unary own operand => by
      have inner := operand.flat
      have strong : 7 ≤ _ := inner.strong
      refine ⟨Nat.le_refl 7, ?_, .cons rfl inner.spelled⟩
      simp [Expr.isNormal, inner.normal, strong, own]
  | _, _, _, .call first suffixed => (suffixed.flat first.flat).weaken (by decide)

theorem Joined.flat : ∀ {level operand : Parser.Level} {operators : List Mark}
    {node : Expr → Token → Expr → Expr} {before tokens : List Token} {left tree : Expr},
    Joined operand operators node left tokens tree → Row level operand operators node →
    Flat level.strength before left → Flat level.strength (before ++ tokens) tree
  | _, _, _, _, _, _, _, _, .done, _, flat => by
      rw [List.append_nil]
      exact flat
  | level, _, _, _, before, _, left, _,
      @Joined.more _ _ node _ right _ _ operator first rest member own operand joined, row, flat =>
      by
      have inner := operand.flat
      obtain ⟨same, slots, normal⟩ := row.node_normal member own left right
      have made : Flat level.strength (before ++ operator :: first) (node left operator right) := by
        refine ⟨Nat.le_of_eq same.symm, normal.mpr ?_, ?_⟩
        · exact ⟨flat.strong, inner.strong, flat.normal, inner.normal⟩
        · rw [slots]
          exact flat.spelled.append (.cons rfl inner.spelled)
      have whole := joined.flat row made
      rw [List.append_assoc] at whole
      exact whole

theorem Suffixed.flat : ∀ {before tokens : List Token} {operand tree : Expr},
    Suffixed operand tokens tree → Flat 8 before operand → Flat 8 (before ++ tokens) tree
  | _, _, _, _, .done, flat => by
      rw [List.append_nil]
      exact flat
  | before, _, operand, _, @Suffixed.callNone _ _ left right rest isLeft isRight suffixed, flat =>
      by
      have made : Flat 8 (before ++ [left, right]) (.call operand right []) := by
        refine ⟨Nat.le_refl 8, ?_, ?_⟩
        · simp [Expr.isNormal, Expr.areNormal, flat.strong, flat.normal, isRight]
        · exact flat.spelled.append (.cons (Token.kind_of_is isLeft) (.cons rfl .nil))
      have whole := suffixed.flat made
      rw [List.append_assoc] at whole
      exact whole
  | before, _, operand, _,
      @Suffixed.call _ _ left right inner rest arguments isLeft items few isRight suffixed, flat =>
      by
      obtain ⟨normal, spelled⟩ := items.flat
      have made : Flat 8 (before ++ left :: (inner ++ [right]))
          (.call operand right arguments) := by
        refine ⟨Nat.le_refl 8, ?_, ?_⟩
        · simp [Expr.isNormal, flat.strong, flat.normal, isRight, few, normal]
        · exact flat.spelled.append
            (.cons (Token.kind_of_is isLeft) (spelled.append (.cons rfl .nil)))
      have whole := suffixed.flat made
      simp only [List.append_assoc, List.cons_append, List.nil_append] at whole
      exact whole
  | before, _, operand, _,
      @Suffixed.index _ position _ left right inner rest isLeft expression isRight suffixed, flat =>
      by
      have inside := expression.flat
      have made : Flat 8 (before ++ left :: (inner ++ [right]))
          (.index operand right position) := by
        refine ⟨Nat.le_refl 8, ?_, ?_⟩
        · simp [Expr.isNormal, flat.strong, flat.normal, isRight, inside.normal]
        · exact flat.spelled.append
            (.cons (Token.kind_of_is isLeft) (inside.spelled.append (.cons rfl .nil)))
      have whole := suffixed.flat made
      simp only [List.append_assoc, List.cons_append, List.nil_append] at whole
      exact whole

theorem Items.flat : ∀ {tokens : List Token} {exprs : List Expr}, Items tokens exprs →
    Expr.areNormal exprs = true ∧ Spelled tokens (Expr.slotsAll exprs)
  | _, _, .last expression => by
      have inner := expression.flat
      refine ⟨?_, inner.spelled⟩
      simp [Expr.areNormal, inner.normal]
  | _, _, @Items.more _ _ _ _ exprs expression isComma items => by
      have inner := expression.flat
      obtain ⟨normal, spelled⟩ := items.flat
      have slots : ∀ expr, Expr.slotsAll (expr :: exprs) =
          expr.slots ++ .written (.mark .comma) :: Expr.slotsAll exprs := by
        intro expr
        cases items <;> rfl
      refine ⟨?_, ?_⟩
      · simp [Expr.areNormal, inner.normal, normal]
      · rw [slots]
        exact inner.spelled.append (.cons (Token.kind_of_is isComma) spelled)

theorem Primary.flat : ∀ {tokens : List Token} {tree : Expr}, Primary tokens tree →
    Flat 8 tokens tree
  | _, _, .atom atom => atom.flat
  | _, _, .grouping isLeft expression isRight => by
      have inner := expression.flat
      refine ⟨Nat.le_refl 8, inner.normal, ?_⟩
      exact .cons (Token.kind_of_is isLeft)
        (inner.spelled.append (.cons (Token.kind_of_is isRight) .nil))
  | _, _, .listNone isLeft isRight => by
      refine ⟨Nat.le_refl 8, ?_, ?_⟩
      · simp [Expr.isNormal, Expr.areNormal, isLeft]
      · exact .cons rfl (.cons (Token.kind_of_is isRight) .nil)
  | _, _, .list isLeft items isRight => by
      obtain ⟨normal, spelled⟩ := items.flat
      refine ⟨Nat.le_refl 8, ?_, ?_⟩
      · simp [Expr.isNormal, isLeft, normal]
      · exact .cons rfl (spelled.append (.cons (Token.kind_of_is isRight) .nil))

end

/-! ### Flattened normal trees derive -/

theorem Joined.trans {operand : Parser.Level} {operators : List Mark}
    {node : Expr → Token → Expr → Expr} {tree : Expr} {more : List Token} :
    ∀ {left middle : Expr} {tokens : List Token},
      Joined operand operators node left tokens middle →
      Joined operand operators node middle more tree →
      Joined operand operators node left (tokens ++ more) tree
  | _, _, _, .done, further => further
  | _, _, _, .more member own operand joined, further => by
      have whole := Joined.more member own operand (joined.trans further)
      rw [← List.append_assoc] at whole
      exact whole

theorem Suffixed.trans {tree : Expr} {more : List Token} :
    ∀ {operand middle : Expr} {tokens : List Token}, Suffixed operand tokens middle →
      Suffixed middle more tree → Suffixed operand (tokens ++ more) tree
  | _, _, _, .done, further => further
  | _, _, _, .callNone isLeft isRight suffixed, further =>
      .callNone isLeft isRight (suffixed.trans further)
  | _, _, _, .call isLeft items few isRight suffixed, further => by
      have whole := Suffixed.call isLeft items few isRight (suffixed.trans further)
      simp only [List.cons_append, List.append_assoc]
      exact whole
  | _, _, _, .index isLeft expression isRight suffixed, further => by
      have whole := Suffixed.index isLeft expression isRight (suffixed.trans further)
      simp only [List.cons_append, List.append_assoc]
      exact whole

section

variable {level operand : Parser.Level} {operators : List Mark}
  {node : Expr → Token → Expr → Expr} {tokens : List Token} {tree : Expr}

theorem Operand.looser (row : Row level operand operators node)
    (derived : Operand operand tokens tree) : Operand level tokens tree := by
  have joined := Operand.row row derived .done
  rw [List.append_nil] at joined
  exact joined

theorem Operand.loosen (derived : Operand level tokens tree) (other : Parser.Level)
    (within : other.strength ≤ level.strength) : Operand other tokens tree := by
  have step : ∀ {looser tighter : Parser.Level} {operators : List Mark}
      {node : Expr → Token → Expr → Expr}, Row looser tighter operators node →
      (tighter.strength ≤ level.strength → Operand tighter tokens tree) →
      looser.strength ≤ level.strength → Operand looser tokens tree := by
    intro looser tighter operators node row below within
    by_cases same : looser.strength = level.strength
    · have equal : looser = level := by
        cases looser <;> cases level <;> cases same <;> rfl
      rw [equal]
      exact derived
    · have tight := row.strength_operand
      exact (below (by omega)).looser row
  have prefixed : Parser.Level.prefixed.strength ≤ level.strength →
      Operand .prefixed tokens tree := by
    intro within
    cases level with
    | prefixed => exact derived
    | _ => exact absurd within (by decide)
  have factor := step .factor prefixed
  have term := step .term factor
  have comparison := step .comparison term
  have equality := step .equality comparison
  have conjunction := step .conjunction equality
  cases other with
  | disjunction => exact step .disjunction conjunction within
  | conjunction => exact conjunction within
  | equality => exact equality within
  | comparison => exact comparison within
  | term => exact term within
  | factor => exact factor within
  | prefixed => exact prefixed within

/-- Another operand goes on with an operand of the row. -/
theorem Operand.extend (row : Row level operand operators node) {mark : Mark} {operator : Token}
    {more : List Token} {right : Expr} (left : Operand level tokens tree)
    (member : mark ∈ operators) (own : operator.is mark = true)
    (derived : Operand operand more right) :
    Operand level (tokens ++ operator :: more) (node tree operator right) := by
  obtain ⟨found, rfl, rfl⟩ := row.parts
  cases left with
  | unary _ _ => cases row
  | call _ _ => cases row
  | row row' first joined =>
      obtain ⟨found', rfl, rfl⟩ := row'.parts
      cases found.symm.trans found'
      have last : Joined operand level.operators level.join tree (operator :: (more ++ []))
          (level.join tree operator right) := .more member own derived .done
      rw [List.append_nil] at last
      have whole := Operand.row row first (joined.trans last)
      rw [← List.append_assoc] at whole
      exact whole

end

/-- A primary expression with its calls and element accesses. -/
def Called (tokens : List Token) (tree : Expr) : Prop :=
  ∃ first rest operand, tokens = first ++ rest ∧ Primary first operand ∧
    Suffixed operand rest tree

theorem Called.ofPrimary {tokens : List Token} {tree : Expr} (primary : Primary tokens tree) :
    Called tokens tree :=
  ⟨tokens, [], tree, (List.append_nil _).symm, primary, .done⟩

theorem Called.extend {tokens more : List Token} {operand tree : Expr}
    (called : Called tokens operand) (suffixed : Suffixed operand more tree) :
    Called (tokens ++ more) tree := by
  obtain ⟨first, rest, start, rfl, primary, suffixed'⟩ := called
  exact ⟨first, rest ++ more, start, List.append_assoc _ _ _, primary, suffixed'.trans suffixed⟩

/-- The tokens derive the tree wherever it is strong enough. -/
structure Derives (tokens : List Token) (tree : Expr) : Prop where
  called : 8 ≤ tree.strength → Called tokens tree
  operand : ∀ level : Parser.Level, level.strength ≤ tree.strength → Operand level tokens tree
  expression : Expression tokens tree

theorem Derives.ofOperand {level : Parser.Level} {tokens : List Token} {tree : Expr}
    (derived : Operand level tokens tree) (same : tree.strength = level.strength) :
    Derives tokens tree where
  called strong := by
    have bound := level.strength_le
    omega
  operand other within := derived.loosen other (same ▸ within)
  expression := .operation (derived.loosen .disjunction level.strength_le.1)

theorem Derives.ofCalled {tokens : List Token} {tree : Expr} (called : Called tokens tree) :
    Derives tokens tree := by
  obtain ⟨first, rest, operand, rfl, primary, suffixed⟩ := called
  have derived : Operand .prefixed (first ++ rest) tree := .call primary suffixed
  refine ⟨fun _ => ⟨first, rest, operand, rfl, primary, suffixed⟩, ?_, ?_⟩
  · intro level _
    exact derived.loosen level level.strength_le.2
  · exact .operation (derived.loosen .disjunction (by decide))

theorem atom_of_literal {token : Token} {value : Literal} (kind : token.kind = value.kind) :
    Atom token (.literal value) := by
  cases value with
  | nil => exact .nothing (Token.is_of_kind kind)
  | number value => exact .number kind
  | string value => exact .string kind
  | bool value =>
      cases value with
      | true => exact .truth (Token.is_of_kind kind)
      | false => exact .falsehood (Token.is_of_kind kind)

/-- Two operands that are strong enough for an infix operator derive its node. -/
theorem Derives.infixed {level operand : Parser.Level} {operators : List Mark}
    {node : Expr → Token → Expr → Expr} {mark : Mark} {operator : Token}
    {before after : List Token} {left right : Expr} (row : Row level operand operators node)
    (member : mark ∈ operators) (own : operator.is mark = true)
    (normal : (node left operator right).isNormal = true) (first : Derives before left)
    (second : Derives after right) :
    Derives (before ++ operator :: after) (node left operator right) := by
  obtain ⟨same, _, operands⟩ := row.node_normal member own left right
  obtain ⟨strong, strong', _, _⟩ := operands.mp normal
  exact .ofOperand ((first.operand level strong).extend row member own
    (second.operand operand strong')) same

mutual

theorem derives_of_normal : ∀ (tree : Expr) {tokens : List Token}, tree.isNormal = true →
    Spelled tokens tree.slots → Derives tokens tree
  | .literal value, _, _, whole => by
      obtain ⟨token, _, rfl, kind, rest⟩ := whole.head
      cases rest
      exact .ofCalled (.ofPrimary (.atom (atom_of_literal kind)))
  | .unary operator operand, _, normal, whole => by
      obtain ⟨token, after, rfl, rfl, spelled⟩ := whole.head
      simp only [Expr.isNormal, Bool.and_eq_true, Bool.or_eq_true, decide_eq_true_eq] at normal
      have inner := derives_of_normal operand normal.2 spelled
      exact .ofOperand (.unary normal.1.1 (inner.operand .prefixed normal.1.2)) rfl
  | .binary left operator right, _, normal, whole => by
      obtain ⟨before, _, rfl, spelled, rest⟩ := whole.split
      obtain ⟨token, after, rfl, rfl, spelled'⟩ := rest.head
      have parts := normal
      simp only [Expr.isNormal, Bool.and_eq_true, decide_eq_true_eq] at parts
      obtain ⟨⟨⟨strength, _⟩, normal'⟩, normal''⟩ := parts
      obtain ⟨level, operand, operators, node, mark, row, member, own, made⟩ :=
        exists_row (Nat.le_trans (by decide) strength)
      rw [if_neg (by omega)] at made
      subst made
      exact .infixed row member own normal (derives_of_normal left normal' spelled)
        (derives_of_normal right normal'' spelled')
  | .logical left operator right, _, normal, whole => by
      obtain ⟨before, _, rfl, spelled, rest⟩ := whole.split
      obtain ⟨token, after, rfl, rfl, spelled'⟩ := rest.head
      have parts := normal
      simp only [Expr.isNormal, Bool.and_eq_true, decide_eq_true_eq] at parts
      obtain ⟨⟨⟨strength, small, _⟩, normal'⟩, normal''⟩ := parts
      obtain ⟨level, operand, operators, node, mark, row, member, own, made⟩ :=
        exists_row strength
      rw [if_pos small] at made
      subst made
      exact .infixed row member own normal (derives_of_normal left normal' spelled)
        (derives_of_normal right normal'' spelled')
  | .grouping inner, _, normal, whole => by
      obtain ⟨left, between, right, rfl, isLeft, spelled, isRight⟩ := whole.bracketed
      have inside := derives_of_normal inner normal spelled
      exact .ofCalled (.ofPrimary (.grouping (Token.is_of_kind isLeft) inside.expression
        (Token.is_of_kind isRight)))
  | .reference name depth, _, normal, whole => by
      obtain ⟨token, _, rfl, rfl, rest⟩ := whole.head
      cases rest
      simp only [Expr.isNormal, Bool.and_eq_true, Option.isNone_iff_eq_none] at normal
      obtain ⟨own, rfl⟩ := normal
      exact .ofCalled (.ofPrimary (.atom (.name own)))
  | .assign name value depth, _, normal, whole => by
      obtain ⟨token, _, rfl, rfl, rest⟩ := whole.head
      obtain ⟨equals, after, rfl, isEquals, spelled⟩ := rest.head
      simp only [Expr.isNormal, Bool.and_eq_true, Option.isNone_iff_eq_none] at normal
      obtain ⟨⟨own, rfl⟩, normal'⟩ := normal
      have inner := derives_of_normal value normal' spelled
      refine ⟨?_, ?_, .assignment own (Token.is_of_kind isEquals) inner.expression⟩
      · intro strong
        cases strong
      · intro level weak
        have bound := level.strength_le
        simp only [Expr.strength] at weak
        omega
  | .call callee paren arguments, _, normal, whole => by
      obtain ⟨before, _, rfl, spelled, suffix⟩ := whole.split
      obtain ⟨left, between, right, rfl, isLeft, spelled', rfl⟩ := suffix.bracketed
      simp only [Expr.isNormal, Bool.and_eq_true, decide_eq_true_eq] at normal
      obtain ⟨⟨⟨⟨strong, few⟩, isRight⟩, normal'⟩, normals⟩ := normal
      have called := (derives_of_normal callee normal' spelled).called strong
      cases arguments with
      | nil =>
          cases spelled'
          exact .ofCalled (called.extend (.callNone (Token.is_of_kind isLeft) isRight .done))
      | cons first others =>
          have items := items_of_normal (first :: others) nofun normals spelled'
          exact .ofCalled (called.extend (.call (Token.is_of_kind isLeft) items few isRight .done))
  | .list bracket elements, _, normal, whole => by
      obtain ⟨left, between, right, rfl, rfl, spelled, isRight⟩ := whole.bracketed
      simp only [Expr.isNormal, Bool.and_eq_true] at normal
      cases elements with
      | nil =>
          cases spelled
          exact .ofCalled (.ofPrimary (.listNone normal.1 (Token.is_of_kind isRight)))
      | cons first others =>
          have items := items_of_normal (first :: others) nofun normal.2 spelled
          exact .ofCalled (.ofPrimary (.list normal.1 items (Token.is_of_kind isRight)))
  | .index object bracket position, _, normal, whole => by
      obtain ⟨before, _, rfl, spelled, suffix⟩ := whole.split
      obtain ⟨left, between, right, rfl, isLeft, spelled', rfl⟩ := suffix.bracketed
      simp only [Expr.isNormal, Bool.and_eq_true, decide_eq_true_eq] at normal
      obtain ⟨⟨⟨strong, isRight⟩, normal'⟩, normal''⟩ := normal
      have called := (derives_of_normal object normal' spelled).called strong
      have inside := derives_of_normal position normal'' spelled'
      exact .ofCalled (called.extend
        (.index (Token.is_of_kind isLeft) inside.expression isRight .done))

theorem items_of_normal : ∀ (exprs : List Expr) {tokens : List Token}, exprs ≠ [] →
    Expr.areNormal exprs = true → Spelled tokens (Expr.slotsAll exprs) → Items tokens exprs
  | [], _, nonempty, _, _ => absurd rfl nonempty
  | first :: rest, _, _, normals, whole => by
      simp only [Expr.areNormal, Bool.and_eq_true] at normals
      cases rest with
      | nil => exact .last (derives_of_normal first normals.1 whole).expression
      | cons second others =>
          obtain ⟨before, _, rfl, spelled, further⟩ := whole.split
          obtain ⟨comma, after, rfl, isComma, spelled'⟩ := further.head
          have head := derives_of_normal first normals.1 spelled
          have items := items_of_normal (second :: others) nofun normals.2 spelled'
          exact .more head.expression (Token.is_of_kind isComma) items

end

/-- What derives from the grammar is a flattened normal tree. -/
theorem expression_iff {tokens : List Token} {tree : Expr} :
    Expression tokens tree ↔ tree.isNormal = true ∧ Spelled tokens tree.slots := by
  constructor
  · intro derived
    have flat := derived.flat
    exact ⟨flat.normal, flat.spelled⟩
  · rintro ⟨normal, spelled⟩
    exact (derives_of_normal tree normal spelled).expression

end Grammar

/-- Parsing a single expression and flattening are inverse to each other: a normal tree is parsed
back from its tokens, and tokens that parse are those of a normal tree, the one they parse to. -/
theorem Parser.single_inverts_flatten {last : Token} (ends : last.is .endOfInput = true) :
    (∀ tree : Expr, tree.isNormal = true →
      (single (tree.flatten ++ [last])).1 = .ok tree) ∧
    ∀ (tokens : List Token) (tree : Expr), (∀ token ∈ tokens, token.is .endOfInput = false) →
      ((single (tokens ++ [last])).1 = .ok tree ↔
        tree.isNormal = true ∧ Spelled tokens tree.slots) := by
  constructor
  · intro tree normal
    exact single_complete ends (Grammar.expression_iff.mpr ⟨normal, tree.flatten_spelled⟩)
  · intro tokens tree inner
    rw [single_eq_ok_iff ends inner, Grammar.expression_iff]

def Expr.named (name : String) : Expr := .reference ⟨.mark .identifier, name, 1⟩ none

/-- The tree of "a = -b(nil)[c] == (d and e)". -/
def mixedTree : Expr :=
  .assign ⟨.mark .identifier, "a", 1⟩
    (.binary
      (.unary ⟨.mark .minus, "-", 1⟩
        (.index (.call (.named "b") ⟨.mark .rightParen, ")", 1⟩ [.literal .nil])
          ⟨.mark .rightBracket, "]", 1⟩ (.named "c")))
      ⟨.mark .equalEqual, "==", 1⟩
      (.grouping (.logical (.named "d") ⟨.mark .andWord, "and", 1⟩ (.named "e"))))
    none

theorem Parser.single_inverts_flatten_mixed :
    (single (mixedTree.flatten ++ [⟨.mark .endOfInput, "", 1⟩])).1 = .ok mixedTree ∧
      mixedTree.isNormal = true ∧ Spelled mixedTree.flatten mixedTree.slots := by
  obtain ⟨parses, spells⟩ :=
    @single_inverts_flatten ⟨.mark .endOfInput, "", 1⟩ (by decide)
  have parsed := parses mixedTree (by decide +kernel)
  exact ⟨parsed, (spells mixedTree.flatten mixedTree (by decide +kernel)).mp parsed⟩

end LexicalScript
