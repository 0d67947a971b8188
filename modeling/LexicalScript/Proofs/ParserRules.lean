import LexicalScript.Proofs.GrammarLaws

/-!
What holds of every rule of the parser.

The rules are put together from a few steps.  So a judgement that holds of the steps and is kept by
sequence holds of every rule.  A judgement knows the tokens that are left where a rule starts.  It
says two things of the result and of the tokens that are left then: one that is certain, and one
that may depend on there being no error.  What it says of the rules are the relations of the grammar
between the tokens that were taken and the tree that was made of them.

A judgement is about two runs at once, in order that it may compare a rule with itself on other
tokens and with other fuel.  It may rule out that a run is out of fuel: sixteen units for each token
that is left, and a few more that depend on the rule, suffice.
-/

set_option autoImplicit false

namespace LexicalScript.Parser

/-! ### What is taken -/

/-- The tokens that were taken are in the relation with the result. -/
def Took {α : Type} (tokens : List Token) (relation : List Token → α → Prop) (result : α)
    (left : List Token) : Prop :=
  ∃ taken, tokens = taken ++ left ∧ relation taken result

theorem Took.mono {α : Type} {tokens left : List Token} {relation weaker : List Token → α → Prop}
    {result : α} (took : Took tokens relation result left)
    (weaken : ∀ taken, relation taken result → weaker taken result) :
    Took tokens weaker result left := by
  obtain ⟨taken, whole, held⟩ := took
  exact ⟨taken, whole, weaken taken held⟩

theorem Took.relation {α : Type} {taken left : List Token} {relation : List Token → α → Prop}
    {result : α} (took : Took (taken ++ left) relation result left) : relation taken result := by
  obtain ⟨taken', same, held⟩ := took
  rw [List.append_cancel_right same]
  exact held

/-- The next token has one of the marks and is taken, or it has none of them. -/
def TookAny (marks : List Mark) (tokens : List Token) : Option Token → List Token → Prop
  | some token, left => tokens = token :: left ∧ marks.any token.is = true
  | none, left => left = tokens ∧
      ∀ mark, mark ∈ marks → mark ≠ .endOfInput → (upcoming tokens).is mark = false

/-- The same for one mark. -/
def TookMark (mark : Mark) (tokens : List Token) : Option Token → List Token → Prop
  | some token, left => tokens = token :: left ∧ token.is mark = true
  | none, left => left = tokens ∧ (mark ≠ .endOfInput → (upcoming tokens).is mark = false)

theorem TookAny.single {mark : Mark} {tokens left : List Token} {found : Option Token}
    (took : TookAny [mark] tokens found left) : TookMark mark tokens found left := by
  cases found with
  | none => exact ⟨took.1, took.2 mark (List.mem_singleton_self mark)⟩
  | some token => exact ⟨took.1, by simpa using took.2⟩

/-- What recovery gives: the result of the rule, or none behind a reported error. -/
def Recovered {α : Type} (reports : Prop) (derived : α → List Token → Prop) :
    Option α → List Token → Prop
  | some result, left => derived result left
  | none, _ => reports

/-- Declarations stop at the end of input or, inside a block, at a closing brace. -/
def Concluded (inBlock : Bool) (left : List Token) : Prop :=
  (upcoming left).is .endOfInput = true ∨
    inBlock = true ∧ (upcoming left).is .rightBrace = true

theorem Concluded.ends {left : List Token} (concluded : Concluded false left) :
    (upcoming left).is .endOfInput = true :=
  concluded.resolve_right fun inside => Bool.false_ne_true inside.1

/-! ### Judgements -/

/-- A judgement on two runs, the first of which has the given tokens left.  The marks that rules
take are allowed. -/
structure Judgement (allowed : Mark → Prop) where
  /-- Whether it is about runs that have reported an error. -/
  reports : Prop
  /-- Whether it is about runs that are out of fuel. -/
  exhausts : Prop
  /-- The first property of the result and of what is left then is certain; the second is derived,
  and may need that no error was reported. -/
  holds : {α : Type} → List Token → Parse α → Parse α → (α → List Token → Prop) →
    (α → List Token → Prop) → Prop
  mono : ∀ {α : Type} {tokens : List Token} {rule rule' : Parse α}
    {certain certain' derived derived' : α → List Token → Prop},
    holds tokens rule rule' certain derived →
    (∀ result taken left, tokens = taken ++ left → certain result left → certain' result left) →
    (∀ result left, certain result left → derived result left → derived' result left) →
    holds tokens rule rule' certain' derived'
  pure : ∀ {α : Type} {tokens : List Token} {result : α}
    {certain derived : α → List Token → Prop}, certain result tokens → derived result tokens →
    holds tokens (Pure.pure result) (Pure.pure result) certain derived
  /-- What is derived of the first rule stands as a condition in what is to be derived of the
  second one: only what is certain may be used to show that the second one runs. -/
  bind : ∀ {α β : Type} {tokens : List Token} {rule rule' : Parse α} {next next' : α → Parse β}
    {certain derived : α → List Token → Prop} {certain' derived' : β → List Token → Prop},
    holds tokens rule rule' certain derived →
    (∀ result taken left, tokens = taken ++ left → certain result left →
      holds left (next result) (next' result) certain' fun result' left' =>
        derived result left → derived' result' left') →
    holds tokens (rule >>= next) (rule' >>= next') certain' derived'
  exhausted : ∀ {α : Type} {tokens : List Token} {rule : Parse α}
    {certain derived : α → List Token → Prop}, exhausts →
    holds tokens .exhausted rule certain derived
  raise : ∀ {α : Type} {tokens : List Token} {token : Token} {cause : ParseCause}
    {certain derived : α → List Token → Prop},
    holds tokens (Parser.raise token cause) (Parser.raise token cause) certain derived
  report : ∀ {tokens : List Token} {cause : ParseCause},
    holds tokens (Parser.report cause) (Parser.report cause) (fun _ left => left = tokens)
      fun _ _ => reports
  note : ∀ {tokens : List Token} {entry : Note},
    holds tokens (Parser.note entry) (Parser.note entry) (fun _ left => left = tokens)
      fun _ _ => True
  atEnd : ∀ {tokens : List Token}, holds tokens Parser.atEnd Parser.atEnd
    (fun ended left => left = tokens ∧ ended = (upcoming tokens).is .endOfInput) fun _ _ => True
  sees : ∀ {tokens : List Token} {mark : Mark},
    holds tokens (Parser.sees mark) (Parser.sees mark)
      (fun seen left => left = tokens ∧ (seen = true → (upcoming tokens).is mark = true))
      fun _ _ => True
  peek : ∀ {tokens : List Token}, holds tokens Parser.peek Parser.peek
    (fun token left => left = tokens ∧ upcoming tokens = token) fun _ _ => True
  acceptAny : ∀ {tokens : List Token} {marks : List Mark}, (∀ mark, mark ∈ marks → allowed mark) →
    holds tokens (Parser.acceptAny marks) (Parser.acceptAny marks) (TookAny marks tokens)
      fun _ _ => True
  advance : ∀ {tokens : List Token},
    (∀ mark, (upcoming tokens).kind = .mark mark → allowed mark ∧ mark ≠ .endOfInput) →
    holds tokens Parser.advance Parser.advance (fun _ left => tokens = upcoming tokens :: left)
      fun _ _ => True

/-- The marks that no expression goes past. -/
def expressionStops : List Mark := [.semicolon, .rightBrace, .endOfInput]

namespace Judgement

variable {allowed : Mark → Prop} (judgement : Judgement allowed) {α β : Type} {mark : Mark}
  {cause : ParseCause} {tokens : List Token}

section

variable {rule rule' : Parse α} {next next' : α → Parse β} {certain : α → List Token → Prop}
  {certain' derived' : β → List Token → Prop}

/-- A step of which everything is certain. -/
theorem step (first : judgement.holds tokens rule rule' certain fun _ _ => True)
    (after : ∀ result left, certain result left →
      judgement.holds left (next result) (next' result) certain' derived') :
    judgement.holds tokens (rule >>= next) (rule' >>= next') certain' derived' :=
  judgement.bind first fun result _ left _ held =>
    judgement.mono (after result left held) (fun _ _ _ _ => id) fun _ _ _ given _ => given

/-- The tokens that the rule takes are in the relation with its result. -/
def Takes (tokens : List Token) (rule rule' : Parse α) (relation : List Token → α → Prop) : Prop :=
  judgement.holds tokens rule rule' (fun _ _ => True) (Took tokens relation)

variable {judgement} {relation : List Token → α → Prop}

theorem Takes.mono {weaker : List Token → α → Prop}
    (takes : judgement.Takes tokens rule rule' relation)
    (weaken : ∀ taken result, relation taken result → weaker taken result) :
    judgement.Takes tokens rule rule' weaker :=
  judgement.mono takes (fun _ _ _ _ => id) fun result _ _ took =>
    took.mono fun taken => weaken taken result

theorem Takes.bind (takes : judgement.Takes tokens rule rule' relation)
    (after : ∀ result taken left, tokens = taken ++ left →
      judgement.holds left (next result) (next' result) certain' fun result' left' =>
        relation taken result → derived' result' left') :
    judgement.holds tokens (rule >>= next) (rule' >>= next') certain' derived' := by
  apply judgement.bind takes
  rintro result taken left rfl _
  exact judgement.mono (after result taken left rfl) (fun _ _ _ _ => id)
    fun _ _ _ given took => given took.relation

end

theorem accept (free : allowed mark) :
    judgement.holds tokens (Parser.accept mark) (Parser.accept mark) (TookMark mark tokens)
      fun _ _ => True := by
  have same : Parser.accept mark = Parser.acceptAny [mark] := by
    funext state
    simp [Parser.accept, Parser.acceptAny]
  rw [same]
  exact judgement.mono (judgement.acceptAny (List.forall_mem_singleton.mpr free))
    (fun _ _ _ _ took => took.single) fun _ _ _ => id

theorem expect (free : allowed mark) :
    judgement.holds tokens (Parser.expect mark cause) (Parser.expect mark cause)
      (fun token left => tokens = token :: left ∧ token.is mark = true) fun _ _ => True := by
  unfold Parser.expect
  apply judgement.step (judgement.accept free)
  intro found left took
  cases found with
  | some token => exact judgement.pure took trivial
  | none => exact judgement.step judgement.peek fun _ _ _ => judgement.raise

section

variable {rule rule' : Parse α} {certain derived : α → List Token → Prop}

/-- The next token is taken, and the rule goes on behind it. -/
theorem take {token : Token} (coming : upcoming tokens = token)
    (free : ∀ mark, token.kind = .mark mark → allowed mark ∧ mark ≠ .endOfInput)
    (after : ∀ left, tokens = token :: left → judgement.holds left rule rule' certain derived) :
    judgement.holds tokens (Parser.advance >>= fun _ => rule) (Parser.advance >>= fun _ => rule')
      certain derived := by
  subst coming
  exact judgement.step (judgement.advance free) fun _ left taken => after left taken

/-- Both runs have the same fuel, or it does not matter when the second one is out of fuel. -/
def Fueled (fuel fuel' : Nat) : Prop :=
  fuel = fuel' ∨ ∀ {α : Type} {tokens : List Token} {rule : Parse α}
    {certain derived : α → List Token → Prop}, judgement.holds tokens rule rule certain derived →
    judgement.holds tokens rule .exhausted certain derived

variable {judgement} in
theorem Fueled.of_succ {fuel fuel' : Nat} (fueled : judgement.Fueled (fuel + 1) (fuel' + 1)) :
    judgement.Fueled fuel fuel' :=
  fueled.imp_left Nat.succ.inj

variable {judgement} in
theorem Fueled.exhausted_right {fuel : Nat} (fueled : judgement.Fueled (fuel + 1) 0)
    (holds : judgement.holds tokens rule rule certain derived) :
    judgement.holds tokens rule .exhausted certain derived :=
  fueled.elim (fun same => absurd same (Nat.succ_ne_zero fuel)) fun spared => spared holds

/-- The fuel is enough, unless that does not matter. -/
def EnoughFuel (need fuel : Nat) : Prop := judgement.exhausts ∨ need ≤ fuel

variable {judgement} in
theorem EnoughFuel.mono {need need' fuel fuel' : Nat} (enough : judgement.EnoughFuel need fuel)
    (less : need ≤ fuel → need' ≤ fuel') : judgement.EnoughFuel need' fuel' :=
  enough.imp_right less

theorem exhaustedAt {need : Nat} (enough : judgement.EnoughFuel (need + 1) 0) :
    judgement.holds tokens .exhausted rule certain derived :=
  judgement.exhausted (enough.resolve_right (Nat.not_succ_le_zero need))

/-- A closing mark behind the parts of a result. -/
theorem closing (free : allowed mark) {result : α}
    (after : ∀ token left, tokens = token :: left → token.is mark = true →
      certain result left ∧ derived result left) :
    judgement.holds tokens (Parser.expect mark cause >>= fun _ => Pure.pure result)
      (Parser.expect mark cause >>= fun _ => Pure.pure result) certain derived := by
  apply judgement.step (judgement.expect free)
  rintro token left ⟨rfl, own⟩
  obtain ⟨sure, given⟩ := after token left rfl own
  exact judgement.pure sure given

/-- An error is reported if there are too many, and the rule goes on. -/
theorem reported {relation : List Token → α → Prop} (many : Prop) [Decidable many]
    (takes : judgement.Takes tokens rule rule' fun taken result =>
      judgement.reports ∨ ¬many → relation taken result) :
    judgement.Takes tokens (if many then Parser.report cause >>= fun _ => rule else rule)
      (if many then Parser.report cause >>= fun _ => rule' else rule') relation := by
  split
  · apply judgement.bind judgement.report
    rintro _ taken _ _ rfl
    exact judgement.mono takes (fun _ _ _ _ => id) fun _ _ _ took reports =>
      took.mono fun _ given => given (Or.inl reports)
  · rename_i few
    exact takes.mono fun _ _ given => given (Or.inr few)

end

/-- A list of items that may be empty. -/
theorem itemList {rule rule' : Parse (List α)} {next next' : List α → Parse β}
    {relation : List Token → List α → Prop} {certain derived : β → List Token → Prop}
    (closes : Bool) (none : relation [] []) (takes : judgement.Takes tokens rule rule' relation)
    (after : ∀ items taken left, tokens = taken ++ left →
      judgement.holds left (next items) (next' items) certain fun result left' =>
        relation taken items → derived result left') :
    judgement.holds tokens (if closes = true then next [] else rule >>= next)
      (if closes = true then next' [] else rule' >>= next') certain derived := by
  cases closes with
  | true =>
      exact judgement.mono (after [] [] tokens rfl) (fun _ _ _ _ => id) fun _ _ _ given =>
        given none
  | false => exact takes.bind after

/-- Items with commas between them. -/
theorem separated {rule rule' : Parse α} {others others' : Parse (List α)}
    {single : List Token → α → Prop} {several whole : List Token → List α → Prop}
    (free : allowed .comma) (first : judgement.Takes tokens rule rule' single)
    (rest : ∀ taken comma left, tokens = taken ++ comma :: left →
      judgement.Takes left others others' several)
    (last : ∀ taken item, single taken item → whole taken [item])
    (more : ∀ taken item comma taken' items, single taken item → comma.is .comma = true →
      several taken' items → whole (taken ++ comma :: taken') (item :: items)) :
    judgement.Takes tokens (Parser.separated rule others) (Parser.separated rule' others')
      whole := by
  unfold Parser.separated
  apply first.bind
  rintro item taken left rfl
  apply judgement.step (judgement.accept free)
  intro comma left' took
  cases comma with
  | none =>
      obtain ⟨rfl, _⟩ := took
      exact judgement.pure trivial fun one => ⟨taken, rfl, last taken item one⟩
  | some comma =>
      obtain ⟨rfl, own⟩ := took
      apply (rest taken comma left' rfl).bind
      rintro items taken' left rfl
      exact judgement.pure trivial fun each one =>
        ⟨taken ++ comma :: taken', by simp, more taken item comma taken' items one own each⟩

end Judgement

variable {allowed : Mark → Prop} (judgement : Judgement allowed)
  (laws : GrammarLaws judgement.reports) {fuel fuel' : Nat} {tokens : List Token}

/-! ### Expressions -/

/-- How many levels lie below a level. -/
def Level.height : Level → Nat
  | .disjunction => 6
  | .conjunction => 5
  | .equality => 4
  | .comparison => 3
  | .term => 2
  | .factor => 1
  | .prefixed => 0

theorem Level.height_tighter {level tighter : Level} (found : level.tighter? = some tighter) :
    level.height = tighter.height + 1 := by
  cases level <;> cases found <;> rfl

theorem Level.height_le (level : Level) : level.height ≤ 6 := by
  cases level <;> decide

/-- Items of a list, no more than are allowed behind those that stand before them. -/
def Counted (limit : Option Nat) (count : Nat) (taken : List Token) (exprs : List Expr) : Prop :=
  laws.items taken exprs ∧
    (judgement.reports ∨ ∀ bound, limit = some bound → count + exprs.length ≤ bound)

/-- The judgement holds of the rules for expressions, with these amounts of fuel. -/
structure HoldsOfExpressions (fuel fuel' : Nat) : Prop where
  expression : ∀ {tokens}, judgement.EnoughFuel (16 * tokens.length + 10) fuel →
    judgement.Takes tokens (expression fuel) (expression fuel') laws.expression
  level : ∀ (current : Level) {tokens},
    judgement.EnoughFuel (16 * tokens.length + current.height + 3) fuel →
    judgement.Takes tokens (level fuel current) (level fuel' current) (laws.operand current)
  levelFrom : ∀ {current tighter : Level} (left : Expr) {tokens},
    current.tighter? = some tighter → judgement.EnoughFuel (16 * tokens.length + 1) fuel →
    judgement.Takes tokens (levelFrom fuel current tighter left)
      (levelFrom fuel' current tighter left) (laws.joined current left)
  prefixed : ∀ {tokens}, judgement.EnoughFuel (16 * tokens.length + 2) fuel →
    judgement.Takes tokens (prefixed fuel) (prefixed fuel') (laws.operand .prefixed)
  applied : ∀ (operand : Expr) {tokens}, judgement.EnoughFuel (16 * tokens.length + 1) fuel →
    judgement.Takes tokens (applied fuel operand) (applied fuel' operand) (laws.suffixed operand)
  commaSeparated : ∀ (limit : Option Nat) (count : Nat) {tokens},
    judgement.EnoughFuel (16 * tokens.length + 11) fuel →
    judgement.Takes tokens (commaSeparated fuel limit count) (commaSeparated fuel' limit count)
      (Counted judgement laws limit count)
  primary : ∀ {tokens}, judgement.EnoughFuel (16 * tokens.length + 1) fuel →
    judgement.Takes tokens (primary fuel) (primary fuel') laws.primary

section

variable {judgement} {laws} (free : ∀ mark, mark ∉ expressionStops → allowed mark)

include free

namespace HoldsOfExpressions

variable (ih : HoldsOfExpressions judgement laws fuel fuel')

include ih

theorem expression_succ (enough : judgement.EnoughFuel (16 * tokens.length + 10) (fuel + 1)) :
    judgement.Takes tokens (Parser.expression (fuel + 1)) (Parser.expression (fuel' + 1))
      laws.expression := by
  unfold Parser.expression
  apply (ih.level .disjunction (enough.mono (by grind [Level.height]))).bind
  rintro target first left rfl
  apply judgement.step (judgement.accept (free _ (by decide)))
  intro equals left' took
  cases equals with
  | none =>
      obtain ⟨rfl, _⟩ := took
      exact judgement.pure trivial fun operand => ⟨first, rfl, laws.operation operand⟩
  | some equals =>
      obtain ⟨rfl, own⟩ := took
      apply (ih.expression (enough.mono (by grind))).bind
      rintro value rest left rfl
      cases target with
      | reference name depth =>
          exact judgement.pure trivial fun expression operand =>
            ⟨first ++ equals :: rest, by simp, laws.assignment operand own expression⟩
      | _ => exact judgement.raise

omit free in
theorem level_succ (current : Level)
    (enough : judgement.EnoughFuel (16 * tokens.length + current.height + 3) (fuel + 1)) :
    judgement.Takes tokens (Parser.level (fuel + 1) current) (Parser.level (fuel' + 1) current)
      (laws.operand current) := by
  unfold Parser.level
  cases found : current.tighter? with
  | none =>
      cases current <;> cases found
      exact ih.prefixed (enough.mono (by grind))
  | some tighter =>
      rw [Level.height_tighter found] at enough
      apply (ih.level tighter (enough.mono (by grind))).bind
      rintro left first rest rfl
      apply judgement.mono (ih.levelFrom left found (enough.mono (by grind))) fun _ _ _ _ => id
      rintro tree rest - ⟨second, rfl, joined⟩ operand
      exact ⟨first ++ second, by simp, laws.row found operand joined⟩

theorem levelFrom_succ {current tighter : Level} (left : Expr)
    (found : current.tighter? = some tighter)
    (enough : judgement.EnoughFuel (16 * tokens.length + 1) (fuel + 1)) :
    judgement.Takes tokens (Parser.levelFrom (fuel + 1) current tighter left)
      (Parser.levelFrom (fuel' + 1) current tighter left) (laws.joined current left) := by
  have apart : ∀ mark, mark ∈ current.operators → mark ∉ expressionStops := by
    cases current <;> decide
  have low := tighter.height_le
  unfold Parser.levelFrom
  apply judgement.step (judgement.acceptAny fun mark member => free mark (apart mark member))
  intro operator rest took
  cases operator with
  | none =>
      obtain ⟨rfl, _⟩ := took
      exact judgement.pure trivial ⟨[], rfl, laws.joinedDone⟩
  | some operator =>
      obtain ⟨rfl, own⟩ := took
      apply (ih.level tighter (enough.mono (by grind))).bind
      rintro right first rest rfl
      apply judgement.mono (ih.levelFrom (current.join left operator right) found
        (enough.mono (by grind))) fun _ _ _ _ => id
      rintro tree rest - ⟨second, rfl, joined⟩ operand
      exact ⟨operator :: (first ++ second), by simp, laws.joinedMore found own operand joined⟩

theorem prefixed_succ (enough : judgement.EnoughFuel (16 * tokens.length + 2) (fuel + 1)) :
    judgement.Takes tokens (Parser.prefixed (fuel + 1)) (Parser.prefixed (fuel' + 1))
      (laws.operand .prefixed) := by
  have apart : ∀ mark, mark ∈ [Mark.bang, Mark.minus] → mark ∉ expressionStops := by decide
  unfold Parser.prefixed
  apply judgement.step (judgement.acceptAny fun mark member => free mark (apart mark member))
  intro operator left took
  cases operator with
  | none =>
      obtain ⟨rfl, _⟩ := took
      apply (ih.primary (enough.mono (by grind))).bind
      rintro operand first left rfl
      apply judgement.mono (ih.applied operand (enough.mono (by grind))) fun _ _ _ _ => id
      rintro tree left - ⟨second, rfl, suffixed⟩ primary
      exact ⟨first ++ second, by simp, laws.applied primary suffixed⟩
  | some operator =>
      obtain ⟨rfl, own⟩ := took
      apply (ih.prefixed (enough.mono (by grind))).bind
      rintro operand rest left rfl
      exact judgement.pure trivial fun derived =>
        ⟨operator :: rest, rfl, laws.unary own derived⟩

omit free in
/-- Arguments are items of which there are not too many. -/
theorem arguments (enough : judgement.EnoughFuel (16 * tokens.length + 11) fuel) :
    judgement.Takes tokens (Parser.commaSeparated fuel (some maximalArity) 0)
      (Parser.commaSeparated fuel' (some maximalArity) 0) fun taken arguments =>
        laws.itemList taken arguments ∧
          (judgement.reports ∨ arguments.length ≤ maximalArity) := by
  apply (ih.commaSeparated (some maximalArity) 0 enough).mono
  rintro taken arguments ⟨items, few⟩
  refine ⟨laws.someItems items, few.imp_right fun few => ?_⟩
  simpa using few maximalArity rfl

omit free in
theorem elements (enough : judgement.EnoughFuel (16 * tokens.length + 11) fuel) :
    judgement.Takes tokens (Parser.commaSeparated fuel none 0)
      (Parser.commaSeparated fuel' none 0) laws.itemList :=
  (ih.commaSeparated none 0 enough).mono fun _ _ counted => laws.someItems counted.1

theorem applied_succ (operand : Expr)
    (enough : judgement.EnoughFuel (16 * tokens.length + 1) (fuel + 1)) :
    judgement.Takes tokens (Parser.applied (fuel + 1) operand) (Parser.applied (fuel' + 1) operand)
      (laws.suffixed operand) := by
  unfold Parser.applied
  apply judgement.step (judgement.accept (free _ (by decide)))
  intro left rest took
  cases left with
  | some left =>
      obtain ⟨rfl, isLeft⟩ := took
      apply judgement.step judgement.sees
      rintro closes _ ⟨rfl, _⟩
      apply judgement.itemList closes ⟨laws.noItems, Or.inr (Nat.zero_le _)⟩
        (ih.arguments (enough.mono (by grind)))
      rintro arguments taken rest rfl
      apply judgement.step (judgement.expect (free _ (by decide)))
      rintro right rest ⟨rfl, isRight⟩
      apply judgement.mono (ih.applied (.call operand right arguments) (enough.mono (by grind)))
        fun _ _ _ _ => id
      rintro tree rest - ⟨taken', rfl, suffixed⟩ ⟨items, few⟩
      exact ⟨left :: (taken ++ right :: taken'), by simp,
        laws.call isLeft items few isRight suffixed⟩
  | none =>
      obtain ⟨rfl, _⟩ := took
      apply judgement.step (judgement.accept (free _ (by decide)))
      intro left rest took
      cases left with
      | none =>
          obtain ⟨rfl, _⟩ := took
          exact judgement.pure trivial ⟨[], rfl, laws.suffixedDone⟩
      | some left =>
          obtain ⟨rfl, isLeft⟩ := took
          apply (ih.expression (enough.mono (by grind))).bind
          rintro position taken rest rfl
          apply judgement.step (judgement.expect (free _ (by decide)))
          rintro right rest ⟨rfl, isRight⟩
          apply judgement.mono (ih.applied (.index operand right position)
            (enough.mono (by grind))) fun _ _ _ _ => id
          rintro tree rest - ⟨taken', rfl, suffixed⟩ expression
          exact ⟨left :: (taken ++ right :: taken'), by simp,
            laws.index isLeft expression isRight suffixed⟩

theorem commaSeparated_succ (limit : Option Nat) (count : Nat)
    (enough : judgement.EnoughFuel (16 * tokens.length + 11) (fuel + 1)) :
    judgement.Takes tokens (Parser.commaSeparated (fuel + 1) limit count)
      (Parser.commaSeparated (fuel' + 1) limit count) (Counted judgement laws limit count) := by
  have others : ∀ taken comma left, tokens = taken ++ comma :: left →
      judgement.Takes left (Parser.commaSeparated fuel limit (count + 1))
        (Parser.commaSeparated fuel' limit (count + 1))
        (Counted judgement laws limit (count + 1)) := by
    rintro taken comma left rfl
    exact ih.commaSeparated limit (count + 1) (enough.mono (by grind))
  unfold Parser.commaSeparated
  apply judgement.reported
  apply judgement.separated (free _ (by decide)) (ih.expression (enough.mono (by grind))) others
  · intro taken expr expression few
    refine ⟨laws.itemsLast expression, few.imp_right ?_⟩
    rintro few bound rfl
    exact Nat.succ_le_of_lt (by simpa using few)
  · rintro taken expr comma taken' exprs expression own ⟨items, within⟩ _
    refine ⟨laws.itemsMore expression own items, within.imp_right fun within bound same => ?_⟩
    have := within bound same
    rw [List.length_cons]
    omega

theorem primary_succ (enough : judgement.EnoughFuel (16 * tokens.length + 1) (fuel + 1)) :
    judgement.Takes tokens (Parser.primary (fuel + 1)) (Parser.primary (fuel' + 1))
      laws.primary := by
  have taken {token : Token} {mark : Mark} (kind : token.kind = .mark mark)
      (apart : mark ∉ expressionStops) (other : Mark) (kind' : token.kind = .mark other) :
      allowed other ∧ other ≠ .endOfInput := by
    obtain rfl : mark = other := Kind.mark.inj (kind.symm.trans kind')
    refine ⟨free mark apart, ?_⟩
    rintro rfl
    exact apart (by decide)
  have literal {token : Token} {value : Literal} (coming : upcoming tokens = token)
      (found : token.kind.literal? = some value)
      (apart : ∀ mark, token.kind = .mark mark → allowed mark ∧ mark ≠ .endOfInput) :
      judgement.Takes tokens (Parser.advance >>= fun _ => Pure.pure (Expr.literal value))
        (Parser.advance >>= fun _ => Pure.pure (Expr.literal value)) laws.primary := by
    apply judgement.take coming apart
    rintro left rfl
    exact judgement.pure trivial ⟨[token], rfl, laws.literal found⟩
  unfold Parser.primary
  apply judgement.step judgement.peek
  rintro token _ ⟨rfl, coming⟩
  cases kind : token.kind with
  | number value | string value =>
      apply literal coming
      · rw [kind]
        rfl
      · rw [kind]
        nofun
  | mark mark =>
      cases mark with
      | falseWord | trueWord | nilWord =>
          refine literal coming ?_ (taken kind (by decide))
          rw [kind]
          rfl
      | identifier =>
          apply judgement.take coming (taken kind (by decide))
          rintro left rfl
          exact judgement.pure trivial ⟨[token], rfl, laws.reference (Token.is_of_kind kind)⟩
      | leftBracket =>
          apply judgement.take coming (taken kind (by decide))
          rintro left rfl
          apply judgement.step judgement.sees
          rintro closes _ ⟨rfl, _⟩
          apply judgement.itemList closes laws.noItems (ih.elements (enough.mono (by grind)))
          rintro elements taken left rfl
          apply judgement.closing (free _ (by decide))
          rintro right left rfl isRight
          exact ⟨trivial, fun items => ⟨token :: (taken ++ [right]), by simp,
            laws.list (Token.is_of_kind kind) items isRight⟩⟩
      | leftParen =>
          apply judgement.take coming (taken kind (by decide))
          rintro left rfl
          apply (ih.expression (enough.mono (by grind))).bind
          rintro inner taken left rfl
          apply judgement.closing (free _ (by decide))
          rintro right left rfl isRight
          exact ⟨trivial, fun expression => ⟨token :: (taken ++ [right]), by simp,
            laws.grouping (Token.is_of_kind kind) expression isRight⟩⟩
      | _ => exact judgement.raise

theorem succ : HoldsOfExpressions judgement laws (fuel + 1) (fuel' + 1) :=
  ⟨ih.expression_succ free, fun current => ih.level_succ current,
    fun left => ih.levelFrom_succ free left, ih.prefixed_succ free,
    fun operand => ih.applied_succ free operand,
    fun limit count => ih.commaSeparated_succ free limit count, ih.primary_succ free⟩

end HoldsOfExpressions

variable (judgement) (laws)

theorem holdsOfExpressions (fueled : judgement.Fueled fuel fuel') :
    HoldsOfExpressions judgement laws fuel fuel' := by
  induction fuel generalizing fuel' with
  | zero =>
      constructor
      all_goals
        intros
        rename_i enough
        exact judgement.exhaustedAt enough
  | succ fuel ih =>
      cases fuel' with
      | zero =>
          -- The second run is out of fuel; the first one is compared with itself.
          have alone := (ih (.inl rfl)).succ free
          exact ⟨fun enough => fueled.exhausted_right (alone.expression enough),
            fun current _ enough => fueled.exhausted_right (alone.level current enough),
            fun left _ found enough => fueled.exhausted_right (alone.levelFrom left found enough),
            fun enough => fueled.exhausted_right (alone.prefixed enough),
            fun operand _ enough => fueled.exhausted_right (alone.applied operand enough),
            fun limit count _ enough =>
              fueled.exhausted_right (alone.commaSeparated limit count enough),
            fun enough => fueled.exhausted_right (alone.primary enough)⟩
      | succ fuel' => exact (ih fueled.of_succ).succ free

theorem expressionUnless_holds (fueled : judgement.Fueled fuel fuel') (mark : Mark)
    (enough : judgement.EnoughFuel (16 * tokens.length + 10) fuel) :
    judgement.Takes tokens (expressionUnless fuel mark) (expressionUnless fuel' mark)
      laws.optional := by
  unfold expressionUnless
  apply judgement.step judgement.sees
  rintro seen _ ⟨rfl, _⟩
  cases seen with
  | true => exact judgement.pure trivial ⟨[], rfl, laws.absent⟩
  | false =>
      apply ((holdsOfExpressions judgement laws free fueled).expression enough).bind
      rintro expr taken left rfl
      exact judgement.pure trivial fun expression => ⟨taken, rfl, laws.present expression⟩

/-- Parameters, no more than are allowed behind those that stand before them. -/
def ParametersTaken (count : Nat) (taken names : List Token) : Prop :=
  laws.parameters taken names ∧ (judgement.reports ∨ count + names.length ≤ maximalArity)

variable {judgement} {laws} in
theorem parameters_succ (count : Nat)
    (ih : ∀ {tokens}, judgement.EnoughFuel (tokens.length + 1) fuel →
      judgement.Takes tokens (parameters fuel (count + 1)) (parameters fuel' (count + 1))
        (ParametersTaken judgement laws (count + 1)))
    (enough : judgement.EnoughFuel (tokens.length + 1) (fuel + 1)) :
    judgement.Takes tokens (parameters (fuel + 1) count) (parameters (fuel' + 1) count)
      (ParametersTaken judgement laws count) := by
  have one : judgement.Takes tokens (Parser.expect .identifier .parameterName)
      (Parser.expect .identifier .parameterName) fun taken name =>
        taken = [name] ∧ name.is .identifier = true :=
    judgement.mono (judgement.expect (free _ (by decide))) (fun _ _ _ _ _ => trivial)
      fun name _ took _ => ⟨[name], took.1, rfl, took.2⟩
  have others : ∀ taken comma left, tokens = taken ++ comma :: left →
      judgement.Takes left (parameters fuel (count + 1)) (parameters fuel' (count + 1))
        (ParametersTaken judgement laws (count + 1)) := by
    rintro taken comma left rfl
    exact ih (enough.mono (by grind))
  unfold parameters
  apply judgement.reported
  apply judgement.separated (free _ (by decide)) one others
  · rintro taken name ⟨rfl, own⟩ few
    exact ⟨laws.parametersLast own, few.imp_right Nat.lt_of_not_le⟩
  · rintro taken name comma taken' names ⟨rfl, own⟩ isComma ⟨derived, within⟩ _
    refine ⟨laws.parametersMore own isComma derived, within.imp_right fun within => ?_⟩
    rw [List.length_cons]
    omega

theorem parameters_holds (fueled : judgement.Fueled fuel fuel') (count : Nat)
    (enough : judgement.EnoughFuel (tokens.length + 1) fuel) :
    judgement.Takes tokens (parameters fuel count) (parameters fuel' count)
      (ParametersTaken judgement laws count) := by
  induction fuel generalizing fuel' count tokens with
  | zero => exact judgement.exhaustedAt enough
  | succ fuel ih =>
      cases fuel' with
      | zero =>
          exact fueled.exhausted_right
            (parameters_succ free count (fun enough => ih (.inl rfl) (count + 1) enough) enough)
      | succ fuel' =>
          exact parameters_succ free count (fun enough => ih fueled.of_succ (count + 1) enough)
            enough

/-- A condition in parentheses, in front of what it decides. -/
theorem condition_holds {α : Type} {next next' : Expr → Parse α} {cause cause' : ParseCause}
    {certain derived : α → List Token → Prop} (fueled : judgement.Fueled fuel fuel')
    (enough : judgement.EnoughFuel (16 * tokens.length) fuel)
    (after : ∀ condition left test right rest, tokens = left :: (test ++ right :: rest) →
      left.is .leftParen = true → right.is .rightParen = true →
      judgement.holds rest (next condition) (next' condition) certain fun result left' =>
        laws.expression test condition → derived result left') :
    judgement.holds tokens
      (do
        let _ ← Parser.expect .leftParen cause
        let condition ← Parser.expression fuel
        let _ ← Parser.expect .rightParen cause'
        next condition)
      (do
        let _ ← Parser.expect .leftParen cause
        let condition ← Parser.expression fuel'
        let _ ← Parser.expect .rightParen cause'
        next' condition) certain derived := by
  apply judgement.step (judgement.expect (free _ (by decide)))
  rintro left rest ⟨rfl, isLeft⟩
  apply ((holdsOfExpressions judgement laws free fueled).expression (enough.mono (by grind))).bind
  rintro condition test rest rfl
  apply judgement.step (judgement.expect (free _ (by decide)))
  rintro right rest ⟨rfl, isRight⟩
  exact after condition left test right rest rfl isLeft isRight

/-- A whole expression in front of the end of input. -/
theorem wholeExpression_holds (fueled : judgement.Fueled fuel fuel')
    (enough : judgement.EnoughFuel (16 * tokens.length + 10) fuel) :
    judgement.holds tokens (wholeExpression fuel) (wholeExpression fuel')
      (fun _ left => (upcoming left).is .endOfInput = true) (Took tokens laws.expression) := by
  unfold wholeExpression
  apply ((holdsOfExpressions judgement laws free fueled).expression enough).bind
  rintro expr taken left rfl
  apply judgement.step judgement.atEnd
  rintro ended _ ⟨rfl, same⟩
  cases ended with
  | true => exact judgement.pure same.symm fun expression => ⟨taken, rfl, expression⟩
  | false => exact judgement.step judgement.peek fun _ _ _ => judgement.raise

end

/-! ### Statements -/

/-- A statement is taken, and an `else` behind it would not belong to it. -/
def TookStatement (tokens : List Token) (stmt : Stmt) (left : List Token) : Prop :=
  Took tokens (fun taken stmt => ∃ dangling, laws.statement taken stmt dangling ∧
    (dangling = true → (upcoming left).is .elseWord = false)) stmt left

/-- What stands behind the opening brace of a block. -/
def BlockTaken (taken : List Token) (body : List Stmt) : Prop :=
  ∃ inner right, taken = inner ++ [right] ∧ right.is .rightBrace = true ∧
    laws.declarations inner body

/-- The judgement holds of the rules for statements, with these amounts of fuel. -/
structure HoldsOfStatements (fuel fuel' : Nat) : Prop where
  declaration : ∀ {tokens}, judgement.EnoughFuel (16 * tokens.length + 12) fuel →
    judgement.holds tokens (declaration fuel) (declaration fuel')
      (fun _ left => (upcoming tokens).is .endOfInput = false → left.length < tokens.length)
      (Recovered judgement.reports (Took tokens laws.declaration))
  functionDeclaration : ∀ {tokens}, judgement.EnoughFuel (16 * tokens.length + 1) fuel →
    judgement.Takes tokens (functionDeclaration fuel) (functionDeclaration fuel')
      fun taken stmt => ∀ keyword : Token, keyword.is .funWord = true →
        laws.declaration (keyword :: taken) stmt
  statement : ∀ {tokens}, judgement.EnoughFuel (16 * tokens.length + 11) fuel →
    judgement.holds tokens (statement fuel) (statement fuel')
      (fun _ left => left.length < tokens.length) (TookStatement judgement laws tokens)
  block : ∀ {tokens}, judgement.EnoughFuel (16 * tokens.length + 14) fuel →
    judgement.Takes tokens (block fuel) (block fuel') (BlockTaken judgement laws)
  declarations : ∀ (inBlock : Bool) {tokens}, judgement.EnoughFuel (16 * tokens.length + 13) fuel →
    judgement.holds tokens (declarations fuel inBlock) (declarations fuel' inBlock)
      (fun _ left => Concluded inBlock left) (Took tokens laws.declarations)

/-- The judgement allows every mark but the end of the input, and is kept by recovery, which goes on
in front of the end of input in any case. -/
structure Judgement.Recovers : Prop where
  free : ∀ mark, mark ≠ .endOfInput → allowed mark
  recovering : ∀ {tokens : List Token} {rule rule' : Parse Stmt}
    {derived : Stmt → List Token → Prop},
    judgement.holds tokens rule rule' (fun _ left => left.length < tokens.length) derived →
    judgement.holds tokens (Parser.recovering rule) (Parser.recovering rule')
      (fun _ left => (upcoming tokens).is .endOfInput = false → left.length < tokens.length)
      (Recovered judgement.reports derived)

section

variable {judgement} (recovers : judgement.Recovers)

include recovers

theorem Judgement.Recovers.inner (mark : Mark) (inside : mark ∉ expressionStops) :
    allowed mark := by
  apply recovers.free
  rintro rfl
  exact inside (by decide)

/-- A keyword at the start of a rule is taken. -/
theorem Judgement.Recovers.keyword {α : Type} {token : Token} {mark : Mark} {rule rule' : Parse α}
    {certain derived : α → List Token → Prop} (coming : upcoming tokens = token)
    (kind : token.kind = .mark mark) (other : mark ≠ .endOfInput)
    (after : ∀ left, tokens = token :: left → judgement.holds left rule rule' certain derived) :
    judgement.holds tokens (Parser.advance >>= fun _ => rule)
      (Parser.advance >>= fun _ => rule') certain derived := by
  apply judgement.take coming _ after
  intro mark' kind'
  obtain rfl : mark = mark' := Kind.mark.inj (kind.symm.trans kind')
  exact ⟨recovers.free mark other, other⟩

theorem variableDeclaration_holds (fueled : judgement.Fueled fuel fuel')
    (enough : judgement.EnoughFuel (16 * tokens.length) fuel) :
    judgement.Takes tokens (variableDeclaration fuel) (variableDeclaration fuel')
      fun taken stmt => ∀ keyword : Token, keyword.is .varWord = true →
        laws.variableDeclaration (keyword :: taken) stmt := by
  unfold variableDeclaration
  apply judgement.step (judgement.expect (recovers.free _ (by decide)))
  rintro name left ⟨rfl, isName⟩
  apply judgement.step (judgement.accept (recovers.free _ (by decide)))
  intro equals left' took
  cases equals with
  | none =>
      obtain ⟨rfl, _⟩ := took
      apply judgement.closing (recovers.free _ (by decide))
      rintro semicolon left rfl isSemicolon
      exact ⟨trivial, [name, semicolon], rfl, fun _ isKeyword =>
        laws.bare isKeyword isName isSemicolon⟩
  | some equals =>
      obtain ⟨rfl, isEquals⟩ := took
      apply ((holdsOfExpressions judgement laws recovers.inner fueled).expression
        (enough.mono (by grind))).bind
      rintro value taken left rfl
      apply judgement.closing (recovers.free _ (by decide))
      rintro semicolon left rfl isSemicolon
      refine ⟨trivial, fun expression => ?_⟩
      exact ⟨name :: equals :: (taken ++ [semicolon]), by simp, fun _ isKeyword =>
        laws.initialized isKeyword isName isEquals expression isSemicolon⟩

theorem expressionStatement_holds (fueled : judgement.Fueled fuel fuel')
    (enough : judgement.EnoughFuel (16 * tokens.length + 10) fuel) :
    judgement.holds tokens (expressionStatement fuel) (expressionStatement fuel')
      (fun _ left => left.length < tokens.length) (Took tokens laws.expressionStatement) := by
  unfold expressionStatement
  apply ((holdsOfExpressions judgement laws recovers.inner fueled).expression enough).bind
  rintro expr taken left rfl
  apply judgement.closing (recovers.free _ (by decide))
  rintro semicolon left rfl isSemicolon
  refine ⟨by grind, fun expression => ?_⟩
  exact ⟨taken ++ [semicolon], by simp, laws.evaluated expression isSemicolon⟩

theorem forInitializer_holds (fueled : judgement.Fueled fuel fuel')
    (enough : judgement.EnoughFuel (16 * tokens.length + 10) fuel) :
    judgement.Takes tokens (forInitializer fuel) (forInitializer fuel') laws.initializer := by
  unfold forInitializer
  apply judgement.step (judgement.accept (recovers.free _ (by decide)))
  intro semicolon left took
  cases semicolon with
  | some semicolon =>
      obtain ⟨rfl, isSemicolon⟩ := took
      exact judgement.pure trivial ⟨[semicolon], rfl, laws.noInitializer isSemicolon⟩
  | none =>
      obtain ⟨rfl, _⟩ := took
      apply judgement.step (judgement.accept (recovers.free _ (by decide)))
      intro keyword left took
      cases keyword with
      | some keyword =>
          obtain ⟨rfl, isKeyword⟩ := took
          apply (variableDeclaration_holds laws recovers fueled (enough.mono (by grind))).bind
          rintro stmt taken left rfl
          exact judgement.pure trivial fun derived =>
            ⟨keyword :: taken, rfl, laws.declaringInitializer (derived keyword isKeyword)⟩
      | none =>
          obtain ⟨rfl, _⟩ := took
          apply judgement.bind (expressionStatement_holds laws recovers fueled enough)
          rintro stmt taken left rfl _
          exact judgement.pure trivial fun took =>
            ⟨taken, rfl, laws.evaluatingInitializer took.relation⟩

namespace HoldsOfStatements

variable {laws} (fueled : judgement.Fueled fuel fuel')
  (ih : HoldsOfStatements judgement laws fuel fuel')

include fueled ih

theorem declaration_succ (enough : judgement.EnoughFuel (16 * tokens.length + 12) (fuel + 1)) :
    judgement.holds tokens (Parser.declaration (fuel + 1)) (Parser.declaration (fuel' + 1))
      (fun _ left => (upcoming tokens).is .endOfInput = false → left.length < tokens.length)
      (Recovered judgement.reports (Took tokens laws.declaration)) := by
  have plain : judgement.holds tokens (Parser.statement fuel) (Parser.statement fuel')
      (fun _ left => left.length < tokens.length) (Took tokens laws.declaration) := by
    apply judgement.mono (ih.statement (enough.mono (by grind))) fun _ _ _ _ => id
    rintro stmt left - ⟨taken, whole, dangling, derived, _⟩
    exact ⟨taken, whole, laws.executed derived⟩
  unfold Parser.declaration
  apply judgement.step judgement.peek
  rintro token _ ⟨rfl, coming⟩
  apply judgement.step judgement.note
  rintro _ _ rfl
  apply recovers.recovering
  cases kind : token.kind with
  | number value | string value => exact plain
  | mark mark =>
      cases mark with
      | funWord =>
          apply recovers.keyword coming kind (by decide)
          rintro left rfl
          apply judgement.mono (ih.functionDeclaration (enough.mono (by grind)))
          · grind
          · rintro stmt left - ⟨taken, rfl, derived⟩
            exact ⟨token :: taken, rfl, derived token (Token.is_of_kind kind)⟩
      | varWord =>
          apply recovers.keyword coming kind (by decide)
          rintro left rfl
          apply judgement.mono
            (variableDeclaration_holds laws recovers fueled (enough.mono (by grind)))
          · grind
          · rintro stmt left - ⟨taken, rfl, derived⟩
            exact ⟨token :: taken, rfl, laws.declared (derived token (Token.is_of_kind kind))⟩
      | _ => exact plain

theorem functionDeclaration_succ
    (enough : judgement.EnoughFuel (16 * tokens.length + 1) (fuel + 1)) :
    judgement.Takes tokens (Parser.functionDeclaration (fuel + 1))
      (Parser.functionDeclaration (fuel' + 1)) fun taken stmt =>
        ∀ keyword : Token, keyword.is .funWord = true →
          laws.declaration (keyword :: taken) stmt := by
  unfold Parser.functionDeclaration
  apply judgement.step (judgement.expect (recovers.free _ (by decide)))
  rintro name left ⟨rfl, isName⟩
  apply judgement.step (judgement.expect (recovers.free _ (by decide)))
  rintro left rest ⟨rfl, isLeft⟩
  apply judgement.step judgement.sees
  rintro closes rest ⟨rfl, _⟩
  have listed : judgement.Takes rest (Parser.parameters fuel 0) (Parser.parameters fuel' 0)
      laws.parameterList := by
    apply (parameters_holds judgement laws recovers.inner fueled 0 (enough.mono (by grind))).mono
    rintro taken names ⟨derived, few⟩
    exact laws.someParameters derived (by simpa using few)
  apply judgement.itemList closes laws.noParameters listed
  rintro names taken rest rfl
  apply judgement.step (judgement.expect (recovers.free _ (by decide)))
  rintro right rest ⟨rfl, isRight⟩
  apply judgement.step (judgement.expect (recovers.free _ (by decide)))
  rintro leftBrace rest ⟨rfl, isLeftBrace⟩
  apply (ih.block (enough.mono (by grind))).bind
  rintro body taken' rest rfl
  apply judgement.step judgement.note
  rintro _ _ rfl
  apply judgement.pure trivial
  rintro ⟨inner, rightBrace, rfl, isRightBrace, derived⟩ parameters
  refine ⟨name :: left :: (taken ++ right :: leftBrace :: (inner ++ [rightBrace])), by simp, ?_⟩
  intro keyword isKeyword
  exact laws.function isKeyword isName isLeft parameters isRight isLeftBrace derived isRightBrace

theorem forClauses_succ {token : Token} {line : Nat} (own : token.is .forWord = true)
    (enough : judgement.EnoughFuel (16 * (token :: tokens).length + 11) (fuel + 1)) :
    judgement.holds tokens (forClauses fuel line) (forClauses fuel' line)
      (fun _ left => left.length < (token :: tokens).length)
      (TookStatement judgement laws (token :: tokens)) := by
  have optional {tokens : List Token} (mark : Mark) :=
    @expressionUnless_holds _ judgement laws _ _ tokens recovers.inner fueled mark
  unfold forClauses
  apply judgement.step judgement.note
  rintro _ _ rfl
  apply judgement.step (judgement.expect (recovers.free _ (by decide)))
  rintro left rest ⟨rfl, isLeft⟩
  apply (forInitializer_holds laws recovers fueled (enough.mono (by grind))).bind
  rintro initializer first rest rfl
  apply (optional .semicolon (enough.mono (by grind))).bind
  rintro condition second rest rfl
  apply judgement.step (judgement.expect (recovers.free _ (by decide)))
  rintro semicolon rest ⟨rfl, isSemicolon⟩
  apply (optional .rightParen (enough.mono (by grind))).bind
  rintro increment third rest rfl
  apply judgement.step (judgement.expect (recovers.free _ (by decide)))
  rintro right rest ⟨rfl, isRight⟩
  apply judgement.bind (ih.statement (enough.mono (by grind)))
  rintro body taken rest rfl _
  apply judgement.pure (by grind)
  intro took step test start
  obtain ⟨dangling, derived, closed⟩ := took.relation
  exact ⟨_, by simp, dangling,
    laws.counting own isLeft start test isSemicolon step isRight derived, closed⟩

omit fueled in
theorem branches_succ {token left right : Token} {test : List Token} (condition : Expr)
    (own : token.is .ifWord = true) (isLeft : left.is .leftParen = true)
    (isRight : right.is .rightParen = true)
    (enough : judgement.EnoughFuel (16 * tokens.length + 11) fuel) :
    judgement.holds tokens (branches fuel condition) (branches fuel' condition)
      (fun _ left => left.length < tokens.length) fun stmt rest =>
        laws.expression test condition →
          TookStatement judgement laws (token :: left :: (test ++ right :: tokens)) stmt rest := by
  unfold branches
  apply judgement.bind (ih.statement enough)
  rintro thenBranch taken rest rfl _
  apply judgement.step (judgement.accept (recovers.free _ (by decide)))
  intro other rest' took
  cases other with
  | none =>
      obtain ⟨rfl, absent⟩ := took
      apply judgement.pure (by grind)
      intro took tested
      obtain ⟨dangling, derived, _⟩ := took.relation
      exact ⟨_, by simp, true, laws.conditional own isLeft tested isRight derived,
        fun _ => absent (by decide)⟩
  | some other =>
      obtain ⟨rfl, isElse⟩ := took
      apply judgement.bind (ih.statement (enough.mono (by grind)))
      rintro elseBranch taken' rest rfl _
      apply judgement.pure (by grind)
      intro took' took tested
      obtain ⟨dangling, derived, closed⟩ := took.relation
      obtain ⟨dangling', derived', closed'⟩ := took'.relation
      -- An open branch would have taken the `else` that follows it.
      have nearest : dangling = false := by
        cases dangling with
        | false => rfl
        | true => cases isElse.symm.trans (closed rfl)
      subst nearest
      exact ⟨_, by simp, dangling',
        laws.alternative own isLeft tested isRight derived isElse derived', closed'⟩

theorem statement_succ (enough : judgement.EnoughFuel (16 * tokens.length + 11) (fuel + 1)) :
    judgement.holds tokens (Parser.statement (fuel + 1)) (Parser.statement (fuel' + 1))
      (fun _ left => left.length < tokens.length) (TookStatement judgement laws tokens) := by
  have expressions := holdsOfExpressions judgement laws recovers.inner fueled
  have optional {tokens : List Token} (mark : Mark) :=
    @expressionUnless_holds _ judgement laws _ _ tokens recovers.inner fueled mark
  have plain : judgement.holds tokens (Parser.expressionStatement fuel)
      (Parser.expressionStatement fuel') (fun _ left => left.length < tokens.length)
      (TookStatement judgement laws tokens) := by
    apply judgement.mono
      (expressionStatement_holds laws recovers fueled (enough.mono (by grind))) fun _ _ _ _ => id
    rintro stmt left - ⟨taken, whole, derived⟩
    exact ⟨taken, whole, false, laws.plain derived, nofun⟩
  unfold Parser.statement
  apply judgement.step judgement.peek
  rintro token _ ⟨rfl, coming⟩
  cases kind : token.kind with
  | number value | string value => exact plain
  | mark mark =>
      have own : token.is mark = true := Token.is_of_kind kind
      cases mark with
      | forWord =>
          apply recovers.keyword coming kind (by decide)
          rintro rest rfl
          exact ih.forClauses_succ recovers fueled own enough
      | ifWord =>
          apply recovers.keyword coming kind (by decide)
          rintro rest rfl
          apply condition_holds judgement laws recovers.inner fueled (enough.mono (by grind))
          rintro condition left test right rest rfl isLeft isRight
          apply judgement.mono (ih.branches_succ recovers condition own isLeft isRight
            (enough.mono (by grind)))
          · grind
          · exact fun _ _ _ => id
      | whileWord =>
          apply recovers.keyword coming kind (by decide)
          rintro rest rfl
          apply condition_holds judgement laws recovers.inner fueled (enough.mono (by grind))
          rintro condition left test right rest rfl isLeft isRight
          apply judgement.bind (ih.statement (enough.mono (by grind)))
          rintro body taken rest rfl _
          apply judgement.pure (by grind)
          intro took tested
          obtain ⟨dangling, derived, closed⟩ := took.relation
          exact ⟨_, by simp, dangling,
            laws.loop own isLeft tested isRight derived, closed⟩
      | returnWord =>
          apply recovers.keyword coming kind (by decide)
          rintro rest rfl
          apply (optional .semicolon (enough.mono (by grind))).bind
          rintro value taken rest rfl
          apply judgement.closing (recovers.free _ (by decide))
          rintro semicolon rest rfl isSemicolon
          exact ⟨by grind, fun given =>
            ⟨_, by simp, false, laws.returned own given isSemicolon, nofun⟩⟩
      | leftBrace =>
          apply recovers.keyword coming kind (by decide)
          rintro rest rfl
          apply (ih.block (enough.mono (by grind))).bind
          rintro body taken rest rfl
          apply judgement.pure (by grind)
          rintro ⟨inner, right, rfl, isRight, derived⟩
          exact ⟨_, by simp, false, laws.block own derived isRight, nofun⟩
      | printWord =>
          apply recovers.keyword coming kind (by decide)
          rintro rest rfl
          apply (expressions.expression (enough.mono (by grind))).bind
          rintro expr taken rest rfl
          apply judgement.closing (recovers.free _ (by decide))
          rintro semicolon rest rfl isSemicolon
          exact ⟨by grind, fun expression =>
            ⟨_, by simp, false, laws.print own expression isSemicolon, nofun⟩⟩
      | _ => exact plain

omit fueled in
theorem block_succ (enough : judgement.EnoughFuel (16 * tokens.length + 14) (fuel + 1)) :
    judgement.Takes tokens (Parser.block (fuel + 1)) (Parser.block (fuel' + 1))
      (BlockTaken judgement laws) := by
  unfold Parser.block
  apply judgement.bind (ih.declarations true (enough.mono (by grind)))
  rintro body inner left rfl _
  apply judgement.closing (recovers.free _ (by decide))
  rintro right left rfl isRight
  exact ⟨trivial, fun took =>
    ⟨inner ++ [right], by simp, inner, right, rfl, isRight, took.relation⟩⟩

omit recovers fueled in
theorem declarations_succ (inBlock : Bool)
    (enough : judgement.EnoughFuel (16 * tokens.length + 13) (fuel + 1)) :
    judgement.holds tokens (Parser.declarations (fuel + 1) inBlock)
      (Parser.declarations (fuel' + 1) inBlock) (fun _ left => Concluded inBlock left)
      (Took tokens laws.declarations) := by
  unfold Parser.declarations
  apply judgement.step judgement.atEnd
  rintro ended _ ⟨rfl, same⟩
  apply judgement.step judgement.sees
  rintro closes tokens ⟨rfl, closing⟩
  split
  · rename_i stops
    refine judgement.pure ?_ ⟨[], rfl, laws.declarationsNil⟩
    rw [Bool.or_eq_true, Bool.and_eq_true] at stops
    exact stops.imp (fun ends => same.symm.trans ends) fun both => ⟨both.1, closing both.2⟩
  · rename_i more
    have inside : (upcoming tokens).is .endOfInput = false := by
      rw [← same]
      cases ended with
      | false => rfl
      | true => exact absurd (Bool.true_or _) more
    apply judgement.bind (ih.declaration (enough.mono (by grind)))
    rintro found taken left rfl further
    have shorter := further inside
    apply judgement.bind (ih.declarations inBlock (enough.mono (by grind)))
    rintro body taken' left rfl stops
    cases found with
    | some stmt =>
        exact judgement.pure stops fun rest first => ⟨taken ++ taken', by simp,
          laws.declarationsCons (Took.relation first) (Took.relation rest)⟩
    | none =>
        exact judgement.pure stops fun rest reports => ⟨taken ++ taken', by simp,
          laws.leftOut reports (Took.relation rest)⟩

theorem succ : HoldsOfStatements judgement laws (fuel + 1) (fuel' + 1) :=
  ⟨ih.declaration_succ recovers fueled, ih.functionDeclaration_succ recovers fueled,
    ih.statement_succ recovers fueled, ih.block_succ recovers,
    fun inBlock => ih.declarations_succ inBlock⟩

end HoldsOfStatements

theorem holdsOfStatements (fueled : judgement.Fueled fuel fuel') :
    HoldsOfStatements judgement laws fuel fuel' := by
  induction fuel generalizing fuel' with
  | zero =>
      constructor
      all_goals
        intros
        rename_i enough
        exact judgement.exhaustedAt enough
  | succ fuel ih =>
      cases fuel' with
      | zero =>
          have alone := (ih (.inl rfl)).succ recovers (.inl rfl)
          exact ⟨fun enough => fueled.exhausted_right (alone.declaration enough),
            fun enough => fueled.exhausted_right (alone.functionDeclaration enough),
            fun enough => fueled.exhausted_right (alone.statement enough),
            fun enough => fueled.exhausted_right (alone.block enough),
            fun inBlock _ enough => fueled.exhausted_right (alone.declarations inBlock enough)⟩
      | succ fuel' => exact (ih fueled.of_succ).succ recovers fueled.of_succ

end

end LexicalScript.Parser
