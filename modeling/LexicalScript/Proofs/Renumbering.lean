import LexicalScript.Machine.Evaluate
import LexicalScript.Proofs.Retouch

/-!
Renumbering the lines of tokens.

Lines matter to errors only.  Renumbering is carried through trees, values, stores and machines,
where it turns out to change neither texts nor lookups; a renumbered machine has a silent journal.
-/

set_option autoImplicit false

namespace LexicalScript

/-! ### Trees -/

def Token.renumber (lines : Nat → Nat) (token : Token) : Token :=
  { token with line := lines token.line }

/-- The change that renumbers lines and keeps depths. -/
def Retouch.lines (lines : Nat → Nat) : Retouch := ⟨Token.renumber lines, id⟩

def Retouch.andThen (first second : Retouch) : Retouch :=
  ⟨second.token ∘ first.token, second.depth ∘ first.depth⟩

def Retouch.same : Retouch := ⟨id, id⟩

mutual

theorem Expr.retouch_retouch (first second : Retouch) (expr : Expr) :
    (expr.retouch first).retouch second = expr.retouch (first.andThen second) := by
  cases expr with
  | literal value => rfl
  | reference name depth => rfl
  | grouping inner => simp only [Expr.retouch, Expr.retouch_retouch first second inner]
  | unary operator inner | assign operator inner depth =>
      simp only [Expr.retouch, Expr.retouch_retouch first second inner]
      rfl
  | binary left operator right | logical left operator right | index left operator right =>
      simp only [Expr.retouch, Expr.retouch_retouch first second left,
        Expr.retouch_retouch first second right]
      rfl
  | call callee paren arguments =>
      simp only [Expr.retouch, Expr.retouch_retouch first second callee,
        Expr.retouchAll_retouchAll first second arguments]
      rfl
  | list bracket elements =>
      simp only [Expr.retouch, Expr.retouchAll_retouchAll first second elements]
      rfl

theorem Expr.retouchAll_retouchAll (first second : Retouch) (exprs : List Expr) :
    Expr.retouchAll second (Expr.retouchAll first exprs) =
      Expr.retouchAll (first.andThen second) exprs := by
  cases exprs with
  | nil => rfl
  | cons expr rest =>
      simp only [Expr.retouchAll, Expr.retouch_retouch first second expr,
        Expr.retouchAll_retouchAll first second rest]

end

theorem Expr.retouchOption_retouchOption (first second : Retouch) (expr : Option Expr) :
    Expr.retouchOption second (Expr.retouchOption first expr) =
      Expr.retouchOption (first.andThen second) expr := by
  cases expr with
  | none => rfl
  | some expr => simp only [Expr.retouchOption, Expr.retouch_retouch]

mutual

theorem Stmt.retouch_retouch (first second : Retouch) (stmt : Stmt) :
    (stmt.retouch first).retouch second = stmt.retouch (first.andThen second) := by
  cases stmt with
  | expression expr | print expr => simp only [Stmt.retouch, Expr.retouch_retouch]
  | var name initializer | returnValue name initializer =>
      simp only [Stmt.retouch, Expr.retouchOption_retouchOption]
      rfl
  | block body => simp only [Stmt.retouch, Stmt.retouchAll_retouchAll first second body]
  | conditional condition thenBranch elseBranch =>
      simp only [Stmt.retouch, Expr.retouch_retouch, Stmt.retouch_retouch first second thenBranch,
        Stmt.retouchOption_retouchOption first second elseBranch]
  | loop condition body =>
      simp only [Stmt.retouch, Expr.retouch_retouch, Stmt.retouch_retouch first second body]
  | function name parameters body =>
      simp only [Stmt.retouch, Stmt.retouchAll_retouchAll first second body, List.map_map]
      rfl

theorem Stmt.retouchOption_retouchOption (first second : Retouch) (stmt : Option Stmt) :
    Stmt.retouchOption second (Stmt.retouchOption first stmt) =
      Stmt.retouchOption (first.andThen second) stmt := by
  cases stmt with
  | none => rfl
  | some stmt => simp only [Stmt.retouchOption, Stmt.retouch_retouch first second stmt]

theorem Stmt.retouchAll_retouchAll (first second : Retouch) (statements : List Stmt) :
    Stmt.retouchAll second (Stmt.retouchAll first statements) =
      Stmt.retouchAll (first.andThen second) statements := by
  cases statements with
  | nil => rfl
  | cons stmt rest =>
      simp only [Stmt.retouchAll, Stmt.retouch_retouch first second stmt,
        Stmt.retouchAll_retouchAll first second rest]

end

mutual

theorem Expr.retouch_same (expr : Expr) : expr.retouch .same = expr := by
  cases expr with
  | literal value => rfl
  | reference name depth => rfl
  | grouping inner => simp only [Expr.retouch, Expr.retouch_same inner]
  | unary operator inner | assign operator inner depth =>
      simp only [Expr.retouch, Expr.retouch_same inner]
      rfl
  | binary left operator right | logical left operator right | index left operator right =>
      simp only [Expr.retouch, Expr.retouch_same left, Expr.retouch_same right]
      rfl
  | call callee paren arguments =>
      simp only [Expr.retouch, Expr.retouch_same callee, Expr.retouchAll_same arguments]
      rfl
  | list bracket elements =>
      simp only [Expr.retouch, Expr.retouchAll_same elements]
      rfl

theorem Expr.retouchAll_same (exprs : List Expr) : Expr.retouchAll .same exprs = exprs := by
  cases exprs with
  | nil => rfl
  | cons expr rest =>
      simp only [Expr.retouchAll, Expr.retouch_same expr, Expr.retouchAll_same rest]

end

theorem Expr.retouchOption_same (expr : Option Expr) : Expr.retouchOption .same expr = expr := by
  cases expr with
  | none => rfl
  | some expr => simp only [Expr.retouchOption, Expr.retouch_same]

mutual

theorem Stmt.retouch_same (stmt : Stmt) : stmt.retouch .same = stmt := by
  cases stmt with
  | expression expr | print expr => simp only [Stmt.retouch, Expr.retouch_same]
  | var name initializer | returnValue name initializer =>
      simp only [Stmt.retouch, Expr.retouchOption_same]
      rfl
  | block body => simp only [Stmt.retouch, Stmt.retouchAll_same body]
  | conditional condition thenBranch elseBranch =>
      simp only [Stmt.retouch, Expr.retouch_same, Stmt.retouch_same thenBranch,
        Stmt.retouchOption_same elseBranch]
  | loop condition body => simp only [Stmt.retouch, Expr.retouch_same, Stmt.retouch_same body]
  | function name parameters body =>
      simp only [Stmt.retouch, Stmt.retouchAll_same body]
      exact congrArg (Stmt.function name · body) (List.map_id parameters)

theorem Stmt.retouchOption_same (stmt : Option Stmt) : Stmt.retouchOption .same stmt = stmt := by
  cases stmt with
  | none => rfl
  | some stmt => simp only [Stmt.retouchOption, Stmt.retouch_same stmt]

theorem Stmt.retouchAll_same (statements : List Stmt) :
    Stmt.retouchAll .same statements = statements := by
  cases statements with
  | nil => rfl
  | cons stmt rest =>
      simp only [Stmt.retouchAll, Stmt.retouch_same stmt, Stmt.retouchAll_same rest]

end

theorem Stmt.renumberAll_renumberAll (first second : Nat → Nat) (statements : List Stmt) :
    Stmt.retouchAll (.lines second) (Stmt.retouchAll (.lines first) statements) =
      Stmt.retouchAll (.lines (second ∘ first)) statements :=
  Stmt.retouchAll_retouchAll _ _ statements

theorem Stmt.renumberAll_id (statements : List Stmt) :
    Stmt.retouchAll (.lines id) statements = statements :=
  Stmt.retouchAll_same statements

/-! ### Values -/

mutual

def Value.renumber (lines : Nat → Nat) : Value → Value
  | .nil => .nil
  | .bool value => .bool value
  | .number value => .number value
  | .string value => .string value
  | .list identity elements => .list identity (Value.renumberAll lines elements)
  | .native identity supplied => .native identity supplied
  | .function identity declaration closure =>
      .function identity (declaration.retouch (.lines lines)) closure

def Value.renumberAll (lines : Nat → Nat) : List Value → List Value
  | [] => []
  | value :: rest => value.renumber lines :: Value.renumberAll lines rest

end

def Callable.renumber (lines : Nat → Nat) : Callable → Callable
  | .native supplied => .native supplied
  | .function declaration closure => .function (declaration.retouch (.lines lines)) closure

section

variable (lines : Nat → Nat)

theorem Value.renumberAll_eq_map (values : List Value) :
    Value.renumberAll lines values = values.map (Value.renumber lines) := by
  induction values with
  | nil => rfl
  | cons value rest ih => rw [Value.renumberAll, ih, List.map_cons]

theorem Value.renumber_ofLiteral (literal : Literal) :
    (Value.ofLiteral literal).renumber lines = Value.ofLiteral literal := by
  cases literal <;> rfl

theorem Value.isTruthy_renumber (value : Value) :
    (value.renumber lines).isTruthy = value.isTruthy := by
  cases value <;> rfl

theorem Value.callable?_renumber (value : Value) :
    (value.renumber lines).callable? = value.callable?.map (Callable.renumber lines) := by
  cases value <;> rfl

theorem Callable.arity_renumber (callable : Callable) :
    (callable.renumber lines).arity = callable.arity := by
  cases callable with
  | native supplied => rfl
  | function declaration closure => exact List.length_map _

mutual

theorem Value.view_renumber (value : Value) : (value.renumber lines).view = value.view := by
  cases value with
  | list identity elements =>
      simp only [Value.renumber, Value.view, Value.viewAll_renumberAll elements]
  | function identity declaration closure =>
      exact congrArg (View.function identity declaration.name.lexeme) (List.length_map _)
  | _ => rfl

theorem Value.viewAll_renumberAll (values : List Value) :
    Value.viewAll (Value.renumberAll lines values) = Value.viewAll values := by
  cases values with
  | nil => rfl
  | cons first rest =>
      simp only [Value.renumberAll, Value.viewAll, Value.view_renumber first,
        Value.viewAll_renumberAll rest]

end

theorem Value.text_renumber (value : Value) : (value.renumber lines).text = value.text :=
  congrArg View.text (value.view_renumber lines)

theorem Value.getD_renumberAll (values : List Value) (position : Nat) :
    (Value.renumberAll lines values).getD position .nil =
      (values.getD position .nil).renumber lines := by
  induction values generalizing position with
  | nil => rfl
  | cons first rest ih =>
      cases position with
      | zero => rfl
      | succ position => exact ih position

theorem Value.elements_renumber (value : Value) :
    (value.renumber lines).elements = Value.renumberAll lines value.elements := by
  cases value <;> rfl

mutual

theorem Reply.build_renumber (reply : Reply) (arguments : List Value) (fresh : Identity) :
    reply.build (Value.renumberAll lines arguments) fresh =
      ((reply.build arguments fresh).1.renumber lines, (reply.build arguments fresh).2) := by
  cases reply with
  | literal value => cases value <;> rfl
  | argument position => simp only [Reply.build, Value.getD_renumberAll]
  | element object position =>
      simp only [Reply.build, Reply.build_renumber object, Value.elements_renumber,
        Value.getD_renumberAll]
  | list elements => simp only [Reply.build, Reply.buildAll_renumber elements, Value.renumber]

theorem Reply.buildAll_renumber (replies : List Reply) (arguments : List Value)
    (fresh : Identity) :
    Reply.buildAll (Value.renumberAll lines arguments) replies fresh =
      (Value.renumberAll lines (Reply.buildAll arguments replies fresh).1,
        (Reply.buildAll arguments replies fresh).2) := by
  cases replies with
  | nil => rfl
  | cons reply rest =>
      simp only [Reply.buildAll, Reply.build_renumber reply, Reply.buildAll_renumber rest,
        Value.renumberAll]

end

mutual

theorem Value.same_renumber (left right : Value) :
    (left.renumber lines).same (right.renumber lines) = left.same right := by
  cases left with
  | list identity elements =>
      cases right with
      | list identity' elements' =>
          simp only [Value.renumber, Value.same, Value.sameAll_renumberAll elements elements']
      | _ => rfl
  | _ => cases right <;> rfl

theorem Value.sameAll_renumberAll (left right : List Value) :
    Value.sameAll (Value.renumberAll lines left) (Value.renumberAll lines right) =
      Value.sameAll left right := by
  cases left with
  | nil => cases right <;> rfl
  | cons value rest =>
      cases right with
      | nil => rfl
      | cons value' rest' =>
          simp only [Value.renumberAll, Value.sameAll, Value.same_renumber value value',
            Value.sameAll_renumberAll rest rest']

end

end

theorem Declaration.renumber_renumber (first second : Nat → Nat) (declaration : Declaration) :
    (declaration.retouch (.lines first)).retouch (.lines second) =
      declaration.retouch (.lines (second ∘ first)) := by
  simp only [Declaration.retouch, Stmt.renumberAll_renumberAll, List.map_map]
  rfl

theorem Declaration.renumber_id (declaration : Declaration) :
    declaration.retouch (.lines id) = declaration := by
  simp only [Declaration.retouch, Stmt.renumberAll_id]
  exact congrArg (Declaration.mk declaration.name · declaration.body)
    (List.map_id declaration.parameters)

mutual

theorem Value.renumber_renumber (first second : Nat → Nat) (value : Value) :
    (value.renumber first).renumber second = value.renumber (second ∘ first) := by
  cases value with
  | list identity elements =>
      simp only [Value.renumber, Value.renumberAll_renumberAll first second elements]
  | function identity declaration closure =>
      simp only [Value.renumber, Declaration.renumber_renumber]
  | _ => rfl

theorem Value.renumberAll_renumberAll (first second : Nat → Nat) (values : List Value) :
    Value.renumberAll second (Value.renumberAll first values) =
      Value.renumberAll (second ∘ first) values := by
  cases values with
  | nil => rfl
  | cons value rest =>
      simp only [Value.renumberAll, Value.renumber_renumber first second value,
        Value.renumberAll_renumberAll first second rest]

end

mutual

theorem Value.renumber_id (value : Value) : value.renumber id = value := by
  cases value with
  | list identity elements => simp only [Value.renumber, Value.renumberAll_id elements]
  | function identity declaration closure =>
      simp only [Value.renumber, Declaration.renumber_id]
  | _ => rfl

theorem Value.renumberAll_id (values : List Value) : Value.renumberAll id values = values := by
  cases values with
  | nil => rfl
  | cons value rest =>
      simp only [Value.renumberAll, Value.renumber_id value, Value.renumberAll_id rest]

end

/-! ### Stores and machines -/

def Bindings.renumber (lines : Nat → Nat) (bindings : Bindings) : Bindings :=
  bindings.map fun entry => (entry.1, entry.2.renumber lines)

def Frame.renumber (lines : Nat → Nat) (frame : Frame) : Frame :=
  { frame with bindings := Bindings.renumber lines frame.bindings }

def Store.renumber (lines : Nat → Nat) (store : Store) : Store :=
  { store with frames := store.frames.map (Frame.renumber lines) }

/-- Renumbers what is stored and forgets the journal. -/
def Machine.renumber (lines : Nat → Nat) (machine : Machine) : Machine :=
  { machine with store := machine.store.renumber lines, journal := .silent }

theorem Machine.renumber_renumber (first second : Nat → Nat) (machine : Machine) :
    (machine.renumber first).renumber second = machine.renumber (second ∘ first) := by
  have bindings : ∀ bindings : Bindings, Bindings.renumber second
      (Bindings.renumber first bindings) = Bindings.renumber (second ∘ first) bindings := by
    intro bindings
    simp only [Bindings.renumber, List.map_map, Function.comp_def, Value.renumber_renumber]
  have frames : Frame.renumber second ∘ Frame.renumber first =
      Frame.renumber (second ∘ first) := by
    funext frame
    simp only [Function.comp_apply, Frame.renumber, bindings]
  simp only [Machine.renumber, Store.renumber, Array.map_map, frames]

theorem Machine.renumber_id (machine : Machine) :
    machine.renumber id = { machine with journal := .silent } := by
  have bindings : ∀ bindings : Bindings, Bindings.renumber id bindings = bindings := by
    intro bindings
    simp only [Bindings.renumber, Value.renumber_id]
    exact List.map_id bindings
  have frames : Frame.renumber id = id := by
    funext frame
    simp only [Frame.renumber, bindings]
    rfl
  simp only [Machine.renumber, Store.renumber, frames, Array.map_id]

section

variable (lines : Nat → Nat)

theorem Bindings.get?_renumber (bindings : Bindings) (name : String) :
    (Bindings.renumber lines bindings).get? name =
      (bindings.get? name).map (Value.renumber lines) := by
  unfold Bindings.get? Bindings.renumber
  induction bindings with
  | nil => rfl
  | cons entry rest ih =>
      rw [List.map_cons, List.lookup_cons, List.lookup_cons]
      cases name == entry.1 with
      | true => rfl
      | false => exact ih

theorem Bindings.renumber_insert (name : String) (value : Value) (bindings : Bindings) :
    Bindings.renumber lines (Bindings.insert name value bindings) =
      Bindings.insert name (value.renumber lines) (Bindings.renumber lines bindings) := by
  induction bindings with
  | nil => rfl
  | cons entry rest ih =>
      obtain ⟨other, old⟩ := entry
      change Bindings.renumber lines (if other = name then _ else _) =
        if other = name then _ else _
      split
      · rfl
      · exact congrArg ((other, old.renumber lines) :: ·) ih

namespace Store

theorem frames_renumber (store : Store) (frame : FrameId) :
    (store.renumber lines).frames[frame]? = store.frames[frame]?.map (Frame.renumber lines) :=
  Array.getElem?_map

theorem parent?_renumber (store : Store) (frame : FrameId) :
    (store.renumber lines).parent? frame = store.parent? frame := by
  unfold parent?
  rw [frames_renumber]
  cases store.frames[frame]? <;> rfl

theorem local?_renumber (store : Store) (frame : FrameId) (name : String) :
    (store.renumber lines).local? frame name =
      (store.local? frame name).map (Value.renumber lines) := by
  unfold local?
  rw [frames_renumber]
  cases store.frames[frame]? with
  | none => rfl
  | some found => exact Bindings.get?_renumber lines found.bindings name

theorem names_renumber (store : Store) (frame : FrameId) :
    (store.renumber lines).names frame = store.names frame := by
  unfold names
  rw [frames_renumber]
  cases store.frames[frame]? with
  | none => rfl
  | some found => exact List.map_map

theorem renumber_define (store : Store) (frame : FrameId) (name : String) (value : Value) :
    (store.define frame name value).renumber lines =
      (store.renumber lines).define frame name (value.renumber lines) := by
  unfold define renumber
  congr 1
  apply Array.ext_getElem?
  intro position
  simp only [Array.getElem?_map, Array.getElem?_modify]
  split
  · cases store.frames[position]? with
    | none => rfl
    | some found =>
        simp only [Option.map_some, Frame.renumber, Bindings.renumber_insert]
  · rfl

theorem ancestor?_renumber (store : Store) (frame : FrameId) (hops : Nat) :
    (store.renumber lines).ancestor? frame hops = store.ancestor? frame hops := by
  induction hops generalizing frame with
  | zero => rfl
  | succ hops ih =>
      simp only [ancestor?, parent?_renumber]
      cases store.parent? frame with
      | none => rfl
      | some parent => exact ih parent

theorem ownerWithin?_renumber (store : Store) (name : String) (limit : Nat) (frame : FrameId) :
    (store.renumber lines).ownerWithin? name limit frame = store.ownerWithin? name limit frame := by
  induction limit generalizing frame with
  | zero => rfl
  | succ limit ih =>
      simp only [ownerWithin?, local?_renumber, parent?_renumber]
      cases store.local? frame name with
      | some value => rfl
      | none =>
          simp only [Option.map_none]
          cases store.parent? frame with
          | none => rfl
          | some parent => exact ih parent

end Store

end

end LexicalScript
