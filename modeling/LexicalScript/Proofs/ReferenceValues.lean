import LexicalScript.Proofs.Reference
import LexicalScript.Proofs.ScopedRuns

/-!
Values of the machine and values of the reference.

Operators, comparison and printing see only the face of a value, which leaves out what functions do
and where they were declared.  A value and its counterpart in the reference have one face; their
functions have the same code, and what they close over is compared by a relation that the caller
chooses.
-/

set_option autoImplicit false

namespace LexicalScript

open Reference (Datum Environment)

/-! ### Faces -/

mutual

/-- The value without the bodies and the frames of its functions. -/
def Value.face : Value → Value
  | .list identity elements => .list identity (Value.faceAll elements)
  | .function identity declaration _ =>
      .function identity ⟨declaration.name, declaration.parameters, []⟩ 0
  | value => value

def Value.faceAll : List Value → List Value
  | [] => []
  | value :: rest => value.face :: Value.faceAll rest

end

mutual

theorem Value.same_face (left right : Value) : left.face.same right.face = left.same right := by
  cases left with
  | list identity elements =>
      cases right with
      | list identity' elements' =>
          change (identity == identity' || Value.sameAll (Value.faceAll elements)
            (Value.faceAll elements')) = (identity == identity' || Value.sameAll elements elements')
          rw [Value.sameAll_faceAll elements elements']
      | _ => rfl
  | _ => cases right <;> rfl

theorem Value.sameAll_faceAll (left right : List Value) :
    Value.sameAll (Value.faceAll left) (Value.faceAll right) = Value.sameAll left right := by
  cases left with
  | nil => cases right <;> rfl
  | cons first rest =>
      cases right with
      | nil => rfl
      | cons first' rest' =>
          change (first.face.same first'.face &&
            Value.sameAll (Value.faceAll rest) (Value.faceAll rest')) = _
          rw [Value.same_face first first', Value.sameAll_faceAll rest rest']
          rfl

end

mutual

theorem Value.view_face (value : Value) : value.face.view = value.view := by
  cases value with
  | list identity elements => exact congrArg (View.list identity) (Value.viewAll_faceAll elements)
  | _ => rfl

theorem Value.viewAll_faceAll (values : List Value) :
    Value.viewAll (Value.faceAll values) = Value.viewAll values := by
  cases values with
  | nil => rfl
  | cons first rest =>
      rw [Value.faceAll, Value.viewAll, Value.viewAll, Value.view_face first,
        Value.viewAll_faceAll rest]

end

theorem Value.text_face (value : Value) : value.face.text = value.text :=
  congrArg View.text value.view_face

theorem Value.isTruthy_face (value : Value) : value.face.isTruthy = value.isTruthy := by
  cases value <;> rfl

theorem settles_face (operator : Token) (left : Value) :
    settles operator left.face = settles operator left := by
  unfold settles
  rw [Value.isTruthy_face]

theorem applyUnary_face (operator : Token) (operand : Value) :
    applyUnary operator operand.face = applyUnary operator operand := by
  unfold applyUnary
  rw [Value.isTruthy_face]
  cases operand <;> rfl

theorem applyPlus_face (operator : Token) (left right : Value) :
    applyPlus operator left.face right.face = applyPlus operator left right := by
  have joined : ∀ text : String,
      (.ok (.string (left.face.text ++ text)) : Except RuntimeError Value) =
        .ok (.string (left.text ++ text)) := by
    intro text
    rw [Value.text_face]
  cases left with
  | string value =>
      change (.ok (.string (value ++ right.face.text)) : Except RuntimeError Value) =
        .ok (.string (value ++ right.text))
      rw [Value.text_face]
  | number value => cases right <;> rfl
  | _ =>
      cases right with
      | string text => exact joined text
      | _ => rfl

theorem applyBinary_face (operator : Token) (left right : Value) :
    applyBinary operator left.face right.face = applyBinary operator left right := by
  unfold applyBinary
  rw [applyPlus_face, Value.same_face]
  split
  · rfl
  · rfl
  · rfl
  · cases left <;> cases right <;> rfl

/-! ### Values and their counterparts -/

/-- How a function's frame may be compared with an environment. -/
abbrev Closing := Declaration → FrameId → Environment → Prop

mutual

/-- The value and the reference value agree, and what their functions close over compares. -/
inductive Value.Agrees (closing : Closing) : Value → Datum → Prop
  | nil : Value.Agrees closing .nil .nil
  | bool {value : Bool} : Value.Agrees closing (.bool value) (.bool value)
  | number {value : Float} : Value.Agrees closing (.number value) (.number value)
  | string {value : String} : Value.Agrees closing (.string value) (.string value)
  | list {identity : Identity} {elements : List Value} {elements' : List Datum} :
      Value.AgreesAll closing elements elements' →
      Value.Agrees closing (.list identity elements) (.list identity elements')
  | native {identity : Identity} {supplied : Native} :
      Value.Agrees closing (.native identity supplied) (.native identity supplied)
  | function {identity : Identity} {declaration : Declaration} {closure : FrameId}
      {environment : Environment} : closing declaration closure environment →
      Value.Agrees closing (.function identity declaration closure)
        (.function identity (declaration.retouch .erasing) environment)

inductive Value.AgreesAll (closing : Closing) : List Value → List Datum → Prop
  | nil : Value.AgreesAll closing [] []
  | cons {value : Value} {datum : Datum} {rest : List Value} {others : List Datum} :
      Value.Agrees closing value datum → Value.AgreesAll closing rest others →
      Value.AgreesAll closing (value :: rest) (datum :: others)

end

theorem Declaration.erase_eq (declaration : Declaration) :
    declaration.retouch .erasing =
      ⟨declaration.name, declaration.parameters, Stmt.retouchAll .erasing declaration.body⟩ := by
  unfold Declaration.retouch
  rw [show Retouch.erasing.token = id from rfl, List.map_id]
  rfl

section

variable {closing closing' : Closing}

mutual

theorem Value.Agrees.face_eq {value : Value} {datum : Datum} :
    value.Agrees closing datum → value.face = datum.face
  | .nil | .bool | .number | .string | .native => rfl
  | .function _ => by
      rw [Declaration.erase_eq]
      rfl
  | .list agrees => congrArg (Value.list _) agrees.face_eq

theorem Value.AgreesAll.face_eq {values : List Value} {data : List Datum} :
    Value.AgreesAll closing values data → Value.faceAll values = Datum.faceAll data
  | .nil => rfl
  | .cons first following => by
      rw [Value.faceAll, Datum.faceAll, first.face_eq, following.face_eq]

end

mutual

theorem Value.Agrees.mono {value : Value} {datum : Datum}
    (weaker : ∀ declaration closure environment, closing declaration closure environment →
      closing' declaration closure environment) :
    value.Agrees closing datum → value.Agrees closing' datum
  | .nil => .nil
  | .bool => .bool
  | .number => .number
  | .string => .string
  | .native => .native
  | .function closed => .function (weaker _ _ _ closed)
  | .list agrees => .list (agrees.mono weaker)

theorem Value.AgreesAll.mono {values : List Value} {data : List Datum}
    (weaker : ∀ declaration closure environment, closing declaration closure environment →
      closing' declaration closure environment) :
    Value.AgreesAll closing values data → Value.AgreesAll closing' values data
  | .nil => .nil
  | .cons first following => .cons (first.mono weaker) (following.mono weaker)

end

theorem Value.AgreesAll.length_eq {values : List Value} {data : List Datum}
    (agrees : Value.AgreesAll closing values data) : values.length = data.length := by
  induction values generalizing data with
  | nil =>
      cases agrees
      rfl
  | cons value rest ih =>
      cases agrees with
      | cons _ following => exact congrArg Nat.succ (ih following)

/-- Two cells are both empty, or hold values that agree. -/
inductive CellsAgree (closing : Closing) : Option Value → Option Datum → Prop
  | empty : CellsAgree closing none none
  | full {value : Value} {datum : Datum} : value.Agrees closing datum →
      CellsAgree closing (some value) (some datum)

theorem CellsAgree.mono {cell : Option Value} {cell' : Option Datum}
    (weaker : ∀ declaration closure environment, closing declaration closure environment →
      closing' declaration closure environment) (agree : CellsAgree closing cell cell') :
    CellsAgree closing' cell cell' := by
  cases agree with
  | empty => exact .empty
  | full agrees => exact .full (agrees.mono weaker)

theorem Value.AgreesAll.getElem? {values : List Value} {data : List Datum}
    (agrees : Value.AgreesAll closing values data) (position : Nat) :
    CellsAgree closing values[position]? data[position]? := by
  induction values generalizing data position with
  | nil =>
      cases agrees
      exact .empty
  | cons value rest ih =>
      cases agrees with
      | cons first following =>
          cases position with
          | zero => exact .full first
          | succ position => exact ih following position

theorem CellsAgree.getD_nil {cell : Option Value} {cell' : Option Datum}
    (agree : CellsAgree closing cell cell') :
    (cell.getD .nil).Agrees closing (cell'.getD .nil) := by
  cases agree with
  | empty => exact .nil
  | full agrees => exact agrees

theorem Value.AgreesAll.getD {values : List Value} {data : List Datum}
    (agrees : Value.AgreesAll closing values data) (position : Nat) :
    (values.getD position .nil).Agrees closing (data.getD position .nil) := by
  rw [List.getD_eq_getElem?_getD, List.getD_eq_getElem?_getD]
  exact (agrees.getElem? position).getD_nil

theorem Value.Agrees.elements {value : Value} {datum : Datum}
    (agrees : value.Agrees closing datum) :
    Value.AgreesAll closing value.elements datum.elements := by
  cases agrees with
  | list all => exact all
  | _ => exact .nil

theorem Value.agrees_ofLiteral (literal : Literal) :
    (Value.ofLiteral literal).Agrees closing (Datum.ofLiteral literal) := by
  cases literal <;> constructor

section

variable {arguments : List Value} {arguments' : List Datum}

mutual

/-- From arguments that agree the host puts together values that agree, with the same new
identities. -/
theorem Reply.build_agrees (reply : Reply) (all : Value.AgreesAll closing arguments arguments')
    (fresh : Identity) :
    (reply.build arguments fresh).1.Agrees closing (Reference.build arguments' reply fresh).1 ∧
      (Reference.build arguments' reply fresh).2 = (reply.build arguments fresh).2 := by
  cases reply with
  | literal value => exact ⟨Value.agrees_ofLiteral value, rfl⟩
  | argument position => exact ⟨all.getD position, rfl⟩
  | element object position =>
      obtain ⟨agrees, next⟩ := object.build_agrees all fresh
      exact ⟨agrees.elements.getD position, next⟩
  | list elements =>
      obtain ⟨agree, next⟩ := Reply.buildAll_agrees elements all fresh
      simp only [Reply.build, Reference.build, next]
      exact ⟨.list agree, trivial⟩

theorem Reply.buildAll_agrees (replies : List Reply)
    (all : Value.AgreesAll closing arguments arguments') (fresh : Identity) :
    Value.AgreesAll closing (Reply.buildAll arguments replies fresh).1
        (Reference.buildAll arguments' replies fresh).1 ∧
      (Reference.buildAll arguments' replies fresh).2 =
        (Reply.buildAll arguments replies fresh).2 := by
  cases replies with
  | nil => exact ⟨.nil, rfl⟩
  | cons reply rest =>
      obtain ⟨agrees, next⟩ := reply.build_agrees all fresh
      obtain ⟨agree, last⟩ := Reply.buildAll_agrees rest all (reply.build arguments fresh).2
      simp only [Reply.buildAll, Reference.buildAll, next]
      exact ⟨.cons agrees agree, last⟩

end

end


theorem Value.Plain.agrees {value : Value} (plain : value.Plain) :
    value.Agrees closing (Datum.ofResult value) := by
  cases value with
  | bool value => exact .bool
  | number value => exact .number
  | string value => exact .string
  | _ => cases plain

/-- Two computations fail alike, or give values that agree. -/
inductive ResultsAgree (closing : Closing) :
    Except RuntimeError Value → Except RuntimeError Datum → Prop
  | ok {value : Value} {datum : Datum} : value.Agrees closing datum →
      ResultsAgree closing (.ok value) (.ok datum)
  | error {error : RuntimeError} : ResultsAgree closing (.error error) (.error error)

theorem ResultsAgree.ofPlain {result : Except RuntimeError Value}
    (plain : ∀ value, result = .ok value → value.Plain) :
    ResultsAgree closing result (result.map Datum.ofResult) := by
  cases result with
  | ok value => exact .ok (plain value rfl).agrees
  | error error => exact .error

theorem applyIndex_agrees {bracket : Token} {object index : Value} {object' index' : Datum}
    (objects : object.Agrees closing object') (indices : index.Agrees closing index') :
    ResultsAgree closing (applyIndex bracket object index)
      (Reference.index bracket object' index') := by
  cases objects with
  | @list identity elements elements' all =>
      cases indices with
      | @number number =>
          unfold applyIndex Reference.index
          dsimp only
          cases position? number with
          | none => exact .error
          | some position =>
              have found := all.getElem? position
              simp only [Option.bind_some]
              generalize elements[position]? = held, elements'[position]? = held' at found ⊢
              cases found with
              | empty => exact .error
              | full agrees => exact .ok agrees
      | _ => exact .error
  | _ => exact .error

end

end LexicalScript
