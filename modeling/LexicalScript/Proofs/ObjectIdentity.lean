import LexicalScript.Proofs.Access

/-!
Every identity is that of one object.

Lists and functions are numbered as they are made.  A census is a stock of values, with the elements
of its lists, in which no two objects share a number and all numbers are below a limit.  A step of a
run is given a census of what is there, and leads to a wider one that has the values seen on the way
as well.  So one census covers all values of a run, however far apart they come up in it, and also
when the run never ends.
-/

set_option autoImplicit false

namespace LexicalScript

/-- The identity of an object.  Other values have none. -/
def Value.identity? : Value → Option Identity
  | .list identity _ => some identity
  | .native identity _ => some identity
  | .function identity _ _ => some identity
  | _ => none

theorem Value.Plain.identity?_eq_none {value : Value} (plain : value.Plain) :
    value.identity? = none := by
  cases value with
  | bool | number | string => rfl
  | _ => cases plain

/-- A stock of values in which every object has a number of its own, below the limit. -/
structure Census (known : Value → Prop) (limit : Identity) : Prop where
  plain : ∀ value, value.identity? = none → known value
  element : ∀ identity elements value, known (.list identity elements) → value ∈ elements →
    known value
  single : ∀ value other identity, known value → known other →
    value.identity? = some identity → other.identity? = some identity → value = other
  numbered : ∀ value identity, known value → value.identity? = some identity → identity < limit

/-- The object with the next number joins the stock. -/
theorem Census.add {known : Value → Prop} {limit : Identity} (census : Census known limit)
    {object : Value} (new : object.identity? = some limit)
    (inside : ∀ identity elements, object = .list identity elements →
      ∀ value, value ∈ elements → known value) :
    Census (fun value => known value ∨ value = object) (limit + 1) where
  plain value none := Or.inl (census.plain value none)
  element identity elements value listed member := by
    rcases listed with old | same
    · exact Or.inl (census.element identity elements value old member)
    · exact Or.inl (inside identity elements same.symm value member)
  single value other identity listed listed' own own' := by
    rcases listed with old | rfl
    · rcases listed' with old' | rfl
      · exact census.single value other identity old old' own own'
      · cases own'.symm.trans new
        exact absurd (census.numbered value limit old own) (Nat.lt_irrefl limit)
    · rcases listed' with old' | rfl
      · cases own.symm.trans new
        exact absurd (census.numbered other limit old' own') (Nat.lt_irrefl limit)
      · rfl
  numbered value identity listed own := by
    rcases listed with old | rfl
    · exact Nat.lt_succ_of_lt (census.numbered value identity old own)
    · cases own.symm.trans new
      exact Nat.lt_succ_self limit

theorem Census.getD {known : Value → Prop} {limit : Identity} (census : Census known limit)
    {values : List Value} (listed : ∀ value, value ∈ values → known value) (position : Nat) :
    known (values.getD position .nil) := by
  rw [List.getD_eq_getElem?_getD]
  cases found : values[position]? with
  | none => exact census.plain _ rfl
  | some value => exact listed value (List.mem_of_getElem? found)

theorem Census.elements {known : Value → Prop} {limit : Identity} (census : Census known limit)
    {value : Value} (listed : known value) :
    ∀ element, element ∈ value.elements → known element := by
  intro element member
  cases value with
  | list identity elements => exact census.element identity elements element listed member
  | _ => cases member

mutual

/-- The host takes a number of its own for each list that it makes. -/
theorem Census.build {known : Value → Prop} {limit : Identity} (census : Census known limit)
    (reply : Reply) {arguments : List Value}
    (listed : ∀ value, value ∈ arguments → known value) :
    ∃ wider : Value → Prop, (∀ value, known value → wider value) ∧
      Census wider (reply.build arguments limit).2 ∧ wider (reply.build arguments limit).1 := by
  cases reply with
  | literal value =>
      refine ⟨known, fun _ old => old, census, census.plain _ ?_⟩
      cases value <;> rfl
  | argument position => exact ⟨known, fun _ old => old, census, census.getD listed position⟩
  | element object position =>
      obtain ⟨wider, old, census', given⟩ := census.build object listed
      exact ⟨wider, old, census', census'.getD (census'.elements given) position⟩
  | list elements =>
      obtain ⟨wider, old, census', given⟩ := census.buildAll elements listed
      refine ⟨_, fun value known => Or.inl (old value known), census'.add rfl ?_, Or.inr rfl⟩
      rintro _ _ ⟨⟩
      exact given

theorem Census.buildAll {known : Value → Prop} {limit : Identity} (census : Census known limit)
    (replies : List Reply) {arguments : List Value}
    (listed : ∀ value, value ∈ arguments → known value) :
    ∃ wider : Value → Prop, (∀ value, known value → wider value) ∧
      Census wider (Reply.buildAll arguments replies limit).2 ∧
      ∀ value, value ∈ (Reply.buildAll arguments replies limit).1 → wider value := by
  cases replies with
  | nil => exact ⟨known, fun _ old => old, census, fun _ member => nomatch member⟩
  | cons reply rest =>
      obtain ⟨wider, old, census', given⟩ := census.build reply listed
      obtain ⟨widest, old', census'', given'⟩ :=
        census'.buildAll rest fun value member => old value (listed value member)
      refine ⟨widest, fun value known => old' value (old value known), census'', ?_⟩
      intro value member
      rcases List.mem_cons.mp member with rfl | later
      · exact old' _ given
      · exact given' value later

end

/-- The census has all values that the machine binds, and the next number is free. -/
structure Machine.Counted (machine : Machine) (known : Value → Prop) : Prop where
  census : Census known machine.store.fresh
  bound : ∀ frame name value, machine.store.local? frame name = some value → known value

namespace Machine.Counted

variable {machine later : Machine} {known : Value → Prop}

theorem of_store (counted : machine.Counted known) (same : later.store = machine.store) :
    later.Counted known := by
  constructor
  · rw [same]
    exact counted.census
  · rw [same]
    exact counted.bound

theorem define (counted : machine.Counted known) (owner : FrameId) (name : String) {value : Value}
    (listed : known value) :
    { machine with store := machine.store.define owner name value }.Counted known where
  census := counted.census
  bound frame other stored found := by
    rcases Store.local?_define_cases found with new | old
    · rw [new]
      exact listed
    · exact counted.bound frame other stored old

theorem create (counted : machine.Counted known) (parent : Option FrameId) :
    { machine with store := (machine.store.create parent).2 }.Counted known where
  census := counted.census
  bound frame name value found := by
    dsimp only at found
    rw [Store.local?_create] at found
    exact counted.bound frame name value found

theorem bindArguments (counted : machine.Counted known) (frame : FrameId)
    (parameters : List Token) {arguments : List Value}
    (listed : ∀ value, value ∈ arguments → known value) :
    { machine with
      store := machine.store.bindArguments frame parameters arguments }.Counted known := by
  induction parameters generalizing machine arguments with
  | nil => exact counted.of_store rfl
  | cons parameter rest ih =>
      cases arguments with
      | nil => exact counted.of_store rfl
      | cons argument others =>
          have first := counted.define frame parameter.lexeme (listed argument List.mem_cons_self)
          exact ih first fun value member => listed value (List.mem_cons_of_mem argument member)

theorem enterBlock (counted : machine.Counted known) : machine.enterBlock.Counted known :=
  (counted.create (some machine.active)).of_store rfl

theorem enterCall (counted : machine.Counted known) (declaration : Declaration) (closure : FrameId)
    {arguments : List Value} (listed : ∀ value, value ∈ arguments → known value) :
    (machine.enterCall declaration closure arguments).Counted known := by
  have framed := counted.create (some closure)
  exact (framed.bindArguments machine.store.frames.size declaration.parameters listed).of_store rfl

theorem identify (counted : machine.Counted known) (object : Value)
    (new : object.identity? = some machine.store.fresh)
    (inside : ∀ identity elements, object = .list identity elements →
      ∀ value, value ∈ elements → known value) :
    { machine with store := machine.store.identify.2 }.Counted
      fun value => known value ∨ value = object where
  census := counted.census.add new inside
  bound frame name value found := Or.inl (counted.bound frame name value found)

end Machine.Counted

/-! ### Steps -/

/-- The wider census has the old one and all values that are seen while the step is done.  Where the
step ends, it counts the machine and has the values that the result gives. -/
structure Exec.Widens {α : Type} (action : Exec α) (machine : Machine)
    (known seen : Value → Prop) (gives : α → Value → Prop) (wider : Value → Prop) : Prop where
  old : ∀ value, known value → wider value
  passed : ∀ value, seen value → wider value
  census : ∃ limit, Census wider limit
  ends : (action machine).Meets
    (fun result later => later.Counted wider ∧ ∀ value, gives result value → wider value)
    (fun _ later => later.Counted wider)

/-- The step leads from the census to a wider one. -/
def Exec.Counts {α : Type} (action : Exec α) (machine : Machine) (known seen : Value → Prop)
    (gives : α → Value → Prop) : Prop :=
  ∃ wider, action.Widens machine known seen gives wider

namespace Exec.Counts

variable {α β : Type} {machine : Machine} {known seen seen' : Value → Prop}
  {gives : α → Value → Prop} {gives' : β → Value → Prop}

theorem still {action : Exec α} (counted : machine.Counted known)
    (still : (action machine).Meets
      (fun result later => later.store = machine.store ∧ ∀ value, gives result value → known value)
      (fun _ later => later.store = machine.store)) :
    action.Counts machine known (fun _ => False) gives := by
  refine ⟨known, fun _ listed => listed, fun _ none => none.elim, ⟨_, counted.census⟩, ?_⟩
  refine still.mono ?_ fun _ later same => counted.of_store same
  rintro result later ⟨same, listed⟩
  exact ⟨counted.of_store same, listed⟩

theorem pure {result : α} (counted : machine.Counted known)
    (listed : ∀ value, gives result value → known value) :
    (Pure.pure result : Exec α).Counts machine known (fun _ => False) gives :=
  still counted ⟨rfl, listed⟩

theorem raise (counted : machine.Counted known) (error : RuntimeError) :
    (Exec.raise error : Exec α).Counts machine known (fun _ => False) gives :=
  still counted rfl

theorem note (counted : machine.Counted known) (event : Event) :
    (Exec.note event).Counts machine known (fun _ => False) Nothing :=
  still counted ⟨rfl, fun _ none => none.elim⟩

theorem ofExcept {outcome : Except RuntimeError α} (counted : machine.Counted known)
    (listed : ∀ result, outcome = .ok result → ∀ value, gives result value → known value) :
    (Exec.ofExcept outcome).Counts machine known (fun _ => False) gives := by
  cases outcome with
  | ok result => exact pure counted (listed result rfl)
  | error error => exact raise counted error

theorem write (counted : machine.Counted known) (text : String) :
    (Exec.write text).Counts machine known (fun _ => False) Nothing := by
  apply still counted
  unfold Exec.write
  cases machine.sink.write text with
  | mk error sink =>
      cases error with
      | none => exact ⟨rfl, fun _ none => none.elim⟩
      | some error => exact rfl

/-- Of the step only its outcome matters, and fewer values may be seen. -/
theorem restrict {action action' : Exec α} (counts : action.Counts machine known seen gives)
    (same : action' machine = action machine)
    (fewer : ∀ value, seen' value → known value ∨ seen value) :
    action'.Counts machine known seen' gives := by
  obtain ⟨wider, old, passed, census, ends⟩ := counts
  refine ⟨wider, old, fun value passes => ?_, census, same ▸ ends⟩
  exact (fewer value passes).elim (old value) (passed value)

theorem bind {first : Exec α} {next : α → Exec β} {rest : α → Machine → Value → Prop}
    (head : first.Counts machine known seen gives)
    (tail : ∀ result middle, first machine = .value result middle → ∀ wider : Value → Prop,
      (∀ value, known value → wider value) → middle.Counted wider →
      (∀ value, gives result value → wider value) →
      (next result).Counts middle wider (rest result middle) gives') :
    (first >>= next).Counts machine known (fun value => seen value ∨
      ∃ result middle, first machine = .value result middle ∧ rest result middle value)
      gives' := by
  obtain ⟨wider, old, passed, census, ends⟩ := head
  unfold Exec.Counts
  cases ended : first machine with
  | value result middle =>
      obtain ⟨counted, listed⟩ := ends.of_value ended
      obtain ⟨widest, old', passed', census', ends'⟩ := tail result middle ended wider old counted
        listed
      refine ⟨widest, fun value listed => old' value (old value listed), ?_, census', ?_⟩
      · rintro value (early | ⟨_, _, same, late⟩)
        · exact old' value (passed value early)
        · cases same
          exact passed' value late
      · rw [Attempt.bind_apply, ended]
        exact ends'
  | failure fault middle =>
      refine ⟨wider, old, ?_, census, ?_⟩
      · rintro value (early | ⟨_, _, same, _⟩)
        · exact passed value early
        · cases same
      · rw [Attempt.bind_apply, ended]
        exact ends.of_failure ended
  | exhausted =>
      refine ⟨wider, old, ?_, census, ?_⟩
      · rintro value (early | ⟨_, _, same, _⟩)
        · exact passed value early
        · cases same
      · rw [Attempt.bind_apply, ended]
        trivial

/-- A step followed by one on whose way nothing is seen. -/
theorem andThen {first : Exec α} {next : α → Exec β}
    (head : first.Counts machine known seen gives)
    (tail : ∀ result middle, first machine = .value result middle → ∀ wider : Value → Prop,
      (∀ value, known value → wider value) → middle.Counted wider →
      (∀ value, gives result value → wider value) →
      (next result).Counts middle wider (fun _ => False) gives') :
    (first >>= next).Counts machine known seen gives' :=
  (head.bind tail).restrict rfl fun _ passes => Or.inr (Or.inl passes)

theorem within {creation : Exec FrameId} {body : Exec α} {store : Store} {frame : FrameId}
    (created : creation machine = .value frame { machine with store := store })
    (inside : body.Counts { machine with store := store, active := frame } known seen gives) :
    (creation >>= fun frame => Exec.within frame body).Counts machine known seen gives := by
  obtain ⟨wider, old, passed, census, ends⟩ := inside
  refine ⟨wider, old, passed, census, ?_⟩
  rw [Attempt.bind_apply, created]
  dsimp only [Exec.within]
  cases ended : body { machine with store := store, active := frame } with
  | value result later =>
      obtain ⟨counted, listed⟩ := ends.of_value ended
      exact ⟨counted.of_store rfl, listed⟩
  | failure fault later => exact (ends.of_failure ended).of_store rfl
  | exhausted => trivial

theorem readVariable (counted : machine.Counted known) (name : Token) (depth : Option Nat) :
    (Exec.readVariable name depth).Counts machine known (fun _ => False) Eq := by
  have listed {result : Except RuntimeError Value}
      (same : Exec.readVariable name depth machine = Exec.ofExcept result machine)
      (stored : ∀ value, result = .ok value →
        ∃ frame, Exec.target? machine name depth = some frame ∧
          machine.store.local? frame name.lexeme = some value) :
      (Exec.readVariable name depth).Counts machine known (fun _ => False) Eq := by
    refine (ofExcept counted ?_).restrict same fun _ none => Or.inr none
    rintro value read _ rfl
    obtain ⟨frame, _, bound⟩ := stored value read
    exact counted.bound frame name.lexeme value bound
  cases depth with
  | some hops => exact listed rfl fun _ read => Exec.stored_of_lookup read
  | none => exact listed rfl fun _ read => Exec.stored_of_lookup read

theorem assignVariable (counted : machine.Counted known) (name : Token) (depth : Option Nat)
    {value : Value} (listed : known value) :
    (Exec.assignVariable name depth value).Counts machine known (fun _ => False) Nothing := by
  refine ⟨known, fun _ listed => listed, fun _ none => none.elim, ⟨_, counted.census⟩, ?_⟩
  unfold Exec.assignVariable
  cases Exec.target? machine name depth with
  | none => exact counted.of_store rfl
  | some owner => exact ⟨counted.define owner name.lexeme listed, fun _ none => none.elim⟩

theorem defineVariable (counted : machine.Counted known) (name : String) {value : Value}
    (listed : known value) :
    (Exec.defineVariable name value).Counts machine known (fun _ => False) Nothing :=
  ⟨known, fun _ listed => listed, fun _ none => none.elim, ⟨_, counted.census⟩,
    counted.define machine.active name listed, fun _ none => none.elim⟩

theorem made {action : Exec Value} {object : Value} (counted : machine.Counted known)
    (making : action machine = .value object { machine with store := machine.store.identify.2 })
    (new : object.identity? = some machine.store.fresh)
    (inside : ∀ identity elements, object = .list identity elements →
      ∀ value, value ∈ elements → known value) :
    action.Counts machine known (fun _ => False) Eq := by
  have grown := counted.identify object new inside
  refine ⟨_, fun _ listed => Or.inl listed, fun _ none => none.elim, ⟨_, grown.census⟩, ?_⟩
  rw [making]
  exact ⟨grown, fun _ same => Or.inr same.symm⟩

theorem makeList (counted : machine.Counted known) {elements : List Value}
    (listed : ∀ value, value ∈ elements → known value) :
    (Exec.makeList elements).Counts machine known (fun _ => False) Eq := by
  refine made counted rfl rfl fun identity others same => ?_
  cases same
  exact listed

theorem readClock (counted : machine.Counted known) (line : Nat) :
    (Exec.readClock line).Counts machine known (fun _ => False) Eq := by
  apply still counted
  unfold Exec.readClock
  obtain ⟨reading, clock⟩ := machine.clock.read
  cases reading with
  | error problem => exact rfl
  | ok seconds =>
      refine ⟨rfl, ?_⟩
      rintro value rfl
      exact counted.census.plain _ rfl

theorem takeReply (counted : machine.Counted known) (reply : Reply) {arguments : List Value}
    (listed : ∀ value, value ∈ arguments → known value) :
    (Exec.takeReply arguments reply).Counts machine known (fun _ => False) Eq := by
  obtain ⟨wider, old, census, given⟩ := counted.census.build reply listed
  refine ⟨wider, old, fun _ none => none.elim, ⟨_, census⟩, ⟨census, ?_⟩, ?_⟩
  · exact fun frame name value found => old value (counted.bound frame name value found)
  · rintro value rfl
    exact given

theorem applied (counted : machine.Counted known) {outcome : Except RuntimeError Value}
    (plain : ∀ result, outcome = .ok result → result.Plain) :
    (Exec.ofExcept outcome).Counts machine known (fun _ => False) Eq := by
  refine ofExcept counted ?_
  rintro result applied value rfl
  exact counted.census.plain result (plain result applied).identity?_eq_none

theorem indexed (counted : machine.Counted known) (bracket : Token) {object : Value}
    (position : Value) (listed : known object) :
    (Exec.ofExcept (applyIndex bracket object position)).Counts machine known (fun _ => False)
      Eq := by
  refine ofExcept counted ?_
  rintro result applied value rfl
  obtain ⟨identity, elements, rfl, member⟩ := applyIndex_mem applied
  exact counted.census.element identity elements result listed member

theorem makeFunction (counted : machine.Counted known) (declaration : Declaration) :
    (Exec.makeFunction declaration).Counts machine known (fun _ => False) Eq :=
  made counted rfl rfl fun _ _ same => nomatch same

end Exec.Counts

theorem callNative_counts {machine : Machine} {known : Value → Prop} (native : Native)
    {arguments : List Value} (line : Nat) (counted : machine.Counted known)
    (listed : ∀ value, value ∈ arguments → known value) :
    (callNative native arguments line).Counts machine known (fun _ => False) Eq := by
  apply (Exec.Counts.note counted _).andThen
  intro _ middle _ wider old counted' _
  cases native.action with
  | readClock => exact .readClock counted' line
  | answer host =>
      dsimp only
      cases host (Value.viewAll arguments) with
      | error message => exact .raise counted' _
      | ok reply =>
          exact .takeReply counted' reply fun value member => old value (listed value member)

/-! ### Points -/

/-- The value is bound at the point, or is that of the expression that is evaluated there. -/
inductive Point.Shows : Point → Value → Prop
  | bound {point : Point} {frame : FrameId} {name : String} {value : Value} :
      point.machine.store.local? frame name = some value → Shows point value
  | evaluated {fuel : Nat} {expr : Expr} {machine later : Machine}
      {initializing : List (FrameId × String)} {value : Value} :
      LexicalScript.evaluate fuel expr machine = .value value later →
      Shows ⟨fuel, .evaluate expr, machine, initializing⟩ value

/-- The value comes up at the point or at a part of it. -/
def Point.Sees (point : Point) (value : Value) : Prop :=
  ∃ place, point.Reaches place ∧ place.Shows value

/-- The value comes up at a part of the point. -/
def Point.Foresees (point : Point) (value : Value) : Prop :=
  ∃ part, point.Enters part ∧ part.Sees value

theorem Point.shows_or_foresees {point : Point} {value : Value} (sees : point.Sees value) :
    point.Shows value ∨ point.Foresees value := by
  obtain ⟨place, reaches, shown⟩ := sees
  rcases reaches.cases_head with rfl | ⟨part, enters, reaches⟩
  · exact Or.inl shown
  · exact Or.inr ⟨part, enters, place, reaches, shown⟩

/-! ### Rules -/

section Steps

variable {α : Type} {point : Point} {held known : Value → Prop} {machine : Machine}
  {action : Exec α} {gives : α → Value → Prop} {parts : Point → Prop}

theorem QuietStep.counts (step : QuietStep point held machine action gives)
    (counted : machine.Counted known) (listed : ∀ value, held value → known value) :
    action.Counts machine known (fun _ => False) gives := by
  cases step with
  | exhausted => exact .still counted trivial
  | pure given =>
      refine .pure counted fun value gives => ?_
      rcases given value gives with found | plain | rfl
      · exact listed value found
      · exact counted.census.plain value plain.identity?_eq_none
      · exact counted.census.plain .nil rfl
  | note event => exact .note counted event
  | notCallable | miscounted => exact .raise counted _
  | unary => exact .applied counted fun _ => applyUnary_plain
  | binary => exact .applied counted fun _ => applyBinary_plain
  | index bracket position found => exact .indexed counted bracket position (listed _ found)
  | write => exact .write counted _
  | read => exact .readVariable counted _ _
  | makeList each => exact .makeList counted fun value member => listed value (each value member)
  | native _ supplied =>
      exact callNative_counts _ _ counted fun value member => listed value (supplied.2 value member)

theorem BasicStep.counts (step : BasicStep point held machine action gives)
    (counted : machine.Counted known) (listed : ∀ value, held value → known value) :
    action.Counts machine known (fun _ => False) gives := by
  cases step with
  | quiet step => exact step.counts counted listed
  | assign _ found => exact .assignVariable counted _ _ (listed _ found)
  | define _ _ found =>
      refine .defineVariable counted _ ?_
      rcases found with found | rfl
      · exact listed _ found
      · exact counted.census.plain .nil rfl
  | declare =>
      refine (Exec.Counts.makeFunction counted _).andThen ?_
      intro function later _ wider _ counted' made
      exact .defineVariable counted' _ (made function rfl)

/-- The steps of a rule lead from any census to a wider one, which has what comes up at the points
that the rule enters. -/
theorem RuleSteps.counts (steps : RuleSteps point held machine action gives parts)
    (inner : ∀ part, point.Enters part → ∀ known, part.machine.Counted known →
      part.task.Supplied known →
      (part.task.run part.fuel).Counts part.machine known part.Sees part.task.Gives)
    (counted : machine.Counted known) (listed : ∀ value, held value → known value) :
    action.Counts machine known (fun value => ∃ part, parts part ∧ part.Sees value) gives := by
  have entered {part : Point} {action : Exec part.task.Result} {machine : Machine}
      {known : Value → Prop}
      (counts : action.Counts machine known part.Sees part.task.Gives) :
      action.Counts machine known (fun value => ∃ other, other = part ∧ other.Sees value)
        part.task.Gives := by
    refine counts.restrict rfl ?_
    rintro value ⟨_, rfl, sees⟩
    exact Or.inr sees
  induction steps generalizing known with
  | basic step =>
      refine (step.counts counted listed).restrict rfl ?_
      rintro value ⟨part, none, _⟩
      exact none.elim
  | part enters supplied => exact entered (inner _ enters known counted (supplied.mono listed))
  | bind _ _ ih ih' =>
      have both := (ih counted listed).bind fun result later ended wider old counted' given =>
        ih' result later ended counted' fun value found =>
          found.elim (fun early => old value (listed value early)) (given value)
      refine both.restrict rfl ?_
      rintro value ⟨part, early | ⟨result, later, ended, late⟩, sees⟩
      · exact Or.inr (Or.inl ⟨part, early, sees⟩)
      · exact Or.inr (Or.inr ⟨result, later, ended, part, late, sees⟩)
  | block same =>
      subst same
      exact entered (.within rfl (inner _ .block known counted.enterBlock trivial))
  | @body _ _ _ declaration closure _ _ _ same supplied =>
      subst same
      have called := counted.enterCall declaration closure fun value member =>
        listed value (supplied.2 value member)
      exact entered (.within rfl (inner _ .body known called trivial))
  | fewer _ included ih =>
      refine (ih counted listed).restrict rfl ?_
      rintro value ⟨part, among, sees⟩
      exact Or.inr ⟨part, included part among, sees⟩

end Steps

/-- Every point leads from any census of its machine and of its values to a wider one, which has
what comes up at it and at its parts. -/
theorem Point.counts (point : Point) {known : Value → Prop} (counted : point.machine.Counted known)
    (supplied : point.task.Supplied known) :
    (point.task.run point.fuel).Counts point.machine known point.Sees point.task.Gives := by
  induction point using Point.induction generalizing known with
  | enter point ih =>
      obtain ⟨wider, old, passed, census, ends⟩ := (point.ruleSteps supplied).counts
        (fun part enters _ => ih part enters) counted fun _ => id
      refine ⟨wider, old, fun value sees => ?_, census, ends⟩
      rcases Point.shows_or_foresees sees with shown | foreseen
      · cases shown with
        | bound found => exact old value (counted.bound _ _ value found)
        | evaluated ended => exact (ends.of_value ended).2 value rfl
      · exact passed value foreseen

/-! ### Runs of a session -/

theorem executeEach_counts (fuel : Nat) (statements : List Stmt) {machine : Machine}
    {known : Value → Prop} (counted : machine.Counted known) :
    (executeEach fuel statements).Counts machine known (fun value =>
      ∃ start, Starts fuel machine statements start ∧ start.Sees value) Nothing := by
  induction statements generalizing machine known with
  | nil =>
      refine (Exec.Counts.pure counted fun _ none => none.elim).restrict rfl ?_
      rintro value ⟨start, starts, _⟩
      cases starts
  | cons stmt rest ih =>
      have first := Point.counts ⟨fuel, .execute stmt, machine, []⟩ counted trivial
      have all := first.bind
        fun _ _ _ _ _ counted' _ => ih counted'
      refine all.restrict rfl ?_
      rintro value ⟨start, starts, sees⟩
      cases starts with
      | first => exact Or.inr (Or.inl sees)
      | next ended starts => exact Or.inr (Or.inr ⟨_, _, ended, start, starts, sees⟩)

theorem Machine.Counted.eqExceptJournal {machine later : Machine} {known : Value → Prop}
    (counted : machine.Counted known) (sameRest : machine.EqExceptJournal later) :
    later.Counted known := by
  rw [sameRest]
  exact counted.of_store rfl

/-- The values of the run of a text: those that expressions have in it and those that are bound in
the course of it or when it has ended, with the elements of lists. -/
inductive Arises (fuel : Nat) (source : String) (machine : Machine) : Value → Prop
  | shown {point : Point} {value : Value} : Occurs fuel source machine point → point.Shows value →
      Arises fuel source machine value
  | left {status : Status} {later : Machine} {frame : FrameId} {name : String} {value : Value} :
      runSource fuel source machine = some (status, later) →
      later.store.local? frame name = some value → Arises fuel source machine value
  | element {identity : Identity} {elements : List Value} {value : Value} :
      Arises fuel source machine (.list identity elements) → value ∈ elements →
      Arises fuel source machine value

/-- A run leads from a census of its machine to one of all its values. -/
theorem Machine.Counted.run {machine : Machine} {known : Value → Prop}
    (counted : machine.Counted known) (fuel : Nat) (source : String) :
    ∃ wider limit, Census wider limit ∧
      (∀ point, Occurs fuel source machine point → ∀ value, point.Shows value → wider value) ∧
      ∀ status later, runSource fuel source machine = some (status, later) →
        later.Counted wider := by
  cases begins : begin? source machine with
  | none =>
      refine ⟨known, _, counted.census, ?_, ?_⟩
      · rintro point ⟨_, _, _, begins', _⟩
        cases begins.symm.trans begins'
      · intro status later ran
        cases runSource_ran ran with
        | unscanned _ sameRest | idle _ _ sameRest | refused _ _ sameRest =>
            exact counted.eqExceptJournal sameRest
        | executed _ _ begins' => cases begins.symm.trans begins'
  | some begun =>
      obtain ⟨statements, begun⟩ := begun
      have sameRest := (begin?_scoped begins).2
      obtain ⟨wider, old, passed, ⟨limit, census⟩, ends⟩ :=
        executeEach_counts fuel statements (counted.eqExceptJournal sameRest)
      refine ⟨wider, limit, census, ?_, ?_⟩
      · rintro point ⟨_, _, start, begins', starts, reaches⟩ value shown
        cases begins.symm.trans begins'
        exact passed value ⟨start, starts, point, reaches, shown⟩
      · intro status later ran
        obtain ⟨ended, finished, sameRest'⟩ := begin?_ends begins ran
        have counted' := Outcome.Meets.of_state?
          (ends.mono (fun _ _ met => met.1) fun _ _ met => met) finished
        exact counted'.eqExceptJournal sameRest'

theorem Session.counted {machine : Machine} (session : Session machine) :
    ∃ known, machine.Counted known := by
  induction session with
  | new sink readings journal =>
      let bare : Machine := { Machine.new sink readings journal with store := ⟨#[⟨[], none⟩], 0⟩ }
      have empty : bare.Counted fun value => value.identity? = none := by
        refine ⟨⟨fun _ none => none, ?_, ?_, ?_⟩, ?_⟩
        · intro identity elements value listed
          cases listed
        · intro value other identity none _ own
          cases none.symm.trans own
        · intro value identity none own
          cases none.symm.trans own
        · intro frame name value found
          cases frame with
          | zero => cases found
          | succ frame => cases found
      have made := empty.identify (.native 0 .clock) rfl fun _ _ same => nomatch same
      exact ⟨_, (made.define 0 Native.clock.name (Or.inr rfl)).of_store rfl⟩
  | @supply machine name native _ ih =>
      obtain ⟨known, counted⟩ := ih
      have made := counted.identify (machine.store.makeNative native).1 rfl
        fun _ _ same => nomatch same
      exact ⟨_, made.define machine.globals name (Or.inr rfl)⟩
  | @run machine later fuel source status _ ran ih =>
      obtain ⟨known, counted⟩ := ih
      obtain ⟨wider, _, _, _, ends⟩ := counted.run fuel source
      exact ⟨wider, ends status later ran⟩

/-- One census has all values of a run. -/
theorem Session.census {machine : Machine} (session : Session machine) (fuel : Nat)
    (source : String) :
    ∃ known limit, Census known limit ∧
      ∀ value, Arises fuel source machine value → known value := by
  obtain ⟨known, counted⟩ := session.counted
  obtain ⟨wider, limit, census, passed, ends⟩ := counted.run fuel source
  refine ⟨wider, limit, census, fun value arises => ?_⟩
  induction arises with
  | shown occurs shown => exact passed _ occurs _ shown
  | left ran found => exact (ends _ _ ran).bound _ _ _ found
  | element _ member ih => exact census.element _ _ _ ih member

end LexicalScript
