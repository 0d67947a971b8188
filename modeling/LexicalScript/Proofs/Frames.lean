import LexicalScript.Machine
import LexicalScript.Proofs.Scoping

/-!
Frames and the scopes they stand for.

While code runs that was resolved under some scopes, the frames from the active one outwards stand
for these scopes one by one, and the frame behind the last scope is the global one.  A frame may
bind more names than its scope holds, since a scope is a snapshot and a frame keeps growing.  A
store is extended by keeping all parents and all bound names, which keeps every such chain.
-/

set_option autoImplicit false

namespace LexicalScript

namespace Store

/-- The frame itself binds the name. -/
def Binds (store : Store) (frame : FrameId) (name : String) : Prop :=
  (store.local? frame name).isSome

/-- Frames keep their parents and the names they bind, and none is removed. -/
structure Extends (store later : Store) : Prop where
  parent : ∀ frame parent, store.parent? frame = some parent → later.parent? frame = some parent
  binds : ∀ frame name, store.Binds frame name → later.Binds frame name
  size : store.frames.size ≤ later.frames.size

theorem Extends.refl (store : Store) : store.Extends store :=
  ⟨fun _ _ found => found, fun _ _ bound => bound, Nat.le_refl _⟩

theorem Extends.trans {first second third : Store} (one : first.Extends second)
    (two : second.Extends third) : first.Extends third where
  parent frame parent found := two.parent frame parent (one.parent frame parent found)
  binds frame name bound := two.binds frame name (one.binds frame name bound)
  size := Nat.le_trans one.size two.size

theorem lt_size_of_parent? {store : Store} {frame parent : FrameId}
    (found : store.parent? frame = some parent) : frame < store.frames.size := by
  apply Nat.lt_of_not_le
  intro outside
  have absent : store.frames[frame]? = none := Array.getElem?_eq_none outside
  unfold parent? at found
  rw [absent] at found
  cases found

theorem lt_size_of_binds {store : Store} {frame : FrameId} {name : String}
    (bound : store.Binds frame name) : frame < store.frames.size := by
  apply Nat.lt_of_not_le
  intro outside
  have absent : store.frames[frame]? = none := Array.getElem?_eq_none outside
  unfold Binds local? at bound
  rw [absent] at bound
  cases bound

theorem binds_of_local? {store : Store} {frame : FrameId} {name : String} {value : Value}
    (found : store.local? frame name = some value) : store.Binds frame name := by
  unfold Binds
  rw [found]
  rfl

theorem binds_define {store : Store} {frame : FrameId} (created : frame < store.frames.size)
    (name : String) (value : Value) (other : FrameId) (second : String) :
    (store.define frame name value).Binds other second ↔
      (other = frame ∧ second = name) ∨ store.Binds other second := by
  unfold Binds
  by_cases same : other = frame ∧ second = name
  · obtain ⟨rfl, rfl⟩ := same
    rw [local?_define_self store created]
    simp
  · have different : other ≠ frame ∨ second ≠ name := by
      by_cases sameFrame : other = frame
      · exact Or.inr fun sameName => same ⟨sameFrame, sameName⟩
      · exact Or.inl sameFrame
    rw [local?_define_of_ne store different]
    simp [same]

/-- A binding of a store that was changed at one name is the new one or an old one. -/
theorem local?_define_cases {store : Store} {owner frame : FrameId} {name other : String}
    {value stored : Value}
    (found : (store.define owner name value).local? frame other = some stored) :
    stored = value ∨ store.local? frame other = some stored := by
  by_cases same : frame = owner ∧ other = name
  · obtain ⟨rfl, rfl⟩ := same
    by_cases created : frame < store.frames.size
    · rw [local?_define_self _ created] at found
      exact Or.inl (Option.some.inj found).symm
    · simp [local?, define, created] at found
  · have different : frame ≠ owner ∨ other ≠ name := by
      by_cases sameFrame : frame = owner
      · exact Or.inr fun sameName => same ⟨sameFrame, sameName⟩
      · exact Or.inl sameFrame
    rw [local?_define_of_ne _ different] at found
    exact Or.inr found

theorem extends_define (store : Store) {frame : FrameId} (created : frame < store.frames.size)
    (name : String) (value : Value) : store.Extends (store.define frame name value) where
  parent other parent found := by
    rw [parent?_define]
    exact found
  binds other second bound := (binds_define created name value other second).mpr (Or.inr bound)
  size := Nat.le_of_eq (size_define store frame name value).symm

theorem size_create (store : Store) (parent : Option FrameId) :
    (store.create parent).2.frames.size = store.frames.size + 1 := by
  simp [create]

theorem extends_create (store : Store) (parent : Option FrameId) :
    store.Extends (store.create parent).2 where
  parent frame found known := by
    have created := lt_size_of_parent? known
    rw [parent?_create, if_neg (Nat.ne_of_lt created)]
    exact known
  binds frame name bound := by
    unfold Binds
    rw [local?_create]
    exact bound
  size := by
    rw [size_create]
    exact Nat.le_succ _

/-- The store after parameters were bound to arguments in a frame, one by one. -/
def bindArguments (store : Store) (frame : FrameId) (parameters : List Token)
    (arguments : List Value) : Store :=
  (parameters.zip arguments).foldl
    (fun store (parameter, argument) => store.define frame parameter.lexeme argument) store

theorem extends_bindArguments {store : Store} {frame : FrameId}
    (created : frame < store.frames.size) (parameters : List Token) (arguments : List Value) :
    store.Extends (store.bindArguments frame parameters arguments) := by
  induction parameters generalizing store arguments with
  | nil => exact .refl store
  | cons parameter rest ih =>
      cases arguments with
      | nil => exact .refl store
      | cons argument others =>
          have grown := store.extends_define created parameter.lexeme argument
          exact grown.trans (ih (Nat.lt_of_lt_of_le created grown.size) others)

theorem binds_bindArguments {store : Store} {frame : FrameId}
    (created : frame < store.frames.size) {parameters : List Token} {arguments : List Value}
    (counted : arguments.length = parameters.length) {parameter : Token}
    (member : parameter ∈ parameters) :
    (store.bindArguments frame parameters arguments).Binds frame parameter.lexeme := by
  induction parameters generalizing store arguments with
  | nil => cases member
  | cons first rest ih =>
      cases arguments with
      | nil => cases counted
      | cons argument others =>
          have grown := store.extends_define created first.lexeme argument
          have created' := Nat.lt_of_lt_of_le created grown.size
          rcases List.mem_cons.mp member with same | later
          · subst same
            refine (extends_bindArguments created' rest others).binds frame _ ?_
            exact (binds_define created parameter.lexeme argument frame _).mpr (Or.inl ⟨rfl, rfl⟩)
          · exact ih created' (Nat.succ.inj counted) later

end Store

/-! ### Chains -/

/-- The frames from a frame outwards bind, scope by scope, the names of the scopes, and the one
behind the last scope is the global frame. -/
inductive Chain (store : Store) (globals : FrameId) : FrameId → Scopes → Prop
  | top : Chain store globals globals []
  | nest {frame parent : FrameId} {scope : List String} {scopes : Scopes} :
      store.parent? frame = some parent → (∀ name, name ∈ scope → store.Binds frame name) →
      Chain store globals parent scopes → Chain store globals frame (scope :: scopes)

namespace Chain

variable {store later : Store} {globals frame : FrameId} {scopes : Scopes}

theorem mono (grown : store.Extends later) (chain : Chain store globals frame scopes) :
    Chain later globals frame scopes := by
  induction chain with
  | top => exact .top
  | nest found binds _ ih =>
      exact .nest (grown.parent _ _ found)
        (fun name member => grown.binds _ name (binds name member))
        ih

/-- The innermost scope may be any set of names that its frame binds. -/
theorem rescope {scope other : List String} (chain : Chain store globals frame (scope :: scopes))
    (binds : ∀ name, name ∈ other → store.Binds frame name) :
    Chain store globals frame (other :: scopes) := by
  cases chain with
  | nest found _ outer => exact .nest found binds outer

/-- A name that its frame has come to bind may be added to the innermost scope. -/
theorem declare {name : String} (chain : Chain store globals frame scopes)
    (bound : store.Binds frame name) : Chain store globals frame (scopes.declare name) := by
  cases chain with
  | top => exact .top
  | nest found binds outer =>
      refine .nest found ?_ outer
      intro other member
      rcases List.mem_cons.mp member with same | earlier
      · rw [same]
        exact bound
      · exact binds other earlier

theorem ancestor_of_locate {name : String} {hops : Nat}
    (chain : Chain store globals frame scopes) (located : scopes.locate name = some hops) :
    ∃ owner, store.ancestor? frame hops = some owner ∧ store.Binds owner name := by
  induction chain generalizing hops with
  | top => cases located
  | @nest frame parent scope scopes found binds _ ih =>
      unfold Scopes.locate at located
      rw [List.findIdx?_cons] at located
      split at located
      · rename_i member
        cases located
        exact ⟨frame, rfl, binds name (by simpa using member)⟩
      · obtain ⟨outer, outerLocated, same⟩ := Option.map_eq_some_iff.mp located
        obtain ⟨owner, reached, bound⟩ := ih outerLocated
        subst same
        refine ⟨owner, ?_, bound⟩
        rw [Store.ancestor?, found]
        exact reached

/-- Around an initializer, a located name is bound at its distance, unless it is the variable that
is being initialized, whose frame is the innermost one. -/
theorem ancestor_of_locate_awaiting {name : String} {hops : Nat} {pending : Option String}
    (chain : Chain store globals frame scopes)
    (located : (scopes.awaiting pending).locate name = some hops) :
    ∃ owner, store.ancestor? frame hops = some owner ∧
      (store.Binds owner name ∨ (owner = frame ∧ hops = 0 ∧ pending = some name)) := by
  cases pending with
  | none =>
      obtain ⟨owner, reached, bound⟩ := chain.ancestor_of_locate located
      exact ⟨owner, reached, Or.inl bound⟩
  | some awaited =>
      by_cases own : name = awaited ∧ hops = 0
      · obtain ⟨rfl, rfl⟩ := own
        exact ⟨frame, rfl, Or.inr ⟨rfl, rfl, rfl⟩⟩
      · -- Every other name is located as if the awaited one were not declared.
        have unawaited : scopes.locate name = some hops := by
          cases scopes with
          | nil => exact located
          | cons scope outer =>
              change Scopes.locate ((awaited :: scope) :: outer) name = some hops at located
              unfold Scopes.locate at located ⊢
              rw [List.findIdx?_cons] at located ⊢
              rw [List.contains_cons] at located
              by_cases same : name = awaited
              · subst same
                rw [beq_self_eq_true, Bool.true_or, if_pos rfl] at located
                cases located
                exact absurd ⟨rfl, rfl⟩ own
              · rw [beq_false_of_ne same, Bool.false_or] at located
                exact located
        obtain ⟨owner, reached, bound⟩ := chain.ancestor_of_locate unawaited
        exact ⟨owner, reached, Or.inl bound⟩

end Chain

theorem Store.owner?_of_root {store : Store} {frame : FrameId} (root : store.parent? frame = none)
    (name : String) :
    store.owner? frame name = (store.local? frame name).map fun _ => frame := by
  unfold Store.owner? Store.ownerWithin?
  rw [root]
  cases store.local? frame name <;> rfl

theorem Store.get_of_root {store : Store} {frame : FrameId} (root : store.parent? frame = none)
    (name : Token) :
    store.get frame name = match store.local? frame name.lexeme with
      | some value => .ok value
      | none => .error (Store.undefinedVariable name none) := by
  unfold Store.get
  rw [Store.owner?_of_root root]
  cases found : store.local? frame name.lexeme with
  | none => rfl
  | some value => simp [found]

theorem Store.binds_of_ownerWithin? {store : Store} {name : String} {limit : Nat}
    {frame owner : FrameId} (found : store.ownerWithin? name limit frame = some owner) :
    store.Binds owner name := by
  induction limit generalizing frame with
  | zero => cases found
  | succ limit ih =>
      unfold Store.ownerWithin? at found
      split at found
      · rename_i value bound
        cases found
        unfold Store.Binds
        rw [bound]
        rfl
      · split at found
        · cases found
        · exact ih found

end LexicalScript
