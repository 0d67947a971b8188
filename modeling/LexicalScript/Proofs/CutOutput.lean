import LexicalScript.Proofs.Access
import LexicalScript.Proofs.ActiveFrame
import LexicalScript.Proofs.PrintFreeRuns

/-!
Output that is cut off.

A run is compared with the same run on a sink that takes a limited number of lines.  As long as the
lines suffice, both runs go on alike.  The print that exceeds them fails, and its failure passes
through everything around it, so that the second run ends with the machine that this print came
to.
-/

set_option autoImplicit false

namespace LexicalScript

/-! ### Whole lines -/

/-- The characters are none, or the last of them is a line feed. -/
def WholeLines (text : List Char) : Prop := text = [] ∨ text.getLast? = some '\n'

theorem WholeLines.append {first second : List Char} (whole : WholeLines first)
    (whole' : WholeLines second) : WholeLines (first ++ second) := by
  rcases whole' with none | ends
  · rw [none, List.append_nil]
    exact whole
  · right
    rw [List.getLast?_append, ends]
    rfl

theorem WholeLines.tail {char : Char} {rest : List Char} (whole : WholeLines (char :: rest)) :
    WholeLines rest := by
  cases rest with
  | nil => exact Or.inl rfl
  | cons next rest =>
      rcases whole with none | ends
      · cases none
      · exact Or.inr ends

theorem WholeLines.count_pos {char : Char} {rest : List Char}
    (whole : WholeLines (char :: rest)) : 0 < (char :: rest).count '\n' := by
  rcases whole with none | ends
  · cases none
  · exact List.count_pos_iff.mpr (List.mem_of_getLast? ends)

/-- Whole lines that are not too many are admitted whole. -/
theorem admitted_of_le {capacity : Nat} {text : List Char} (whole : WholeLines text)
    (room : text.count '\n' ≤ capacity) :
    admitted capacity text = (text, capacity - text.count '\n') := by
  induction text generalizing capacity with
  | nil => cases capacity <;> rfl
  | cons char rest ih =>
      have some := whole.count_pos
      cases capacity with
      | zero => omega
      | succ capacity =>
          by_cases feed : char = '\n'
          · subst feed
            rw [List.count_cons_self] at room
            rw [admitted, if_pos rfl, ih whole.tail (by omega), List.count_cons_self]
            simp
          · rw [List.count_cons_of_ne feed] at room
            rw [admitted, if_neg feed, ih whole.tail room, List.count_cons_of_ne feed]

/-- Of too many lines whole ones are admitted, as many as there is room for. -/
theorem admitted_of_lt {capacity : Nat} {text : List Char}
    (excess : capacity < text.count '\n') :
    (admitted capacity text).2 = 0 ∧ WholeLines (admitted capacity text).1 := by
  induction text generalizing capacity with
  | nil => cases excess
  | cons char rest ih =>
      cases capacity with
      | zero => exact ⟨rfl, Or.inl rfl⟩
      | succ capacity =>
          by_cases feed : char = '\n'
          · subst feed
            rw [List.count_cons_self] at excess
            obtain ⟨left, whole⟩ := ih (Nat.lt_of_succ_lt_succ excess)
            rw [admitted, if_pos rfl]
            exact ⟨left, WholeLines.append (Or.inr rfl : WholeLines ['\n']) whole⟩
          · rw [List.count_cons_of_ne feed] at excess
            obtain ⟨left, whole⟩ := ih excess
            rw [admitted, if_neg feed]
            refine ⟨left, ?_⟩
            -- something of the rest is admitted, so the first character is not the last one
            cases rest with
            | nil => cases excess
            | cons next rest =>
                rcases whole with none | ends
                · cases none
                · right
                  rw [admitted] at ends ⊢
                  rw [List.getLast?_cons_cons]
                  exact ends

def lineCount (text : String) : Nat := text.toList.count '\n'

theorem lineCount_append (first second : String) :
    lineCount (first ++ second) = lineCount first + lineCount second := by
  unfold lineCount
  rw [String.toList_append, List.count_append]

/-- The taken text is the part of the text up to and including the line feed of that number. -/
structure TakesLines (limit : Nat) (text taken : String) : Prop where
  start : taken.toList <+: text.toList
  count : lineCount taken = limit
  whole : WholeLines taken.toList

namespace Sink

/-- The sink as it is if it takes no more than that many lines altogether. -/
def limited (limit : Nat) (sink : Sink) : Sink :=
  { sink with capacity := some (limit - lineCount sink.accepted) }

theorem write_of_capacity {sink : Sink} (free : sink.capacity = none) (text : String) :
    sink.write text = (none, { sink with accepted := sink.accepted ++ text }) := by
  unfold write
  rw [free]

theorem write_limited_of_le {limit : Nat} {sink : Sink} {text : String}
    (whole : WholeLines text.toList) (room : lineCount (sink.accepted ++ text) ≤ limit) :
    (sink.limited limit).write text =
      (none, limited limit { sink with accepted := sink.accepted ++ text }) := by
  rw [lineCount_append] at room
  have fits : text.toList.count '\n' ≤ limit - lineCount sink.accepted := by
    change lineCount text ≤ _
    omega
  have left : limit - lineCount sink.accepted - lineCount text =
      limit - lineCount (sink.accepted ++ text) := by
    rw [lineCount_append]
    omega
  unfold write limited
  dsimp only
  rw [admitted_of_le whole fits]
  dsimp only
  rw [if_pos rfl, String.ofList_toList, ← left]
  rfl

theorem write_limited_of_lt {limit : Nat} {sink : Sink} {text : String}
    (whole : WholeLines sink.accepted.toList) (room : lineCount sink.accepted ≤ limit)
    (excess : limit < lineCount (sink.accepted ++ text)) :
    ∃ taken, (sink.limited limit).write text =
        (some .sinkFull, ⟨taken, some 0, sink.flushFails⟩) ∧
      TakesLines limit (sink.accepted ++ text) taken := by
  rw [lineCount_append] at excess
  let capacity := limit - lineCount sink.accepted
  have exceeds : capacity < text.toList.count '\n' := by
    change limit - lineCount sink.accepted < lineCount text
    omega
  obtain ⟨left, whole'⟩ := admitted_of_lt exceeds
  have counted := count_admitted capacity text.toList
  rw [left, Nat.add_zero] at counted
  have shorter : (admitted capacity text.toList).1.length ≠ text.toList.length := by
    intro same
    have all := (admitted_isPrefix capacity text.toList).eq_of_length same
    rw [all] at counted
    omega
  refine ⟨sink.accepted ++ String.ofList (admitted capacity text.toList).1, ?_, ?_, ?_, ?_⟩
  · unfold write limited
    dsimp only
    rw [if_neg shorter, left]
  · rw [String.toList_append, String.toList_append, String.toList_ofList]
    exact (List.prefix_append_right_inj _).mpr (admitted_isPrefix _ _)
  · rw [lineCount_append]
    unfold lineCount
    rw [String.toList_ofList, counted]
    change lineCount sink.accepted + (limit - lineCount sink.accepted) = limit
    omega
  · rw [String.toList_append, String.toList_ofList]
    exact whole.append whole'

end Sink

/-! ### Machines and their sinks -/

/-- The machine as it is if its sink takes no more than that many lines altogether. -/
def Machine.limited (limit : Nat) (machine : Machine) : Machine :=
  machine.printTo (machine.sink.limited limit)

/-- The sink takes everything, and has taken whole lines. -/
structure Machine.Unlimited (machine : Machine) : Prop where
  free : machine.sink.capacity = none
  whole : WholeLines machine.sink.accepted.toList

/-- The later machine has printed whole lines more. -/
def Machine.Prolongs (machine later : Machine) : Prop :=
  ∃ text : String, WholeLines text.toList ∧
    later.sink = { machine.sink with accepted := machine.sink.accepted ++ text }

namespace Machine.Prolongs

variable {machine middle later : Machine}

theorem of_sink_eq (same : later.sink = machine.sink) : machine.Prolongs later := by
  refine ⟨"", Or.inl rfl, ?_⟩
  rw [same, String.append_empty]

theorem trans (first : machine.Prolongs middle) (second : middle.Prolongs later) :
    machine.Prolongs later := by
  obtain ⟨text, whole, printed⟩ := first
  obtain ⟨text', whole', printed'⟩ := second
  refine ⟨text ++ text', ?_, ?_⟩
  · rw [String.toList_append]
    exact whole.append whole'
  · rw [printed', printed, String.append_assoc]

theorem unlimited (prolongs : machine.Prolongs later) (unlimited : machine.Unlimited) :
    later.Unlimited := by
  obtain ⟨text, whole, printed⟩ := prolongs
  constructor
  · rw [printed]
    exact unlimited.free
  · rw [printed, String.toList_append]
    exact unlimited.whole.append whole

theorem accepted_isPrefix (prolongs : machine.Prolongs later) :
    machine.sink.accepted.toList <+: later.sink.accepted.toList := by
  obtain ⟨text, _, printed⟩ := prolongs
  rw [printed, String.toList_append]
  exact List.prefix_append _ _

theorem flushFails_eq (prolongs : machine.Prolongs later) :
    later.sink.flushFails = machine.sink.flushFails := by
  obtain ⟨text, _, printed⟩ := prolongs
  rw [printed]

end Machine.Prolongs

/-! ### Steps on a limited sink -/

/-- At one of the places a print has come to its write, on the machine. -/
def Prints (places : Point → Prop) (text : String) (machine : Machine) : Prop :=
  ∃ fuel expr start initializing value,
    places ⟨fuel + 1, .execute (.print expr), start, initializing⟩ ∧
      evaluate fuel expr start = .value value machine ∧ text = value.text ++ "\n"

/-- A print of the text at one of the places exceeds the lines, so that no more than the taken part
of the output fits.  What the later machine has printed starts with all of that print. -/
structure Overflow (limit : Nat) (places : Point → Prop) (later current : Machine)
    (text taken : String) : Prop where
  prints : Prints places text current
  room : lineCount current.sink.accepted ≤ limit
  excess : limit < lineCount (current.sink.accepted ++ text)
  printed : (current.printTo
    { current.sink with accepted := current.sink.accepted ++ text }).Prolongs later
  takes : TakesLines limit (current.sink.accepted ++ text) taken

namespace Overflow

variable {limit : Nat} {places : Point → Prop} {later current : Machine} {text taken : String}

theorem takesLines (overflow : Overflow limit places later current text taken) :
    TakesLines limit later.sink.accepted taken where
  start := overflow.takes.start.trans overflow.printed.accepted_isPrefix
  count := overflow.takes.count
  whole := overflow.takes.whole

theorem lt_lineCount (overflow : Overflow limit places later current text taken) :
    limit < lineCount later.sink.accepted := by
  have count : lineCount (current.sink.accepted ++ text) ≤ lineCount later.sink.accepted :=
    overflow.printed.accepted_isPrefix.sublist.count_le '\n'
  exact Nat.lt_of_lt_of_le overflow.excess count

theorem flushFails_eq (overflow : Overflow limit places later current text taken) :
    later.sink.flushFails = current.sink.flushFails :=
  overflow.printed.flushFails_eq

end Overflow

/-- The machine is stopped at a print that exceeds the lines, with some frame active. -/
def Overflows (limit : Nat) (places : Point → Prop) (later stopped : Machine) : Prop :=
  ∃ text current taken active, Overflow limit places later current text taken ∧
    stopped = { current with sink := ⟨taken, some 0, current.sink.flushFails⟩, active := active }

namespace Overflows

variable {limit : Nat} {places places' : Point → Prop} {later last stopped : Machine}

theorem mono (inside : ∀ place, places place → places' place)
    (overflows : Overflows limit places later stopped) :
    Overflows limit places' later stopped := by
  obtain ⟨text, current, taken, active, overflow, same⟩ := overflows
  obtain ⟨fuel, expr, start, initializing, value, reached, ended⟩ := overflow.prints
  have prints : Prints places' text current :=
    ⟨fuel, expr, start, initializing, value, inside _ reached, ended⟩
  exact ⟨text, current, taken, active, { overflow with prints := prints }, same⟩

theorem prolong (overflows : Overflows limit places later stopped)
    (prolongs : later.Prolongs last) : Overflows limit places last stopped := by
  obtain ⟨text, current, taken, active, overflow, same⟩ := overflows
  have printed := overflow.printed.trans prolongs
  exact ⟨text, current, taken, active, { overflow with printed := printed }, same⟩

theorem leave (overflows : Overflows limit places later stopped) (outer : FrameId) :
    Overflows limit places later { stopped with active := outer } := by
  obtain ⟨text, current, taken, active, overflow, rfl⟩ := overflows
  exact ⟨text, current, taken, outer, overflow, rfl⟩

end Overflows

/-- On an unlimited machine the step prints whole lines.  On the limited one it ends alike if the
lines suffice, and otherwise fails at the print that exceeds them. -/
def Exec.Trims {α : Type} (limit : Nat) (places : Point → Prop) (action : Exec α)
    (machine : Machine) : Prop :=
  machine.Unlimited → ∀ later, (action machine).state? = some later →
    machine.Prolongs later ∧
      (lineCount machine.sink.accepted ≤ limit →
        (lineCount later.sink.accepted ≤ limit ∧
          action (machine.limited limit) = (action machine).mapState (.limited limit)) ∨
        ∃ stopped, Overflows limit places later stopped ∧
          action (machine.limited limit) = .failure (.output .sinkFull) stopped)

theorem Exec.write_of_ok {text : String} {machine : Machine} {sink : Sink}
    (written : machine.sink.write text = (none, sink)) :
    Exec.write text machine = .value () (machine.printTo sink) := by
  unfold Exec.write
  rw [written]
  rfl

theorem Exec.write_of_error {text : String} {machine : Machine} {error : IoError} {sink : Sink}
    (written : machine.sink.write text = (some error, sink)) :
    Exec.write text machine = .failure (.output error) (machine.printTo sink) := by
  unfold Exec.write
  rw [written]
  rfl

namespace Exec.Trims

variable {α β : Type} {limit : Nat} {places places' : Point → Prop} {machine : Machine}

theorem mute {action : Exec α} (mute : action.Mute machine) :
    action.Trims limit places machine := by
  intro _ later left
  have same := mute.sink_eq left
  refine ⟨.of_sink_eq same, ?_⟩
  intro room
  left
  refine ⟨?_, ?_⟩
  · rw [same]
    exact room
  · rw [Machine.limited, mute]
    apply Outcome.mapState_congr
    intro state left'
    rw [left] at left'
    cases left'
    rw [Machine.limited, same]

theorem mono {action : Exec α} (inside : ∀ place, places place → places' place)
    (trims : action.Trims limit places machine) : action.Trims limit places' machine := by
  intro unlimited later left
  obtain ⟨prolongs, ends⟩ := trims unlimited later left
  refine ⟨prolongs, ?_⟩
  intro room
  rcases ends room with equal | ⟨stopped, overflows, failed⟩
  · exact Or.inl equal
  · exact Or.inr ⟨stopped, overflows.mono inside, failed⟩

theorem bind {first : Exec α} {next : α → Exec β} (trims : first.Trims limit places machine)
    (after : ∀ result middle, first machine = .value result middle →
      (next result).Trims limit places middle) :
    (first >>= next).Trims limit places machine := by
  intro unlimited later left
  rw [Attempt.bind_apply] at left
  rw [Attempt.bind_apply, Attempt.bind_apply]
  cases ended : first machine with
  | exhausted =>
      rw [ended] at left
      cases left
  | failure fault final =>
      rw [ended] at left
      cases left
      obtain ⟨prolongs, ends⟩ := trims unlimited later (by rw [ended]; rfl)
      refine ⟨prolongs, ?_⟩
      intro room
      rcases ends room with ⟨room', equal⟩ | ⟨stopped, overflows, failed⟩
      · rw [equal, ended]
        exact Or.inl ⟨room', rfl⟩
      · rw [failed]
        exact Or.inr ⟨stopped, overflows, rfl⟩
  | value result middle =>
      rw [ended] at left
      dsimp only at left
      obtain ⟨prolongs, ends⟩ := trims unlimited middle (by rw [ended]; rfl)
      obtain ⟨prolongs', ends'⟩ :=
        after result middle ended (prolongs.unlimited unlimited) later left
      refine ⟨prolongs.trans prolongs', ?_⟩
      intro room
      rcases ends room with ⟨room', equal⟩ | ⟨stopped, overflows, failed⟩
      · rw [equal, ended]
        exact ends' room'
      · rw [failed]
        exact Or.inr ⟨stopped, overflows.prolong prolongs', rfl⟩

theorem after {first : Exec α} {next : α → Exec β} (mute : first.Mute machine)
    (after : ∀ result middle, first machine = .value result middle →
      (next result).Trims limit places middle) :
    (first >>= next).Trims limit places machine :=
  bind (.mute mute) after

theorem within {frame : FrameId} {body : Exec α}
    (trims : body.Trims limit places { machine with active := frame }) :
    (Exec.within frame body).Trims limit places machine := by
  intro unlimited later left
  have limited : Exec.within frame body (machine.limited limit) =
      (body (Machine.limited limit { machine with active := frame })).mapState
        fun final => { final with active := machine.active } :=
    within_eq frame body (machine.limited limit)
  rw [within_eq, Outcome.state?_mapState] at left
  obtain ⟨final, inside, rfl⟩ := Option.map_eq_some_iff.mp left
  obtain ⟨prolongs, ends⟩ := trims ⟨unlimited.free, unlimited.whole⟩ final inside
  refine ⟨prolongs, ?_⟩
  intro room
  rw [limited, within_eq]
  rcases ends room with ⟨room', equal⟩ | ⟨stopped, overflows, failed⟩
  · rw [equal]
    left
    refine ⟨room', ?_⟩
    cases body { machine with active := frame } <;> rfl
  · rw [failed]
    exact Or.inr ⟨_, (overflows.leave machine.active).prolong (.of_sink_eq rfl), rfl⟩

theorem write {text : String} (whole : WholeLines text.toList)
    (prints : Prints places text machine) :
    (Exec.write text).Trims limit places machine := by
  intro unlimited later left
  have printed := write_of_ok (Sink.write_of_capacity unlimited.free text)
  rw [printed] at left ⊢
  cases left
  refine ⟨⟨text, whole, rfl⟩, ?_⟩
  intro room
  by_cases fits : lineCount (machine.sink.accepted ++ text) ≤ limit
  · left
    exact ⟨fits, write_of_ok (Sink.write_limited_of_le whole fits)⟩
  · right
    have excess := Nat.lt_of_not_le fits
    obtain ⟨taken, written, takes⟩ := Sink.write_limited_of_lt unlimited.whole room excess
    have overflow : Overflow limit places
        (machine.printTo { machine.sink with accepted := machine.sink.accepted ++ text }) machine
        text taken :=
      ⟨prints, room, excess, .of_sink_eq rfl, takes⟩
    exact ⟨_, ⟨text, machine, taken, machine.active, overflow, rfl⟩, write_of_error written⟩

end Exec.Trims

/-! ### Rules on a limited sink -/

theorem Exec.Trims.enter {α : Type} {limit : Nat} {point part : Point} {action : Exec α}
    {machine : Machine} (enters : point.Enters part)
    (trims : action.Trims limit part.Reaches machine) : action.Trims limit point.Reaches machine :=
  trims.mono fun _ reaches => .head enters reaches

section Steps

variable {α : Type} {limit : Nat} {point : Point} {held : Value → Prop} {machine : Machine}
  {action : Exec α} {gives : α → Value → Prop} {parts : Point → Prop}

theorem BasicStep.trims (step : BasicStep point held machine action gives) :
    action.Trims limit point.Reaches machine := by
  refine step.muteOrWrite (motive := fun action => action.Trims limit point.Reaches machine)
    .mute ?_
  rintro fuel expr start initializing value rfl ended
  have whole : WholeLines (value.text ++ "\n").toList := by
    rw [String.toList_append]
    exact Or.inr List.getLast?_concat
  exact .write whole ⟨fuel, expr, start, initializing, value, .refl, ended, rfl⟩

theorem RuleSteps.trims (steps : RuleSteps point held machine action gives parts)
    (inner : ∀ part, point.Enters part →
      (part.task.run part.fuel).Trims limit part.Reaches part.machine) :
    action.Trims limit point.Reaches machine := by
  induction steps with
  | basic step => exact step.trims
  | part enters _ => exact .enter enters (inner _ enters)
  | bind _ _ ih ih' => exact ih.bind ih'
  | block same =>
      subst same
      refine .after (fun _ => rfl) fun frame framed framing => ?_
      cases framing
      exact .within (.enter .block (inner _ .block))
  | body same _ =>
      subst same
      refine .after (fun _ => rfl) fun frame framed framing => ?_
      cases framing
      exact .within (.enter .body (inner _ .body))
  | fewer _ _ ih => exact ih

end Steps

theorem Point.trims (limit : Nat) (point : Point) :
    (point.task.run point.fuel).Trims limit point.Reaches point.machine := by
  induction point using Point.induction with
  | enter point ih => exact (point.ruleSteps point.task.supplied_of_all).trims ih

theorem executeEach_trims (limit fuel : Nat) (statements : List Stmt) {machine : Machine} :
    (executeEach fuel statements).Trims limit
      (fun place => ∃ start, Starts fuel machine statements start ∧ start.Reaches place)
      machine := by
  induction statements generalizing machine with
  | nil => exact .mute fun _ => rfl
  | cons stmt rest ih =>
      apply Exec.Trims.bind
      · apply (Point.trims limit ⟨fuel, .execute stmt, machine, []⟩).mono
        intro place reaches
        exact ⟨_, .first, reaches⟩
      · intro flow later ended
        apply ih.mono
        rintro place ⟨start, starts, reaches⟩
        exact ⟨start, .next ended starts, reaches⟩

/-! ### Runs on a limited sink -/

/-- Which statements of a text are executed does not depend on the sink. -/
theorem runSource_printTo (fuel : Nat) (source : String) (machine : Machine) :
    (∃ status journal, ∀ sink, runSource fuel source (machine.printTo sink) =
      some (status, { machine.printTo sink with journal := journal })) ∨
    ∃ (static : List Diagnostic) (statements : List Stmt) (begun : Machine), ∀ sink,
      begin? source (machine.printTo sink) = some (statements, begun.printTo sink) ∧
      runSource fuel source (machine.printTo sink) =
        conclude static (executeEach fuel statements (begun.printTo sink)) := by
  unfold runSource begin?
  let scanned := machine.noteAll fun _ => scanEvents source
  cases tokens? source with
  | error error => exact Or.inl ⟨⟨[.lexical error], none⟩, scanned.journal, fun _ => rfl⟩
  | ok tokens =>
      let program := Parser.program tokens
      let parsed := scanned.noteAll fun _ => program.notes.map .parser
      let static := program.errors.map Diagnostic.parse
      dsimp only
      cases empty : program.statements.isEmpty with
      | true =>
          left
          refine ⟨⟨static, none⟩, (parsed.note .nothingToRun).journal, fun sink => ?_⟩
          exact if_pos rfl
      | false =>
          let resolved := machine.resolved tokens
          let begun := parsed.noteAll fun _ => resolved.notes.map .resolver
          cases accepted : resolved.error with
          | some error =>
              left
              refine ⟨⟨static ++ [.resolve error], none⟩, begun.journal, fun sink => ?_⟩
              apply (if_neg Bool.false_ne_true).trans
              exact runStatements_refused rfl accepted
          | none =>
              right
              refine ⟨static, resolved.statements,
                begun.note (.interpreting resolved.statements.length), fun sink => ⟨?_, ?_⟩⟩
              · change (if false || resolved.error.isSome then _ else _) = _
                rw [accepted]
                rfl
              · apply (if_neg Bool.false_ne_true).trans
                exact runStatements_accepted rfl accepted

theorem conclude_limited (limit : Nat) (static : List Diagnostic)
    (outcome : Outcome Fault Machine Unit) :
    conclude static (outcome.mapState (.limited limit)) =
      (conclude static outcome).map fun (status, later) => (status, later.limited limit) := by
  have flushed : ∀ ended : Machine, (ended.limited limit).sink.flush = ended.sink.flush :=
    fun _ => rfl
  cases outcome with
  | exhausted => rfl
  | value _ ended | failure fault ended =>
      dsimp only [Outcome.mapState, conclude]
      rw [flushed]
      cases ended.sink.flush <;> rfl

theorem Machine.printTo_unlimited (machine : Machine) :
    (machine.printTo .unbounded).Unlimited :=
  ⟨rfl, Or.inl rfl⟩

theorem Machine.printTo_limited (machine : Machine) (limit : Nat) :
    machine.printTo ⟨"", some limit, false⟩ = (machine.printTo .unbounded).limited limit :=
  rfl

/-- A run that is given a sink for a number of lines, compared with the run on a sink that takes
everything.  If the lines suffice, the run ends alike, on a machine that differs only in what its
sink still takes.  Otherwise the sink takes those lines of the whole output and no more; the run
fails at the print that exceeds them, and its machine is the one that this print had come to, with
the outer frame active again and the failure noted. -/
theorem limited_sink_only_cuts_output {fuel : Nat} {source : String} {machine later : Machine}
    {status : Status} (limit : Nat)
    (ran : runSource fuel source (machine.printTo .unbounded) = some (status, later)) :
    (lineCount later.sink.accepted ≤ limit →
      runSource fuel source (machine.printTo ⟨"", some limit, false⟩) =
        some (status, later.printTo
          ⟨later.sink.accepted, some (limit - lineCount later.sink.accepted), false⟩)) ∧
    (limit < lineCount later.sink.accepted →
      ∃ depth expr start initializing value current taken,
        Occurs fuel source (machine.printTo .unbounded)
          ⟨depth + 1, .execute (.print expr), start, initializing⟩ ∧
        evaluate depth expr start = .value value current ∧
        lineCount current.sink.accepted ≤ limit ∧
        limit < lineCount (current.sink.accepted ++ (value.text ++ "\n")) ∧
        TakesLines limit later.sink.accepted taken ∧
        runSource fuel source (machine.printTo ⟨"", some limit, false⟩) =
          some (⟨status.static, some (.output .sinkFull)⟩,
            { current with
              sink := ⟨taken, some 0, false⟩
              active := machine.active
              journal := current.journal.record (.runFailed (.output .sinkFull)) })) := by
  rw [Machine.printTo_limited]
  rcases runSource_printTo fuel source machine with ⟨found, journal, runs⟩ |
      ⟨static, statements, begun, runs⟩
  · rw [runs] at ran
    cases ran
    exact ⟨fun _ => runs _, fun excess => nomatch excess⟩
  · obtain ⟨begins, executed⟩ := runs .unbounded
    obtain ⟨_, limitedRun⟩ := runs (Sink.unbounded.limited limit)
    rw [executed] at ran
    obtain ⟨fault, ended, ends, sameRest, rfl⟩ := Ends.of_conclude ran
    have printed : later.sink = ended.sink := by
      rw [sameRest]
    obtain ⟨prolongs, ends⟩ :=
      executeEach_trims limit fuel statements begun.printTo_unlimited ended ends.state?
    have flushes : later.sink.flushFails = false := by
      rw [printed]
      exact prolongs.flushFails_eq
    rcases ends (Nat.zero_le limit) with ⟨room, equal⟩ | ⟨stopped, overflows, failed⟩
    · rw [← printed] at room
      refine ⟨fun _ => ?_, fun excess => absurd room (Nat.not_le_of_lt excess)⟩
      apply limitedRun.trans
      apply (congrArg (conclude static) equal).trans
      rw [conclude_limited, ran, ← flushes]
      rfl
    · obtain ⟨text, current, taken, active, overflow, rfl⟩ := overflows
      obtain ⟨depth, expr, start, initializing, value, ⟨first, starts, reaches⟩, printing, rfl⟩ :=
        overflow.prints
      have excess := overflow.lt_lineCount
      have takes := overflow.takesLines
      rw [← printed] at excess takes
      have cut : runSource fuel source ((machine.printTo .unbounded).limited limit) =
          some (⟨static, some (.output .sinkFull)⟩,
            { current with
              sink := ⟨taken, some 0, false⟩
              active := active
              journal := current.journal.record (.runFailed (.output .sinkFull)) }) := by
        apply limitedRun.trans
        apply (congrArg (conclude static) failed).trans
        rw [← overflow.flushFails_eq, ← printed, flushes]
        rfl
      have restored : active = machine.active := (runSource_resumes cut).active
      subst restored
      refine ⟨fun room => absurd room (Nat.not_le_of_lt excess), fun _ => ?_⟩
      exact ⟨depth, expr, start, initializing, value, current, taken,
        ⟨_, _, first, begins, starts, reaches⟩, printing, overflow.room, overflow.excess, takes,
        cut⟩

/-- A text that prints inside two calls and then once more. -/
def chatty : String :=
  "fun show(text) \x7b print text; return \"!\"; \x7d print show(\"a\nb\") + show(\"c\");"

/-- With room for one line the run ends in the first call, within the text that is printed there. -/
theorem limited_sink_only_cuts_output_call :
    ∃ status later, runSource 20 chatty
        ((Machine.new .unbounded (fun _ => .ok 0) .silent).printTo .unbounded) =
          some (status, later) ∧
      status.fault = none ∧ later.sink.accepted = "a\nb\nc\n!!\n" ∧
      ∃ cut, runSource 20 chatty
          ((Machine.new .unbounded (fun _ => .ok 0) .silent).printTo ⟨"", some 1, false⟩) =
            some (⟨status.static, some (.output .sinkFull)⟩, cut) ∧
        TakesLines 1 "a\nb\nc\n!!\n" cut.sink.accepted := by
  have checked : (runSource 20 chatty
      ((Machine.new .unbounded (fun _ => .ok 0) .silent).printTo .unbounded)).any (fun ran =>
        decide (ran.1.fault.isNone ∧ ran.2.sink.accepted = "a\nb\nc\n!!\n")) = true := by
    decide +kernel
  obtain ⟨⟨status, later⟩, ran, holds⟩ := (Option.any_eq_true _ _).mp checked
  obtain ⟨fine, printed⟩ := of_decide_eq_true holds
  have excess : 1 < lineCount later.sink.accepted := by
    rw [printed]
    decide +kernel
  obtain ⟨_, _, _, _, _, _, taken, _, _, _, _, takes, cut⟩ :=
    (limited_sink_only_cuts_output 1 ran).2 excess
  rw [printed] at takes
  exact ⟨status, later, ran, Option.isNone_iff_eq_none.mp fine, printed, _, cut, takes⟩

end LexicalScript
