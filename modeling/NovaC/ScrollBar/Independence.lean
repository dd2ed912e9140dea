import NovaC.ScrollBar.Conservation
import NovaC.ScrollBar.Drift

namespace NovaC.ScrollBar

open NovaC.C

/-! Nothing is carried from one window or axis to another: as long as the wheel stays with
a window, each of its bars scrolls as if its own events were the only ones.
-/

section Step

variable {wheel other after : Wheel} {event : Event} {hwnd : HWND} {axis : Axis}

/-- What an event for the window and axis can find in the accumulator. -/
def Wheel.held (wheel : Wheel) (hwnd : HWND) (axis : Axis) : Int :=
  if wheel.hwndCurrent = some hwnd then wheel.accumulator axis else 0

/-- The lines and the rest of an accumulator after the resets. -/
def Event.consume (event : Event) (accumulator : Int) : Option (Int × Int) :=
  if 0 < event.linesPerDelta then do
    let accumulator ← addInt accumulator event.delta.toInt
    let product ← mulInt accumulator (toInt event.linesPerDelta.toNat)
    let scrolled := product.tdiv WHEEL_DELTA
    let consumed ← mulInt scrolled WHEEL_DELTA
    let accumulator ← addInt accumulator (-(consumed.tdiv (toInt event.linesPerDelta.toNat)))
    pure (scrolled, accumulator)
  else pure (0, 0)

/-- The static variables after an event that leaves `accumulator`. -/
def Wheel.leave (wheel : Wheel) (event : Event) (accumulator : Int) : Wheel :=
  { wheel.reset event with
    accumulator := Function.update (wheel.reset event).accumulator event.axis accumulator
    lastActivity := Function.update (wheel.reset event).lastActivity event.axis event.now }

theorem wheelScrollLines_eq (wheel : Wheel) (event : Event) :
    wheelScrollLines wheel event =
      (event.consume ((wheel.reset event).accumulator event.axis)).map fun result =>
        (event.axis.orientation * result.1, wheel.leave event result.2) := by
  by_cases some : 0 < event.linesPerDelta
  · cases axis : event.axis with
    | vertical =>
        simp only [wheelScrollLines, Event.consume, Wheel.leave, axis, if_pos some,
          Axis.orientation, Int.neg_one_mul, Option.map_eq_bind, Option.bind_eq_bind,
          Option.pure_def, Option.bind_assoc, Option.bind_some, Function.comp_def]
    | horizontal =>
        simp only [wheelScrollLines, Event.consume, Wheel.leave, axis, if_pos some,
          Axis.orientation, Int.one_mul, Option.map_eq_bind, Option.bind_eq_bind,
          Option.pure_def, Option.bind_assoc, Option.bind_some, Function.comp_def]
  · simp only [wheelScrollLines, Event.consume, Wheel.leave, if_neg some, Option.pure_def,
      Option.bind_eq_bind, Option.bind_some, Option.map_some, Int.mul_zero]
    cases event.axis <;> rfl

@[simp] theorem reset_hwndCurrent (wheel : Wheel) (event : Event) :
    (wheel.reset event).hwndCurrent = some event.hwnd := by
  unfold Wheel.reset
  split
  · rfl
  · next stayed =>
      have same := not_not.mp stayed
      split
      · exact same
      · split
        · exact same
        · exact same

@[simp] theorem reset_lastActivity (wheel : Wheel) (event : Event) :
    (wheel.reset event).lastActivity = wheel.lastActivity := by
  unfold Wheel.reset
  split
  · rfl
  · split
    · rfl
    · split <;> rfl

/-- The resets depend on what is held for the bar, and on its last event only if there is
something. -/
theorem reset_accumulator (wheel : Wheel) (event : Event) :
    (wheel.reset event).accumulator event.axis =
      let held := wheel.held event.hwnd event.axis
      if held = 0 ∨ event.doubleClickTime * 2 < event.now - wheel.lastActivity event.axis ∨
          decide (0 < held) = decide (event.delta.toInt < 0) then 0
      else held := by
  by_cases stayed : wheel.hwndCurrent = some event.hwnd
  · simp only [Wheel.reset, Wheel.held, stayed, ne_eq, not_true_eq_false, if_false, if_true]
    by_cases inactive : event.doubleClickTime * 2 < event.now - wheel.lastActivity event.axis
    · simp [inactive]
    · by_cases reversed : decide (0 < wheel.accumulator event.axis) =
          decide (event.delta.toInt < 0)
      · simp [inactive, reversed]
      · simp [inactive, reversed]
  · simp [Wheel.reset, Wheel.held, stayed]

/-- An event of another axis leaves what is held. -/
theorem held_leave_of_ne (wheel : Wheel) (event : Event) (accumulator : Int)
    (another : axis ≠ event.axis) :
    (wheel.leave event accumulator).held event.hwnd axis = wheel.held event.hwnd axis := by
  simp only [Wheel.held, Wheel.leave, reset_hwndCurrent, if_true,
    Function.update_of_ne another]
  by_cases stayed : wheel.hwndCurrent = some event.hwnd
  · rw [if_pos stayed, Wheel.reset, if_neg (not_not.mpr stayed)]
    split
    · exact Function.update_of_ne another _ _
    · split
      · exact Function.update_of_ne another _ _
      · rfl
  · rw [if_neg stayed, Wheel.reset, if_pos stayed]

theorem held_leave (wheel : Wheel) (event : Event) (accumulator : Int) :
    (wheel.leave event accumulator).held event.hwnd event.axis = accumulator := by
  simp [Wheel.held, Wheel.leave]

end Step

section Run

variable {state alone next last : State} {event : Event} {events before segment : List Event}
  {hwnd : HWND} {axis : Axis} {lines : Int} {log : List (Event × Int)}

/-- How far `CustomHandleMouseWheel` moves the client area for a number of lines. -/
def clientDistance (nOldPos lines : Int) : Option Int := do
  let nPos ← addInt nOldPos lines
  let difference ← addInt nOldPos (-nPos)
  mulInt difference scrollUnit

/-- The state after an event that leaves `wheel` and moves the client area by `distance`. -/
def State.move (state : State) (event : Event) (wheel : Wheel) (distance : Int) : State where
  wheel := wheel
  position := state.position
  moved := update state.moved event.hwnd event.axis
    (state.moved event.hwnd event.axis + distance)

theorem customHandleMouseWheel_eq (state : State) (event : Event) :
    customHandleMouseWheel state event =
      (wheelScrollLines state.wheel event).bind fun result =>
        (clientDistance (state.position event.hwnd event.axis).1 result.1).map fun distance =>
          (result.1, state.move event result.2 distance) := by
  simp only [customHandleMouseWheel, clientDistance, State.move, update_same,
    Option.bind_eq_bind, Option.pure_def, Option.map_eq_bind, Option.bind_assoc, Function.comp_def]

theorem customHandleMouseWheel_inv
    (handled : customHandleMouseWheel state event = some (lines, next)) :
    ∃ result distance, event.consume ((state.wheel.reset event).accumulator event.axis) =
        some result ∧
      lines = event.axis.orientation * result.1 ∧
      clientDistance (state.position event.hwnd event.axis).1 lines = some distance ∧
      next = state.move event (state.wheel.leave event result.2) distance := by
  rw [customHandleMouseWheel_eq, wheelScrollLines_eq] at handled
  obtain ⟨scrolled, returned, rest⟩ := Option.bind_eq_some_iff.mp handled
  obtain ⟨result, consumed, rfl⟩ := Option.map_eq_some_iff.mp returned
  obtain ⟨distance, shifted, same⟩ := Option.map_eq_some_iff.mp rest
  obtain ⟨rfl, rfl⟩ := Prod.mk.inj same
  exact ⟨result, distance, consumed, rfl, shifted, rfl⟩

/-- The two states cannot be told apart by the events of one bar of one window. -/
structure Alike (hwnd : HWND) (axis : Axis) (state alone : State) : Prop where
  held : state.wheel.held hwnd axis = alone.wheel.held hwnd axis
  lastActivity : state.wheel.held hwnd axis ≠ 0 →
    state.wheel.lastActivity axis = alone.wheel.lastActivity axis
  position : state.position = alone.position
  moved : state.moved hwnd axis = alone.moved hwnd axis

theorem Alike.reset (alike : Alike event.hwnd event.axis state alone) :
    (state.wheel.reset event).accumulator event.axis =
      (alone.wheel.reset event).accumulator event.axis := by
  rw [reset_accumulator, reset_accumulator, ← alike.held]
  by_cases empty : state.wheel.held event.hwnd event.axis = 0
  · simp [empty]
  · rw [alike.lastActivity empty]

/-- An event of the bar scrolls as far from either state. -/
theorem Alike.handle (alike : Alike event.hwnd event.axis state alone)
    (handled : customHandleMouseWheel state event = some (lines, next)) :
    ∃ nextAlone, customHandleMouseWheel alone event = some (lines, nextAlone) ∧
      Alike event.hwnd event.axis next nextAlone := by
  obtain ⟨result, distance, consumed, rfl, shifted, rfl⟩ := customHandleMouseWheel_inv handled
  rw [alike.reset] at consumed
  rw [alike.position] at shifted
  refine ⟨alone.move event (alone.wheel.leave event result.2) distance, ?_, ?held, ?lastActivity,
    alike.position, ?moved⟩
  · rw [customHandleMouseWheel_eq, wheelScrollLines_eq, consumed, Option.map_some,
      Option.bind_some, shifted, Option.map_some]
  case held => exact (held_leave _ _ _).trans (held_leave _ _ _).symm
  case lastActivity => simp [State.move, Wheel.leave]
  case moved => simp [State.move, update, alike.moved]

/-- An event of the window's other bar leaves the states alike. -/
theorem Alike.handle_other (alike : Alike event.hwnd axis state alone)
    (another : event.axis ≠ axis)
    (handled : customHandleMouseWheel state event = some (lines, next)) :
    Alike event.hwnd axis next alone := by
  obtain ⟨result, distance, consumed, rfl, shifted, rfl⟩ := customHandleMouseWheel_inv handled
  have held := held_leave_of_ne state.wheel event result.2 another.symm
  refine ⟨held.trans alike.held, ?lastActivity, alike.position, ?moved⟩
  case lastActivity =>
    intro some
    replace some := held.symm.trans_ne some
    simpa [State.move, Wheel.leave, Function.update_of_ne another.symm] using
      alike.lastActivity some
  case moved => simp [State.move, update, Function.update_of_ne another.symm, alike.moved]

theorem run_cons_some (ran : run state (event :: events) = some (log, last)) :
    ∃ lines next rest, customHandleMouseWheel state event = some (lines, next) ∧
      run next events = some (rest, last) ∧ log = (event, lines) :: rest := by
  rw [run_cons] at ran
  obtain ⟨⟨lines, next⟩, handled, ran⟩ := Option.bind_eq_some_iff.mp ran
  obtain ⟨⟨rest, after⟩, ranRest, same⟩ := Option.map_eq_some_iff.mp ran
  obtain ⟨rfl, rfl⟩ := Prod.mk.inj same
  exact ⟨lines, next, rest, handled, ranRest, rfl⟩

theorem Alike.run_filter (alike : Alike hwnd axis state alone)
    (stays : ∀ event ∈ events, event.hwnd = hwnd) (ran : run state events = some (log, last)) :
    ∃ lastAlone, run alone (events.filter fun event => event.axis = axis) =
        some (log.filter fun entry => entry.1.axis = axis, lastAlone) ∧
      Alike hwnd axis last lastAlone := by
  induction events generalizing state alone log with
  | nil =>
      cases ran
      exact ⟨alone, rfl, alike⟩
  | cons event events ih =>
      obtain ⟨lines, next, rest, handled, ranRest, rfl⟩ := run_cons_some ran
      have later : ∀ event ∈ events, event.hwnd = hwnd := fun event member =>
        stays event (List.mem_cons_of_mem _ member)
      obtain rfl := stays event List.mem_cons_self
      by_cases own : event.axis = axis
      · subst own
        obtain ⟨nextAlone, handledAlone, alikeNext⟩ := alike.handle handled
        obtain ⟨lastAlone, ranAlone, alikeLast⟩ := ih alikeNext later ranRest
        refine ⟨lastAlone, ?_, alikeLast⟩
        rw [List.filter_cons_of_pos (by simp), List.filter_cons_of_pos (by simp), run_cons,
          handledAlone, Option.bind_some, ranAlone, Option.map_some]
      · obtain ⟨lastAlone, ranAlone, alikeLast⟩ :=
          ih (alike.handle_other own handled) later ranRest
        refine ⟨lastAlone, ?_, alikeLast⟩
        rw [List.filter_cons_of_neg (by simpa using own),
          List.filter_cons_of_neg (by simpa using own), ranAlone]

theorem run_append (ran : run state (before ++ segment) = some (log, last)) :
    ∃ earlier middle, run state before = some (earlier, middle) ∧
      run middle segment = some (log.drop before.length, last) := by
  induction before generalizing state log with
  | nil => exact ⟨[], state, rfl, ran⟩
  | cons event events ih =>
      obtain ⟨lines, next, rest, handled, ranRest, rfl⟩ := run_cons_some ran
      obtain ⟨earlier, middle, ranBefore, ranSegment⟩ := ih ranRest
      refine ⟨(event, lines) :: earlier, middle, ?_, ranSegment⟩
      rw [run_cons, handled, Option.bind_some, ranBefore]
      rfl

/-- The wheel stays with the window of the last event. -/
theorem run_hwndCurrent (ran : run state events = some (log, last)) :
    last.wheel.hwndCurrent =
      (events.getLast?.map Event.hwnd).or state.wheel.hwndCurrent := by
  induction events generalizing state log with
  | nil =>
      cases ran
      rfl
  | cons event events ih =>
      obtain ⟨lines, next, rest, handled, ranRest, rfl⟩ := run_cons_some ran
      obtain ⟨result, distance, -, -, -, rfl⟩ := customHandleMouseWheel_inv handled
      rw [ih ranRest, List.getLast?_cons]
      cases events.getLast? <;> simp [State.move, Wheel.leave]

/-- While the wheel stays with a window, each of its bars scrolls as far, and moves the
client area as far, as if no other event had come since the program started. -/
theorem run_independent (started : state.wheel = .start)
    (elsewhere : ∀ event ∈ before.getLast?, event.hwnd ≠ hwnd)
    (stays : ∀ event ∈ segment, event.hwnd = hwnd)
    (ran : run state (before ++ segment) = some (log, last)) (axis : Axis) :
    ∃ earlier middle, run state before = some (earlier, middle) ∧
      ∃ alone, run { middle with wheel := .start } (segment.filter fun event => event.axis = axis) =
          some ((log.drop before.length).filter fun entry => entry.1.axis = axis, alone) ∧
        alone.moved hwnd axis = last.moved hwnd axis := by
  obtain ⟨earlier, middle, ranBefore, ranSegment⟩ := run_append ran
  have left : middle.wheel.hwndCurrent ≠ some hwnd := by
    rw [run_hwndCurrent ranBefore, started]
    cases latest : before.getLast? with
    | none => simp [Wheel.start]
    | some event => simpa using elsewhere event latest
  have nothingHeld : middle.wheel.held hwnd axis = 0 := if_neg left
  have alike : Alike hwnd axis middle { middle with wheel := .start } :=
    ⟨nothingHeld.trans (by simp [Wheel.held, Wheel.start]),
      fun some => absurd nothingHeld some, rfl, rfl⟩
  obtain ⟨alone, ranAlone, alikeLast⟩ := alike.run_filter stays ranSegment
  exact ⟨earlier, middle, ranBefore, alone, ranAlone, alikeLast.moved.symm⟩

end Run

/-- Half a notch in another window. -/
def elsewhereNotch : Event :=
  { notch with
    hwnd := 2
    delta := -60 }

theorem run_independent_elsewhereNotch :
    ∃ log last, run zeroState ([elsewhereNotch] ++ [notch, sevenths 119]) = some (log, last) ∧
      ∃ earlier middle, run zeroState [elsewhereNotch] = some (earlier, middle) ∧
        ∃ alone, run { middle with wheel := .start }
            ([notch, sevenths 119].filter fun event => event.axis = .horizontal) =
              some ((log.drop 1).filter fun entry => entry.1.axis = .horizontal, alone) ∧
          alone.moved 1 .horizontal = last.moved 1 .horizontal :=
  ⟨_, _, rfl, run_independent rfl (by decide) (by decide) rfl .horizontal⟩

end NovaC.ScrollBar
