import NovaC.ScrollBar.Wheel

namespace NovaC.ScrollBar

open NovaC.C

variable {state next last : State} {event : Event} {events : List Event}

/-- The lines that `WheelScrollLines` returned for one bar of one window. -/
def total (hwnd : HWND) (axis : Axis) (lines : List (Event × Int)) : Int :=
  (lines.map fun line => if line.1.hwnd = hwnd ∧ line.1.axis = axis then line.2 else 0).sum

/-- Every bar has moved by the lines of its events, and the client area by as much the
other way. -/
def Follows (before after : State) (lines : List (Event × Int)) : Prop :=
  ∀ hwnd axis,
    ((after.position hwnd axis).1 : Int) = (before.position hwnd axis).1 + total hwnd axis lines ∧
      after.moved hwnd axis = before.moved hwnd axis -
        scrollUnit * ((after.position hwnd axis).1 - (before.position hwnd axis).1)

/-- Bar and client area follow the wheel after each event. -/
def Tracks (state : State) (events : List Event) : Prop :=
  ∀ count ≤ events.length, ∃ lines after, run state (events.take count) = some (lines, after) ∧
    Follows state after lines

/-- The deltas that have come together are too small for a line. -/
def Quiet (wheel : Wheel) (event : Event) : Prop :=
  event.linesPerDelta = 0 ∨
    (((wheel.reset event).accumulator event.axis + event.delta.toInt) *
      toInt event.linesPerDelta.toNat).natAbs < 120

/-- The wheel after an event that scrolls no line. -/
def Wheel.gather (wheel : Wheel) (event : Event) : Wheel :=
  { wheel.reset event with
    accumulator := Function.update (wheel.reset event).accumulator event.axis
      (if 0 < event.linesPerDelta then (wheel.reset event).accumulator event.axis + event.delta.toInt
        else 0)
    lastActivity := Function.update (wheel.reset event).lastActivity event.axis event.now }

/-- Every event of the run is quiet in the state that it finds. -/
def AlwaysQuiet : Wheel → List Event → Prop
  | _, [] => True
  | wheel, event :: events => Quiet wheel event ∧ AlwaysQuiet (wheel.gather event) events

theorem tdiv_delta_eq_zero_iff (product : Int) :
    product.tdiv WHEEL_DELTA = 0 ↔ product.natAbs < 120 := by
  have magnitude : (product.tdiv WHEEL_DELTA).natAbs = product.natAbs / 120 :=
    Int.natAbs_tdiv product WHEEL_DELTA
  rw [← Int.natAbs_eq_zero, magnitude, Nat.div_eq_zero_iff]
  omega

theorem toInt_ne_zero {lines : UInt32} (some : 0 < lines) : toInt (lines.toNat : Int) ≠ 0 := by
  have positive : 0 < lines.toNat := UInt32.lt_iff_toNat_lt.mp some
  have bounded := lines.toNat_lt
  rw [toInt, Int.bmod_def]
  split <;> omega

theorem wheelScrollLines_of_quiet {wheel : Wheel} (quiet : Quiet wheel event) :
    wheelScrollLines wheel event = some (0, wheel.gather event) := by
  by_cases some : 0 < event.linesPerDelta
  · have small := quiet.resolve_left (by
      intro zero
      rw [zero] at some
      exact absurd some (by decide))
    have nonzero := toInt_ne_zero some
    generalize sum : (wheel.reset event).accumulator event.axis + event.delta.toInt = gathered at small
    generalize factor : toInt (event.linesPerDelta.toNat : Int) = lines at small nonzero
    have bound : gathered.natAbs < 120 := by
      have positive : 1 ≤ lines.natAbs := by omega
      rw [Int.natAbs_mul] at small
      exact Nat.lt_of_le_of_lt (Nat.le_mul_of_pos_right _ positive) small
    have noLines := (tdiv_delta_eq_zero_iff _).mpr small
    have added : addInt ((wheel.reset event).accumulator event.axis) event.delta.toInt =
        .some gathered := by
      rw [addInt, sum, if_pos ⟨by omega, by omega⟩]
    have product : mulInt gathered lines = .some (gathered * lines) := by
      rw [mulInt, if_pos ⟨by omega, by omega⟩]
    have consumed : mulInt 0 WHEEL_DELTA = .some 0 := rfl
    have kept : addInt gathered (-Int.tdiv 0 lines) = .some gathered := by
      rw [Int.zero_tdiv, addInt, Int.neg_zero, Int.add_zero, if_pos ⟨by omega, by omega⟩]
    simp only [wheelScrollLines, if_pos some, added, factor, product, noLines, consumed, kept,
      Option.bind_eq_bind, Option.bind_some, Option.pure_def, Wheel.gather, sum]
    cases event.axis <;> rfl
  · simp only [wheelScrollLines, if_neg some, Option.pure_def, Option.bind_eq_bind, Option.bind_some,
      Wheel.gather]
    cases event.axis <;> rfl

theorem quiet_of_wheelScrollLines {wheel after : Wheel}
    (returned : wheelScrollLines wheel event = some (0, after)) : Quiet wheel event := by
  by_cases some : 0 < event.linesPerDelta
  · right
    simp only [wheelScrollLines, if_pos some, Option.bind_eq_bind, Option.pure_def] at returned
    obtain ⟨accumulator, added, rest⟩ := Option.bind_eq_some_iff.mp returned
    obtain ⟨product, multiplied, rest⟩ := Option.bind_eq_some_iff.mp rest
    obtain ⟨consumed, -, rest⟩ := Option.bind_eq_some_iff.mp rest
    obtain ⟨left, -, rest⟩ := Option.bind_eq_some_iff.mp rest
    have lines : product.tdiv WHEEL_DELTA = 0 := by
      have signed := congrArg Prod.fst (Option.some.inj rest)
      cases axis : event.axis with
      | vertical =>
          simp only [axis] at signed
          omega
      | horizontal =>
          simp only [axis] at signed
          exact signed
    rw [tdiv_delta_eq_zero_iff, (mulInt_some multiplied).1, (addInt_some added).1] at lines
    exact lines
  · left
    exact UInt32.toNat_inj.mp (Nat.eq_zero_of_not_pos fun positive =>
      some (UInt32.lt_iff_toNat_lt.mpr positive))

def State.gather (state : State) (event : Event) : State :=
  { state with wheel := state.wheel.gather event }

theorem update_same {α : Type} (table : HWND → Axis → α) (hwnd : HWND) (axis : Axis) :
    update table hwnd axis (table hwnd axis) = table := by
  rw [update, Function.update_eq_self, Function.update_eq_self]

theorem customHandleMouseWheel_of_quiet (quiet : Quiet state.wheel event) :
    customHandleMouseWheel state event = some (0, state.gather event) := by
  have inRange := (state.position event.hwnd event.axis).2
  have there : addInt (state.position event.hwnd event.axis).1 0 =
      some (state.position event.hwnd event.axis).1 := by
    rw [addInt, Int.add_zero, if_pos inRange]
  have difference : addInt (state.position event.hwnd event.axis).1
      (-(state.position event.hwnd event.axis).1) = some 0 := by
    rw [addInt, Int.add_right_neg]
    rfl
  have distance : mulInt 0 scrollUnit = some 0 := rfl
  simp only [customHandleMouseWheel, wheelScrollLines_of_quiet quiet, Option.bind_eq_bind,
    Option.bind_some, Option.pure_def, there, difference, distance, Int.add_zero, update_same]
  rfl

/-- Whatever was scrolled, the bar stays where it is. -/
theorem customHandleMouseWheel_some {lines : Int}
    (handled : customHandleMouseWheel state event = some (lines, next)) :
    next.position = state.position ∧ ∃ after, wheelScrollLines state.wheel event =
      some (lines, after) := by
  simp only [customHandleMouseWheel, Option.bind_eq_bind, Option.pure_def] at handled
  obtain ⟨result, scrolled, rest⟩ := Option.bind_eq_some_iff.mp handled
  obtain ⟨nPos, -, rest⟩ := Option.bind_eq_some_iff.mp rest
  obtain ⟨difference, -, rest⟩ := Option.bind_eq_some_iff.mp rest
  obtain ⟨distance, -, rest⟩ := Option.bind_eq_some_iff.mp rest
  obtain ⟨rfl, rfl⟩ := Prod.mk.inj (Option.some.inj rest)
  exact ⟨update_same _ _ _, result.2, scrolled⟩

theorem run_cons (state : State) (event : Event) (events : List Event) :
    run state (event :: events) =
      (customHandleMouseWheel state event).bind fun handled =>
        (run handled.2 events).map fun rest => ((event, handled.1) :: rest.1, rest.2) := by
  simp only [run, Option.bind_eq_bind, Option.pure_def, Option.map_eq_bind]
  rfl

theorem follows_cons {before middle after : State} (samePosition : middle.position = before.position)
    (sameMoved : middle.moved = before.moved) (lines : List (Event × Int)) :
    Follows before after ((event, 0) :: lines) ↔ Follows middle after lines := by
  have sum : ∀ hwnd axis, total hwnd axis ((event, 0) :: lines) = total hwnd axis lines := by
    intro hwnd axis
    simp [total]
  simp only [Follows, sum, samePosition, sameMoved]

theorem follows_refl (state : State) : Follows state state [] := by
  intro hwnd axis
  simp [total]

theorem Follows.lines_eq_zero {after : State} {lines : Int}
    (follows : Follows state after [(event, lines)]) (same : after.position = state.position) :
    lines = 0 := by
  have moved := (follows event.hwnd event.axis).1
  simp only [same, total, List.map_cons, List.map_nil, and_self, if_true, List.sum_cons,
    List.sum_nil] at moved
  omega

theorem run_of_alwaysQuiet (quiet : AlwaysQuiet state.wheel events) (count : Nat) :
    ∃ lines after, run state (events.take count) = some (lines, after) ∧
      Follows state after lines := by
  induction events generalizing state count with
  | nil => exact ⟨[], state, by rw [List.take_nil, run], follows_refl state⟩
  | cons event events ih =>
      cases count with
      | zero => exact ⟨[], state, rfl, follows_refl state⟩
      | succ count =>
          obtain ⟨lines, after, ran, follows⟩ := @ih (state.gather event) quiet.2 count
          refine ⟨(event, 0) :: lines, after, ?_, (follows_cons rfl rfl lines).mpr follows⟩
          rw [List.take_succ_cons, run_cons, customHandleMouseWheel_of_quiet quiet.1,
            Option.bind_some, ran]
          rfl

/-- Bar and client area follow the wheel exactly as long as no event scrolls: the bar is
set to the position that it has. -/
theorem tracks_iff (state : State) (events : List Event) :
    Tracks state events ↔ AlwaysQuiet state.wheel events := by
  constructor
  · intro tracks
    induction events generalizing state with
    | nil => trivial
    | cons event events ih =>
        obtain ⟨lines, after, ran, follows⟩ := tracks 1 (by simp)
        rw [List.take_succ_cons, List.take_zero, run_cons] at ran
        obtain ⟨⟨scrolled, next⟩, handled, same⟩ := Option.bind_eq_some_iff.mp ran
        obtain ⟨rfl, rfl⟩ := Prod.mk.inj (Option.some.inj same)
        obtain ⟨samePosition, wheel, returned⟩ := customHandleMouseWheel_some handled
        obtain rfl := follows.lines_eq_zero samePosition
        have quiet := quiet_of_wheelScrollLines returned
        refine ⟨quiet, ih (state.gather event) fun count within => ?_⟩
        obtain ⟨lines, after, ran, follows⟩ := tracks (count + 1) (Nat.succ_le_succ within)
        rw [List.take_succ_cons, run_cons, customHandleMouseWheel_of_quiet quiet,
          Option.bind_some] at ran
        obtain ⟨⟨rest, last⟩, ranRest, same⟩ := Option.map_eq_some_iff.mp ran
        obtain ⟨rfl, rfl⟩ := Prod.mk.inj same
        exact ⟨rest, last, ranRest, (follows_cons rfl rfl rest).mp follows⟩
  · intro quiet count _
    exact run_of_alwaysQuiet quiet count

/-- A window whose bars are at 0, before the first event. -/
def zeroState : State where
  wheel := .start
  position _ _ := ⟨0, by decide⟩
  moved _ _ := 0

/-- One notch of the wheel towards the user, at three lines a notch. -/
def notch : Event where
  hwnd := 1
  axis := .vertical
  delta := -120
  nPage := 10
  systemLines := some 3
  now := 1000
  doubleClickTime := 500

/-- The client area moves by three lines, and the bar stays at 0. -/
theorem notch_drifts : ¬Tracks zeroState [notch] := by
  intro tracks
  obtain ⟨lines, after, ran, follows⟩ := tracks 1 (Nat.le_refl _)
  have moved := (follows 1 .vertical).1
  have handled : (run zeroState [notch]).map (fun result =>
      ((result.2.position 1 .vertical).1, total 1 .vertical result.1)) = some (0, 3) := by decide
  rw [show run zeroState [notch] = some (lines, after) from ran] at handled
  obtain ⟨bar, sum⟩ := Prod.mk.inj (Option.some.inj handled)
  rw [bar, sum] at moved
  exact absurd moved (by decide)

end NovaC.ScrollBar
