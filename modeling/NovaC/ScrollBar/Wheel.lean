import NovaC.C.Int

namespace NovaC.ScrollBar

open NovaC.C

/-! `nova_scroll_proc`, `CustomHandleMouseWheel` and `WheelScrollLines` of
`NativeScrollBar.c`. What the system answers while an event is handled is part of the
event.
-/

abbrev HWND := Nat

inductive Axis where
  | vertical
  | horizontal
deriving DecidableEq

/-- A `WM_MOUSEWHEEL` or `WM_MOUSEHWHEEL` message. -/
structure Event where
  hwnd : HWND
  axis : Axis
  /-- `GET_WHEEL_DELTA_WPARAM` -/
  delta : Int16
  /-- `si.nPage` of `GetScrollInfo` -/
  nPage : UInt32
  /-- the number of lines or characters of `SystemParametersInfo`, if that succeeds -/
  systemLines : Option UInt32
  /-- `GetTickCount` -/
  now : UInt32
  /-- `GetDoubleClickTime` -/
  doubleClickTime : UInt32
deriving DecidableEq

def WHEEL_DELTA : Int :=
  120

/-- `UINT_MAX` -/
def WHEEL_PAGESCROLL : UInt32 :=
  4294967295

def scrollUnit : Int :=
  10

/-- The static variables of `WheelScrollLines`. -/
structure Wheel where
  hwndCurrent : Option HWND
  accumulator : Axis → Int
  lastActivity : Axis → UInt32

def Wheel.start : Wheel where
  hwndCurrent := none
  accumulator _ := 0
  lastActivity _ := 0

/-- `uLinesPerWHEELDELTA` -/
def Event.linesPerDelta (event : Event) : UInt32 :=
  let nPage := if event.nPage < 1 then 1 else event.nPage
  let lines := event.systemLines.getD 3
  let lines := if lines = WHEEL_PAGESCROLL then nPage else lines
  if nPage < lines then nPage else lines

/-- The resets of the accumulated values. -/
def Wheel.reset (wheel : Wheel) (event : Event) : Wheel :=
  if wheel.hwndCurrent ≠ some event.hwnd then
    { wheel with hwndCurrent := some event.hwnd, accumulator := fun _ => 0 }
  else if event.doubleClickTime * 2 < event.now - wheel.lastActivity event.axis then
    { wheel with accumulator := Function.update wheel.accumulator event.axis 0 }
  else if decide (0 < wheel.accumulator event.axis) = decide (event.delta.toInt < 0) then
    { wheel with accumulator := Function.update wheel.accumulator event.axis 0 }
  else wheel

/-- `WheelScrollLines`; an overflow has no meaning. -/
def wheelScrollLines (wheel : Wheel) (event : Event) : Option (Int × Wheel) := do
  let lines := event.linesPerDelta
  let wheel := wheel.reset event
  let (scrolled, accumulator) ←
    if 0 < lines then do
      let accumulator ← addInt (wheel.accumulator event.axis) event.delta.toInt
      let product ← mulInt accumulator (toInt lines.toNat)
      let scrolled := product.tdiv WHEEL_DELTA
      let consumed ← mulInt scrolled WHEEL_DELTA
      let accumulator ← addInt accumulator (-(consumed.tdiv (toInt lines.toNat)))
      pure (scrolled, accumulator)
    else pure (0, 0)
  pure (match event.axis with
      | .vertical => -scrolled
      | .horizontal => scrolled,
    { wheel with
      accumulator := Function.update wheel.accumulator event.axis accumulator
      lastActivity := Function.update wheel.lastActivity event.axis event.now })

structure State where
  wheel : Wheel
  /-- the position that `SetScrollPos` set last -/
  position : HWND → Axis → { position : Int // IsInt position }
  /-- how far `ScrollWindowEx` has moved the client area -/
  moved : HWND → Axis → Int

def update {α : Type} (table : HWND → Axis → α) (hwnd : HWND) (axis : Axis) (value : α) :
    HWND → Axis → α :=
  Function.update table hwnd (Function.update (table hwnd) axis value)

/-- `CustomHandleMouseWheel`, with the lines that `WheelScrollLines` returned. -/
def customHandleMouseWheel (state : State) (event : Event) : Option (Int × State) := do
  let siPos := state.position event.hwnd event.axis
  let nOldPos := siPos.1
  let (lines, wheel) ← wheelScrollLines state.wheel event
  let nPos ← addInt nOldPos lines
  let difference ← addInt nOldPos (-nPos)
  let distance ← mulInt difference scrollUnit
  pure (lines,
    { wheel
      position := update state.position event.hwnd event.axis siPos
      moved := update state.moved event.hwnd event.axis
        (state.moved event.hwnd event.axis + distance) })

/-- `nova_scroll_proc` for one event after the other, with the lines of each. -/
def run : State → List Event → Option (List (Event × Int) × State)
  | state, [] => some ([], state)
  | state, event :: events => do
      let (lines, next) ← customHandleMouseWheel state event
      let (rest, last) ← run next events
      pure ((event, lines) :: rest, last)

end NovaC.ScrollBar
