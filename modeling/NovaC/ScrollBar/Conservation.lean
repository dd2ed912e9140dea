import NovaC.Accumulation.Truncated
import NovaC.ScrollBar.Wheel

namespace NovaC.ScrollBar

open NovaC.C NovaC.Accumulation

/-- `WheelScrollLines` for one event after the other, with the lines of each. -/
def scrollAll : Wheel → List Event → Option (List Int × Wheel)
  | wheel, [] => some ([], wheel)
  | wheel, event :: events => do
      let (lines, wheel) ← wheelScrollLines wheel event
      let (rest, wheel) ← scrollAll wheel events
      some (lines :: rest, wheel)

/-- No event resets the accumulator of its axis. -/
def Undisturbed : Wheel → List Event → Prop
  | _, [] => True
  | wheel, event :: events =>
      (wheel.reset event).accumulator event.axis = wheel.accumulator event.axis ∧
        ∀ lines after, wheelScrollLines wheel event = some (lines, after) → Undisturbed after events

/-- Events for one bar of one window, in one direction, with a constant number of lines
for each notch, from an empty accumulator. No product is out of the range of an `int`. -/
structure Movement where
  wheel : Wheel
  events : List Event
  hwnd : HWND
  axis : Axis
  lines : Nat
  positive : 0 < lines
  isInt : IsInt lines
  empty : wheel.accumulator axis = 0
  steady : ∀ event ∈ events,
    event.hwnd = hwnd ∧ event.axis = axis ∧ event.linesPerDelta.toNat = lines
  sameSign : (∀ event ∈ events, 0 ≤ event.delta.toInt) ∨ ∀ event ∈ events, event.delta.toInt ≤ 0
  undisturbed : Undisturbed wheel events
  defined : ∃ result, scrollAll wheel events = some result

def deltaSum (events : List Event) : Int :=
  (events.map fun event => event.delta.toInt).sum

/-- How far each event turns the wheel. -/
def distances (events : List Event) : List Nat :=
  events.map fun event => event.delta.toInt.natAbs

/-- After each event, the lines so far are those of a single event for the whole
movement. -/
def Movement.Conserved (movement : Movement) : Prop :=
  ∃ lines after, scrollAll movement.wheel movement.events = some (lines, after) ∧
    ∀ count ≤ movement.events.length, (lines.take count).sum.natAbs =
      (deltaSum (movement.events.take count)).natAbs * movement.lines / 120

/-- The vertical wheel has the opposite sign. -/
def Axis.orientation : Axis → Int
  | .vertical => -1
  | .horizontal => 1

section Step

variable {wheel after : Wheel} {event : Event} {held distance lines : Nat} {sign scrolled : Int}

theorem tdiv_sign (signed : sign = 1 ∨ sign = -1) (amount divisor : Nat) :
    (sign * amount).tdiv divisor = sign * (amount / divisor : Nat) := by
  rcases signed with rfl | rfl
  · rw [Int.one_mul, Int.one_mul, Int.ofNat_tdiv]
  · rw [Int.neg_one_mul, Int.neg_one_mul, Int.neg_tdiv, Int.ofNat_tdiv]

theorem wheelScrollLines_held (signed : sign = 1 ∨ sign = -1) (positive : 0 < lines)
    (isInt : IsInt lines) (perDelta : event.linesPerDelta.toNat = lines)
    (accumulated : (wheel.reset event).accumulator event.axis = sign * held)
    (delta : event.delta.toInt = sign * distance)
    (returned : wheelScrollLines wheel event = some (scrolled, after)) :
    scrolled = event.axis.orientation * (sign * due 120 lines (held + distance)) ∧
      after.accumulator event.axis =
        sign * (held + distance - cost 120 lines (due 120 lines (held + distance)) : Nat) := by
  have some : 0 < event.linesPerDelta := by
    rw [UInt32.lt_iff_toNat_lt, perDelta]
    exact positive
  simp only [wheelScrollLines, if_pos some, Option.bind_eq_bind, Option.pure_def] at returned
  obtain ⟨accumulator, added, rest⟩ := Option.bind_eq_some_iff.mp returned
  obtain ⟨product, multiplied, rest⟩ := Option.bind_eq_some_iff.mp rest
  obtain ⟨consumed, consumes, rest⟩ := Option.bind_eq_some_iff.mp rest
  obtain ⟨left, leaves, rest⟩ := Option.bind_eq_some_iff.mp rest
  have reached : accumulator = sign * (held + distance : Nat) := by
    rw [(addInt_some added).1, accumulated, delta, Int.natCast_add, Int.mul_add]
  have lineCount : product.tdiv WHEEL_DELTA = sign * due 120 lines (held + distance) := by
    rw [(mulInt_some multiplied).1, perDelta, toInt_of_isInt isInt, reached, Int.mul_assoc,
      ← Int.natCast_mul]
    exact tdiv_sign signed _ 120
  have costs : consumed.tdiv (toInt event.linesPerDelta.toNat) =
      sign * cost 120 lines (due 120 lines (held + distance)) := by
    rw [(mulInt_some consumes).1, lineCount, perDelta, toInt_of_isInt isInt, Int.mul_assoc,
      WHEEL_DELTA]
    exact tdiv_sign signed (due 120 lines (held + distance) * 120) lines
  have le := @cost_due_le 120 lines (held + distance)
  have kept : left = sign *
      (held + distance - cost 120 lines (due 120 lines (held + distance)) : Nat) := by
    rw [(addInt_some leaves).1, costs, reached, Int.ofNat_sub le, Int.mul_sub, Int.sub_eq_add_neg]
  obtain ⟨isLines, rfl⟩ := Prod.mk.inj (Option.some.inj rest)
  refine ⟨?_, ?_⟩
  · rw [← isLines, lineCount]
    cases event.axis with
    | vertical => rw [Axis.orientation, Int.neg_one_mul]
    | horizontal => rw [Axis.orientation, Int.one_mul]
  · change Function.update (wheel.reset event).accumulator event.axis left event.axis = _
    rw [Function.update_self, kept]

end Step

section Run

variable {wheel after : Wheel} {event : Event} {events : List Event} {axis : Axis}
  {held lines : Nat} {sign : Int} {returned : List Int}

theorem scrollAll_cons (ran : scrollAll wheel (event :: events) = some (returned, after)) :
    ∃ lines middle rest, wheelScrollLines wheel event = some (lines, middle) ∧
      scrollAll middle events = some (rest, after) ∧ returned = lines :: rest := by
  obtain ⟨⟨lines, middle⟩, scrolls, ran⟩ := Option.bind_eq_some_iff.mp ran
  obtain ⟨⟨rest, last⟩, ranRest, same⟩ := Option.bind_eq_some_iff.mp ran
  cases same
  exact ⟨lines, middle, rest, scrolls, ranRest, rfl⟩

theorem scrollAll_handOut (signed : sign = 1 ∨ sign = -1) (positive : 0 < lines)
    (isInt : IsInt lines)
    (steady : ∀ event ∈ events, event.axis = axis ∧ event.linesPerDelta.toNat = lines ∧
      event.delta.toInt = sign * event.delta.toInt.natAbs)
    (undisturbed : Undisturbed wheel events) (accumulated : wheel.accumulator axis = sign * held)
    (ran : scrollAll wheel events = some (returned, after)) :
    returned = (handOut 120 lines held (distances events)).map fun pieces : Nat =>
      axis.orientation * (sign * pieces) := by
  induction events generalizing wheel held returned with
  | nil =>
      cases ran
      rfl
  | cons event events ih =>
      obtain ⟨scrolled, middle, rest, scrolls, ranRest, rfl⟩ := scrollAll_cons ran
      obtain ⟨sameAxis, perDelta, delta⟩ := steady event List.mem_cons_self
      obtain ⟨noReset, later⟩ := undisturbed
      subst sameAxis
      obtain ⟨rfl, left⟩ := wheelScrollLines_held signed positive isInt perDelta
        (noReset.trans accumulated) delta scrolls
      rw [ih (fun other member => steady other (List.mem_cons_of_mem _ member))
        (later _ middle scrolls) left ranRest]
      rfl

end Run

theorem sum_signed (factor : Int) (amounts : List Nat) :
    (amounts.map fun amount : Nat => factor * (amount : Int)).sum = factor * (amounts.sum : Nat) := by
  induction amounts with
  | nil => simp
  | cons amount amounts ih =>
      rw [List.map_cons, List.sum_cons, List.sum_cons, ih, Int.natCast_add, Int.mul_add]

theorem natAbs_sum_signed {factor : Int} (unit : factor.natAbs = 1) (amounts : List Nat) :
    (amounts.map fun amount : Nat => factor * (amount : Int)).sum.natAbs = amounts.sum := by
  rw [sum_signed, Int.natAbs_mul, unit, Nat.one_mul, Int.natAbs_natCast]

/-- Deltas of one sign add up to their distances. -/
theorem deltaSum_natAbs {events : List Event} {sign : Int} (unit : sign.natAbs = 1)
    (deltas : ∀ event ∈ events, event.delta.toInt = sign * event.delta.toInt.natAbs) :
    (deltaSum events).natAbs = (distances events).sum := by
  have signedSum : deltaSum events =
      ((distances events).map fun amount : Nat => sign * (amount : Int)).sum := by
    rw [deltaSum, distances, List.map_map]
    congr 1
    apply List.map_congr_left
    exact deltas
  rw [signedSum, natAbs_sum_signed unit]

namespace Movement

variable (movement : Movement)

theorem exists_sign : ∃ sign : Int, (sign = 1 ∨ sign = -1) ∧
    ∀ event ∈ movement.events, event.delta.toInt = sign * event.delta.toInt.natAbs := by
  rcases movement.sameSign with forward | backward
  · refine ⟨1, .inl rfl, fun event member => ?_⟩
    have sign := forward event member
    omega
  · refine ⟨-1, .inr rfl, fun event member => ?_⟩
    have sign := backward event member
    omega

/-- A movement scrolls what it should after each event exactly when what the second
division rounds away never makes up a line. -/
theorem conserved_iff :
    movement.Conserved ↔ Lossless 120 movement.lines 0 0 (distances movement.events) := by
  obtain ⟨sign, signed, deltas⟩ := movement.exists_sign
  obtain ⟨⟨returned, after⟩, ran⟩ := movement.defined
  have empty : movement.wheel.accumulator movement.axis = sign * (0 : Nat) := by
    rw [movement.empty]
    simp
  have scrolled := scrollAll_handOut signed movement.positive movement.isInt
    (fun event member => ⟨(movement.steady event member).2.1, (movement.steady event member).2.2,
      deltas event member⟩) movement.undisturbed empty ran
  have unit : (movement.axis.orientation * sign).natAbs = 1 := by
    rcases signed with rfl | rfl <;> cases movement.axis <;> rfl
  have lineSum : ∀ count, (returned.take count).sum.natAbs =
      ((handOut 120 movement.lines 0 (distances movement.events)).take count).sum := by
    intro count
    simp only [scrolled, ← Int.mul_assoc, ← List.map_take]
    exact natAbs_sum_signed unit _
  have distance : ∀ count, (deltaSum (movement.events.take count)).natAbs =
      ((distances movement.events).take count).sum := by
    intro count
    have signUnit : sign.natAbs = 1 := by
      rcases signed with rfl | rfl <;> rfl
    rw [deltaSum_natAbs signUnit fun event member => deltas event (List.mem_of_mem_take member),
      distances, distances, List.map_take]
  have shared := @handOut_due_iff 120 movement.lines (by omega) 0 0 0
    (distances movement.events) (by simp)
  have noneDue : due 120 movement.lines 0 = 0 := by simp [due]
  rw [← shared]
  simp only [Nat.zero_add, noneDue, Nat.sub_zero, distances, List.length_map]
  constructor
  · intro conserved count within
    obtain ⟨lines, last, sameRun, conserved⟩ := conserved
    obtain ⟨rfl, rfl⟩ := Prod.mk.inj (Option.some.inj (ran.symm.trans sameRun))
    have here := conserved count within
    rwa [lineSum, distance, distances] at here
  · intro conserved
    refine ⟨returned, after, ran, fun count within => ?_⟩
    rw [lineSum, distance, distances]
    exact conserved count within

/-- With 1, 2, 3, 4, 5, 6, 8 or 10 lines for a notch, say, movements scroll what they
should. -/
theorem conserved_of_dvd (divides : movement.lines ∣ 120 ∨ 120 ∣ movement.lines) :
    movement.Conserved := by
  rw [conserved_iff]
  exact lossless_of_dvd (by omega) divides 0 _

end Movement

/-- Seven columns for a notch. -/
def sevenths (delta : Int16) : Event where
  hwnd := 1
  axis := .horizontal
  delta := delta
  nPage := 10
  systemLines := some 7
  now := 1000
  doubleClickTime := 500

def sampleMovement : Movement where
  wheel := .start
  events := [sevenths 18, sevenths 119]
  hwnd := 1
  axis := .horizontal
  lines := 7
  positive := by decide
  isInt := by decide
  empty := rfl
  steady := by decide
  sameSign := .inl (by decide)
  undisturbed := by
    refine ⟨rfl, fun lines after scrolls => ?_⟩
    obtain ⟨rfl, rfl⟩ := Prod.mk.inj (Option.some.inj scrolls)
    exact ⟨rfl, fun _ _ _ => trivial⟩
  defined := ⟨_, rfl⟩

/-- 137 of 120 are seven columns, and eight are scrolled. -/
theorem sevenths_gain : ¬ sampleMovement.Conserved := by
  rw [sampleMovement.conserved_iff]
  decide

end NovaC.ScrollBar
