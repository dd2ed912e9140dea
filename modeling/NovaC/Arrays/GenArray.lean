import NovaC.C.Blocks
import NovaC.C.Int

namespace NovaC.Arrays

open NovaC.C

/-- `for (i = start; i < start + count; i++)` -/
def forUp {α : Type} (body : Nat → α → Option α) : Nat → Nat → α → Option α
  | _, 0, state => some state
  | start, count + 1, state => (body start state).bind (forUp body (start + 1) count)

/-- The body of the loop of `nova_gen_array`, with what it does to the new
block. -/
def fillSlot (pointerSize : Nat) (size extent : Int) (array : BlockId)
    (descend : BlockId → Heap → Option Heap) (index : Nat) (heap : Heap) : Option Heap := do
  let bytes ← mulInt size extent
  let (heap, child) := Heap.malloc heap (toSize bytes)
  let heap ← Heap.storePointer pointerSize heap array index child
  descend child heap

def fillLevel (pointerSize : Nat) (size extent : Int) (array : BlockId)
    (descend : BlockId → Heap → Option Heap) : Heap → Option Heap :=
  forUp (fillSlot pointerSize size extent array descend) 0 extent.toNat

/-- `below` is `dimensions - (dimension + 1)`: the recursive call is made while
`dimension + 1 < dimensions`. -/
def genLevels (pointerSize : Nat) (dimensionSizes : List Int) (size : Int) :
    Nat → Nat → BlockId → Heap → Option Heap
  | 0, dimension, array, heap => do
      let extent ← dimensionSizes[dimension]?
      fillLevel pointerSize size extent array (fun _ heap => some heap) heap
  | below + 1, dimension, array, heap => do
      let extent ← dimensionSizes[dimension]?
      fillLevel pointerSize size extent array
        (genLevels pointerSize dimensionSizes size below (dimension + 1)) heap

def novaGenArray (pointerSize : Nat) (array : BlockId) (dimensionSizes : List Int)
    (dimension dimensions : Nat) (size : Int) (heap : Heap) : Option Heap :=
  genLevels pointerSize dimensionSizes size (dimensions - (dimension + 1)) dimension array heap

/-- `sizeof(type) * d0 * ... * d(n-1)`, in `size_t`. -/
def topBytes (elementSize : Nat) (dimensionSizes : List Int) : Nat :=
  dimensionSizes.foldl (fun bytes extent => toSize (bytes * toSize extent)) (toSize elementSize)

/-- The expression of `ArrayWriter` for more than one dimension, in an empty
heap, so that the array it gives is block 0. -/
def ArrayWriter.generateSourceFragment (elementSize classSize pointerSize : Nat)
    (dimensionSizes : List Int) : Option Heap :=
  let (heap, array) := Heap.malloc [] (topBytes elementSize dimensionSizes)
  novaGenArray pointerSize array dimensionSizes 0 (dimensionSizes.length - 1) (toInt classSize) heap

section Loop

variable {α : Type} {body : Nat → α → Option α} (invariant : Nat → α → Prop)

/-- An invariant of the loop, and a state in which each round was run. -/
theorem forUp_some (keeps : ∀ index state after, invariant index state →
      body index state = some after → invariant (index + 1) after)
    {start count : Nat} {state after : α} (holds : invariant start state)
    (ran : forUp body start count state = some after) :
    invariant (start + count) after ∧ ∀ index, start ≤ index → index < start + count →
      ∃ before next, invariant index before ∧ body index before = some next := by
  induction count generalizing start state with
  | zero =>
      cases ran
      exact ⟨holds, fun index lower upper => absurd upper (by omega)⟩
  | succ count ih =>
      obtain ⟨next, first, rest⟩ := Option.bind_eq_some_iff.mp ran
      obtain ⟨atEnd, rounds⟩ := ih (keeps start state next holds first) rest
      refine ⟨by rwa [Nat.add_right_comm] at atEnd, fun index lower upper => ?_⟩
      by_cases isFirst : index = start
      · subst index
        exact ⟨state, next, holds, first⟩
      · exact rounds index (by omega) (by omega)

theorem forUp_holds {start count : Nat} (runs : ∀ index state, start ≤ index →
      index < start + count → invariant index state →
      ∃ after, body index state = some after ∧ invariant (index + 1) after)
    {state : α} (holds : invariant start state) :
    ∃ after, forUp body start count state = some after ∧ invariant (start + count) after := by
  induction count generalizing start state with
  | zero => exact ⟨state, rfl, holds⟩
  | succ count ih =>
      obtain ⟨next, first, nextHolds⟩ := runs start state (by omega) (by omega) holds
      obtain ⟨after, rest, atEnd⟩ := ih
        (fun index state lower upper => runs index state (by omega) (by omega)) nextHolds
      rw [Nat.add_right_comm] at atEnd
      exact ⟨after, by rw [forUp, first, Option.bind_some, rest], atEnd⟩

theorem forUp_total {start count : Nat} (runs : ∀ index state, start ≤ index →
      index < start + count → invariant index state →
      ∃ after, body index state = some after ∧ invariant (index + 1) after)
    {state : α} (holds : invariant start state) :
    ∃ after, forUp body start count state = some after := by
  obtain ⟨after, ran, -⟩ := forUp_holds invariant runs holds
  exact ⟨after, ran⟩

end Loop

theorem fillSlot_some {pointerSize : Nat} {size extent : Int} {array index : Nat}
    {descend : BlockId → Heap → Option Heap} {heap after : Heap}
    (ran : fillSlot pointerSize size extent array descend index heap = some after) :
    ∃ bytes stored, mulInt size extent = some bytes ∧
      Heap.storePointer pointerSize (Heap.malloc heap (toSize bytes)).1 array index heap.length =
        some stored ∧
      descend heap.length stored = some after := by
  obtain ⟨bytes, product, ran⟩ := Option.bind_eq_some_iff.mp ran
  obtain ⟨stored, store, ran⟩ := Option.bind_eq_some_iff.mp ran
  exact ⟨bytes, stored, product, store, ran⟩

end NovaC.Arrays
