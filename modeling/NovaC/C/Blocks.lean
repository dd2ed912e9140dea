import Mathlib.Logic.Function.Basic

namespace NovaC.C

/-! Allocated blocks that hold pointers to each other.

A block is known by its size in bytes and the pointers in it, by index.
Allocation never fails and never reuses a block; a pointer stored outside its
block has no meaning and gives `none`.
-/

abbrev BlockId := Nat

structure Block where
  size : Nat
  slots : Nat → Option BlockId

abbrev Heap := List Block

namespace Heap

variable {heap after : Heap} {block other index pointer pointerSize : Nat}

def malloc (heap : Heap) (size : Nat) : Heap × BlockId :=
  (heap ++ [⟨size, fun _ => none⟩], heap.length)

def storePointer (pointerSize : Nat) (heap : Heap) (block : BlockId) (index : Nat)
    (pointer : BlockId) : Option Heap := do
  let data ← heap[block]?
  if (index + 1) * pointerSize ≤ data.size then
    some (heap.set block { data with slots := Function.update data.slots index (some pointer) })
  else none

def loadPointer (pointerSize : Nat) (heap : Heap) (block : BlockId) (index : Nat) :
    Option BlockId := do
  let data ← heap[block]?
  if (index + 1) * pointerSize ≤ data.size then data.slots index else none

@[simp] theorem malloc_block (heap : Heap) (size : Nat) : (Heap.malloc heap size).2 = heap.length :=
  rfl

theorem storePointer_some (stored : heap.storePointer pointerSize block index pointer = some after) :
    ∃ data, heap[block]? = some data ∧ (index + 1) * pointerSize ≤ data.size ∧
      after = heap.set block
        { data with slots := Function.update data.slots index (some pointer) } := by
  cases found : heap[block]? with
  | none => simp [storePointer, found] at stored
  | some data =>
      by_cases inside : (index + 1) * pointerSize ≤ data.size
      · refine ⟨data, rfl, inside, ?_⟩
        simpa [storePointer, found, inside, eq_comm] using stored
      · simp [storePointer, found, inside] at stored

theorem storePointer_inside {data : Block} (pointer : Nat) (found : heap[block]? = some data)
    (inside : (index + 1) * pointerSize ≤ data.size) :
    heap.storePointer pointerSize block index pointer =
      some (heap.set block
        { data with slots := Function.update data.slots index (some pointer) }) := by
  simp [storePointer, found, inside]

end Heap

end NovaC.C
