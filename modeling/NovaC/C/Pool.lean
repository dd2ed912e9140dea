import Mathlib.Data.List.Basic

namespace NovaC.C

/-! Blocks of cells that are resized and released.

A released block is `none`: resizing it, or storing in it, has no meaning, and no later
block takes its place. A cell that was never written is `none`.
-/

variable {α : Type}

abbrev Pool (α : Type) := List (Option (List (Option α)))

namespace Pool

variable {pool after : Pool α} {cells : List (Option α)} {block other size : Nat}

def malloc (pool : Pool α) (size : Nat) : Pool α × Nat :=
  (pool ++ [some (List.replicate size none)], pool.length)

def resize (cells : List (Option α)) (size : Nat) : List (Option α) :=
  cells.take size ++ List.replicate (size - cells.length) none

/-- The block grows or shrinks where it is, or it `moves` and the old one is released. -/
def realloc (pool : Pool α) (block size : Nat) (moves : Bool) : Option (Pool α × Nat) := do
  let cells ← pool[block]?.join
  if moves then some (pool.set block none ++ [some (resize cells size)], pool.length)
  else some (pool.set block (some (resize cells size)), block)

def store (pool : Pool α) (block : Nat) (index : Int) (value : α) : Option (Pool α) := do
  let cells ← pool[block]?.join
  if 0 ≤ index ∧ index.toNat < cells.length then
    some (pool.set block (some (cells.set index.toNat (some value))))
  else none

def load (pool : Pool α) (block : Nat) (index : Int) : Option α := do
  let cells ← pool[block]?.join
  if 0 ≤ index then cells[index.toNat]?.join else none

def free (pool : Pool α) (block : Nat) : Option (Pool α) := do
  let _ ← pool[block]?.join
  some (pool.set block none)

theorem lt_length (found : pool[block]? = some (some cells)) : block < pool.length :=
  (List.getElem?_eq_some_iff.mp found).1

theorem resize_grow (cells : List (Option α)) :
    resize cells (cells.length + 1) = cells ++ [none] := by
  rw [resize, List.take_of_length_le (Nat.le_succ _), Nat.add_sub_cancel_left, List.replicate_one]

theorem realloc_in_place (found : pool[block]? = some (some cells)) (size : Nat) :
    pool.realloc block size false = some (pool.set block (some (resize cells size)), block) := by
  simp [realloc, found]

theorem realloc_live {result : Pool α × Nat} {moves : Bool}
    (resized : pool.realloc block size moves = some result) :
    ∃ cells, pool[block]? = some (some cells) := by
  obtain ⟨cells, found, -⟩ := Option.bind_eq_some_iff.mp resized
  exact ⟨cells, Option.join_eq_some_iff.mp found⟩

/-- A block that moved is released, and the one returned is another. -/
theorem realloc_moved {result : Pool α × Nat}
    (resized : pool.realloc block size true = some result) :
    result.1[block]? = some none ∧ result.2 ≠ block := by
  obtain ⟨cells, found⟩ := realloc_live resized
  have inside := lt_length found
  simp only [realloc, found, Option.join_some, Option.bind_eq_bind, Option.bind_some, if_true,
    Option.some.injEq] at resized
  subst result
  refine ⟨?_, by omega⟩
  rw [List.getElem?_append_left (by rwa [List.length_set]), List.getElem?_set_self inside]

theorem store_other {index : Int} {value : α} (stored : pool.store block index value = some after)
    (different : block ≠ other) : after[other]? = pool[other]? := by
  obtain ⟨cells, -, written⟩ := Option.bind_eq_some_iff.mp stored
  split at written
  · cases written
    exact List.getElem?_set_ne different
  · cases written

/-- The cell behind the cells of a block that has just grown by one. -/
theorem store_grown (found : pool[block]? = some (some (cells ++ [none]))) (value : α) :
    pool.store block cells.length value = some (pool.set block (some (cells ++ [some value]))) := by
  have inside : 0 ≤ (cells.length : Int) ∧ (cells.length : Int).toNat < (cells ++ [none]).length := by
    rw [List.length_append, List.length_singleton]
    omega
  simp only [store, found, Option.join_some, Option.bind_eq_bind, Option.bind_some]
  rw [if_pos inside, Int.toNat_natCast, List.set_append_right _ _ (Nat.le_refl _), Nat.sub_self,
    List.set_cons_zero]

theorem store_inside {index : Nat} (found : pool[block]? = some (some cells))
    (inside : index < cells.length) (value : α) :
    pool.store block index value = some (pool.set block (some (cells.set index (some value)))) := by
  simp only [store, found, Option.join_some, Option.bind_eq_bind, Option.bind_some,
    Int.toNat_natCast]
  exact if_pos ⟨Int.natCast_nonneg index, inside⟩

theorem load_eq (found : pool[block]? = some (some cells)) (index : Nat) :
    pool.load block index = cells[index]?.join := by
  simp only [load, found, Option.join_some, Option.bind_eq_bind, Option.bind_some,
    Int.natCast_nonneg, if_true, Int.toNat_natCast]

theorem free_live (found : pool[block]? = some (some cells)) :
    pool.free block = some (pool.set block none) := by
  simp [free, found]

end Pool

end NovaC.C
