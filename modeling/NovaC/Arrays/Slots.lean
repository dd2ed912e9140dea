import NovaC.Arrays.GenArray
import NovaC.C.Pool

namespace NovaC.Arrays.Slots

open NovaC.C

/-! `nova_gen_array` and `nova_free_array` on blocks that have as many slots as the size of
their level's dimension, whatever number of bytes `NOVA_MALLOC` is asked for.
-/

variable (dimensionSizes : List Int)

/-- The slots of a block at this level; those behind the last level have none. -/
def slots (dimension : Nat) : Nat :=
  (dimensionSizes[dimension]?.getD 0).toNat

def genSlot (dimension array : Nat) (descend : Nat → Pool Nat → Option (Pool Nat)) (index : Nat)
    (pool : Pool Nat) : Option (Pool Nat) := do
  let (pool, child) := pool.malloc (slots dimensionSizes (dimension + 1))
  let pool ← pool.store array index child
  descend child pool

/-- `below` is `dimensions - (dimension + 1)`. -/
def genLevels : Nat → Nat → Nat → Pool Nat → Option (Pool Nat)
  | 0, dimension, array, pool => do
      let extent ← dimensionSizes[dimension]?
      forUp (genSlot dimensionSizes dimension array fun _ pool => some pool) 0 extent.toNat pool
  | below + 1, dimension, array, pool => do
      let extent ← dimensionSizes[dimension]?
      forUp (genSlot dimensionSizes dimension array (genLevels below (dimension + 1)))
        0 extent.toNat pool

def novaGenArray (array dimension dimensions : Nat) (pool : Pool Nat) : Option (Pool Nat) :=
  genLevels dimensionSizes (dimensions - (dimension + 1)) dimension array pool

/-- A block that `nova_free_array` hands to `function`, or else to `NOVA_FREE`. -/
structure Handed where
  block : Nat
  toFunction : Bool
deriving DecidableEq

/-- What has been handed over, and the blocks. -/
abbrev Freeing := List Handed × Pool Nat

/-- The last level; the block is `function`'s from then on. -/
def handSlot (array index : Nat) (freeing : Freeing) : Option Freeing := do
  let child ← freeing.2.load array index
  let pool ← freeing.2.free child
  some (freeing.1 ++ [⟨child, true⟩], pool)

def freeSlot (array : Nat) (descend : Nat → Freeing → Option Freeing) (index : Nat)
    (freeing : Freeing) : Option Freeing := do
  let child ← freeing.2.load array index
  let freeing ← descend child freeing
  let child ← freeing.2.load array index
  let pool ← freeing.2.free child
  some (freeing.1 ++ [⟨child, false⟩], pool)

def freeLevels : Nat → Nat → Nat → Freeing → Option Freeing
  | 0, dimension, array, freeing => do
      let extent ← dimensionSizes[dimension]?
      forUp (handSlot array) 0 extent.toNat freeing
  | below + 1, dimension, array, freeing => do
      let extent ← dimensionSizes[dimension]?
      forUp (freeSlot array (freeLevels below (dimension + 1))) 0 extent.toNat freeing

def novaFreeArray (array dimension dimensions : Nat) (pool : Pool Nat) : Option Freeing :=
  freeLevels dimensionSizes (dimensions - (dimension + 1)) dimension array ([], pool)

/-! The blocks below a block have consecutive numbers, level by level. -/

/-- The number of blocks below a block with these levels. -/
def count : List Nat → Nat
  | [] => 0
  | extent :: levels => extent * (count levels + 1)

/-- The block in a slot, where the blocks below start at `first` and each has `levels`. -/
def child (levels : List Nat) (first index : Nat) : Nat :=
  first + index * (count levels + 1)

/-- `block` has a slot for each block below it, and so on down to blocks without slots. -/
def Arranged (pool : Pool Nat) : List Nat → Nat → Nat → Prop
  | [], block, _ => pool[block]? = some (some [])
  | extent :: levels, block, first =>
      (∃ cells, pool[block]? = some (some cells) ∧ cells.length = extent ∧
        ∀ index < extent, cells[index]? = some (some (child levels first index))) ∧
      ∀ index < extent,
        Arranged pool levels (child levels first index) (child levels first index + 1)

section Numbers

variable {levels : List Nat} {first index extent : Nat}

theorem child_zero (levels : List Nat) (first : Nat) : child levels first 0 = first := by
  rw [child, Nat.zero_mul, Nat.add_zero]

theorem child_succ (levels : List Nat) (first index : Nat) :
    child levels first (index + 1) = child levels first index + (count levels + 1) := by
  rw [child, child, Nat.succ_mul, Nat.add_assoc]

theorem child_extent (levels : List Nat) (first extent : Nat) :
    child levels first extent = first + count (extent :: levels) :=
  rfl

theorem child_mono {low high : Nat} (levels : List Nat) (first : Nat) (ordered : low ≤ high) :
    child levels first low ≤ child levels first high :=
  Nat.add_le_add_left (Nat.mul_le_mul_right _ ordered) first

theorem child_bounds (levels : List Nat) (first : Nat) (inside : index < extent) :
    first ≤ child levels first index ∧
      child levels first index + (count levels + 1) ≤ first + count (extent :: levels) := by
  rw [← child_succ, ← child_extent]
  exact ⟨Nat.le_add_right _ _, child_mono levels first inside⟩

end Numbers

variable {dimensionSizes} {pool after : Pool Nat}

theorem Arranged.frame {levels : List Nat} {block first : Nat}
    (arranged : Arranged pool levels block first)
    (same : ∀ other, other = block ∨ first ≤ other ∧ other < first + count levels →
      after[other]? = pool[other]?) :
    Arranged after levels block first := by
  induction levels generalizing block first with
  | nil => exact (same block (.inl rfl)).trans arranged
  | cons extent levels ih =>
      obtain ⟨⟨cells, found, size, pointers⟩, children⟩ := arranged
      refine ⟨⟨cells, (same block (.inl rfl)).trans found, size, pointers⟩, fun index inside => ?_⟩
      obtain ⟨lower, upper⟩ := child_bounds levels first inside
      apply ih (children index inside)
      intro other within
      refine same other (.inr ?_)
      rcases within with rfl | within <;> omega

/-- What a call for `array` leaves behind. -/
structure Built (pool after : Pool Nat) (levels : List Nat) (array : Nat) : Prop where
  length : after.length = pool.length + count levels
  others : ∀ other < pool.length, other ≠ array → after[other]? = pool[other]?
  arranged : Arranged after levels array pool.length

/-- What the loop over a level keeps before the round for `index`. -/
structure Filling (pool : Pool Nat) (levels : List Nat) (array extent index : Nat)
    (now : Pool Nat) : Prop where
  length : now.length = child levels pool.length index
  others : ∀ other < pool.length, other ≠ array → now[other]? = pool[other]?
  cells : ∃ cells, now[array]? = some (some cells) ∧ cells.length = extent ∧
    ∀ filled < index, cells[filled]? = some (some (child levels pool.length filled))
  children : ∀ filled < index,
    Arranged now levels (child levels pool.length filled) (child levels pool.length filled + 1)

section Generating

variable {dimension array extent : Nat} {levels : List Nat}
  {descend : Nat → Pool Nat → Option (Pool Nat)}

/-- What a level needs of the call for a new block. -/
def Builds (descend : Nat → Pool Nat → Option (Pool Nat)) (slots : Nat) (levels : List Nat) :
    Prop :=
  ∀ block pool cells, pool[block]? = some (some cells) → cells.length = slots →
    ∃ after, descend block pool = some after ∧ Built pool after levels block

/-- A round: the new block is stored in its slot, and built. -/
theorem genSlot_builds {now : Pool Nat} {cells : List (Option Nat)} {index : Nat}
    (found : now[array]? = some (some cells)) (within : index < cells.length)
    (builds : Builds descend (slots dimensionSizes (dimension + 1)) levels) :
    ∃ next, genSlot dimensionSizes dimension array descend index now = some next ∧
      next.length = now.length + (count levels + 1) ∧
      next[array]? = some (some (cells.set index (some now.length))) ∧
      (∀ other < now.length, other ≠ array → next[other]? = now[other]?) ∧
      Arranged next levels now.length (now.length + 1) := by
  have before := Pool.lt_length found
  have lookup : (now.malloc (slots dimensionSizes (dimension + 1))).1[array]? = some (some cells) := by
    rw [Pool.malloc, List.getElem?_append_left before, found]
  have stored := Pool.store_inside lookup within now.length
  obtain ⟨next, descended, length, kept, arranged⟩ := builds now.length
    ((now.malloc (slots dimensionSizes (dimension + 1))).1.set array
      (some (cells.set index (some now.length)))) _
    (by rw [List.getElem?_set_ne (by omega), Pool.malloc, List.getElem?_concat_length])
    List.length_replicate
  have sized : ((now.malloc (slots dimensionSizes (dimension + 1))).1.set array
      (some (cells.set index (some now.length)))).length = now.length + 1 := by
    rw [List.length_set, Pool.malloc, List.length_append, List.length_singleton]
  rw [sized] at length kept arranged
  refine ⟨next, ?_, by omega, ?_, ?_, arranged⟩
  · change ((now.malloc (slots dimensionSizes (dimension + 1))).1.store array index now.length).bind
      (descend now.length) = some next
    rw [stored]
    exact descended
  · rw [kept array (by omega) (by omega),
      List.getElem?_set_self (Pool.lt_length lookup)]
  · intro other lower different
    rw [kept other (by omega) (by omega), List.getElem?_set_ne (Ne.symm different), Pool.malloc,
      List.getElem?_append_left lower]

theorem Filling.round {now : Pool Nat} {index : Nat} (inside : array < pool.length)
    (within : index < extent) (filling : Filling pool levels array extent index now)
    (builds : Builds descend (slots dimensionSizes (dimension + 1)) levels) :
    ∃ next, genSlot dimensionSizes dimension array descend index now = some next ∧
      Filling pool levels array extent (index + 1) next := by
  obtain ⟨length, others, ⟨cells, found, size, pointers⟩, children⟩ := filling
  have grows : pool.length ≤ now.length := length ▸ Nat.le_add_right _ _
  obtain ⟨next, ran, nextLength, arrayStored, kept, arranged⟩ :=
    genSlot_builds found (size ▸ within) builds
  refine ⟨next, ran, ?_, ?_, ⟨_, arrayStored, by rw [List.length_set, size], ?_⟩, ?_⟩
  · rw [child_succ, nextLength, length]
  · intro other lower different
    rw [kept other (by omega) different, others other lower different]
  · intro filled earlier
    by_cases last : filled = index
    · subst filled
      rw [List.getElem?_set_self (by omega), length]
    · rw [List.getElem?_set_ne (Ne.symm last), pointers filled (by omega)]
  · intro filled earlier
    by_cases last : filled = index
    · subst filled
      rwa [← length]
    · apply (children filled (by omega)).frame
      intro other covered
      have bounds := child_bounds levels pool.length (show filled < index by omega)
      rw [← child_extent, ← length] at bounds
      exact kept other (by omega) (by omega)

theorem fillLevel_builds {cells : List (Option Nat)} (found : pool[array]? = some (some cells))
    (size : cells.length = extent)
    (builds : Builds descend (slots dimensionSizes (dimension + 1)) levels) :
    ∃ after, forUp (genSlot dimensionSizes dimension array descend) 0 extent pool = some after ∧
      Built pool after (extent :: levels) array := by
  have inside := Pool.lt_length found
  have start : Filling pool levels array extent 0 pool :=
    ⟨(child_zero levels pool.length).symm, fun _ _ _ => rfl,
      ⟨cells, found, size, fun filled earlier => absurd earlier (Nat.not_lt_zero filled)⟩,
      fun filled earlier => absurd earlier (Nat.not_lt_zero filled)⟩
  have rounds : ∀ index now, 0 ≤ index → index < 0 + extent →
      Filling pool levels array extent index now →
      ∃ next, genSlot dimensionSizes dimension array descend index now = some next ∧
        Filling pool levels array extent (index + 1) next :=
    fun index now _ within filling => filling.round inside (by omega) builds
  obtain ⟨after, ran, filled⟩ := forUp_holds (Filling pool levels array extent) rounds start
  rw [Nat.zero_add] at filled
  exact ⟨after, ran, filled.length, filled.others, filled.cells, filled.children⟩

end Generating

section Levels

variable {dimension below array : Nat}

/-- The sizes of the dimensions from this one on. -/
theorem slots_lookup {extent : Nat} {levels : List Nat}
    (extents : (dimensionSizes.drop dimension).map Int.toNat = extent :: levels) :
    (∃ size, dimensionSizes[dimension]? = some size ∧ size.toNat = extent) ∧
      (dimensionSizes.drop (dimension + 1)).map Int.toNat = levels := by
  cases rest : dimensionSizes.drop dimension with
  | nil => simp [rest] at extents
  | cons size sizes =>
      rw [rest, List.map_cons] at extents
      cases extents
      refine ⟨⟨size, ?_, rfl⟩, ?_⟩
      · rw [← Nat.add_zero dimension, ← List.getElem?_drop, rest]
        rfl
      · rw [← List.drop_drop, rest]
        rfl

theorem slots_eq {extent : Nat} {levels : List Nat}
    (extents : (dimensionSizes.drop dimension).map Int.toNat = extent :: levels) :
    slots dimensionSizes dimension = extent := by
  obtain ⟨⟨size, lookup, rfl⟩, -⟩ := slots_lookup extents
  rw [slots, lookup, Option.getD_some]

/-- Behind the last dimension there are no slots. -/
theorem builds_nothing (behind : dimensionSizes.drop dimension = []) :
    Builds (fun _ pool => some pool) (slots dimensionSizes dimension) [] := by
  intro block pool cells found size
  have none : slots dimensionSizes dimension = 0 := by
    rw [slots, List.getElem?_eq_none (List.drop_eq_nil_iff.mp behind)]
    rfl
  rw [none, List.length_eq_zero_iff] at size
  subst cells
  exact ⟨pool, rfl, rfl, fun _ _ _ => rfl, found⟩

theorem genLevels_builds {levels : List Nat}
    (extents : (dimensionSizes.drop dimension).map Int.toNat = levels)
    (depth : levels.length = below + 1) :
    Builds (genLevels dimensionSizes below dimension) (slots dimensionSizes dimension) levels := by
  induction below generalizing dimension levels with
  | zero =>
      obtain ⟨extent, rfl⟩ := List.length_eq_one_iff.mp depth
      obtain ⟨⟨size, lookup, rfl⟩, behind⟩ := slots_lookup extents
      intro array pool cells found sized
      rw [genLevels, lookup]
      rw [slots_eq extents] at sized
      exact fillLevel_builds found sized (builds_nothing (List.map_eq_nil_iff.mp behind))
  | succ below ih =>
      obtain ⟨extent, levels, rfl⟩ := List.exists_cons_of_length_eq_add_one depth
      obtain ⟨⟨size, lookup, rfl⟩, behind⟩ := slots_lookup extents
      intro array pool cells found sized
      rw [genLevels, lookup]
      rw [slots_eq extents] at sized
      exact fillLevel_builds found sized (ih behind (by simpa using depth))

end Levels

end NovaC.Arrays.Slots
