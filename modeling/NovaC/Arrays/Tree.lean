import NovaC.Arrays.GenArray

namespace NovaC.Arrays

open NovaC.C

/-! The tree of blocks that `nova_gen_array` builds.

The blocks of a tree have consecutive numbers: `IsArray` says which, so that
trees below different slots have no block in common.
-/

variable {pointerSize leafSize : Nat} {heap after : Heap}

/-- `block` has room for the pointers of the levels below it, all of them stored,
down to blocks of `leafSize` bytes; the blocks below it are `first` up to `last`. -/
def IsArray (pointerSize leafSize : Nat) (heap : Heap) :
    List Nat → BlockId → Nat → Nat → Prop
  | [], block, first, last =>
      first = last ∧ ∃ data, heap[block]? = some data ∧ data.size = leafSize
  | extent :: levels, block, first, last =>
      ∃ data, heap[block]? = some data ∧ extent * pointerSize ≤ data.size ∧
        ∃ starts : Nat → Nat, starts 0 = first ∧ starts extent = last ∧
          ∀ index < extent, data.slots index = some (starts index) ∧
            IsArray pointerSize leafSize heap levels (starts index) (starts index + 1)
              (starts (index + 1))

theorem starts_mono {starts : Nat → Nat} {extent : Nat}
    (grows : ∀ index < extent, starts index + 1 ≤ starts (index + 1)) {low high : Nat}
    (ordered : low ≤ high) (inside : high ≤ extent) : starts low ≤ starts high := by
  obtain ⟨between, rfl⟩ := Nat.exists_eq_add_of_le ordered
  induction between with
  | zero => exact Nat.le_refl _
  | succ between ih =>
      have step := grows (low + between) (by omega)
      have before := ih (by omega) (by omega)
      rw [← Nat.add_assoc]
      omega

theorem IsArray.ordered {levels : List Nat} {block first last : Nat}
    (isArray : IsArray pointerSize leafSize heap levels block first last) : first ≤ last := by
  induction levels generalizing block first last with
  | nil => exact Nat.le_of_eq isArray.1
  | cons extent levels ih =>
      obtain ⟨data, _, _, starts, rfl, rfl, children⟩ := isArray
      exact starts_mono (fun index inside => ih (children index inside).2) (Nat.zero_le _)
        (Nat.le_refl _)

theorem IsArray.frame {levels : List Nat} {block first last : Nat}
    (isArray : IsArray pointerSize leafSize heap levels block first last)
    (same : ∀ other, other = block ∨ first ≤ other ∧ other < last → after[other]? = heap[other]?) :
    IsArray pointerSize leafSize after levels block first last := by
  induction levels generalizing block first last with
  | nil => rwa [IsArray, same block (.inl rfl)]
  | cons extent levels ih =>
      obtain ⟨data, found, room, starts, rfl, rfl, children⟩ := isArray
      refine ⟨data, (same block (.inl rfl)).trans found, room, starts, rfl, rfl,
        fun index inside => ⟨(children index inside).1, ?_⟩⟩
      have grows : ∀ index < extent, starts index + 1 ≤ starts (index + 1) :=
        fun index inside => (children index inside).2.ordered
      apply ih (children index inside).2
      intro other within
      have lower := starts_mono grows (Nat.zero_le index) (Nat.le_of_lt inside)
      have upper := starts_mono grows (Nat.succ_le_of_lt inside) (Nat.le_refl _)
      rw [Nat.succ_eq_add_one] at upper
      have child := grows index inside
      apply same other
      rcases within with rfl | within
      · exact .inr ⟨lower, by omega⟩
      · exact .inr ⟨by omega, by omega⟩

/-- What a call for `block` leaves behind. -/
structure Built (pointerSize leafSize : Nat) (heap after : Heap) (levels : List Nat)
    (block : Nat) : Prop where
  grows : heap.length ≤ after.length
  others : ∀ other < heap.length, other ≠ block → after[other]? = heap[other]?
  tree : IsArray pointerSize leafSize after levels block heap.length after.length

/-- The size of the last blocks, where every level has room for its pointers:
the blocks of a level are as large as the extent of the level above says. -/
def leafBytes (pointerSize : Nat) (size : Int) : Nat → List Nat → Option Nat
  | bytes, [] => some bytes
  | bytes, extent :: levels =>
      if extent * pointerSize ≤ bytes then
        (mulInt size extent).bind fun below => leafBytes pointerSize size (toSize below) levels
      else none

section Level

variable {size : Int} {extent : Nat} {array : Nat} {levels : List Nat} {data : Block}
  {descend : BlockId → Heap → Option Heap}

/-- What `fillLevel` keeps before the round for `index`. -/
structure Filling (pointerSize leafSize : Nat) (levels : List Nat) (heap : Heap) (array : Nat)
    (data : Block) (index : Nat) (now : Heap) : Prop where
  grows : heap.length ≤ now.length
  others : ∀ other < heap.length, other ≠ array → now[other]? = heap[other]?
  children : ∃ slots, now[array]? = some ⟨data.size, slots⟩ ∧
    ∃ starts : Nat → Nat, starts 0 = heap.length ∧ starts index = now.length ∧
      ∀ filled < index, slots filled = some (starts filled) ∧
        IsArray pointerSize leafSize now levels (starts filled) (starts filled + 1)
          (starts (filled + 1))

theorem Filling.start (found : heap[array]? = some data) :
    Filling pointerSize leafSize levels heap array data 0 heap := by
  refine ⟨Nat.le_refl _, fun _ _ _ => rfl, data.slots, found, fun _ => heap.length, rfl, rfl, ?_⟩
  intro filled inside
  exact absurd inside (Nat.not_lt_zero filled)

theorem Filling.round {index : Nat} {now next : Heap} {bytes : Nat}
    (filling : Filling pointerSize leafSize levels heap array data index now)
    (inside : array < heap.length) {stored : Heap}
    (store : Heap.storePointer pointerSize (Heap.malloc now bytes).1 array index now.length =
      some stored)
    (built : Built pointerSize leafSize stored next levels now.length) :
    Filling pointerSize leafSize levels heap array data (index + 1) next := by
  obtain ⟨grows, others, slots, found, starts, starts_zero, starts_index, children⟩ := filling
  obtain ⟨storedGrows, storedOthers, tree⟩ := built
  obtain ⟨written, lookup, room, rfl⟩ := Heap.storePointer_some store
  have before : array < now.length := by omega
  rw [Heap.malloc, List.getElem?_append_left before, found] at lookup
  cases lookup
  simp only [Heap.malloc, List.length_set, List.length_append, List.length_singleton] at storedGrows storedOthers tree
  have arrayKept : next[array]? = some ⟨data.size, Function.update slots index (some now.length)⟩ := by
    rw [storedOthers array (by omega) (by omega), List.getElem?_set_self (by simp; omega)]
  have belowKept : ∀ other < now.length, other ≠ array → next[other]? = now[other]? := by
    intro other lower different
    rw [storedOthers other (by omega) (by omega), List.getElem?_set_ne (Ne.symm different),
      List.getElem?_append_left lower]
  refine ⟨by omega, ?_, ?_⟩
  · intro other lower different
    rw [belowKept other (by omega) different, others other lower different]
  · refine ⟨_, arrayKept, Function.update starts (index + 1) next.length, ?_, ?_, ?_⟩
    · rw [Function.update_of_ne (by omega), starts_zero]
    · rw [Function.update_self]
    · intro filled within
      by_cases last : filled = index
      · subst filled
        rw [Function.update_self, Function.update_self, Function.update_of_ne (by omega), starts_index]
        exact ⟨rfl, tree⟩
      · have earlier : filled < index := by omega
        obtain ⟨pointer, child⟩ := children filled earlier
        have childGrows : ∀ filled < index, starts filled + 1 ≤ starts (filled + 1) :=
          fun filled earlier => (children filled earlier).2.ordered
        have lower := starts_mono childGrows (Nat.zero_le filled) (Nat.le_of_lt earlier)
        have upper := starts_mono childGrows (Nat.succ_le_of_lt earlier) (Nat.le_refl _)
        rw [Nat.succ_eq_add_one] at upper
        have step := childGrows filled earlier
        rw [Function.update_of_ne last, Function.update_of_ne (by omega),
          Function.update_of_ne (by omega)]
        refine ⟨pointer, child.frame fun other within => belowKept other ?_ ?_⟩
        · omega
        · omega


/-- What one level needs of the level below it. -/
def Descends (pointerSize : Nat) (size : Int) (bytes : Nat) (levels : List Nat)
    (descend : BlockId → Heap → Option Heap) : Prop :=
  ∀ child heap data after, heap[child]? = some data → data.size = bytes →
    descend child heap = some after →
      ∃ leafSize, leafBytes pointerSize size bytes levels = some leafSize ∧
        Built pointerSize leafSize heap after levels child

theorem stored_child {now stored : Heap} {bytes index : Nat} (inside : array < now.length)
    (store : Heap.storePointer pointerSize (Heap.malloc now bytes).1 array index now.length =
      some stored) :
    stored[now.length]? = some ⟨bytes, fun _ => none⟩ := by
  obtain ⟨written, _, _, rfl⟩ := Heap.storePointer_some store
  rw [List.getElem?_set_ne (by omega), Heap.malloc, List.getElem?_concat_length]

theorem Filling.keeps {bytes : Int} {index : Nat} {now next : Heap} (inside : array < heap.length)
    (product : mulInt size extent = some bytes)
    (below : leafBytes pointerSize size (toSize bytes) levels = some leafSize)
    (descends : Descends pointerSize size (toSize bytes) levels descend)
    (filling : Filling pointerSize leafSize levels heap array data index now)
    (ran : fillSlot pointerSize size extent array descend index now = some next) :
    Filling pointerSize leafSize levels heap array data (index + 1) next ∧
      (index + 1) * pointerSize ≤ data.size := by
  obtain ⟨bytes', stored, product', store, descended⟩ := fillSlot_some ran
  cases product.symm.trans product'
  have here : array < now.length := Nat.lt_of_lt_of_le inside filling.grows
  obtain ⟨found, sameLeaf, built⟩ :=
    descends now.length stored _ next (stored_child here store) rfl descended
  cases below.symm.trans sameLeaf
  refine ⟨filling.round inside store built, ?_⟩
  obtain ⟨written, lookup, room, _⟩ := Heap.storePointer_some store
  obtain ⟨slots, found, _⟩ := filling.children
  rw [Heap.malloc, List.getElem?_append_left here, found] at lookup
  cases lookup
  exact room

theorem fillLevel_some (positive : 0 < extent) (found : heap[array]? = some data)
    (descends : ∀ bytes, mulInt size extent = some bytes →
      Descends pointerSize size (toSize bytes) levels descend)
    (ran : fillLevel pointerSize size extent array descend heap = some after) :
    ∃ leafSize, leafBytes pointerSize size data.size (extent :: levels) = some leafSize ∧
      Built pointerSize leafSize heap after (extent :: levels) array := by
  have inside : array < heap.length := (List.getElem?_eq_some_iff.mp found).1
  rw [fillLevel, Int.toNat_natCast] at ran
  obtain ⟨rounds, rfl⟩ := Nat.exists_eq_succ_of_ne_zero (Nat.ne_of_gt positive)
  obtain ⟨next, first, _⟩ := Option.bind_eq_some_iff.mp ran
  obtain ⟨bytes, stored, product, store, descended⟩ := fillSlot_some first
  obtain ⟨leafSize, below, _⟩ := descends bytes product heap.length stored _ next
    (stored_child inside store) rfl descended
  obtain ⟨filled, slots⟩ := forUp_some (Filling pointerSize leafSize levels heap array data)
    (fun index now next filling ran =>
      (Filling.keeps inside product below (descends bytes product) filling ran).1)
    (.start found) ran
  obtain ⟨before, next, filling, last⟩ := slots rounds (Nat.zero_le _) (by omega)
  have room := (Filling.keeps inside product below (descends bytes product) filling last).2
  refine ⟨leafSize, ?_, ?_⟩
  · rw [leafBytes, if_pos room, product, Option.bind_some, below]
  · obtain ⟨grows, others, slots, lookup, starts, starts_zero, starts_last, children⟩ := filled
    rw [Nat.zero_add] at starts_last children
    exact ⟨grows, others, _, lookup, room, starts, starts_zero, starts_last, children⟩

theorem fillLevel_total (found : heap[array]? = some data)
    (descends : ∀ bytes, mulInt size extent = some bytes →
      Descends pointerSize size (toSize bytes) levels descend)
    (fits : leafBytes pointerSize size data.size (extent :: levels) = some leafSize)
    (total : ∀ bytes, mulInt size extent = some bytes → ∀ child heap data,
      heap[child]? = some data → data.size = toSize bytes →
        leafBytes pointerSize size (toSize bytes) levels = some leafSize →
        ∃ after, descend child heap = some after) :
    ∃ after, fillLevel pointerSize size extent array descend heap = some after := by
  have inside : array < heap.length := (List.getElem?_eq_some_iff.mp found).1
  rw [leafBytes] at fits
  split at fits
  · rename_i room
    obtain ⟨bytes, product, below⟩ := Option.bind_eq_some_iff.mp fits
    rw [fillLevel, Int.toNat_natCast]
    apply forUp_total (Filling pointerSize leafSize levels heap array data) _ (.start found)
    intro index now _ within filling
    have here : array < now.length := Nat.lt_of_lt_of_le inside filling.grows
    obtain ⟨slots, lookup, _⟩ := filling.children
    have mallocked : (Heap.malloc now (toSize bytes)).1[array]? = some ⟨data.size, slots⟩ := by
      rw [Heap.malloc, List.getElem?_append_left here, lookup]
    have slotRoom : (index + 1) * pointerSize ≤ data.size :=
      Nat.le_trans (Nat.mul_le_mul_right pointerSize (by omega)) room
    have store := Heap.storePointer_inside now.length mallocked slotRoom
    obtain ⟨next, descended⟩ := total bytes product now.length _ _
      (stored_child here store) rfl below
    have ran : fillSlot pointerSize size extent array descend index now = some next := by
      simp only [fillSlot, product, Option.bind_eq_bind, Option.bind_some, Heap.malloc_block]
      rw [store]
      exact descended
    exact ⟨next, ran, (Filling.keeps inside product below (descends bytes product) filling ran).1⟩
  · cases fits

end Level

theorem descends_nothing (size : Int) (bytes : Nat) :
    Descends pointerSize size bytes [] fun _ heap => some heap := by
  intro child heap data after found sameSize kept
  cases kept
  exact ⟨bytes, rfl, Nat.le_refl _, fun _ _ _ => rfl, rfl, data, found, sameSize⟩

section Levels

variable {dimensionSizes : List Int} {size : Int} {below dimension array : Nat} {data : Block}
  {rest : List Int}

theorem extent_lookup {extent : Nat} {levels : List Nat}
    (extents : dimensionSizes.drop dimension = (extent :: levels).map Nat.cast ++ rest) :
    dimensionSizes[dimension]? = some (extent : Int) ∧
      dimensionSizes.drop (dimension + 1) = levels.map Nat.cast ++ rest := by
  constructor
  · rw [← Nat.add_zero dimension, ← List.getElem?_drop, extents]
    rfl
  · rw [← List.drop_drop, extents]
    rfl

theorem genLevels_some (levels : List Nat)
    (extents : dimensionSizes.drop dimension = levels.map Nat.cast ++ rest)
    (count : levels.length = below + 1) (positive : ∀ extent ∈ levels, 0 < extent)
    (found : heap[array]? = some data)
    (ran : genLevels pointerSize dimensionSizes size below dimension array heap = some after) :
    ∃ leafSize, leafBytes pointerSize size data.size levels = some leafSize ∧
      Built pointerSize leafSize heap after levels array := by
  induction below generalizing dimension array heap after data levels with
  | zero =>
      obtain ⟨extent, rfl⟩ := List.length_eq_one_iff.mp count
      rw [genLevels, (extent_lookup extents).1] at ran
      exact fillLevel_some (positive extent List.mem_cons_self) found
        (fun bytes _ => descends_nothing size (toSize bytes)) ran
  | succ below ih =>
      obtain ⟨extent, levels, rfl⟩ := List.exists_cons_of_length_eq_add_one count
      obtain ⟨lookup, belowExtents⟩ := extent_lookup extents
      rw [genLevels, lookup] at ran
      refine fillLevel_some (positive extent List.mem_cons_self) found (fun bytes _ => ?_) ran
      intro child now childData next childFound sameSize descended
      rw [← sameSize]
      exact ih levels belowExtents (by simpa using count)
        (fun extent member => positive extent (List.mem_cons_of_mem _ member)) childFound descended

theorem genLevels_total {leafSize : Nat} (levels : List Nat)
    (extents : dimensionSizes.drop dimension = levels.map Nat.cast ++ rest)
    (count : levels.length = below + 1) (positive : ∀ extent ∈ levels, 0 < extent)
    (found : heap[array]? = some data)
    (fits : leafBytes pointerSize size data.size levels = some leafSize) :
    ∃ after, genLevels pointerSize dimensionSizes size below dimension array heap = some after := by
  induction below generalizing dimension array heap data levels with
  | zero =>
      obtain ⟨extent, rfl⟩ := List.length_eq_one_iff.mp count
      rw [genLevels, (extent_lookup extents).1]
      exact fillLevel_total found (fun bytes _ => descends_nothing size (toSize bytes)) fits
        fun _ _ _ heap _ _ _ _ => ⟨heap, rfl⟩
  | succ below ih =>
      obtain ⟨extent, levels, rfl⟩ := List.exists_cons_of_length_eq_add_one count
      obtain ⟨lookup, belowExtents⟩ := extent_lookup extents
      have belowPositive : ∀ extent ∈ levels, 0 < extent :=
        fun extent member => positive extent (List.mem_cons_of_mem _ member)
      have belowCount : levels.length = below + 1 := by simpa using count
      rw [genLevels, lookup]
      refine fillLevel_total found (fun bytes _ => ?_) fits fun bytes _ child now childData => ?_
      · intro child now childData next childFound sameSize descended
        rw [← sameSize]
        exact genLevels_some levels belowExtents belowCount belowPositive childFound descended
      · intro childFound sameSize belowFits
        rw [← sameSize] at belowFits
        exact ih levels belowExtents belowCount belowPositive childFound belowFits

end Levels

end NovaC.Arrays
