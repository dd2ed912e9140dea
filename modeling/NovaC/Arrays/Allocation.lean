import NovaC.Arrays.Tree

namespace NovaC.Arrays

open NovaC.C

variable {elementSize pointerSize leafSize : Nat} {heap : Heap}

/-- The block and the offset in it of `array[i0]...[i(n-1)]`. -/
def element (elementSize pointerSize : Nat) (heap : Heap) :
    BlockId → List Nat → Option (BlockId × Nat)
  | _, [] => none
  | block, [index] => some (block, index * elementSize)
  | block, index :: next :: indices => do
      let child ← Heap.loadPointer pointerSize heap block index
      element elementSize pointerSize heap child (next :: indices)

/-- `indices` is an index vector of an array with these dimension sizes. -/
def Indexes (indices extents : List Nat) : Prop := List.Forall₂ (· < ·) indices extents

structure WellBuilt (elementSize pointerSize : Nat) (heap : Heap) (array : BlockId)
    (extents : List Nat) : Prop where
  inside : ∀ indices, Indexes indices extents → ∃ block offset data,
    element elementSize pointerSize heap array indices = some (block, offset) ∧
      heap[block]? = some data ∧ offset + elementSize ≤ data.size
  disjoint : ∀ indices others, Indexes indices extents → Indexes others extents →
    indices ≠ others → ∀ block offset block' offset',
      element elementSize pointerSize heap array indices = some (block, offset) →
      element elementSize pointerSize heap array others = some (block', offset') →
        block ≠ block' ∨ offset + elementSize ≤ offset' ∨ offset' + elementSize ≤ offset

/-- A block of `bytes` bytes has room for its level, and the blocks below it,
of `size` times its extent, for theirs; the last level holds elements. -/
def HasRoom (elementSize pointerSize : Nat) (size : Int) : Nat → List Nat → Prop
  | _, [] => True
  | bytes, [extent] => extent * elementSize ≤ bytes
  | bytes, extent :: next :: extents => extent * pointerSize ≤ bytes ∧
      ∃ below, mulInt size extent = some below ∧
        HasRoom elementSize pointerSize size (toSize below) (next :: extents)

theorem hasRoom_iff {size : Int} {bytes last : Nat} (levels : List Nat) :
    HasRoom elementSize pointerSize size bytes (levels ++ [last]) ↔
      ∃ leafSize, leafBytes pointerSize size bytes levels = some leafSize ∧
        last * elementSize ≤ leafSize := by
  induction levels generalizing bytes with
  | nil => simp [HasRoom, leafBytes]
  | cons extent levels ih =>
      obtain ⟨next, rest, split⟩ : ∃ next rest, levels ++ [last] = next :: rest := by
        cases levels with
        | nil => exact ⟨last, [], rfl⟩
        | cons next rest => exact ⟨next, rest ++ [last], rfl⟩
      rw [List.cons_append, split, HasRoom, leafBytes, ← split]
      split
      · rename_i room
        simp only [room, true_and, Option.bind_eq_some_iff, ih]
        constructor
        · rintro ⟨below, product, leafSize, fits, lastFits⟩
          exact ⟨leafSize, ⟨below, product, fits⟩, lastFits⟩
        · rintro ⟨leafSize, ⟨below, product, fits⟩, lastFits⟩
          exact ⟨below, product, leafSize, fits, lastFits⟩
      · rename_i noRoom
        simp [noRoom]

theorem topBytes_eq (extents : List Nat) :
    topBytes elementSize (extents.map Nat.cast) =
      elementSize * extents.prod % 18446744073709551616 := by
  have folds : ∀ bytes : Nat, (extents.map Nat.cast).foldl
      (fun bytes extent => toSize (bytes * toSize extent)) (toSize bytes) =
        bytes * extents.prod % 18446744073709551616 := by
    induction extents with
    | nil =>
        intro bytes
        rw [List.prod_nil, Nat.mul_one]
        exact toSize_natCast bytes
    | cons extent extents ih =>
        intro bytes
        rw [List.map_cons, List.foldl_cons, List.prod_cons, ← Int.natCast_mul, ih]
        rw [toSize_natCast, toSize_natCast, ← Nat.mul_assoc, Nat.mul_mod, ← Nat.mul_mod bytes extent,
          ← Nat.mul_mod]
  exact folds elementSize

theorem loadPointer_of_inside {data : Block} {block index : Nat} (found : heap[block]? = some data)
    (room : (index + 1) * pointerSize ≤ data.size) :
    Heap.loadPointer pointerSize heap block index = data.slots index := by
  simp [Heap.loadPointer, found, room]

theorem element_cons {block index child : Nat} {rest : List Nat} (nonempty : rest ≠ [])
    (load : Heap.loadPointer pointerSize heap block index = some child) :
    element elementSize pointerSize heap block (index :: rest) =
      element elementSize pointerSize heap child rest := by
  obtain ⟨next, rest, rfl⟩ := List.exists_cons_of_ne_nil nonempty
  simp [element, load]

theorem Indexes.nonempty {indices levels : List Nat} {last : Nat}
    (indexes : Indexes indices (levels ++ [last])) : indices ≠ [] := by
  intro empty
  have sameLength := List.Forall₂.length_eq indexes
  simp [empty] at sameLength

theorem Indexes.cons_inv {indices extents : List Nat} {extent : Nat}
    (indexes : Indexes indices (extent :: extents)) :
    ∃ index rest, indices = index :: rest ∧ index < extent ∧ Indexes rest extents := by
  obtain ⟨index, rest, inside, restIndexes, rfl⟩ := List.forall₂_cons_right_iff.mp indexes
  exact ⟨index, rest, rfl, inside, restIndexes⟩

theorem Indexes.singleton_inv {indices : List Nat} {last : Nat} (indexes : Indexes indices [last]) :
    ∃ index, indices = [index] ∧ index < last := by
  obtain ⟨index, rest, rfl, inside, restIndexes⟩ := indexes.cons_inv
  cases restIndexes
  exact ⟨index, rfl, inside⟩

theorem IsArray.child {extent : Nat} {levels : List Nat} {block first behind : Nat}
    (isArray : IsArray pointerSize leafSize heap (extent :: levels) block first behind) :
    ∃ starts : Nat → Nat,
      (∀ low high, low ≤ high → high ≤ extent → starts low ≤ starts high) ∧
      (starts 0 = first ∧ starts extent = behind) ∧ ∀ index < extent,
        Heap.loadPointer pointerSize heap block index = some (starts index) ∧
        IsArray pointerSize leafSize heap levels (starts index) (starts index + 1)
          (starts (index + 1)) := by
  obtain ⟨data, found, room, starts, atFirst, atLast, children⟩ := isArray
  have grows : ∀ index < extent, starts index + 1 ≤ starts (index + 1) :=
    fun index inside => (children index inside).2.ordered
  refine ⟨starts, fun low high => starts_mono grows, ⟨atFirst, atLast⟩, fun index inside => ?_⟩
  have slotRoom : (index + 1) * pointerSize ≤ data.size :=
    Nat.le_trans (Nat.mul_le_mul_right pointerSize inside) room
  rw [loadPointer_of_inside found slotRoom]
  exact children index inside

/-- An index vector leads to a last block, which is `block` itself where there
are no levels, and else one of the blocks below it. -/
theorem IsArray.reaches (elementSize : Nat) {levels : List Nat} {last block first behind : Nat}
    (isArray : IsArray pointerSize leafSize heap levels block first behind)
    {indices : List Nat} (indexes : Indexes indices (levels ++ [last])) :
    ∃ (leaf : Nat) (data : Block) (index : Nat), element elementSize pointerSize heap block indices =
        some (leaf, index * elementSize) ∧ heap[leaf]? = some data ∧ data.size = leafSize ∧
      index < last ∧ indices.getLast? = some index ∧
      (leaf = block ∨ first ≤ leaf ∧ leaf < behind) := by
  induction levels generalizing block first behind indices with
  | nil =>
      obtain ⟨_, data, found, sameSize⟩ := isArray
      obtain ⟨index, rfl, inside⟩ := Indexes.singleton_inv indexes
      exact ⟨block, data, index, rfl, found, sameSize, inside, rfl, .inl rfl⟩
  | cons extent levels ih =>
      obtain ⟨starts, mono, ⟨atFirst, atLast⟩, children⟩ := isArray.child
      obtain ⟨index, rest, rfl, inside, restIndexes⟩ := Indexes.cons_inv indexes
      obtain ⟨load, child⟩ := children index inside
      obtain ⟨leaf, data, leafIndex, reached, found, sameSize, leafInside, isLast, within⟩ :=
        ih child restIndexes
      have nonempty := Indexes.nonempty restIndexes
      have lower := mono 0 index (by omega) (by omega)
      have upper := mono (index + 1) extent (by omega) (by omega)
      have step := child.ordered
      refine ⟨leaf, data, leafIndex, ?_, found, sameSize, leafInside, ?_, .inr ?_⟩
      · rw [element_cons nonempty load, reached]
      · rw [List.getLast?_cons_of_ne_nil nonempty, isLast]
      · rcases within with rfl | ⟨lowest, highest⟩
        · exact ⟨by omega, by omega⟩
        · exact ⟨by omega, by omega⟩

theorem IsArray.leaf_range {levels : List Nat} {last block behind : Nat}
    (isArray : IsArray pointerSize leafSize heap levels block (block + 1) behind)
    {indices : List Nat} (indexes : Indexes indices (levels ++ [last])) {leaf offset : Nat}
    (reached : element elementSize pointerSize heap block indices = some (leaf, offset)) :
    block ≤ leaf ∧ leaf < behind := by
  obtain ⟨leaf', data, index, reached', _, _, _, _, within⟩ :=
    isArray.reaches elementSize indexes
  have ordered := isArray.ordered
  rw [reached] at reached'
  cases reached'
  omega

/-- Index vectors that lead to the same block differ in the last index. -/
theorem IsArray.reaches_injective {levels : List Nat} {last block first behind : Nat}
    (isArray : IsArray pointerSize leafSize heap levels block first behind)
    {indices others : List Nat} (indexes : Indexes indices (levels ++ [last]))
    (otherIndexes : Indexes others (levels ++ [last])) {leaf : Nat} {offset offset' : Nat}
    (reached : element elementSize pointerSize heap block indices = some (leaf, offset))
    (otherReached : element elementSize pointerSize heap block others = some (leaf, offset'))
    (sameLast : indices.getLast? = others.getLast?) : indices = others := by
  induction levels generalizing block first behind indices others with
  | nil =>
      obtain ⟨index, rfl, _⟩ := Indexes.singleton_inv indexes
      obtain ⟨other, rfl, _⟩ := Indexes.singleton_inv otherIndexes
      simpa using sameLast
  | cons extent levels ih =>
      obtain ⟨starts, mono, _, children⟩ := isArray.child
      obtain ⟨index, rest, rfl, inside, restIndexes⟩ := Indexes.cons_inv indexes
      obtain ⟨other, rest', rfl, otherInside, otherRestIndexes⟩ := Indexes.cons_inv otherIndexes
      obtain ⟨load, child⟩ := children index inside
      obtain ⟨otherLoad, otherChild⟩ := children other otherInside
      rw [element_cons (Indexes.nonempty restIndexes) load] at reached
      rw [element_cons (Indexes.nonempty otherRestIndexes) otherLoad] at otherReached
      have within := child.leaf_range restIndexes reached
      have otherWithin := otherChild.leaf_range otherRestIndexes otherReached
      have before := mono (index + 1) other
      have after := mono (other + 1) index
      have same : index = other := by omega
      subst other
      congr 1
      apply ih child restIndexes otherRestIndexes reached otherReached
      rwa [List.getLast?_cons_of_ne_nil (Indexes.nonempty restIndexes),
        List.getLast?_cons_of_ne_nil (Indexes.nonempty otherRestIndexes)] at sameLast

theorem IsArray.wellBuilt {levels : List Nat} {last block first behind : Nat}
    (isArray : IsArray pointerSize leafSize heap levels block first behind)
    (room : last * elementSize ≤ leafSize) :
    WellBuilt elementSize pointerSize heap block (levels ++ [last]) where
  inside indices indexes := by
    obtain ⟨leaf, data, index, reached, found, rfl, inside, _, _⟩ :=
      isArray.reaches elementSize indexes
    have below := Nat.mul_le_mul_right elementSize (Nat.succ_le_of_lt inside)
    rw [Nat.succ_mul] at below
    exact ⟨leaf, index * elementSize, data, reached, found, by omega⟩
  disjoint indices others indexes otherIndexes different leaf offset leaf' offset' reached
      otherReached := by
    obtain ⟨_, _, index, reachedAt, _, _, _, isLast, _⟩ := isArray.reaches elementSize indexes
    obtain ⟨_, _, other, otherReachedAt, _, _, _, otherIsLast, _⟩ :=
      isArray.reaches elementSize otherIndexes
    cases reached.symm.trans reachedAt
    cases otherReached.symm.trans otherReachedAt
    by_cases sameBlock : leaf = leaf'
    · subst leaf'
      have differ : index ≠ other := fun same => different
        (isArray.reaches_injective indexes otherIndexes reached otherReached
          (by rw [isLast, otherIsLast, same]))
      right
      rcases Nat.lt_or_gt_of_ne differ with less | greater
      · have below := Nat.mul_le_mul_right elementSize (Nat.succ_le_of_lt less)
        rw [Nat.succ_mul] at below
        exact .inl below
      · have below := Nat.mul_le_mul_right elementSize (Nat.succ_le_of_lt greater)
        rw [Nat.succ_mul] at below
        exact .inr below
    · exact .inl sameBlock

theorem indexes_maximal {extents : List Nat} (positive : ∀ extent ∈ extents, 0 < extent) :
    Indexes (extents.map (· - 1)) extents := by
  rw [Indexes, List.forall₂_map_left_iff, List.forall₂_same]
  intro extent member
  have := positive extent member
  omega

theorem IsArray.room {levels : List Nat} {last block first behind : Nat}
    (isArray : IsArray pointerSize leafSize heap levels block first behind)
    (positive : ∀ extent ∈ levels ++ [last], 0 < extent)
    (wellBuilt : WellBuilt elementSize pointerSize heap block (levels ++ [last])) :
    last * elementSize ≤ leafSize := by
  have maximal := indexes_maximal positive
  obtain ⟨leaf, data, index, reached, found, rfl, _, isLast, _⟩ :=
    isArray.reaches elementSize maximal
  obtain ⟨leaf', offset, data', reached', found', inside⟩ := wellBuilt.inside _ maximal
  cases reached.symm.trans reached'
  cases found.symm.trans found'
  have lastPositive := positive last (by simp)
  have lastIndex : index = last - 1 := by simpa [eq_comm] using isLast
  subst index
  rw [← Nat.succ_mul, Nat.succ_eq_add_one, Nat.sub_add_cancel lastPositive] at inside
  exact inside

section Emitted

variable {elementSize classSize pointerSize : Nat} {levels : List Nat} {last : Nat}

theorem malloc_top (bytes : Nat) :
    (Heap.malloc [] bytes).1[0]? = some ⟨bytes, fun _ => none⟩ := rfl

/-- The emitted call, with the levels of pointers told apart from the last. -/
theorem ArrayWriter.generateSourceFragment_eq (levels : List Nat) (last : Nat) :
    ArrayWriter.generateSourceFragment elementSize classSize pointerSize
        ((levels ++ [last]).map Nat.cast) =
      genLevels pointerSize (levels.map Nat.cast ++ [(last : Int)]) (toInt classSize)
        (levels.length - 1) 0 0
        (Heap.malloc [] (elementSize * (levels ++ [last]).prod % 18446744073709551616)).1 := by
  rw [← topBytes_eq]
  simp [ArrayWriter.generateSourceFragment, novaGenArray, Heap.malloc]

variable (several : 2 ≤ (levels ++ [last]).length)
  (positive : ∀ extent ∈ levels ++ [last], 0 < extent)

include several positive

theorem ArrayWriter.generateSourceFragment_some {heap : Heap}
    (ran : ArrayWriter.generateSourceFragment elementSize classSize pointerSize
      ((levels ++ [last]).map Nat.cast) = some heap) :
    ∃ leafSize, leafBytes pointerSize (toInt classSize)
        (elementSize * (levels ++ [last]).prod % 18446744073709551616) levels = some leafSize ∧
      IsArray pointerSize leafSize heap levels 0 1 heap.length := by
  rw [List.length_append, List.length_singleton] at several
  have count : levels.length = levels.length - 1 + 1 := by omega
  rw [generateSourceFragment_eq] at ran
  obtain ⟨leafSize, fits, built⟩ := genLevels_some levels rfl count
    (fun extent member => positive extent (List.mem_append_left _ member)) (malloc_top _) ran
  exact ⟨leafSize, fits, built.tree⟩

theorem ArrayWriter.hasRoom_of_wellBuilt {heap : Heap}
    (ran : ArrayWriter.generateSourceFragment elementSize classSize pointerSize
      ((levels ++ [last]).map Nat.cast) = some heap)
    (wellBuilt : WellBuilt elementSize pointerSize heap 0 (levels ++ [last])) :
    HasRoom elementSize pointerSize (toInt classSize)
      (elementSize * (levels ++ [last]).prod % 18446744073709551616) (levels ++ [last]) := by
  obtain ⟨leafSize, fits, isArray⟩ := generateSourceFragment_some several positive ran
  exact (hasRoom_iff levels).mpr ⟨leafSize, fits, isArray.room positive wellBuilt⟩

theorem ArrayWriter.wellBuilt_of_hasRoom
    (room : HasRoom elementSize pointerSize (toInt classSize)
      (elementSize * (levels ++ [last]).prod % 18446744073709551616) (levels ++ [last])) :
    ∃ heap, ArrayWriter.generateSourceFragment elementSize classSize pointerSize
        ((levels ++ [last]).map Nat.cast) = some heap ∧
      WellBuilt elementSize pointerSize heap 0 (levels ++ [last]) := by
  obtain ⟨leafSize, fits, lastRoom⟩ := (hasRoom_iff levels).mp room
  have count : levels.length = levels.length - 1 + 1 := by
    rw [List.length_append, List.length_singleton] at several
    omega
  obtain ⟨heap, ran⟩ : ∃ heap, ArrayWriter.generateSourceFragment elementSize classSize pointerSize
      ((levels ++ [last]).map Nat.cast) = some heap := by
    rw [generateSourceFragment_eq]
    exact genLevels_total levels rfl count
      (fun extent member => positive extent (List.mem_append_left _ member)) (malloc_top _) fits
  obtain ⟨leafSize', fits', isArray⟩ := generateSourceFragment_some several positive ran
  cases fits.symm.trans fits'
  exact ⟨heap, ran, isArray.wellBuilt lastRoom⟩

end Emitted

/-- The emitted expression builds a usable array in exactly the cases where each
block, sized by the extent of the level above it, has room for its own. -/
theorem ArrayWriter.wellBuilt_iff (elementSize classSize pointerSize : Nat) (extents : List Nat)
    (several : 2 ≤ extents.length) (positive : ∀ extent ∈ extents, 0 < extent) :
    (∃ heap, ArrayWriter.generateSourceFragment elementSize classSize pointerSize
        (extents.map Nat.cast) = some heap ∧ WellBuilt elementSize pointerSize heap 0 extents) ↔
      HasRoom elementSize pointerSize (toInt classSize)
        (elementSize * extents.prod % 18446744073709551616) extents := by
  obtain ⟨levels, last, rfl⟩ : ∃ levels last, extents = levels ++ [last] := by
    have nonempty : extents ≠ [] := by
      intro empty
      simp [empty] at several
    exact ⟨_, _, (List.dropLast_concat_getLast nonempty).symm⟩
  constructor
  · intro reached
    obtain ⟨heap, ran, wellBuilt⟩ := reached
    exact hasRoom_of_wellBuilt several positive ran wellBuilt
  · intro room
    exact wellBuilt_of_hasRoom several positive room

theorem ArrayWriter.wellBuilt_iff_square :
    (∃ heap, ArrayWriter.generateSourceFragment 8 8 8 [2, 2] = some heap ∧
        WellBuilt 8 8 heap 0 [2, 2]) ↔
      HasRoom 8 8 (toInt (8 : Nat)) (8 * [2, 2].prod % 18446744073709551616) [2, 2] :=
  ArrayWriter.wellBuilt_iff 8 8 8 [2, 2] (by decide) (by decide)

/-- `new Item[2][100]`: the two rows are allocated for two elements each. -/
theorem ArrayWriter.short_rows :
    ¬ ∀ (elementSize classSize pointerSize : Nat) (extents : List Nat), 2 ≤ extents.length →
      (∀ extent ∈ extents, 0 < extent) → 1 ≤ elementSize → elementSize ≤ classSize →
      ∃ heap, ArrayWriter.generateSourceFragment elementSize classSize pointerSize
          (extents.map Nat.cast) = some heap ∧
        WellBuilt elementSize pointerSize heap 0 extents := by
  intro claim
  obtain ⟨heap, ran, wellBuilt⟩ :=
    claim 16 16 8 [2, 100] (by decide) (by decide) (by decide) (by decide)
  have room := @ArrayWriter.hasRoom_of_wellBuilt 16 16 8 [2] 100 (by decide) (by decide) heap ran
    wellBuilt
  obtain ⟨_, below, product, rowRoom⟩ := room
  have rowBytes : below = 32 := by
    simpa [mulInt, IsInt, toInt, eq_comm] using product
  subst below
  simp [HasRoom, toSize] at rowRoom

end NovaC.Arrays
