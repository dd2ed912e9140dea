import NovaC.C.Blocks
import NovaC.C.Int

namespace NovaC.Database

open NovaC.C

/-! `nova_get_results` of `NativeDBConnector.c`, for a `malloc` that succeeds.

The bodies of these functions are for Windows, where a `long` has the range of an `int`
and a `size_t` is as wide as a pointer.
-/

structure MysqlRes where
  /-- what `mysql_num_fields` returns -/
  numFields : Nat
  /-- what `mysql_fetch_row` returns before it returns NULL -/
  rows : List BlockId
deriving DecidableEq

/-- `nova_num_rows`, by what `mysql_affected_rows` returns -/
def novaNumRows (affectedRows : Nat) : Int :=
  toInt affectedRows

def novaNumCols (result : MysqlRes) : Int :=
  toInt result.numFields

/-- `while ((row = nova_getRow(result))) rows[id++] = row;` -/
def storeRows (pointerSize : Nat) (rows : BlockId) : Nat → List BlockId → Heap → Option Heap
  | _, [], heap => some heap
  | id, row :: later, heap => do
      let heap ← heap.storePointer pointerSize rows id row
      storeRows pointerSize rows (id + 1) later heap

/-- The heap afterwards and what is returned, where `none` stands for NULL. -/
def novaGetResults (pointerSize affectedRows : Nat) (result : Option MysqlRes) (heap : Heap) :
    Option (Heap × Option BlockId) :=
  match result with
  | none => some (heap, none)
  | some result => do
      let bytes := novaNumRows affectedRows * novaNumCols result % 2 ^ (8 * pointerSize)
      let (heap, rows) := heap.malloc bytes.toNat
      let heap ← storeRows pointerSize rows 0 result.rows heap
      pure (heap, some rows)

/-- All stores were inside the block, which holds the fetched rows in order. -/
def HoldsRows (pointerSize : Nat) (fetched : List BlockId) :
    Option (Heap × Option BlockId) → Prop
  | some (heap, some rows) =>
      ∀ id < fetched.length, heap.loadPointer pointerSize rows id = fetched[id]?
  | _ => False

section Stores

variable {pointerSize rows id : Nat} {fetched : List BlockId} {heap after : Heap} {data : Block}

theorem storeRows_room (found : heap[rows]? = some data)
    (ran : storeRows pointerSize rows id fetched heap = some after) (some : fetched ≠ []) :
    (id + fetched.length) * pointerSize ≤ data.size := by
  induction fetched generalizing id heap data with
  | nil => exact absurd rfl some
  | cons row later ih =>
      obtain ⟨next, stored, continued⟩ := Option.bind_eq_some_iff.mp ran
      obtain ⟨written, lookup, room, rfl⟩ := Heap.storePointer_some stored
      obtain rfl := Option.some.inj (found.symm.trans lookup)
      have inside : rows < heap.length := (List.getElem?_eq_some_iff.mp found).1
      cases later with
      | nil => exact room
      | cons second later =>
          have kept := ih (List.getElem?_set_self inside) continued (List.cons_ne_nil _ _)
          rwa [Nat.add_assoc, Nat.add_comm 1] at kept

/-- With room for all rows, the loop stores them behind those that it has stored before. -/
theorem storeRows_stores (found : heap[rows]? = some data)
    (room : (id + fetched.length) * pointerSize ≤ data.size) :
    ∃ after slots, storeRows pointerSize rows id fetched heap = some after ∧
      after[rows]? = some ⟨data.size, slots⟩ ∧
      (∀ earlier < id, slots earlier = data.slots earlier) ∧
      ∀ index < fetched.length, slots (id + index) = fetched[index]? := by
  induction fetched generalizing id heap data with
  | nil =>
      refine ⟨heap, data.slots, rfl, found, fun _ _ => rfl, fun index inside => ?_⟩
      exact absurd inside (Nat.not_lt_zero index)
  | cons row later ih =>
      have inside : rows < heap.length := (List.getElem?_eq_some_iff.mp found).1
      have first : (id + 1) * pointerSize ≤ data.size :=
        (Nat.mul_le_mul_right pointerSize (by simp)).trans room
      have stored := Heap.storePointer_inside row found first
      have written : (heap.set rows ⟨data.size, Function.update data.slots id (some row)⟩)[rows]? =
          some ⟨data.size, Function.update data.slots id (some row)⟩ :=
        List.getElem?_set_self inside
      rw [List.length_cons, Nat.add_comm later.length, ← Nat.add_assoc] at room
      obtain ⟨after, slots, continued, lookup, before, behind⟩ := ih written room
      refine ⟨after, slots, by rw [storeRows, stored]; exact continued, lookup, ?_, ?_⟩
      · intro earlier below
        exact (before earlier (by omega)).trans (Function.update_of_ne (by omega) _ _)
      · intro index within
        cases index with
        | zero =>
            exact (before id (by omega)).trans (Function.update_self id (some row) data.slots)
        | succ index =>
            rw [List.length_cons] at within
            have next := behind index (by omega)
            rwa [Nat.add_assoc, Nat.add_comm 1] at next

end Stores

section Results

variable {pointerSize affectedRows : Nat} {result : MysqlRes}

/-- The block has a byte for each field of each row, as far as a `size_t` can count them. -/
theorem block_bytes (rows : novaNumRows affectedRows = result.rows.length)
    (columns : 1 ≤ novaNumCols result) :
    (novaNumRows affectedRows * novaNumCols result % 2 ^ (8 * pointerSize)).toNat =
      result.rows.length * (novaNumCols result).toNat % 2 ^ (8 * pointerSize) := by
  have fields : novaNumRows affectedRows * novaNumCols result % 2 ^ (8 * pointerSize) =
      ((result.rows.length * (novaNumCols result).toNat % 2 ^ (8 * pointerSize) : Nat) : Int) := by
    push_cast
    rw [rows, Int.toNat_of_nonneg (by omega)]
  rw [fields, Int.toNat_natCast]

theorem novaGetResults_eq (rows : novaNumRows affectedRows = result.rows.length)
    (columns : 1 ≤ novaNumCols result) (heap : Heap) :
    novaGetResults pointerSize affectedRows (some result) heap =
      (storeRows pointerSize heap.length 0 result.rows
        (heap.malloc (result.rows.length * (novaNumCols result).toNat %
          2 ^ (8 * pointerSize))).1).map (·, some heap.length) := by
  rw [novaGetResults, block_bytes rows columns]
  cases stored : storeRows pointerSize heap.length 0 result.rows
    (heap.malloc (result.rows.length * (novaNumCols result).toNat %
      2 ^ (8 * pointerSize))).1 with
  | none => simp only [Heap.malloc_block, stored, bind, Option.bind, Option.map_none]
  | some after => simp only [Heap.malloc_block, stored, bind, Option.bind, pure, Option.map_some]

theorem malloc_found (heap : Heap) (bytes : Nat) :
    (heap.malloc bytes).1[heap.length]? = some ⟨bytes, fun _ => none⟩ := by
  rw [Heap.malloc, List.getElem?_concat_length]

/-- With room for every pointer, each row is read back from its place. -/
theorem holdsRows_stored {fetched : List BlockId} {bytes : Nat}
    (room : fetched.length * pointerSize ≤ bytes) (heap : Heap) :
    HoldsRows pointerSize fetched
      ((storeRows pointerSize heap.length 0 fetched (heap.malloc bytes).1).map
        (·, some heap.length)) := by
  obtain ⟨after, slots, ran, lookup, -, stored⟩ :=
    @storeRows_stores pointerSize heap.length 0 fetched _ _ (malloc_found heap bytes)
      (by rwa [Nat.zero_add])
  rw [ran, Option.map_some]
  intro id inside
  have within : (id + 1) * pointerSize ≤ bytes :=
    (Nat.mul_le_mul_right pointerSize inside).trans room
  have slot := stored id inside
  rw [Nat.zero_add] at slot
  rw [Heap.loadPointer, lookup]
  exact (if_pos within).trans slot

/-- The rows are stored in bounds and in order when there are none, or when a row has at
least as many columns as a pointer has bytes and the block keeps room for the pointers
where its size wraps around. -/
theorem holdsRows_iff (rows : novaNumRows affectedRows = result.rows.length)
    (columns : 1 ≤ novaNumCols result) (heap : Heap) :
    HoldsRows pointerSize result.rows (novaGetResults pointerSize affectedRows (some result) heap) ↔
      result.rows = [] ∨ ((pointerSize : Int) ≤ novaNumCols result ∧
        result.rows.length * pointerSize ≤
          result.rows.length * (novaNumCols result).toNat % 2 ^ (8 * pointerSize)) := by
  rw [novaGetResults_eq rows columns]
  refine ⟨fun holds => ?_, fun fits => holdsRows_stored ?_ heap⟩
  · cases ran : storeRows pointerSize heap.length 0 result.rows
        (heap.malloc (result.rows.length * (novaNumCols result).toNat %
          2 ^ (8 * pointerSize))).1 with
    | none =>
        rw [ran] at holds
        exact holds.elim
    | some after =>
        by_cases empty : result.rows = []
        · exact .inl empty
        · have room := storeRows_room (malloc_found heap _) ran empty
          rw [Nat.zero_add] at room
          have unwrapped := room.trans (Nat.mod_le _ _)
          have narrow := Nat.le_of_mul_le_mul_left unwrapped (List.length_pos_iff.mpr empty)
          exact .inr ⟨by omega, room⟩
  · rcases fits with empty | ⟨-, room⟩
    · simp [empty]
    · exact room

/-- With pointers of eight bytes the size of the block does not wrap around. -/
theorem room_iff_columns (rows : novaNumRows affectedRows = result.rows.length) :
    result.rows.length * 8 ≤ result.rows.length * (novaNumCols result).toNat % 2 ^ (8 * 8) ↔
      result.rows = [] ∨ 8 ≤ novaNumCols result := by
  have rowsBelow : novaNumRows affectedRows < 2147483648 := (toInt_spec affectedRows).1.2
  have columnsBelow : novaNumCols result < 2147483648 := (toInt_spec result.numFields).1.2
  have counts : result.rows.length * (novaNumCols result).toNat < 2 ^ (8 * 8) :=
    calc result.rows.length * (novaNumCols result).toNat
        ≤ 2 ^ 31 * 2 ^ 31 := Nat.mul_le_mul (by omega) (by omega)
      _ < 2 ^ (8 * 8) := by decide
  rw [Nat.mod_eq_of_lt counts]
  by_cases empty : result.rows = []
  · simp [empty]
  · rw [Nat.mul_le_mul_left_iff (List.length_pos_iff.mpr empty)]
    refine ⟨fun room => .inr (by omega), fun room => ?_⟩
    have wide := room.resolve_left empty
    omega

end Results

/-- A result of two rows with eight columns, and pointers of eight bytes. -/
theorem holdsRows_wide :
    HoldsRows 8 [5, 7] (novaGetResults 8 2 (some ⟨8, [5, 7]⟩) []) ↔
      [5, 7] = ([] : List BlockId) ∨ (((8 : Nat) : Int) ≤ novaNumCols ⟨8, [5, 7]⟩ ∧
        [5, 7].length * 8 ≤ [5, 7].length * (novaNumCols ⟨8, [5, 7]⟩).toNat % 2 ^ (8 * 8)) :=
  @holdsRows_iff 8 2 ⟨8, [5, 7]⟩ (by decide) (by decide) []

/-- One row of one column: its pointer is larger than the block. -/
theorem holdsRows_narrow :
    novaNumRows 1 = ([5] : List BlockId).length ∧ 1 ≤ novaNumCols ⟨1, [5]⟩ ∧
      novaGetResults 8 1 (some ⟨1, [5]⟩) [] = none ∧
      ¬ HoldsRows 8 [5] (novaGetResults 8 1 (some ⟨1, [5]⟩) []) := by
  have outside : novaGetResults 8 1 (some ⟨1, [5]⟩) [] = none := rfl
  refine ⟨by decide, by decide, outside, ?_⟩
  rw [outside]
  exact id

end NovaC.Database
