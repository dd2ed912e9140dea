import NovaC.HashMap.Operations

namespace NovaC.HashMap

open NovaC.C NovaC.OpenAddressing

variable {Data Result : Type} {hash : Hashmap Data} {key : UInt64}

structure Invariant (hash : Hashmap Data) : Prop where
  odd : hash.size % 2 = 1
  small : hash.size < 2147483648
  length : hash.table.length = hash.size
  counted : hash.count = countActive hash.table

theorem Invariant.positive (invariant : Invariant hash) : 0 < hash.size := by
  have odd := invariant.odd
  omega

theorem Invariant.modulus (invariant : Invariant hash) : toSize (hash.size - 2) ≠ 0 := by
  have odd := invariant.odd
  have small := invariant.small
  unfold toSize
  omega

theorem Invariant.count_le (invariant : Invariant hash) :
    0 ≤ hash.count ∧ hash.count ≤ hash.size := by
  have active : countActive hash.table ≤ hash.table.length := List.countP_le_length
  rw [invariant.length] at active
  rw [invariant.counted]
  omega

/-- The next index as the C code computes it, where nothing is cut off. -/
theorem nextIndex_eq {size : Nat} (odd : size % 2 = 1) (small : size < 2147483648) (key : UInt64)
    (index : Nat) : (nextIndex size key index : Int) = (index + step size key).tmod size := by
  by_cases one : size = 1
  · subst one
    rw [nextIndex, Int.natCast_one, Int.tmod_one]
    rfl
  rw [nextIndex, step_eq (by omega) (by omega), ← Int.natCast_add, ← Int.ofNat_tmod,
    Int.toNat_natCast]

/-- A search gives what is done at some slot, if anything. -/
theorem Invariant.searchTable_cases (invariant : Invariant hash) (key : UInt64)
    (visit : Nat → HEntry Data → Option Result) :
    searchTable hash key visit = .ok none ∨
      ∃ index entry result, hash.table[index]? = some entry ∧ visit index entry = some result ∧
        searchTable hash key visit = .ok (some result) := by
  have positive := invariant.positive
  have divides : ¬ (hash.size = 0 ∨ toSize (hash.size - 2) = 0) :=
    not_or.mpr ⟨by omega, invariant.modulus⟩
  have inTable : ∀ round < hash.size,
      (nextIndex hash.size key)^[round] (startIndex hash.size key) < hash.table.length := by
    intro round _
    rw [invariant.length, ← probing_path positive]
    exact Probing.path_lt _ key round
  rw [searchTable, if_neg divides]
  rcases search_total visit inTable with
    ⟨ended, _⟩ | ⟨round, _, entry, result, here, found, ran, _⟩
  · rw [ended]
    exact .inl rfl
  · rw [ran]
    exact .inr ⟨_, entry, result, here, found, rfl⟩

theorem calloc_invariant {size : Int} (odd : size % 2 = 1) (positive : 0 < size)
    (small : size < 2147483648) :
    Invariant (⟨calloc size.toNat, size.toNat, 0⟩ : Hashmap Data) where
  odd := by simp only; omega
  small := by simp only; omega
  length := List.length_replicate
  counted := by
    simp only [calloc, countActive_empty]
    rfl

section Slots

variable {index : Nat} {entry : HEntry Data}

theorem Invariant.insertAt (invariant : Invariant hash) {data : Option Data} {after : Hashmap Data}
    (here : hash.table[index]? = some entry)
    (stored : insertAt hash data key index entry = some after) : Invariant after := by
  have counted := invariant.counted
  rw [HashMap.insertAt] at stored
  split at stored
  · rename_i active
    split at stored
    · cases stored
      have change := countActive_set here { entry with data := data }
      refine ⟨invariant.odd, invariant.small, ?_, ?_⟩
      · exact List.length_set.trans invariant.length
      · simp only [active, if_true] at change ⊢
        omega
    · cases stored
  · rename_i inactive
    cases stored
    have change := countActive_set here ⟨data, true, key⟩
    refine ⟨invariant.odd, invariant.small, ?_, ?_⟩
    · exact List.length_set.trans invariant.length
    · simp only [inactive, Bool.false_eq_true, if_false, if_true] at change ⊢
      omega

theorem Invariant.removeAt (invariant : Invariant hash) {result : Hashmap Data × Option Data}
    (here : hash.table[index]? = some entry)
    (removed : removeAt hash key index entry = some result) : Invariant result.1 := by
  have counted := invariant.counted
  rw [HashMap.removeAt] at removed
  split at removed
  · split at removed
    · split at removed
      · rename_i active
        cases removed
        have change := countActive_set here { entry with active := false }
        refine ⟨invariant.odd, invariant.small, ?_, ?_⟩
        · exact List.length_set.trans invariant.length
        · simp only [active, Bool.false_eq_true, if_false, if_true] at change ⊢
          omega
      · cases removed
        exact invariant
    · cases removed
  · cases removed
    exact invariant

end Slots

theorem Invariant.hashmapRemove (invariant : Invariant hash) (key : UInt64) :
    Returns (hashmapRemove hash key) fun result => Invariant result.1 := by
  rw [HashMap.hashmapRemove]
  rcases invariant.searchTable_cases key (HashMap.removeAt hash key) with
    ended | ⟨index, entry, result, here, removed, ran⟩
  · rw [ended]
    exact .ok invariant
  · rw [ran]
    exact .ok (invariant.removeAt here removed)

def KeepsInvariant (insert : Insert Data) : Prop :=
  ∀ (hash : Hashmap Data) (data : Option Data) (key : UInt64) (rands : Rands), Invariant hash →
    Returns (insert hash data key rands) fun result => Invariant result.1

theorem reinsert_invariant {insert : Insert Data} (keeps : KeepsInvariant insert)
    (entries : List (HEntry Data)) (invariant : Invariant hash) (rands : Rands) :
    Returns (reinsert insert entries hash rands) fun result => Invariant result.1 := by
  induction entries generalizing hash rands with
  | nil => exact .ok invariant
  | cons entry entries ih =>
      rw [reinsert]
      split
      · apply (keeps hash entry.data entry.key rands invariant).bind
        intro result middle
        exact ih middle result.2
      · exact ih invariant rands

/-- The entries of the old table go into a new one, through whatever rehashes that
makes in turn. -/
theorem rehash_invariant {insert : Insert Data} (keeps : KeepsInvariant insert)
    (hash : Hashmap Data) (rands : Rands) :
    Returns (rehash insert hash rands) fun result => Invariant result.1 := by
  rw [rehash]
  apply (findPrimeGreaterThan_returns _ rands).bind
  intro result reached
  obtain ⟨odd, positive, small⟩ := reached
  exact reinsert_invariant keeps hash.table.reverse (calloc_invariant odd positive small) result.2

theorem insertFrom_invariant (depth : Nat) (entering : Bool) :
    KeepsInvariant (insertFrom depth entering : Insert Data) := by
  induction depth generalizing entering with
  | zero => exact fun _ _ _ _ _ => .noReturn
  | succ depth ih =>
      intro hash data key rands invariant
      have entered : Returns
          (if entering ∧ (hash.size : Int) ≤ hash.count then
            rehash (insertFrom depth true) hash rands else .ok (hash, rands))
          fun result => Invariant result.1 := by
        split
        · exact rehash_invariant (ih true) hash rands
        · exact .ok invariant
      rw [insertFrom]
      apply entered.bind
      intro result started
      obtain ⟨start, rands⟩ := result
      dsimp only at started ⊢
      rcases started.searchTable_cases key (HashMap.insertAt start data key) with
        full | ⟨index, entry, after, here, stored, ran⟩
      · rw [full, ok_bind]
        apply (rehash_invariant (ih true) start rands).bind
        intro result moved
        exact ih false result.1 data key result.2 moved
      · rw [ran, ok_bind]
        exact .ok (started.insertAt here stored)

inductive Change (Data : Type) where
  | insert (data : Option Data) (key : UInt64)
  | remove (key : UInt64)
  deriving Repr, DecidableEq

def change (depth : Nat) (hash : Hashmap Data) (rands : Rands) :
    Change Data → Except Stop (Hashmap Data × Rands)
  | .insert data key => hashmapInsert depth hash data key rands
  | .remove key => do
      let (hash, _) ← hashmapRemove hash key
      .ok (hash, rands)

def changes (depth : Nat) : List (Change Data) → Hashmap Data → Rands →
    Except Stop (Hashmap Data × Rands)
  | [], hash, rands => .ok (hash, rands)
  | first :: rest, hash, rands => do
      let (hash, rands) ← change depth hash rands first
      changes depth rest hash rands

theorem Invariant.change (invariant : Invariant hash) (depth : Nat) (rands : Rands)
    (step : Change Data) :
    Returns (change depth hash rands step) fun result => Invariant result.1 := by
  cases step with
  | insert data key => exact insertFrom_invariant depth true hash data key rands invariant
  | remove key =>
      apply (invariant.hashmapRemove key).bind
      intro result removed
      exact .ok removed

theorem Invariant.changes (invariant : Invariant hash) (depth : Nat) (rands : Rands)
    (steps : List (Change Data)) :
    Returns (changes depth steps hash rands) fun result => Invariant result.1 := by
  induction steps generalizing hash rands with
  | nil => exact .ok invariant
  | cons step steps ih =>
      apply (invariant.change depth rands step).bind
      intro result changed
      exact ih changed result.2

theorem hashmapCreate_invariant (startsize : Int) (rands : Rands) :
    Returns (hashmapCreate startsize rands) fun result : Hashmap Data × Rands =>
      Invariant result.1 := by
  rw [hashmapCreate]
  split
  · exact .ok (calloc_invariant (by decide) (by decide) (by decide) : Invariant
      (⟨calloc (1021 : Int).toNat, (1021 : Int).toNat, 0⟩ : Hashmap Data))
  · apply (findPrimeGreaterThan_returns _ rands).bind
    intro result reached
    obtain ⟨odd, positive, small⟩ := reached
    exact .ok (calloc_invariant odd positive small)

/-- What the functions of `HashMap.c` rely on. -/
structure Consistent (hash : Hashmap Data) : Prop where
  counted : hash.count = countActive hash.table
  countInRange : 0 ≤ hash.count ∧ hash.count ≤ hash.size
  odd : hash.size % 2 = 1
  modulus : toSize (hash.size - 2) ≠ 0
  length : hash.table.length = hash.size
  startInside : ∀ key, startIndex hash.size key < hash.size
  nextInside : ∀ key, ∀ index < hash.size, 0 ≤ (index + step hash.size key).tmod hash.size ∧
    (index + step hash.size key).tmod hash.size < hash.size

theorem Invariant.consistent (invariant : Invariant hash) : Consistent hash where
  counted := invariant.counted
  countInRange := invariant.count_le
  odd := invariant.odd
  modulus := invariant.modulus
  length := invariant.length
  startInside _ := Nat.mod_lt _ invariant.positive
  nextInside key index _ := by
    have inside := nextIndex_lt invariant.positive key index
    rw [← nextIndex_eq invariant.odd invariant.small]
    omega

/-- Whatever is inserted and removed, a map is consistent after each call that returns,
and no call leaves its table. -/
theorem changes_consistent (startsize : Int) (depth : Nat) (rands : Rands)
    (steps : List (Change Data)) :
    Returns (hashmapCreate startsize rands >>= fun created =>
      changes depth steps created.1 created.2) fun result => Consistent result.1 := by
  apply (hashmapCreate_invariant startsize rands).bind
  intro created invariant
  apply (invariant.changes depth created.2 steps).mono
  exact fun _ final => final.consistent

end NovaC.HashMap
