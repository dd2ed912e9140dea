import NovaC.HashMap.Operations
import NovaC.OpenAddressing.DoubleHashing

namespace NovaC.HashMap

open NovaC.C NovaC.OpenAddressing

variable {Data : Type}

/-- A map with a free slot, whose table of 24 bytes for each slot is an object in
memory. -/
structure PrimeSize (Data : Type) extends Hashmap Data where
  prime : size.Prime
  odd : size % 2 = 1
  allocated : 24 * size < 18446744073709551616
  length : table.length = size
  counted : count = countActive table
  free : count < size

namespace PrimeSize

variable (hash : PrimeSize Data) (key : UInt64)

theorem large : 2 < hash.size := by
  have odd := hash.odd
  have prime := hash.prime.two_le
  omega

theorem nextIndex_stride :
    nextIndex hash.size key = fun index => (index + (key.toNat % (hash.size - 2) + 1)) % hash.size := by
  have allocated := hash.allocated
  funext index
  rw [nextIndex, step_eq hash.large (by omega), ← Int.natCast_add, ← Int.ofNat_tmod,
    Int.toNat_natCast]

/-- The `round`-th probe index of `hashmapInsert`. -/
def index (round : Nat) : Nat :=
  (nextIndex hash.size key)^[round] (startIndex hash.size key)

theorem index_eq (round : Nat) :
    hash.index key round =
      (startIndex hash.size key + round * (key.toNat % (hash.size - 2) + 1)) % hash.size := by
  have inside : startIndex hash.size key < hash.size := Nat.mod_lt _ hash.prime.pos
  rw [index, nextIndex_stride, stride_iterate inside]

theorem index_lt (round : Nat) : hash.index key round < hash.size := by
  rw [index_eq]
  exact Nat.mod_lt _ hash.prime.pos

theorem index_injective {round other : Nat} (inside : round < hash.size)
    (otherInside : other < hash.size) (same : hash.index key round = hash.index key other) :
    round = other := by
  have large := hash.large
  have remainder := Nat.mod_lt key.toNat (show 0 < hash.size - 2 by omega)
  have coprime : hash.size.Coprime (key.toNat % (hash.size - 2) + 1) :=
    Nat.coprime_of_lt_prime (Nat.succ_ne_zero _) (by omega) hash.prime
  rw [index_eq, index_eq] at same
  exact stride_injective coprime inside otherInside same

theorem searchTable_insertAt (data : Option Data) :
    ∃ after, searchTable hash.toHashmap key (insertAt hash.toHashmap data key) =
      .ok (some after) := by
  have large := hash.large
  have allocated := hash.allocated
  have length := hash.length
  have divides : ¬ (hash.size = 0 ∨ toSize (hash.size - 2) = 0) := by
    unfold toSize
    omega
  have inTable : ∀ round < hash.size, hash.index key round < hash.table.length := by
    intro round _
    rw [length]
    exact hash.index_lt key round
  rw [searchTable, if_neg divides]
  rcases search_total (insertAt hash.toHashmap data key) inTable with
    ⟨_, passes⟩ | ⟨round, _, entry, after, _, _, ran, _⟩
  · -- every slot would be active, but one is free
    have free : countActive hash.table < hash.table.length := by
      have counted := hash.counted
      have free := hash.free
      omega
    have different : ∀ round < hash.table.length, ∀ other < hash.table.length,
        hash.index key round = hash.index key other → round = other := by
      rw [length]
      exact fun round inside other otherInside => hash.index_injective key inside otherInside
    obtain ⟨round, inside, slot, here, inactive⟩ :=
      @exists_inactive _ _ _ (hash.index key) (fun round inside => inTable round (by omega))
        different free
    obtain ⟨passed, there, nothing⟩ := passes round (by omega)
    obtain rfl : slot = passed := Option.some.inj (here.symm.trans there)
    rw [(insertAt_eq_none.mp nothing).1] at inactive
    cases inactive
  · rw [ran]
    exact ⟨after, rfl⟩

/-- The probe indices of a key are pairwise distinct, so that an insertion ends in the
first pass over the table, without a rehash. -/
theorem insert_first_pass :
    (∀ round < hash.size, ∀ other < hash.size, hash.index key round = hash.index key other →
        round = other) ∧
      ∀ (data : Option Data) (depth : Nat) (rands : Rands), ∃ after,
        searchTable hash.toHashmap key (insertAt hash.toHashmap data key) = .ok (some after) ∧
          hashmapInsert (depth + 1) hash.toHashmap data key rands = .ok (after, rands) := by
  refine ⟨fun round inside other otherInside => hash.index_injective key inside otherInside, ?_⟩
  intro data depth rands
  obtain ⟨after, searched⟩ := hash.searchTable_insertAt key data
  have noRehash : ¬ (true = true ∧ (hash.size : Int) ≤ hash.count) := by
    have free := hash.free
    omega
  refine ⟨after, searched, ?_⟩
  rw [hashmapInsert, insertFrom, if_neg noRehash, ok_bind]
  dsimp only
  rw [searched, ok_bind]

/-- Keys 0, 5 and 10 were inserted, which share the first slot, and key 0 was removed. -/
def collided : PrimeSize Nat where
  table := [⟨some 10, false, 0⟩, ⟨none, false, 0⟩, ⟨some 20, true, 10⟩, ⟨some 15, true, 5⟩,
    ⟨none, false, 0⟩]
  size := 5
  count := 2
  prime := Nat.prime_five
  odd := rfl
  allocated := by decide
  length := rfl
  counted := rfl
  free := by decide

/-- Key 10 again. -/
theorem insert_first_pass_collided :
    (∀ round < 5, ∀ other < 5, collided.index 10 round = collided.index 10 other →
        round = other) ∧
      ∀ (data : Option Nat) (depth : Nat) (rands : Rands), ∃ after,
        searchTable collided.toHashmap 10 (insertAt collided.toHashmap data 10) =
            .ok (some after) ∧
          hashmapInsert (depth + 1) collided.toHashmap data 10 rands = .ok (after, rands) :=
  collided.insert_first_pass 10

end PrimeSize

end NovaC.HashMap
