import NovaC.HashMap.Invariant
import NovaC.HashMap.PrimeSize
import NovaC.HashMap.Refinement

namespace NovaC.HashMap

open NovaC.C NovaC.OpenAddressing

/-! What `hashmapInsert` does as long as every size is a prime.

The `rehash` at the end of its loop is there for sizes that are not. Without it a full map is
rehashed once, no rehash starts another one, and one pass over the slots stores the data.
-/

variable {Data : Type} {hash : Hashmap Data}

namespace OnePass

/-- One pass over the slots; not to find one has no meaning. -/
def store : Insert Data := fun hash data key rands => do
  match ← searchTable hash key (insertAt hash data key) with
  | some hash => .ok (hash, rands)
  | none => .error .undefined

def hashmapInsert : Insert Data := fun hash data key rands => do
  let (hash, rands) ←
    if (hash.size : Int) ≤ hash.count then rehash store hash rands else .ok (hash, rands)
  store hash data key rands

/-- Nothing but an insertion has a bound. -/
def perform (hash : Hashmap Data) (rands : Rands) :
    Operation (Option Data) → Except Stop (Answer Data × Hashmap Data × Rands)
  | .insert data key => do
      let (hash, rands) ← hashmapInsert hash data key rands
      .ok (.done, hash, rands)
  | operation => HashMap.perform 0 hash rands operation

def performAll : List (Operation (Option Data)) → Hashmap Data → Rands →
    Except Stop (List (Answer Data) × Hashmap Data × Rands)
  | [], hash, rands => .ok ([], hash, rands)
  | operation :: operations, hash, rands => do
      let (answer, hash, rands) ← perform hash rands operation
      let (answers, hash, rands) ← performAll operations hash rands
      .ok (answer :: answers, hash, rands)

end OnePass

/-- For a full map a size is found, and is a prime. -/
def GrowsPrime (hash : Hashmap Data) (rands : Rands) : Prop :=
  (hash.size : Int) ≤ hash.count → ∃ size rest,
    findPrimeGreaterThan (toInt (2 * hash.size)) rands = .ok (size, rest) ∧ size.toNat.Prime

/-- Every insertion of the run that looks for a prime finds one. -/
def PrimeRun (depth : Nat) : List (Operation (Option Data)) → Hashmap Data → Rands → Prop
  | [], _, _ => True
  | operation :: operations, hash, rands =>
      (∀ data key, operation = .insert data key → GrowsPrime hash rands) ∧
        ∀ answer after afterRands,
          perform depth hash rands operation = .ok (answer, after, afterRands) →
            PrimeRun depth operations after afterRands

section Growth

/-- Past the greatest `int` the search goes on below zero, where it does not end. -/
theorem findPrimeFrom_negative {val : Int} (negative : val < 0) (rounds : Nat) (rands : Rands) :
    findPrimeFrom rounds val rands = .error .noReturn := by
  cases rounds with
  | zero => rfl
  | succ rounds => rw [findPrimeFrom, isPrime, if_pos negative]

theorem findPrimeFrom_le {val : Int} (odd : val % 2 = 1) (range : IsInt val) (rounds : Nat)
    (rands : Rands) : Returns (findPrimeFrom rounds val rands) fun found => val ≤ found.1 := by
  induction rounds generalizing val rands with
  | zero => exact .noReturn
  | succ rounds ih =>
      have prime := isPrime_returns odd rands
      rw [findPrimeFrom]
      cases tested : isPrime val rands with
      | error stop =>
          rw [tested] at prime
          cases prime
          exact .noReturn
      | ok answer =>
          obtain ⟨isPrime, rands⟩ := answer
          cases isPrime with
          | true => exact .ok (le_refl val)
          | false =>
              dsimp only
              by_cases next : IsInt (val + 2)
              · rw [toInt_of_isInt next]
                refine (ih (by omega) next rands).mono fun found above => ?_
                omega
              · have wrapped : toInt (val + 2) < 0 := by
                  obtain ⟨wraps, turns, spec⟩ := toInt_spec (val + 2)
                  unfold IsInt at range next wraps
                  omega
                rw [findPrimeFrom_negative wrapped]
                exact .noReturn

/-- A rehash more than doubles the size. -/
theorem findPrimeGreaterThan_double {size : Nat} (small : size < 2147483648) (rands : Rands) :
    Returns (findPrimeGreaterThan (toInt (2 * size)) rands) fun found =>
      2 * (size : Int) < found.1 := by
  obtain ⟨range, turns, spec⟩ := toInt_spec (2 * size)
  have even : toInt (2 * size) % 2 ≠ 1 := by omega
  have next : IsInt (toInt (2 * size) + 1) := by
    unfold IsInt at range ⊢
    omega
  rw [findPrimeGreaterThan, if_neg even, toInt_of_isInt next]
  by_cases wrapped : toInt (2 * size) < 0
  · rw [findPrimeFrom_negative (by omega)]
    exact .noReturn
  · refine (findPrimeFrom_le (by omega) next _ rands).mono fun found above => ?_
    unfold IsInt at range
    omega

end Growth

section Insertion

/-- A map of a prime size that this many keys can still be inserted into. -/
structure HasRoom (hash : Hashmap Data) (keys : Nat) : Prop extends Invariant hash where
  prime : hash.size.Prime
  room : hash.count + keys ≤ hash.size

theorem HasRoom.weaken {keys fewer : Nat} (hasRoom : HasRoom hash keys) (less : fewer ≤ keys) :
    HasRoom hash fewer where
  toInvariant := hasRoom.toInvariant
  prime := hasRoom.prime
  room := by
    have room := hasRoom.room
    omega

theorem Invariant.hasRoom (invariant : Invariant hash) (prime : hash.size.Prime) :
    HasRoom hash 0 where
  toInvariant := invariant
  prime := prime
  room := by
    have count := invariant.count_le
    push_cast
    omega

theorem insertAt_grows {data : Option Data} {key : UInt64} {index : Nat} {entry : HEntry Data}
    {after : Hashmap Data} (stored : insertAt hash data key index entry = some after) :
    after.size = hash.size ∧ after.count ≤ hash.count + 1 := by
  rw [insertAt] at stored
  split at stored
  · split at stored
    · cases stored
      exact ⟨rfl, by simp⟩
    · cases stored
  · cases stored
    exact ⟨rfl, le_refl _⟩

/-- With room for a key the first pass stores it, whatever may be rehashed. -/
theorem HasRoom.store {keys : Nat} (hasRoom : HasRoom hash (keys + 1)) (data : Option Data)
    (key : UInt64) (rands : Rands) :
    ∃ after, HasRoom after keys ∧ OnePass.store hash data key rands = .ok (after, rands) ∧
      ∀ depth entering,
        insertFrom (depth + 1) entering hash data key rands = .ok (after, rands) := by
  have room := hasRoom.room
  have small := hasRoom.small
  let primeSize : PrimeSize Data := { hash with
    prime := hasRoom.prime
    odd := hasRoom.odd
    allocated := by omega
    length := hasRoom.length
    counted := hasRoom.counted
    free := by omega }
  have stores : ∃ after, searchTable hash key (insertAt hash data key) = .ok (some after) :=
    primeSize.searchTable_insertAt key data
  obtain ⟨after, searched⟩ := stores
  have kept : HasRoom after keys := by
    rcases hasRoom.searchTable_cases key (HashMap.insertAt hash data key) with
      nothing | ⟨index, entry, result, here, stored, ran⟩
    · rw [searched] at nothing
      cases nothing
    · rw [searched] at ran
      cases ran
      obtain ⟨sameSize, more⟩ := insertAt_grows stored
      refine ⟨hasRoom.toInvariant.insertAt here stored, sameSize ▸ hasRoom.prime, ?_⟩
      omega
  have noRehash (entering : Bool) : ¬ (entering = true ∧ (hash.size : Int) ≤ hash.count) := by
    rintro ⟨-, full⟩
    omega
  refine ⟨after, kept, ?_, fun depth entering => ?_⟩
  · rw [OnePass.store, searched, ok_bind]
  · rw [insertFrom, if_neg (noRehash entering), ok_bind]
    dsimp only
    rw [searched, ok_bind]

theorem HasRoom.reinsert (entries : List (HEntry Data))
    (hasRoom : HasRoom hash (entries.length + 1)) (rands : Rands) :
    ∃ after, HasRoom after 1 ∧ reinsert OnePass.store entries hash rands = .ok (after, rands) ∧
      ∀ depth, reinsert (insertFrom (depth + 1) true) entries hash rands = .ok (after, rands) := by
  induction entries generalizing hash with
  | nil => exact ⟨hash, hasRoom, rfl, fun _ => rfl⟩
  | cons entry entries ih =>
      simp only [HashMap.reinsert]
      cases entry.active with
      | true =>
          obtain ⟨next, hasNext, stores, inserts⟩ := hasRoom.store entry.data entry.key rands
          obtain ⟨after, hasAfter, storesRest, insertsRest⟩ := ih hasNext
          refine ⟨after, hasAfter, ?_, fun depth => ?_⟩
          · rw [if_pos rfl, stores, ok_bind, storesRest]
          · rw [if_pos rfl, inserts, ok_bind, insertsRest]
      | false =>
          obtain ⟨after, hasAfter, storesRest, insertsRest⟩ :=
            ih (hasRoom.weaken (by simp))
          exact ⟨after, hasAfter, storesRest, insertsRest⟩

/-- No rehash to a prime size starts another one. -/
theorem Invariant.rehash_prime (invariant : Invariant hash) (full : (hash.size : Int) ≤ hash.count)
    {rands : Rands} (grows : GrowsPrime hash rands) :
    ∃ after rest, HasRoom after 1 ∧ rehash OnePass.store hash rands = .ok (after, rest) ∧
      ∀ depth, rehash (insertFrom (depth + 1) true) hash rands = .ok (after, rest) := by
  obtain ⟨size, rest, searched, prime⟩ := grows full
  have larger := findPrimeGreaterThan_double invariant.small rands
  have found := findPrimeGreaterThan_returns (toInt (2 * hash.size)) rands
  rw [searched] at larger found
  replace larger := larger.holds
  obtain ⟨odd, positive, small⟩ := found.holds
  have empty : HasRoom (⟨calloc size.toNat, size.toNat, 0⟩ : Hashmap Data)
      (hash.table.reverse.length + 1) := by
    refine ⟨calloc_invariant odd positive small, prime, ?_⟩
    rw [List.length_reverse, invariant.length]
    push_cast
    omega
  obtain ⟨after, hasAfter, stores, inserts⟩ := empty.reinsert hash.table.reverse rest
  refine ⟨after, rest, hasAfter, ?_, fun depth => ?_⟩
  · rw [rehash, searched, ok_bind]
    exact stores
  · rw [rehash, searched, ok_bind]
    exact inserts depth

/-- The pass after the first rehash is that of an insertion into the new table. -/
theorem insertFrom_full (full : (hash.size : Int) ≤ hash.count) (depth : Nat)
    (data : Option Data) (key : UInt64) (rands : Rands) :
    insertFrom (depth + 1) true hash data key rands =
      rehash (insertFrom depth true) hash rands >>= fun result =>
        insertFrom (depth + 1) false result.1 data key result.2 := by
  rw [insertFrom, if_pos ⟨rfl, full⟩]
  congr 1

/-- One rehash at the most, and one pass. -/
theorem HasRoom.hashmapInsert (hasRoom : HasRoom hash 0) {rands : Rands}
    (grows : GrowsPrime hash rands) (data : Option Data) (key : UInt64) :
    ∃ after rest, HasRoom after 0 ∧ OnePass.hashmapInsert hash data key rands = .ok (after, rest) ∧
      ∀ depth, hashmapInsert (depth + 2) hash data key rands = .ok (after, rest) := by
  by_cases full : (hash.size : Int) ≤ hash.count
  · obtain ⟨larger, rest, hasLarger, rehashes, same⟩ :=
      hasRoom.toInvariant.rehash_prime full grows
    obtain ⟨after, hasAfter, stores, inserts⟩ := hasLarger.store data key rest
    refine ⟨after, rest, hasAfter, ?_, fun depth => ?_⟩
    · rw [OnePass.hashmapInsert, if_pos full, rehashes, ok_bind]
      exact stores
    · rw [HashMap.hashmapInsert, insertFrom_full full (depth + 1), same depth, ok_bind]
      exact inserts (depth + 1) false
  · have hasOne : HasRoom hash 1 := ⟨hasRoom.toInvariant, hasRoom.prime, by omega⟩
    obtain ⟨after, hasAfter, stores, inserts⟩ := hasOne.store data key rands
    refine ⟨after, rands, hasAfter, ?_, fun depth => inserts (depth + 1) true⟩
    rw [OnePass.hashmapInsert, if_neg full, ok_bind]
    exact stores

end Insertion

section Run

theorem HasRoom.searchTable {Result : Type} (hasRoom : HasRoom hash 0) (key : UInt64)
    (visit : Nat → HEntry Data → Option Result) :
    ∃ result, searchTable hash key visit = .ok result := by
  rcases hasRoom.searchTable_cases key visit with ended | ⟨index, entry, result, here, found, ran⟩
  · exact ⟨none, ended⟩
  · exact ⟨some result, ran⟩

theorem removeAt_size {key : UInt64} {index : Nat} {entry : HEntry Data}
    {result : Hashmap Data × Option Data}
    (removed : removeAt hash key index entry = some result) : result.1.size = hash.size := by
  rw [removeAt] at removed
  split at removed
  · split at removed
    · split at removed <;> cases removed <;> rfl
    · cases removed
  · cases removed
    rfl

theorem HasRoom.hashmapRemove (hasRoom : HasRoom hash 0) (key : UInt64) :
    ∃ after data, HasRoom after 0 ∧ hashmapRemove hash key = .ok (after, data) := by
  rcases hasRoom.searchTable_cases key (HashMap.removeAt hash key) with
    ended | ⟨index, entry, ⟨after, data⟩, here, removed, ran⟩
  · refine ⟨hash, none, hasRoom, ?_⟩
    rw [HashMap.hashmapRemove, ended]
    rfl
  · have invariant : Invariant after := hasRoom.toInvariant.removeAt here removed
    have sameSize : after.size = hash.size := removeAt_size removed
    refine ⟨after, data, invariant.hasRoom (sameSize ▸ hasRoom.prime), ?_⟩
    rw [HashMap.hashmapRemove, ran]
    rfl

/-- One call returns, keeps a prime size, and is the same with any bound from two on. -/
theorem HasRoom.perform (hasRoom : HasRoom hash 0) {rands : Rands}
    {operation : Operation (Option Data)}
    (grows : ∀ data key, operation = .insert data key → GrowsPrime hash rands) :
    ∃ answer after rest, HasRoom after 0 ∧
      OnePass.perform hash rands operation = .ok (answer, after, rest) ∧
      ∀ depth, perform (depth + 2) hash rands operation = .ok (answer, after, rest) := by
  cases operation with
  | insert data key =>
      obtain ⟨after, rest, hasAfter, stores, inserts⟩ :=
        hasRoom.hashmapInsert (grows data key rfl) data key
      refine ⟨.done, after, rest, hasAfter, ?_, fun depth => ?_⟩
      · rw [OnePass.perform, stores, ok_bind]
      · rw [HashMap.perform, inserts depth, ok_bind]
  | remove key =>
      obtain ⟨after, data, hasAfter, removes⟩ := hasRoom.hashmapRemove key
      have called (depth : Nat) :
          HashMap.perform depth hash rands (.remove key) = .ok (.data data, after, rands) := by
        rw [HashMap.perform, removes, ok_bind]
      exact ⟨.data data, after, rands, hasAfter, called 0, fun depth => called (depth + 2)⟩
  | get key =>
      have gets : ∃ data, hashmapGet hash key = .ok data := by
        rw [hashmapGet]
        split
        · obtain ⟨result, searched⟩ := hasRoom.searchTable key (getAt key)
          exact ⟨result.getD none, by rw [searched, ok_bind]⟩
        · exact ⟨none, rfl⟩
      obtain ⟨data, gets⟩ := gets
      have called (depth : Nat) :
          HashMap.perform depth hash rands (.get key) = .ok (.data data, hash, rands) := by
        rw [HashMap.perform, gets, ok_bind]
      exact ⟨.data data, hash, rands, hasRoom, called 0, fun depth => called (depth + 2)⟩
  | contains key =>
      have finds : ∃ contains, hashmapContains hash key = .ok contains := by
        rw [hashmapContains]
        split
        · obtain ⟨result, searched⟩ := hasRoom.searchTable key (containsAt key)
          exact ⟨result.getD false, by rw [searched, ok_bind]⟩
        · exact ⟨false, rfl⟩
      obtain ⟨contains, finds⟩ := finds
      have called (depth : Nat) : HashMap.perform depth hash rands (.contains key) =
          .ok (.contains contains, hash, rands) := by
        rw [HashMap.perform, finds, ok_bind]
      exact ⟨.contains contains, hash, rands, hasRoom, called 0, fun depth => called (depth + 2)⟩
  | count => exact ⟨_, hash, rands, hasRoom, rfl, fun _ => rfl⟩

theorem HasRoom.performAll (hasRoom : HasRoom hash 0) {rands : Rands} (depth : Nat)
    {operations : List (Operation (Option Data))} (run : PrimeRun (depth + 2) operations hash rands) :
    ∃ answers after rest, HasRoom after 0 ∧
      OnePass.performAll operations hash rands = .ok (answers, after, rest) ∧
      performAll (depth + 2) operations hash rands = .ok (answers, after, rest) := by
  induction operations generalizing hash rands with
  | nil => exact ⟨[], hash, rands, hasRoom, rfl, rfl⟩
  | cons operation operations ih =>
      obtain ⟨grows, further⟩ := run
      obtain ⟨answer, next, nextRands, hasNext, stores, called⟩ := hasRoom.perform grows
      obtain ⟨answers, after, rest, hasAfter, storesRest, calledRest⟩ :=
        ih hasNext (further answer next nextRands (called depth))
      refine ⟨answer :: answers, after, rest, hasAfter, ?_, ?_⟩
      · rw [OnePass.performAll, stores, ok_bind]
        dsimp only
        rw [storesRest, ok_bind]
      · rw [HashMap.performAll, called depth, ok_bind]
        dsimp only
        rw [calledRest, ok_bind]

/-- As long as every size found is a prime, every call returns: the loop of `hashmapInsert`
never comes to its own `rehash`, and no `rehash` starts another one. -/
theorem calls_onePass {startsize : Int} {rands createdRands : Rands} {hash : Hashmap Data}
    (created : hashmapCreate startsize rands = .ok (hash, createdRands)) (prime : hash.size.Prime)
    (depth : Nat) (operations : List (Operation (Option Data)))
    (run : PrimeRun (depth + 2) operations hash createdRands) :
    ∃ answers after afterRands,
      performAll (depth + 2) operations hash createdRands = .ok (answers, after, afterRands) ∧
        OnePass.performAll operations hash createdRands = .ok (answers, after, afterRands) ∧
        after.size.Prime := by
  have start : Returns (hashmapCreate startsize rands) fun result : Hashmap Data × Rands =>
      Invariant result.1 := hashmapCreate_invariant startsize rands
  rw [created] at start
  obtain ⟨answers, after, afterRands, hasAfter, stores, called⟩ :=
    (Invariant.hasRoom start.holds prime).performAll depth run
  exact ⟨answers, after, afterRands, called, stores, hasAfter.prime⟩

/-- The fourth key makes the size 7; the second one is inserted without data. -/
theorem calls_onePass_fourth :
    ∃ answers after afterRands,
      performAll 2 [.insert (some "a") 0, .insert none 1, .insert (some "c") 2,
          .insert (some "d") 3] ⟨calloc 3, 3, 0⟩ (List.replicate 9 0) =
            .ok (answers, after, afterRands) ∧
        OnePass.performAll [.insert (some "a") 0, .insert none 1, .insert (some "c") 2,
          .insert (some "d") 3] ⟨calloc 3, 3, 0⟩ (List.replicate 9 0) =
            .ok (answers, after, afterRands) ∧
        after.size.Prime := by
  have created : hashmapCreate 3 (List.replicate 18 0) =
      .ok ((⟨calloc 3, 3, 0⟩ : Hashmap String), List.replicate 9 0) := rfl
  refine calls_onePass created Nat.prime_three 0 _ ?_
  have smaller {hash : Hashmap String} {rands : Rands} (room : hash.count < hash.size) :
      GrowsPrime hash rands := fun full => by omega
  refine ⟨fun _ _ _ => smaller (by decide), fun _ _ _ ran => ?_⟩
  cases ran
  refine ⟨fun _ _ _ => smaller (by decide), fun _ _ _ ran => ?_⟩
  cases ran
  refine ⟨fun _ _ _ => smaller (by decide), fun _ _ _ ran => ?_⟩
  cases ran
  exact ⟨fun _ _ _ _ => ⟨7, [], rfl, (by norm_num : Nat.Prime 7)⟩, fun _ _ _ _ => trivial⟩

end Run

end NovaC.HashMap
