import NovaC.HashMap.Primes

namespace NovaC.HashMap

open NovaC.C NovaC.OpenAddressing

variable {Data Result : Type} {hash : Hashmap Data} {key : UInt64}

theorem nextIndex_lt {size : Nat} (positive : 0 < size) (key : UInt64) (index : Nat) :
    nextIndex size key index < size := by
  have bound := Int.tmod_lt_of_pos (index + step size key) (show (0 : Int) < size by omega)
  rw [nextIndex]
  omega

/-- The step is at least 1 and at most two below the size. -/
theorem step_eq {size : Nat} (large : 2 < size) (small : size < 9223372036854775808)
    (key : UInt64) : step size key = (key.toNat % (size - 2) + 1 : Nat) := by
  have modulus : toSize (size - 2) = size - 2 := by
    unfold toSize
    omega
  have remainder := Nat.mod_lt key.toNat (show 0 < size - 2 by omega)
  rw [step, modulus, toLong, Int.bmod_def]
  omega

def probing (size : Nat) (positive : 0 < size) : Probing UInt64 where
  size := size
  start := startIndex size
  next := nextIndex size
  start_lt _ := Nat.mod_lt _ positive
  next_lt _ index _ := nextIndex_lt positive _ index

theorem probing_path {size : Nat} (positive : 0 < size) (key : UInt64) (round : Nat) :
    (probing size positive).path key round =
      (nextIndex size key)^[round] (startIndex size key) := by
  simp only [Probing.path, probing]

structure WellFormed (hash : Hashmap Data) : Prop where
  odd : hash.size % 2 = 1
  small : hash.size < 2147483648
  placed : Placed (probing hash.size (by omega)) hash.table
  counted : hash.count = countActive hash.table

/-- The `round`-th slot on the probe sequence of a key. -/
def probe (hash : Hashmap Data) (key : UInt64) (round : Nat) : Option (HEntry Data) :=
  hash.table[(nextIndex hash.size key)^[round] (startIndex hash.size key)]?

/-- No slot is marked as deleted before the active slot of the key. -/
def Unobstructed (hash : Hashmap Data) (key : UInt64) : Prop :=
  Present hash.table key → ∃ round < hash.size,
    (∃ entry, probe hash key round = some entry ∧ entry.active = true ∧ entry.key = key) ∧
      ∀ earlier < round, ∃ entry, probe hash key earlier = some entry ∧ entry.active = true

/-- No slot is marked as deleted. -/
def Fresh (hash : Hashmap Data) : Prop :=
  ∀ (index : Nat) (entry : HEntry Data), hash.table[index]? = some entry →
    entry.active = false → entry.data = none

theorem searchTable_eq (wellFormed : WellFormed hash) (visit : Nat → HEntry Data → Option Result)
    {result : Option Result}
    (searched : search visit hash.table (nextIndex hash.size key) hash.size
      (startIndex hash.size key) = some result) :
    searchTable hash key visit = .ok result := by
  have odd := wellFormed.odd
  have small := wellFormed.small
  have divides : ¬ (hash.size = 0 ∨ toSize (hash.size - 2) = 0) := by
    unfold toSize
    omega
  rw [searchTable, if_neg divides, searched]

theorem Fresh.unobstructed (wellFormed : WellFormed hash) (fresh : Fresh hash) (key : UInt64) :
    Unobstructed hash key := by
  intro reached
  obtain ⟨index, entry, here, active, sameKey⟩ := reached
  obtain ⟨round, inside, atRound, passes⟩ := wellFormed.placed.reached here active
  subst sameKey
  subst atRound
  rw [probing_path] at here
  refine ⟨round, inside, ⟨entry, here, active, rfl⟩, fun earlier before => ?_⟩
  obtain ⟨passed, there, filled, _⟩ := passes earlier before
  rw [probing_path] at there
  refine ⟨passed, there, ?_⟩
  by_contra inactive
  exact filled (fresh _ passed there (by simpa using inactive))

/-- The same map with one binding changed. -/
structure Bound (hash after : Hashmap Data) (key : UInt64) (value : Option Data) : Prop where
  wellFormed : WellFormed after
  binding : ∀ other, binding after.table other =
    if other = key then value else binding hash.table other

section Insert

variable {index : Nat} {entry : HEntry Data} {data : Data}

theorem Bound.store (wellFormed : WellFormed hash) {round : Nat} (inside : round < hash.size)
    (atRound : (nextIndex hash.size key)^[round] (startIndex hash.size key) = index)
    (here : hash.table[index]? = some entry) (free : entry.active = true → entry.key = key)
    (alone : ∀ (other : Nat) (slot : HEntry Data), hash.table[other]? = some slot →
      slot.active = true → slot.key = key → other = index)
    (before : ∀ earlier < round, ∃ passed, probe hash key earlier = some passed ∧
      passed.active = true ∧ passed.key ≠ key) {count : Int}
    (counts : count + (if entry.active then 1 else 0) = hash.count + 1) :
    Bound hash ⟨hash.table.set index ⟨some data, true, key⟩, hash.size, count⟩ key
      (some data) := by
  have odd := wellFormed.odd
  have placed := wellFormed.placed
  have stored : Placed (probing hash.size (by omega))
      (hash.table.set index ⟨some data, true, key⟩) := by
    apply placed.store here alone inside
    · rw [probing_path, atRound]
    · intro earlier earlierRound same
      obtain ⟨passed, there, active, different⟩ := before earlier earlierRound
      rw [probe, ← probing_path (by omega), same, here] at there
      cases there
      exact different (free active)
    · intro earlier earlierRound
      obtain ⟨passed, there, active, different⟩ := before earlier earlierRound
      rw [probe, ← probing_path (by omega)] at there
      exact ⟨passed, there, placed.filled there active, different⟩
  refine ⟨⟨odd, wellFormed.small, stored, ?_⟩, binding_store placed here free stored⟩
  have change := countActive_set here (⟨some data, true, key⟩ : HEntry Data)
  have counted := wellFormed.counted
  simp only [if_true] at change ⊢
  split at change
  · rename_i active
    rw [if_pos active] at counts
    omega
  · rename_i inactive
    rw [if_neg inactive] at counts
    omega

theorem Fresh.set (fresh : Fresh hash) (index : Nat) (data : Option Data) (count : Int) :
    Fresh ⟨hash.table.set index ⟨data, true, key⟩, hash.size, count⟩ := by
  intro place slot there inactive
  rw [List.getElem?_set] at there
  split at there
  · split at there
    · cases there
      cases inactive
    · cases there
  · exact fresh place slot there inactive

theorem insertAt_eq_none {value : Option Data} :
    insertAt hash value key index entry = none ↔ entry.active = true ∧ entry.key ≠ key := by
  rw [insertAt]
  split
  · rename_i active
    split
    · rename_i same
      simp [same]
    · rename_i different
      simp [active, different]
  · rename_i inactive
    simp [inactive]

/-- A deleted or empty slot is the place for a key only where the key is not
behind it. -/
theorem Unobstructed.absent (unobstructed : Unobstructed hash key)
    {round : Nat} (here : probe hash key round = some entry) (inactive : entry.active = false)
    (before : ∀ earlier < round, ∃ passed, probe hash key earlier = some passed ∧
      passed.active = true ∧ passed.key ≠ key) :
    ¬ Present hash.table key := by
  intro present
  obtain ⟨place, _, ⟨slot, there, active, sameKey⟩, allActive⟩ := unobstructed present
  rcases Nat.lt_trichotomy place round with less | rfl | greater
  · obtain ⟨passed, passedThere, _, different⟩ := before place less
    rw [there] at passedThere
    cases passedThere
    exact different sameKey
  · rw [here] at there
    cases there
    rw [inactive] at active
    cases active
  · obtain ⟨passed, passedHere, passedActive⟩ := allActive round greater
    rw [here] at passedHere
    cases passedHere
    rw [inactive] at passedActive
    cases passedActive

/-- The search of `hashmapInsert` stores the binding unless it finds no place. -/
theorem searchTable_insertAt (wellFormed : WellFormed hash) (unobstructed : Unobstructed hash key)
    (data : Data) :
    searchTable hash key (insertAt hash (some data) key) = .ok none ∨
      ∃ after, searchTable hash key (insertAt hash (some data) key) = .ok (some after) ∧
        Bound hash after key (some data) ∧ (Fresh hash → Fresh after) := by
  have odd := wellFormed.odd
  have inTable : ∀ round < hash.size,
      (nextIndex hash.size key)^[round] (startIndex hash.size key) < hash.table.length := by
    intro round _
    rw [wellFormed.placed.length, ← probing_path (by omega)]
    exact Probing.path_lt _ key round
  rcases search_total (insertAt hash (some data) key) inTable with
    ⟨ended, _⟩ | ⟨round, inside, entry, after, here, found, ran, passes⟩
  · left
    exact searchTable_eq wellFormed _ ended
  · right
    refine ⟨after, searchTable_eq wellFormed _ ran, ?_⟩
    have before : ∀ earlier < round, ∃ passed, probe hash key earlier = some passed ∧
        passed.active = true ∧ passed.key ≠ key := by
      intro earlier earlierRound
      obtain ⟨passed, there, nothing⟩ := passes earlier earlierRound
      exact ⟨passed, there, insertAt_eq_none.mp nothing⟩
    cases active : entry.active with
    | true =>
        have sameKey : entry.key = key := by
          by_contra different
          rw [insertAt_eq_none.mpr ⟨active, different⟩] at found
          cases found
        have updated : ({ entry with data := some data } : HEntry Data) = ⟨some data, true, key⟩ := by
          rw [active, sameKey]
        rw [insertAt, if_pos active, if_pos sameKey, updated] at found
        cases found
        refine ⟨.store wellFormed inside rfl here (fun _ => sameKey) ?_ before ?_, ?_⟩
        · intro other slot there slotActive slotKey
          exact wellFormed.placed.unique there here slotActive active (slotKey.trans sameKey.symm)
        · rw [if_pos active]
        · exact fun fresh => fresh.set _ _ _
    | false =>
        have absent := unobstructed.absent here active before
        rw [insertAt, if_neg (by simp [active])] at found
        cases found
        refine ⟨.store wellFormed inside rfl here (by simp [active]) ?_ before ?_, ?_⟩
        · intro other slot there slotActive slotKey
          exact absurd ⟨other, slot, there, slotActive, slotKey⟩ absent
        · rw [if_neg (by simp [active])]
          omega
        · exact fun fresh => fresh.set _ _ _

end Insert

section Lookup

variable {entry : HEntry Data} {index : Nat}

theorem search_probing {size : Nat} (positive : 0 < size) (key : UInt64)
    (visit : Nat → HEntry Data → Option Result) (table : List (HEntry Data)) :
    search visit table ((probing size positive).next key) (probing size positive).size
        ((probing size positive).start key) =
      search visit table (nextIndex size key) size (startIndex size key) := by
  simp only [probing]

theorem searchTable_present (wellFormed : WellFormed hash) (here : hash.table[index]? = some entry)
    (active : entry.active = true) (visit : Nat → HEntry Data → Option Result) {result : Result}
    (passes : ∀ index slot, slot.Passes entry.key → visit index slot = none)
    (found : visit index entry = some result) :
    searchTable hash entry.key visit = .ok (some result) := by
  have odd := wellFormed.odd
  have ran := wellFormed.placed.search_present here active passes found
  rw [search_probing (by omega)] at ran
  exact searchTable_eq wellFormed visit ran

theorem searchTable_absent (wellFormed : WellFormed hash) (absent : ¬ Present hash.table key)
    (visit : Nat → HEntry Data → Option Result) (nothing : Result)
    (stops : ∀ index slot, ¬ (slot.active = true ∧ slot.key = key) →
      visit index slot = none ∨ visit index slot = some nothing) :
    ∃ result, searchTable hash key visit = .ok result ∧ result.getD nothing = nothing := by
  have odd := wellFormed.odd
  rcases wellFormed.placed.search_absent absent stops with ran | ran
  · rw [search_probing (by omega)] at ran
    exact ⟨none, searchTable_eq wellFormed visit ran, rfl⟩
  · rw [search_probing (by omega)] at ran
    exact ⟨some nothing, searchTable_eq wellFormed visit ran, rfl⟩

theorem absent_of_count (wellFormed : WellFormed hash) (empty : hash.count = 0) (key : UInt64) :
    ¬ Present hash.table key := by
  intro present
  have member := mem_activeKeys.mpr present
  have length := activeKeys_length hash.table
  have counted := wellFormed.counted
  have nonempty := List.length_pos_of_mem member
  omega

theorem present_count (wellFormed : WellFormed hash) (present : Present hash.table key) :
    hash.count ≠ 0 :=
  fun empty => absent_of_count wellFormed empty key present

theorem inactive_of_key {slot : HEntry Data} (other : ¬ (slot.active = true ∧ slot.key = key))
    (sameKey : slot.key = key) : slot.active = false := by
  cases active : slot.active with
  | false => rfl
  | true => exact absurd ⟨active, sameKey⟩ other

theorem hashmapGet_eq (wellFormed : WellFormed hash) (key : UInt64) :
    hashmapGet hash key = .ok (binding hash.table key) := by
  by_cases present : Present hash.table key
  · have counted := present_count wellFormed present
    obtain ⟨index, entry, here, active, rfl⟩ := present
    have found : searchTable hash entry.key (getAt entry.key) = .ok (some entry.data) := by
      apply searchTable_present wellFormed here active
      · intro _ slot passes
        simp [getAt, passes.1, passes.2]
      · simp [getAt, active]
    rw [hashmapGet, if_pos counted, found, binding_of_active wellFormed.placed here active]
    rfl
  · obtain ⟨result, searched, nothing⟩ := searchTable_absent wellFormed present (getAt key) none (by
      intro _ slot other
      by_cases sameKey : slot.key = key
      · simp [getAt, sameKey, inactive_of_key other sameKey]
      · cases filled : slot.data <;> simp [getAt, sameKey, filled])
    rw [binding_of_absent present, hashmapGet, searched]
    split
    · exact congrArg Except.ok nothing
    · rfl

theorem hashmapContains_eq (wellFormed : WellFormed hash) (key : UInt64) :
    hashmapContains hash key = .ok (binding hash.table key).isSome := by
  by_cases present : Present hash.table key
  · have counted := present_count wellFormed present
    obtain ⟨index, entry, here, active, rfl⟩ := present
    have found : searchTable hash entry.key (containsAt entry.key) = .ok (some true) := by
      apply searchTable_present wellFormed here active
      · intro _ slot passes
        simp [containsAt, passes.1, passes.2]
      · simp [containsAt, active]
    have filled := wellFormed.placed.filled here active
    rw [hashmapContains, if_pos counted, found, binding_of_active wellFormed.placed here active,
      Option.isSome_iff_ne_none.mpr filled]
    rfl
  · obtain ⟨result, searched, nothing⟩ :=
      searchTable_absent wellFormed present (containsAt key) false (by
        intro _ slot other
        by_cases sameKey : slot.key = key
        · simp [containsAt, sameKey, inactive_of_key other sameKey]
        · cases filled : slot.data <;> simp [containsAt, sameKey, filled])
    rw [binding_of_absent present, hashmapContains, searched]
    split
    · exact congrArg Except.ok nothing
    · rfl

theorem hashmapRemove_present (wellFormed : WellFormed hash)
    (here : hash.table[index]? = some entry) (active : entry.active = true) :
    hashmapRemove hash entry.key =
      .ok (⟨hash.table.set index { entry with active := false }, hash.size, hash.count - 1⟩,
        entry.data) := by
  have filled := wellFormed.placed.filled here active
  have found : searchTable hash entry.key (removeAt hash entry.key) =
      .ok (some (⟨hash.table.set index { entry with active := false }, hash.size,
        hash.count - 1⟩, entry.data)) := by
    apply searchTable_present wellFormed here active
    · intro _ slot passes
      simp [removeAt, passes.2, Option.isSome_iff_ne_none.mpr passes.1]
    · simp [removeAt, active, Option.isSome_iff_ne_none.mpr filled]
  rw [hashmapRemove, found]
  rfl

theorem hashmapRemove_eq (wellFormed : WellFormed hash) (key : UInt64) :
    ∃ after, hashmapRemove hash key = .ok (after, binding hash.table key) ∧
      Bound hash after key none := by
  by_cases present : Present hash.table key
  · obtain ⟨index, entry, here, active, rfl⟩ := present
    have removed := hashmapRemove_present wellFormed here active
    refine ⟨_, by rw [removed, binding_of_active wellFormed.placed here active], ?_⟩
    have change := countActive_set here { entry with active := false }
    have counted := wellFormed.counted
    rw [if_pos active] at change
    refine ⟨⟨wellFormed.odd, wellFormed.small, wellFormed.placed.delete here, ?_⟩, ?_⟩
    · simp only [Bool.false_eq_true, if_false] at change ⊢
      omega
    · exact binding_delete wellFormed.placed here active
  · obtain ⟨result, searched, nothing⟩ :=
      searchTable_absent wellFormed present (removeAt hash key) (hash, none) (by
        intro _ slot other
        by_cases sameKey : slot.key = key
        · simp [removeAt, sameKey, inactive_of_key other sameKey]
        · cases filled : slot.data <;> simp [removeAt, sameKey, filled])
    refine ⟨hash, ?_, wellFormed, fun other => ?_⟩
    · rw [hashmapRemove, searched, binding_of_absent present]
      exact congrArg Except.ok nothing
    · split
      · rename_i same
        rw [same, binding_of_absent present]
      · rfl

theorem hashmapCount_eq (wellFormed : WellFormed hash) :
    hashmapCount hash = (activeKeys hash.table).length := by
  rw [hashmapCount, wellFormed.counted, activeKeys_length]

end Lookup

end NovaC.HashMap
