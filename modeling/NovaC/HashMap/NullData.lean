import NovaC.HashMap.Invariant
import NovaC.HashMap.Payload

namespace NovaC.HashMap

open NovaC.C NovaC.OpenAddressing

variable {Data : Type}

def insertAll (depth : Nat) : List (Option Data × UInt64) → Hashmap Data → Rands →
    Except Stop (Hashmap Data × Rands)
  | [], hash, rands => .ok (hash, rands)
  | (data, key) :: inserts, hash, rands => do
      let (hash, rands) ← hashmapInsert depth hash data key rands
      insertAll depth inserts hash rands

def lastFrom (start : UInt64 → Option (Option Data)) :
    List (Option Data × UInt64) → UInt64 → Option (Option Data)
  | [] => start
  | (data, key) :: inserts => lastFrom (Function.update start key (some data)) inserts

/-- What was inserted last for a key, if anything. -/
def lastInserted : List (Option Data × UInt64) → UInt64 → Option (Option Data) :=
  lastFrom fun _ => none

/-- The key is found, and removing it deactivates its entry. -/
structure Reachable (hash : Hashmap Data) (key : UInt64) : Prop where
  contained : hashmapContains hash key = .ok true
  removed : ∃ (index : Nat) (entry : HEntry Data) (data : Option Data),
    hash.table[index]? = some entry ∧ entry.active = true ∧ entry.key = key ∧
      hashmapRemove hash key =
        .ok (⟨hash.table.set index { entry with active := false }, hash.size, hash.count - 1⟩, data)

section Inserting

variable {hash : Hashmap (Option Data)}

/-- The insertions into a map that says what its data are. -/
def wrap (inserts : List (Option Data × UInt64)) : List (Option (Option Data) × UInt64) :=
  inserts.map fun insert => (some insert.1, insert.2)

theorem insertAll_join (depth : Nat) (inserts : List (Option Data × UInt64))
    (hash : Hashmap (Option Data)) (rands : Rands) :
    insertAll depth inserts hash.join rands =
      (insertAll depth (wrap inserts) hash rands).map joined := by
  induction inserts generalizing hash rands with
  | nil => rfl
  | cons insert inserts ih =>
      have first := insertFrom_join depth true hash (some insert.1) insert.2 rands
      change (hashmapInsert depth hash.join insert.1 insert.2 rands >>= _) = _
      refine (congrArg (· >>= _) first).trans ?_
      exact bind_map (fun returned => ih returned.1 returned.2) _

theorem insertAll_returns (depth : Nat) (inserts : List (Option Data × UInt64))
    (wellFormed : WellFormed hash) (fresh : Fresh hash) (rands : Rands) :
    Returns (insertAll depth (wrap inserts) hash rands) fun result =>
      WellFormed result.1 ∧ Fresh result.1 ∧
        ∀ key, binding result.1.table key = lastFrom (binding hash.table) inserts key := by
  induction inserts generalizing hash rands with
  | nil => exact .ok ⟨wellFormed, fresh, fun _ => rfl⟩
  | cons insert inserts ih =>
      apply (insertFrom_inserts depth true hash insert.1 insert.2 rands wellFormed
        (fresh.unobstructed wellFormed insert.2)).bind
      intro result inserted
      obtain ⟨bound, keepsFresh⟩ := inserted
      have bindings : binding result.1.table =
          Function.update (binding hash.table) insert.2 (some insert.1) := by
        funext key
        rw [bound.binding, Function.update_apply]
      apply (ih bound.wellFormed (keepsFresh fresh) result.2).mono
      intro final reached
      rwa [bindings] at reached

theorem hashmapCreate_join (startsize : Int) (rands : Rands) :
    (hashmapCreate startsize rands : Except Stop (Hashmap Data × Rands)) =
      (hashmapCreate startsize rands).map joined := by
  rw [hashmapCreate, hashmapCreate]
  split
  · exact congrArg (fun hash => Except.ok (hash, rands)) (calloc_join 1021 0).symm
  · cases findPrimeGreaterThan (startsize - 2) rands with
    | error stop => rfl
    | ok found =>
        exact congrArg (fun hash => Except.ok (hash, found.2)) (calloc_join found.1.toNat 0).symm

theorem hashmapCreate_empty (startsize : Int) (rands : Rands) :
    Returns (hashmapCreate startsize rands) fun result : Hashmap Data × Rands =>
      WellFormed result.1 ∧ Fresh result.1 ∧ ∀ key, binding result.1.table key = none := by
  rw [hashmapCreate]
  split
  · refine .ok ⟨?_, calloc_fresh _ _, calloc_binding _⟩
    exact @calloc_wellFormed _ 1021 (by decide) (by decide) (by decide)
  · apply (findPrimeGreaterThan_returns _ rands).bind
    intro found reached
    obtain ⟨odd, positive, small⟩ := reached
    exact .ok ⟨calloc_wellFormed odd positive small, calloc_fresh _ _, calloc_binding _⟩

/-- The map after the insertions is the image of one that holds what was inserted
last. -/
theorem insertAll_image {startsize : Int} {depth : Nat} {rands createdRands afterRands : Rands}
    {hash after : Hashmap Data} {inserts : List (Option Data × UInt64)}
    (created : hashmapCreate startsize rands = .ok (hash, createdRands))
    (inserted : insertAll depth inserts hash createdRands = .ok (after, afterRands)) :
    ∃ wrapped : Hashmap (Option Data), after = wrapped.join ∧ WellFormed wrapped ∧
      Fresh wrapped ∧ binding wrapped.table = lastInserted inserts := by
  have start : Returns (hashmapCreate startsize rands) fun result : Hashmap (Option Data) × Rands =>
      WellFormed result.1 ∧ Fresh result.1 ∧ ∀ key, binding result.1.table key = none :=
    hashmapCreate_empty startsize rands
  rw [hashmapCreate_join] at created
  cases wrappedCreated : (hashmapCreate startsize rands :
      Except Stop (Hashmap (Option Data) × Rands)) with
  | error stop =>
      rw [wrappedCreated] at created
      cases created
  | ok result =>
      rw [wrappedCreated] at created start
      cases created
      cases start with
      | ok holds =>
          obtain ⟨wellFormed, fresh, empty⟩ := holds
          have returns := insertAll_returns depth inserts wellFormed fresh result.2
          rw [insertAll_join] at inserted
          cases wrappedInserted : insertAll depth (wrap inserts) result.1 result.2 with
          | error stop =>
              rw [wrappedInserted] at inserted
              cases inserted
          | ok final =>
              rw [wrappedInserted] at inserted returns
              cases inserted
              cases returns with
              | ok holds =>
                  obtain ⟨finalWellFormed, finalFresh, bindings⟩ := holds
                  refine ⟨final.1, rfl, finalWellFormed, finalFresh, ?_⟩
                  rw [lastInserted, ← funext empty]
                  exact funext bindings

end Inserting

section Image

variable {wrapped : Hashmap (Option Data)} {index : Nat}

theorem joined_slot {entry : HEntry Data} (here : wrapped.join.table[index]? = some entry) :
    ∃ original, wrapped.table[index]? = some original ∧ entry = joinEntry original := by
  rw [Hashmap.join, List.getElem?_map] at here
  obtain ⟨original, there, rfl⟩ := Option.map_eq_some_iff.mp here
  exact ⟨original, there, rfl⟩

theorem slot_joined {original : HEntry (Option Data)}
    (here : wrapped.table[index]? = some original) :
    wrapped.join.table[index]? = some (joinEntry original) := by
  rw [Hashmap.join, List.getElem?_map, here, Option.map_some]

theorem countActive_join (table : List (HEntry (Option Data))) :
    countActive (table.map joinEntry) = countActive table := by
  rw [countActive, List.countP_map]
  rfl

theorem join_invariant (wellFormed : WellFormed wrapped) : Invariant wrapped.join where
  odd := wellFormed.odd
  small := wellFormed.small
  length := by
    rw [Hashmap.join, List.length_map]
    exact wellFormed.placed.length
  counted := by
    rw [Hashmap.join, countActive_join]
    exact wellFormed.counted

/-- Without NULL among the data of active slots, the image is a map whose searches are
not cut off. -/
theorem join_wellFormed (wellFormed : WellFormed wrapped) (fresh : Fresh wrapped)
    (noNull : ∀ (index : Nat) (entry : HEntry (Option Data)), wrapped.table[index]? = some entry →
      entry.active = true → entry.data ≠ some none) : WellFormed wrapped.join where
  odd := wellFormed.odd
  small := wellFormed.small
  counted := (join_invariant wellFormed).counted
  placed := by
    have placed := wellFormed.placed
    have filled : ∀ {index : Nat} {entry : HEntry (Option Data)},
        wrapped.table[index]? = some entry → entry.data ≠ none → entry.data.join ≠ none := by
      intro index entry here present
      have active : entry.active = true := by
        by_contra inactive
        exact present (fresh index entry here (by simpa using inactive))
      have notNull := noNull index entry here active
      cases data : entry.data with
      | none => exact absurd data present
      | some inner =>
          cases inner with
          | none => exact absurd data notNull
          | some value => simp
    exact {
      length := (join_invariant wellFormed).length
      unique := by
        intro index other slot otherSlot here there active otherActive sameKey
        obtain ⟨original, originalHere, rfl⟩ := joined_slot here
        obtain ⟨otherOriginal, otherHere, rfl⟩ := joined_slot there
        exact placed.unique originalHere otherHere active otherActive sameKey
      filled := by
        intro index slot here active
        obtain ⟨original, originalHere, rfl⟩ := joined_slot here
        exact filled originalHere (placed.filled originalHere active)
      reached := by
        intro index slot here active
        obtain ⟨original, originalHere, rfl⟩ := joined_slot here
        obtain ⟨round, inside, atRound, passes⟩ := placed.reached originalHere active
        refine ⟨round, inside, atRound, fun earlier before => ?_⟩
        obtain ⟨passed, there, data, different⟩ := passes earlier before
        exact ⟨joinEntry passed, slot_joined there, filled there data, different⟩ }

/-- An entry with NULL is taken for an empty slot. -/
theorem hashmapRemove_null (wellFormed : WellFormed wrapped) {entry : HEntry (Option Data)}
    (here : wrapped.table[index]? = some entry) (active : entry.active = true)
    (null : entry.data = some none) :
    hashmapRemove wrapped.join entry.key = .ok (wrapped.join, none) := by
  rcases (join_invariant wellFormed).searchTable_cases entry.key
    (removeAt wrapped.join entry.key) with ended | ⟨place, slot, result, there, removed, ran⟩
  · rw [hashmapRemove, ended]
    rfl
  · have unchanged : result = (wrapped.join, none) := by
      obtain ⟨original, originalThere, rfl⟩ := joined_slot there
      rw [removeAt] at removed
      split at removed
      · rename_i filled
        split at removed
        · rename_i sameKey
          split at removed
          · rename_i slotActive
            obtain rfl := wellFormed.placed.unique here originalThere active slotActive sameKey.symm
            obtain rfl : entry = original := Option.some.inj (here.symm.trans originalThere)
            simp [joinEntry, null] at filled
          · exact (Option.some.inj removed).symm
        · cases removed
      · exact (Option.some.inj removed).symm
    rw [hashmapRemove, ran, unchanged]
    rfl

theorem exists_of_binding {key : UInt64} {data : Option Data} (wellFormed : WellFormed wrapped)
    (bound : binding wrapped.table key = some data) :
    ∃ (index : Nat) (entry : HEntry (Option Data)), wrapped.table[index]? = some entry ∧
      entry.active = true ∧ entry.key = key ∧ entry.data = some data := by
  by_cases present : Present wrapped.table key
  · obtain ⟨index, entry, here, active, rfl⟩ := present
    rw [binding_of_active wellFormed.placed here active] at bound
    exact ⟨index, entry, here, active, rfl, bound⟩
  · rw [binding_of_absent present] at bound
    cases bound

/-- An entry with NULL cannot be removed. -/
theorem not_reachable_of_null {key : UInt64} (wellFormed : WellFormed wrapped)
    (null : binding wrapped.table key = some none) : ¬ Reachable wrapped.join key := by
  intro reachable
  obtain ⟨index, entry, here, active, sameKey, data⟩ := exists_of_binding wellFormed null
  obtain ⟨place, slot, removedData, _, _, _, removed⟩ := reachable.removed
  rw [← sameKey, hashmapRemove_null wellFormed here active data] at removed
  have count := congrArg (fun hash => hash.1.count) (Except.ok.inj removed)
  dsimp only at count
  omega

theorem reachable_of_present {key : UInt64} (image : WellFormed wrapped.join)
    (present : Present wrapped.table key) : Reachable wrapped.join key := by
  obtain ⟨index, entry, here, active, rfl⟩ := present
  have slot := slot_joined here
  refine ⟨?_, index, joinEntry entry, (joinEntry entry).data, slot, active, rfl, ?_⟩
  · have found := (binding_isSome image.placed).mpr ⟨index, joinEntry entry, slot, active, rfl⟩
    exact (hashmapContains_eq image entry.key).trans (congrArg Except.ok found)
  · exact hashmapRemove_present image slot active

end Image

section Last

variable {start : UInt64 → Option (Option Data)} {inserts : List (Option Data × UInt64)}

theorem lastFrom_other {key : UInt64} (other : ∀ insert ∈ inserts, insert.2 ≠ key) :
    lastFrom start inserts key = start key := by
  induction inserts generalizing start with
  | nil => rfl
  | cons insert inserts ih =>
      have first := other insert List.mem_cons_self
      rw [lastFrom, ih fun later member => other later (List.mem_cons_of_mem _ member),
        Function.update_of_ne (Ne.symm first)]

theorem lastFrom_isSome {insert : Option Data × UInt64} (member : insert ∈ inserts) :
    ∃ data, lastFrom start inserts insert.2 = some data := by
  induction inserts generalizing start insert with
  | nil => cases member
  | cons first inserts ih =>
      rw [lastFrom]
      by_cases again : ∃ later ∈ inserts, later.2 = insert.2
      · obtain ⟨later, laterMember, sameKey⟩ := again
        rw [← sameKey]
        exact ih laterMember
      · rw [lastFrom_other fun later laterMember same => again ⟨later, laterMember, same⟩]
        rcases List.mem_cons.mp member with rfl | later
        · exact ⟨insert.1, Function.update_self _ _ _⟩
        · exact absurd ⟨insert, later, rfl⟩ again

end Last

/-- The inserted keys stay reachable exactly when the last data for none of them is
NULL. -/
theorem reachable_iff {startsize : Int} {depth : Nat} {rands createdRands afterRands : Rands}
    {hash after : Hashmap Data} {inserts : List (Option Data × UInt64)}
    (created : hashmapCreate startsize rands = .ok (hash, createdRands))
    (inserted : insertAll depth inserts hash createdRands = .ok (after, afterRands)) :
    (∀ insert ∈ inserts, Reachable after insert.2) ↔
      ∀ insert ∈ inserts, lastInserted inserts insert.2 ≠ some none := by
  obtain ⟨wrapped, rfl, wellFormed, fresh, bindings⟩ := insertAll_image created inserted
  constructor
  · intro reachable insert member null
    rw [← bindings] at null
    exact not_reachable_of_null wellFormed null (reachable insert member)
  · intro noNull
    have notNull : ∀ (index : Nat) (entry : HEntry (Option Data)),
        wrapped.table[index]? = some entry → entry.active = true → entry.data ≠ some none := by
      intro index entry here active null
      have last := binding_of_active wellFormed.placed here active
      rw [bindings, null] at last
      by_cases member : ∃ insert ∈ inserts, insert.2 = entry.key
      · obtain ⟨insert, member, sameKey⟩ := member
        rw [← sameKey] at last
        exact noNull insert member last
      · rw [lastInserted, lastFrom_other fun insert isInsert same => member ⟨insert, isInsert, same⟩]
          at last
        cases last
    intro insert member
    obtain ⟨data, last⟩ := @lastFrom_isSome _ (fun _ => none) inserts insert member
    apply reachable_of_present (join_wellFormed wellFormed fresh notNull)
    rw [← binding_isSome wellFormed.placed, bindings, lastInserted, last]
    rfl

theorem reachable_iff_pair :
    (∀ insert ∈ [(some 10, (0 : UInt64)), (none, 1)],
        Reachable (⟨[⟨some 10, true, 0⟩, ⟨none, true, 1⟩, ⟨none, false, 0⟩], 3, 2⟩ : Hashmap Nat)
          insert.2) ↔
      ∀ insert ∈ [(some 10, (0 : UInt64)), (none, 1)],
        lastInserted [(some 10, 0), (none, 1)] insert.2 ≠ some none := by
  have created : hashmapCreate 3 (List.replicate 9 0) =
      .ok ((⟨calloc 3, 3, 0⟩ : Hashmap Nat), []) := rfl
  have inserted : insertAll 1 [(some 10, 0), (none, 1)] (⟨calloc 3, 3, 0⟩ : Hashmap Nat) [] =
      .ok (⟨[⟨some 10, true, 0⟩, ⟨none, true, 1⟩, ⟨none, false, 0⟩], 3, 2⟩, []) := rfl
  exact reachable_iff created inserted

/-- Keys 0 and 3 share their probe sequence in a table of three slots. With NULL stored
for key 0, key 3 is not found behind it. -/
theorem null_hides_key :
    ∃ after : Hashmap Nat,
      hashmapCreate 3 (List.replicate 9 0) = .ok ((⟨calloc 3, 3, 0⟩ : Hashmap Nat), []) ∧
        insertAll 1 [(none, 0), (some 13, 3)] ⟨calloc 3, 3, 0⟩ [] = .ok (after, []) ∧
        ¬ Reachable after 3 := by
  refine ⟨⟨[⟨none, true, 0⟩, ⟨some 13, true, 3⟩, ⟨none, false, 0⟩], 3, 2⟩, rfl, rfl, ?_⟩
  intro reachable
  exact absurd reachable.contained (by decide)

end NovaC.HashMap
