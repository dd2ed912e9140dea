import Mathlib.Logic.Function.Iterate

namespace NovaC.OpenAddressing

/-! Hash tables with open addressing and lazy deletion.

A deleted slot keeps its data and its key and is only marked as not active, so
that searches for other keys still pass it.
-/

structure Slot (Key Data : Type) where
  data : Option Data
  active : Bool
  key : Key
  deriving Repr, DecidableEq

/-- The order in which a search for a key visits the slots. -/
structure Probing (Key : Type) where
  size : Nat
  start : Key → Nat
  next : Key → Nat → Nat
  start_lt : ∀ key, start key < size
  next_lt : ∀ key index, index < size → next key index < size

variable {Key Data Result : Type}

def Probing.path (probing : Probing Key) (key : Key) (round : Nat) : Nat :=
  (probing.next key)^[round] (probing.start key)

theorem Probing.path_lt (probing : Probing Key) (key : Key) (round : Nat) :
    probing.path key round < probing.size := by
  induction round with
  | zero => exact probing.start_lt key
  | succ round ih =>
      rw [path, Function.iterate_succ_apply']
      exact probing.next_lt key _ ih

/-- Visiting slots until one gives a result. The outer `none` is an index outside
the table. -/
def search (visit : Nat → Slot Key Data → Option Result) (table : List (Slot Key Data))
    (next : Nat → Nat) : Nat → Nat → Option (Option Result)
  | 0, _ => some none
  | rounds + 1, index => do
      let slot ← table[index]?
      match visit index slot with
      | some result => some (some result)
      | none => search visit table next rounds (next index)

section Search

variable {visit : Nat → Slot Key Data → Option Result} {table : List (Slot Key Data)}
  {next : Nat → Nat} {rounds index : Nat}

theorem search_step {slot : Slot Key Data} (here : table[index]? = some slot)
    (passed : visit index slot = none) :
    search visit table next (rounds + 1) index = search visit table next rounds (next index) := by
  rw [search, here, Option.bind_eq_bind, Option.bind_some, passed]

theorem search_stop {slot : Slot Key Data} {result : Result} (here : table[index]? = some slot)
    (found : visit index slot = some result) :
    search visit table next (rounds + 1) index = some (some result) := by
  rw [search, here, Option.bind_eq_bind, Option.bind_some, found]

theorem search_found {round : Nat} {slot : Slot Key Data} {result : Result}
    (inside : round < rounds)
    (passes : ∀ earlier < round, ∃ passed, table[next^[earlier] index]? = some passed ∧
      visit (next^[earlier] index) passed = none)
    (here : table[next^[round] index]? = some slot)
    (found : visit (next^[round] index) slot = some result) :
    search visit table next rounds index = some (some result) := by
  induction round generalizing rounds index with
  | zero =>
      obtain ⟨rounds, rfl⟩ := Nat.exists_eq_add_one_of_ne_zero (Nat.ne_of_gt inside)
      exact search_stop here found
  | succ round ih =>
      obtain ⟨rounds, rfl⟩ := Nat.exists_eq_add_one_of_ne_zero (Nat.ne_of_gt (by omega : 0 < rounds))
      obtain ⟨passed, first, nothing⟩ := passes 0 (Nat.succ_pos _)
      rw [Function.iterate_zero_apply] at first nothing
      rw [search_step first nothing]
      refine ih (by omega) (fun earlier before => ?_) here found
      exact passes (earlier + 1) (by omega)

theorem search_total (visit : Nat → Slot Key Data → Option Result)
    (inside : ∀ round < rounds, next^[round] index < table.length) :
    (search visit table next rounds index = some none ∧
        ∀ round < rounds, ∃ slot, table[next^[round] index]? = some slot ∧
          visit (next^[round] index) slot = none) ∨
      ∃ round < rounds, ∃ slot result, table[next^[round] index]? = some slot ∧
        visit (next^[round] index) slot = some result ∧
        search visit table next rounds index = some (some result) ∧
        ∀ earlier < round, ∃ passed, table[next^[earlier] index]? = some passed ∧
          visit (next^[earlier] index) passed = none := by
  induction rounds generalizing index with
  | zero =>
      left
      exact ⟨rfl, fun round before => absurd before (Nat.not_lt_zero _)⟩
  | succ rounds ih =>
      have bound : index < table.length := inside 0 (Nat.succ_pos _)
      have here := List.getElem?_eq_getElem bound
      cases visited : visit index table[index] with
      | some result =>
          right
          exact ⟨0, Nat.succ_pos _, _, result, here, visited, search_stop here visited,
            fun earlier before => absurd before (Nat.not_lt_zero _)⟩
      | none =>
          rw [search_step here visited]
          rcases ih (fun round before => inside (round + 1) (by omega)) with
            ⟨ended, passes⟩ | ⟨round, before, slot, result, at_, found, ran, passes⟩
          · left
            refine ⟨ended, fun round before => ?_⟩
            cases round with
            | zero => exact ⟨_, here, visited⟩
            | succ round => exact passes round (by omega)
          · right
            refine ⟨round + 1, by omega, slot, result, at_, found, ran, fun earlier before => ?_⟩
            cases earlier with
            | zero => exact ⟨_, here, visited⟩
            | succ earlier => exact passes earlier (by omega)

end Search

/-- A search in the image of a table, where visits commute with the image. -/
theorem search_map {Key' Data' Result' : Type} {visit : Nat → Slot Key Data → Option Result}
    {visit' : Nat → Slot Key' Data' → Option Result'} {slotImage : Slot Key Data → Slot Key' Data'}
    {resultImage : Result → Result'}
    (commutes : ∀ index slot, visit' index (slotImage slot) = (visit index slot).map resultImage)
    (table : List (Slot Key Data)) (next : Nat → Nat) (rounds index : Nat) :
    search visit' (table.map slotImage) next rounds index =
      (search visit table next rounds index).map (Option.map resultImage) := by
  induction rounds generalizing index with
  | zero => rfl
  | succ rounds ih =>
      rw [search, search, List.getElem?_map]
      cases table[index]? with
      | none => rfl
      | some slot =>
          simp only [Option.map_some, Option.bind_eq_bind, Option.bind_some, commutes]
          cases visit index slot with
          | none => exact ih (next index)
          | some result => rfl

/-- A search for `key` goes on behind the slot. -/
def Slot.Passes (slot : Slot Key Data) (key : Key) : Prop :=
  slot.data ≠ none ∧ slot.key ≠ key

/-- Each key has at most one active slot, which its searches reach. -/
structure Placed (probing : Probing Key) (table : List (Slot Key Data)) : Prop where
  length : table.length = probing.size
  unique : ∀ {index other : Nat} {slot otherSlot : Slot Key Data}, table[index]? = some slot →
    table[other]? = some otherSlot → slot.active = true → otherSlot.active = true →
    slot.key = otherSlot.key → index = other
  filled : ∀ {index : Nat} {slot : Slot Key Data}, table[index]? = some slot →
    slot.active = true → slot.data ≠ none
  reached : ∀ {index : Nat} {slot : Slot Key Data}, table[index]? = some slot →
    slot.active = true → ∃ round < probing.size, probing.path slot.key round = index ∧
      ∀ earlier < round, ∃ passed, table[probing.path slot.key earlier]? = some passed ∧
        passed.Passes slot.key

theorem placed_empty (probing : Probing Key) (key : Key) :
    Placed probing (List.replicate probing.size (⟨none, false, key⟩ : Slot Key Data)) where
  length := List.length_replicate
  unique here _ active := by
    rw [List.eq_of_mem_replicate (List.mem_of_getElem? here)] at active
    cases active
  filled here active := by
    rw [List.eq_of_mem_replicate (List.mem_of_getElem? here)] at active
    cases active
  reached here active := by
    rw [List.eq_of_mem_replicate (List.mem_of_getElem? here)] at active
    cases active

section Store

variable {probing : Probing Key} {table : List (Slot Key Data)} {index : Nat}
  {old : Slot Key Data} {key : Key} {data : Data}

theorem getElem?_store (here : table[index]? = some old) (new : Slot Key Data) (other : Nat) :
    (table.set index new)[other]? = if index = other then some new else table[other]? := by
  have inside : index < table.length := (List.getElem?_eq_some_iff.mp here).1
  rw [List.getElem?_set]
  by_cases same : index = other
  · subst other
    rw [if_pos rfl, if_pos inside, if_pos rfl]
  · rw [if_neg same, if_neg same]

theorem Placed.store (placed : Placed probing table) (here : table[index]? = some old)
    (alone : ∀ (other : Nat) (slot : Slot Key Data), table[other]? = some slot →
      slot.active = true → slot.key = key → other = index)
    {round : Nat} (inside : round < probing.size) (atRound : probing.path key round = index)
    (first : ∀ earlier < round, probing.path key earlier ≠ index)
    (passes : ∀ earlier < round, ∃ passed, table[probing.path key earlier]? = some passed ∧
      passed.Passes key) :
    Placed probing (table.set index ⟨some data, true, key⟩) where
  length := by rw [List.length_set, placed.length]
  unique := by
    intro place other slot otherSlot there otherThere active otherActive sameKey
    rw [getElem?_store here] at there otherThere
    split at there <;> split at otherThere
    · omega
    · cases there
      rename_i same _
      rw [← same]
      exact (alone other otherSlot otherThere otherActive sameKey.symm).symm
    · cases otherThere
      rename_i same
      rw [← same]
      exact alone place slot there active sameKey
    · exact placed.unique there otherThere active otherActive sameKey
  filled := by
    intro place slot there active
    rw [getElem?_store here] at there
    split at there
    · cases there
      simp
    · exact placed.filled there active
  reached := by
    intro place slot there active
    rw [getElem?_store here] at there
    split at there
    · rename_i samePlace
      cases there
      refine ⟨round, inside, atRound.trans samePlace, fun earlier before => ?_⟩
      rw [getElem?_store here, if_neg (Ne.symm (first earlier before))]
      exact passes earlier before
    · rename_i otherPlace
      obtain ⟨round', inside', atRound', passes'⟩ := placed.reached there active
      refine ⟨round', inside', atRound', fun earlier before => ?_⟩
      rw [getElem?_store here]
      split
      · refine ⟨_, rfl, by simp, fun sameKey => ?_⟩
        exact otherPlace (alone place slot there active sameKey.symm).symm
      · exact passes' earlier before

theorem Placed.delete (placed : Placed probing table) (here : table[index]? = some old) :
    Placed probing (table.set index { old with active := false }) where
  length := by rw [List.length_set, placed.length]
  unique := by
    intro place other slot otherSlot there otherThere active otherActive sameKey
    rw [getElem?_store here] at there otherThere
    split at there
    · cases there
      cases active
    · split at otherThere
      · cases otherThere
        cases otherActive
      · exact placed.unique there otherThere active otherActive sameKey
  filled := by
    intro place slot there active
    rw [getElem?_store here] at there
    split at there
    · cases there
      cases active
    · exact placed.filled there active
  reached := by
    intro place slot there active
    rw [getElem?_store here] at there
    split at there
    · cases there
      cases active
    · obtain ⟨round, inside, atRound, passes⟩ := placed.reached there active
      refine ⟨round, inside, atRound, fun earlier before => ?_⟩
      obtain ⟨passed, passedHere, data, different⟩ := passes earlier before
      rw [getElem?_store here]
      split
      · rename_i same
        rw [← same, here] at passedHere
        cases passedHere
        exact ⟨_, rfl, data, different⟩
      · exact ⟨passed, passedHere, data, different⟩

end Store

variable [DecidableEq Key]

def binding (table : List (Slot Key Data)) (key : Key) : Option Data :=
  (table.find? fun slot => slot.active && slot.key = key).bind Slot.data

def countActive (table : List (Slot Key Data)) : Nat :=
  table.countP Slot.active

def Present (table : List (Slot Key Data)) (key : Key) : Prop :=
  ∃ (index : Nat) (slot : Slot Key Data), table[index]? = some slot ∧ slot.active = true ∧
    slot.key = key

section Binding

variable {probing : Probing Key} {table : List (Slot Key Data)} {index : Nat}
  {slot : Slot Key Data} {key : Key}

theorem present_of_find {found : Slot Key Data}
    (finds : table.find? (fun slot => slot.active && slot.key = key) = some found) :
    ∃ index : Nat, table[index]? = some found ∧ found.active = true ∧ found.key = key := by
  have isActive := List.find?_some finds
  simp only [Bool.and_eq_true, decide_eq_true_eq] at isActive
  obtain ⟨index, here⟩ := List.getElem?_of_mem (List.mem_of_find?_eq_some finds)
  exact ⟨index, here, isActive⟩

theorem binding_of_active (placed : Placed probing table) (here : table[index]? = some slot)
    (active : slot.active = true) : binding table slot.key = slot.data := by
  cases finds : table.find? fun other => other.active && other.key = slot.key with
  | none =>
      have missed := List.find?_eq_none.mp finds slot (List.mem_of_getElem? here)
      simp [active] at missed
  | some found =>
      obtain ⟨place, there, isActive, sameKey⟩ := present_of_find finds
      rw [placed.unique there here isActive active sameKey, here] at there
      cases there
      rw [binding, finds, Option.bind_some]

theorem binding_of_absent (absent : ¬ Present table key) : binding table key = none := by
  rw [binding, Option.bind_eq_none_iff]
  intro slot finds
  obtain ⟨index, found⟩ := present_of_find finds
  exact absurd ⟨index, slot, found⟩ absent

theorem binding_isSome (placed : Placed probing table) :
    (binding table key).isSome = true ↔ Present table key := by
  by_cases present : Present table key
  · obtain ⟨index, slot, here, active, rfl⟩ := present
    rw [binding_of_active placed here active]
    simp only [Option.isSome_iff_ne_none.mpr (placed.filled here active), true_iff]
    exact ⟨index, slot, here, active, rfl⟩
  · rw [binding_of_absent present]
    simp [present]

end Binding

section BindingAfter

variable {probing : Probing Key} {table : List (Slot Key Data)} {index : Nat}
  {old : Slot Key Data} {key : Key} {data : Data}

theorem binding_store (placed : Placed probing table) (here : table[index]? = some old)
    (free : old.active = true → old.key = key)
    (stored : Placed probing (table.set index ⟨some data, true, key⟩)) (other : Key) :
    binding (table.set index ⟨some data, true, key⟩) other =
      if other = key then some data else binding table other := by
  by_cases same : other = key
  · subst other
    rw [if_pos rfl]
    exact binding_of_active stored (by rw [getElem?_store here, if_pos rfl]) rfl
  · rw [if_neg same]
    by_cases present : Present table other
    · obtain ⟨place, slot, there, active, rfl⟩ := present
      have elsewhere : index ≠ place := by
        intro samePlace
        subst place
        rw [here] at there
        cases there
        exact same (free active)
      rw [binding_of_active placed there active]
      exact binding_of_active stored (by rw [getElem?_store here, if_neg elsewhere, there]) active
    · rw [binding_of_absent present, binding_of_absent]
      intro reached
      obtain ⟨place, slot, there, active, sameKey⟩ := reached
      rw [getElem?_store here] at there
      split at there
      · cases there
        exact same sameKey.symm
      · exact present ⟨place, slot, there, active, sameKey⟩

theorem binding_delete (placed : Placed probing table) (here : table[index]? = some old)
    (active : old.active = true) (other : Key) :
    binding (table.set index { old with active := false }) other =
      if other = old.key then none else binding table other := by
  have deleted := placed.delete here
  by_cases same : other = old.key
  · rw [if_pos same, binding_of_absent]
    intro reached
    obtain ⟨place, slot, there, slotActive, sameKey⟩ := reached
    rw [getElem?_store here] at there
    split at there
    · cases there
      cases slotActive
    · rename_i elsewhere
      exact elsewhere (placed.unique here there active slotActive (same.symm.trans sameKey.symm))
  · rw [if_neg same]
    by_cases present : Present table other
    · obtain ⟨place, slot, there, slotActive, rfl⟩ := present
      have elsewhere : index ≠ place := by
        intro samePlace
        subst place
        rw [here] at there
        cases there
        exact same rfl
      rw [binding_of_active placed there slotActive]
      exact binding_of_active deleted (by rw [getElem?_store here, if_neg elsewhere, there])
        slotActive
    · rw [binding_of_absent present, binding_of_absent]
      intro reached
      obtain ⟨place, slot, there, slotActive, sameKey⟩ := reached
      rw [getElem?_store here] at there
      split at there
      · cases there
        cases slotActive
      · exact present ⟨place, slot, there, slotActive, sameKey⟩

omit [DecidableEq Key]

theorem countActive_set (here : table[index]? = some old) (new : Slot Key Data) :
    countActive (table.set index new) + (if old.active then 1 else 0) =
      countActive table + (if new.active then 1 else 0) := by
  obtain ⟨inside, rfl⟩ := List.getElem?_eq_some_iff.mp here
  have counted : (if table[index].active then 1 else 0) ≤ countActive table :=
    List.boole_getElem_le_countP inside
  rw [countActive, List.countP_set inside]
  unfold countActive at counted ⊢
  omega

theorem countActive_empty (size : Nat) (key : Key) :
    countActive (List.replicate size (⟨none, false, key⟩ : Slot Key Data)) = 0 := by
  rw [countActive, List.countP_replicate]
  rfl

def activeKeys (table : List (Slot Key Data)) : List Key :=
  (table.filter Slot.active).map Slot.key

theorem activeKeys_length (table : List (Slot Key Data)) :
    (activeKeys table).length = countActive table := by
  rw [activeKeys, List.length_map, countActive, List.countP_eq_length_filter]

theorem mem_activeKeys : key ∈ activeKeys table ↔ Present table key := by
  constructor
  · intro member
    obtain ⟨slot, inFilter, rfl⟩ := List.mem_map.mp member
    obtain ⟨inTable, active⟩ := List.mem_filter.mp inFilter
    obtain ⟨index, here⟩ := List.getElem?_of_mem inTable
    exact ⟨index, slot, here, active, rfl⟩
  · intro reached
    obtain ⟨index, slot, here, active, sameKey⟩ := reached
    exact List.mem_map.mpr ⟨slot, List.mem_filter.mpr ⟨List.mem_of_getElem? here, active⟩, sameKey⟩

theorem Placed.pairwise (placed : Placed probing table) : table.Pairwise fun first second =>
    first.active = true → second.active = true → first.key ≠ second.key := by
  rw [List.pairwise_iff_getElem]
  intro first second firstInside secondInside before firstActive secondActive sameKey
  have same := placed.unique (List.getElem?_eq_getElem firstInside)
    (List.getElem?_eq_getElem secondInside) firstActive secondActive sameKey
  omega

theorem activeKeys_nodup (placed : Placed probing table) : (activeKeys table).Nodup := by
  rw [activeKeys, List.Nodup, List.pairwise_map]
  apply (placed.pairwise.filter Slot.active).imp_of_mem
  intro first second firstMember secondMember apart
  exact apart (List.mem_filter.mp firstMember).2 (List.mem_filter.mp secondMember).2

end BindingAfter

section Lookup

variable {probing : Probing Key} {table : List (Slot Key Data)} {key : Key}
  {visit : Nat → Slot Key Data → Option Result}

omit [DecidableEq Key]

theorem Placed.search_present {index : Nat} {slot : Slot Key Data} {result : Result}
    (placed : Placed probing table) (here : table[index]? = some slot)
    (active : slot.active = true)
    (passes : ∀ index slot', slot'.Passes slot.key → visit index slot' = none)
    (found : visit index slot = some result) :
    search visit table (probing.next slot.key) probing.size (probing.start slot.key) =
      some (some result) := by
  obtain ⟨round, inside, rfl, before⟩ := placed.reached here active
  refine search_found inside (fun earlier earlierRound => ?_) here found
  obtain ⟨passed, passedHere, passedPasses⟩ := before earlier earlierRound
  exact ⟨passed, passedHere, passes _ _ passedPasses⟩

theorem Placed.search_absent {nothing : Result} (placed : Placed probing table)
    (absent : ¬ Present table key)
    (stops : ∀ index slot, ¬ (slot.active = true ∧ slot.key = key) →
      visit index slot = none ∨ visit index slot = some nothing) :
    search visit table (probing.next key) probing.size (probing.start key) = some none ∨
      search visit table (probing.next key) probing.size (probing.start key) =
        some (some nothing) := by
  have inTable : ∀ round < probing.size, probing.path key round < table.length := by
    intro round _
    rw [placed.length]
    exact probing.path_lt key round
  rcases search_total visit inTable with
    ⟨ended, _⟩ | ⟨round, _, slot, result, here, found, ran, _⟩
  · exact .inl ended
  · right
    rw [ran]
    rcases stops _ slot (fun isKey => absent ⟨_, slot, here, isKey⟩) with passed | stopped
    · rw [passed] at found
      cases found
    · rw [found] at stopped
      rw [stopped]

end Lookup

end NovaC.OpenAddressing
