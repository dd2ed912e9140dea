import Mathlib.Logic.Relation
import NovaC.Arrays.Slots

namespace NovaC.Arrays.Slots

open NovaC.C

/-- What is handed over of the blocks below a block with these levels. -/
def handed : List Nat → Nat → List Handed
  | [], _ => []
  | extent :: levels, first => (List.range extent).flatMap fun index =>
      handed levels (child levels first index + 1) ++ [⟨child levels first index, levels.isEmpty⟩]

/-- The blocks from `first` up to `last` are released, and no others. -/
structure Released (pool after : Pool Nat) (first last : Nat) : Prop where
  inside : ∀ block, first ≤ block → block < last → after[block]? = some none
  others : ∀ block, block < first ∨ last ≤ block → after[block]? = pool[block]?

section Freeing

variable {pool now mid : Pool Nat} {levels : List Nat} {array first extent index : Nat}
  {descend : Nat → Freeing → Option Freeing} {events : List Handed}

theorem Arranged.live {block : Nat} (arranged : Arranged pool levels block first) :
    ∃ cells, pool[block]? = some (some cells) := by
  cases levels with
  | nil => exact ⟨[], arranged⟩
  | cons extent levels =>
      obtain ⟨⟨cells, found, -⟩, -⟩ := arranged
      exact ⟨cells, found⟩

theorem Arranged.load (arranged : Arranged pool (extent :: levels) array first)
    (kept : now[array]? = pool[array]?) (within : index < extent) :
    now.load array index = some (child levels first index) := by
  obtain ⟨⟨cells, found, -, pointers⟩, -⟩ := arranged
  rw [Pool.load_eq (kept.trans found), pointers index within, Option.join_some]

theorem Arranged.free (arranged : Arranged pool (extent :: levels) array first)
    (within : index < extent)
    (kept : now[child levels first index]? = pool[child levels first index]?) :
    now.free (child levels first index) = some (now.set (child levels first index) none) := by
  obtain ⟨cells, found⟩ := (arranged.2 index within).live
  exact Pool.free_live (kept.trans found)

/-- The blocks below a slot are released, and then the block in it. -/
theorem Released.next (arranged : Arranged pool (extent :: levels) array first)
    (within : index < extent) (released : Released pool now first (child levels first index))
    (below : Released now mid (child levels first index + 1) (child levels first (index + 1))) :
    Released pool (mid.set (child levels first index) none) first
      (child levels first (index + 1)) := by
  obtain ⟨cells, found⟩ := (arranged.2 index within).live
  rw [← released.others _ (.inr (Nat.le_refl _)), ← below.others _ (.inl (Nat.lt_succ_self _))] at found
  have live := Pool.lt_length found
  have lower := (child_bounds levels first within).1
  have grows := child_succ levels first index
  refine ⟨fun block above under => ?_, fun block outside => ?_⟩
  · rcases Nat.lt_trichotomy block (child levels first index) with before | same | behind
    · rw [List.getElem?_set_ne (by omega), below.others _ (.inl (by omega)),
        released.inside _ above before]
    · rw [same, List.getElem?_set_self live]
    · rw [List.getElem?_set_ne (by omega), below.inside _ behind under]
  · rw [List.getElem?_set_ne (by omega), below.others _ (by omega), released.others _ (by omega)]

theorem handed_succ (levels : List Nat) (first index : Nat) :
    handed ((index + 1) :: levels) first = handed (index :: levels) first ++
      (handed levels (child levels first index + 1) ++
        [⟨child levels first index, levels.isEmpty⟩]) := by
  simp only [handed, List.range_succ, List.flatMap_append, List.flatMap_singleton]

/-- What a level needs of the calls for the blocks in its slots. -/
def Frees (descend : Nat → Freeing → Option Freeing) (levels : List Nat) : Prop :=
  ∀ block first events pool, block < first → Arranged pool levels block first →
    ∃ after, descend block (events, pool) = some (events ++ handed levels first, after) ∧
      Released pool after first (first + count levels)

/-- What the loop over a level keeps before the round for `index`. -/
def Freed (pool : Pool Nat) (events : List Handed) (levels : List Nat) (first index : Nat)
    (freeing : Freeing) : Prop :=
  freeing.1 = events ++ handed (index :: levels) first ∧
    Released pool freeing.2 first (child levels first index)

theorem handSlot_round (apart : array < first) (arranged : Arranged pool [extent] array first)
    (within : index < extent) {freeing : Freeing} (freed : Freed pool events [] first index freeing) :
    ∃ next, handSlot array index freeing = some next ∧
      Freed pool events [] first (index + 1) next := by
  obtain ⟨events_eq, released⟩ := freed
  have loaded := arranged.load (released.others array (.inl apart)) within
  have given := arranged.free within (released.others _ (.inr (Nat.le_refl _)))
  have nothing : Released freeing.2 freeing.2 (child [] first index + 1)
      (child [] first (index + 1)) := by
    rw [child_succ]
    exact ⟨fun block above below => by simp only [count] at below; omega, fun _ _ => rfl⟩
  refine ⟨_, by rw [handSlot, loaded, Option.bind_eq_bind, Option.bind_some, given]; rfl, ?_, ?_⟩
  · rw [handed_succ, events_eq, List.append_assoc]
    rfl
  · exact released.next arranged within nothing

theorem freeSlot_round (apart : array < first)
    (arranged : Arranged pool (extent :: levels) array first) (inner : levels ≠ [])
    (frees : Frees descend levels) (within : index < extent) {freeing : Freeing}
    (freed : Freed pool events levels first index freeing) :
    ∃ next, freeSlot array descend index freeing = some next ∧
      Freed pool events levels first (index + 1) next := by
  obtain ⟨given, released⟩ := freed
  have loaded := arranged.load (released.others array (.inl apart)) within
  have kept : Arranged freeing.2 levels (child levels first index) (child levels first index + 1) := by
    apply (arranged.2 index within).frame
    intro other covered
    exact released.others other (.inr (by omega))
  obtain ⟨mid, descended, below⟩ :=
    frees _ (child levels first index + 1) freeing.1 freeing.2 (Nat.lt_succ_self _) kept
  rw [Nat.add_right_comm, Nat.add_assoc, ← child_succ] at below
  have lower := (child_bounds levels first within).1
  have again := arranged.load
    ((below.others array (.inl (by omega))).trans (released.others array (.inl apart))) within
  have freed := arranged.free within
    ((below.others _ (.inl (Nat.lt_succ_self _))).trans (released.others _ (.inr (Nat.le_refl _))))
  have notLast : levels.isEmpty = false := by simpa using inner
  refine ⟨(freeing.1 ++ handed levels (child levels first index + 1) ++
    [⟨child levels first index, false⟩], mid.set (child levels first index) none), ?_, ?_, ?_⟩
  · simp only [freeSlot, loaded, descended, again, freed, Option.bind_eq_bind, Option.bind_some]
  · rw [handed_succ, given, notLast]
    simp only [List.append_assoc]
  · exact released.next arranged within below

/-- A level whose rounds each hand over the block of a slot and those below it. -/
theorem forUp_frees {body : Nat → Freeing → Option Freeing}
    (rounds : ∀ index freeing, index < extent → Freed pool events levels first index freeing →
      ∃ next, body index freeing = some next ∧ Freed pool events levels first (index + 1) next) :
    ∃ after, forUp body 0 extent (events, pool) =
        some (events ++ handed (extent :: levels) first, after) ∧
      Released pool after first (first + count (extent :: levels)) := by
  have start : Freed pool events levels first 0 (events, pool) := by
    refine ⟨by simp [handed], ?_⟩
    rw [child_zero]
    exact ⟨fun block above below => absurd above (by omega), fun _ _ => rfl⟩
  have within : ∀ index freeing, 0 ≤ index → index < 0 + extent →
      Freed pool events levels first index freeing →
      ∃ next, body index freeing = some next ∧ Freed pool events levels first (index + 1) next :=
    fun index freeing _ below freed => rounds index freeing (by omega) freed
  obtain ⟨after, ran, atEnd⟩ := forUp_holds (Freed pool events levels first) within start
  rw [Nat.zero_add] at atEnd
  obtain ⟨given, released⟩ := atEnd
  refine ⟨after.2, ?_, released⟩
  rw [ran, ← given]

theorem freeLevels_frees {dimensionSizes : List Int} {dimension below : Nat} {levels : List Nat}
    (extents : (dimensionSizes.drop dimension).map Int.toNat = levels)
    (depth : levels.length = below + 1) :
    Frees (freeLevels dimensionSizes below dimension) levels := by
  induction below generalizing dimension levels with
  | zero =>
      obtain ⟨extent, rfl⟩ := List.length_eq_one_iff.mp depth
      obtain ⟨⟨size, lookup, rfl⟩, -⟩ := slots_lookup extents
      intro array first events pool apart arranged
      rw [freeLevels, lookup]
      exact forUp_frees fun index freeing within freed =>
        handSlot_round apart arranged within freed
  | succ below ih =>
      obtain ⟨extent, levels, rfl⟩ := List.exists_cons_of_length_eq_add_one depth
      obtain ⟨⟨size, lookup, rfl⟩, behind⟩ := slots_lookup extents
      have deeper : levels.length = below + 1 := by simpa using depth
      have inner : levels ≠ [] := by
        rintro rfl
        cases deeper
      intro array first events pool apart arranged
      rw [freeLevels, lookup]
      exact forUp_frees fun index freeing within freed =>
        freeSlot_round apart arranged inner (ih behind deeper) within freed

end Freeing

/-! The blocks are handed over from the bottom up, each of them once. -/

/-- A slot of the one block holds the other. -/
def Points (pool : Pool Nat) (parent below : Nat) : Prop :=
  ∃ index : Nat, pool.load parent index = some below

/-- The other block is reached from the one through slots. -/
def Below (pool : Pool Nat) : Nat → Nat → Prop :=
  Relation.TransGen (Points pool)

/-- The block is reached from `root` through so many slots. -/
def AtLevel (pool : Pool Nat) (root : Nat) : Nat → Nat → Prop
  | 0, block => block = root
  | level + 1, block => ∃ parent, AtLevel pool root level parent ∧ Points pool parent block

theorem handed_perm (levels : List Nat) (first : Nat) :
    ((handed levels first).map Handed.block).Perm (List.range' first (count levels)) := by
  induction levels generalizing first with
  | nil => exact .refl _
  | cons extent levels ih =>
      induction extent with
      | zero => simp [handed, count]
      | succ index step =>
          have whole : List.range' first (count ((index + 1) :: levels)) =
              List.range' first (count (index :: levels)) ++
                child levels first index :: List.range' (child levels first index + 1) (count levels) := by
            rw [← List.range'_succ, count, Nat.succ_mul]
            exact List.range'_append_1.symm
          rw [handed_succ, List.map_append, whole]
          refine step.append ?_
          rw [List.map_append, List.map_singleton]
          exact (List.perm_append_singleton _ _).trans ((ih _).cons _)

theorem handed_inside {levels : List Nat} {first : Nat} {each : Handed}
    (member : each ∈ handed levels first) :
    first ≤ each.block ∧ each.block < first + count levels := by
  have inside := (handed_perm levels first).mem_iff.mp (List.mem_map_of_mem member)
  simpa using inside

section Order

variable {pool : Pool Nat} {levels : List Nat} {block first : Nat}

theorem slot_of {extent other : Nat} (lower : first ≤ other)
    (upper : other < first + count (extent :: levels)) :
    ∃ index < extent, child levels first index ≤ other ∧
      other < child levels first (index + 1) := by
  have positive : 0 < count levels + 1 := Nat.succ_pos _
  rw [count] at upper
  have split := Nat.div_add_mod (other - first) (count levels + 1)
  have remainder := Nat.mod_lt (other - first) positive
  refine ⟨(other - first) / (count levels + 1), ?_, ?_, ?_⟩
  · rw [Nat.div_lt_iff_lt_mul positive]
    omega
  · rw [child, Nat.mul_comm]
    omega
  · rw [child_succ, child, Nat.mul_comm]
    omega

theorem Arranged.points {parent other : Nat} (arranged : Arranged pool levels block first)
    (within : parent = block ∨ first ≤ parent ∧ parent < first + count levels)
    (points : Points pool parent other) : first ≤ other ∧ other < first + count levels := by
  induction levels generalizing block first with
  | nil =>
      obtain ⟨index, loaded⟩ := points
      have same : parent = block := by
        rcases within with same | within
        · exact same
        · simp only [count] at within
          omega
      have nothing := Pool.load_eq arranged index
      rw [← same, loaded] at nothing
      cases nothing
  | cons extent levels ih =>
      by_cases same : parent = block
      · obtain ⟨index, loaded⟩ := points
        obtain ⟨⟨cells, found, size, pointers⟩, -⟩ := arranged
        rw [same, Pool.load_eq found] at loaded
        have held := Option.join_eq_some_iff.mp loaded
        have inside : index < extent := size ▸ (List.getElem?_eq_some_iff.mp held).1
        rw [pointers index inside] at held
        obtain rfl := Option.some.inj (Option.some.inj held)
        have bounds := child_bounds levels first inside
        omega
      · obtain ⟨lower, upper⟩ := within.resolve_left same
        obtain ⟨index, inside, from_, before⟩ := slot_of lower upper
        rw [child_succ] at before
        have deeper := ih (arranged.2 index inside) (by omega)
        have bounds := child_bounds levels first inside
        omega

theorem Arranged.below {parent other : Nat} (arranged : Arranged pool levels block first)
    (within : parent = block ∨ first ≤ parent ∧ parent < first + count levels)
    (below : Below pool parent other) : first ≤ other ∧ other < first + count levels := by
  induction below with
  | single points => exact arranged.points within points
  | tail _ points ih => exact arranged.points (.inr ih) points

/-- No block is handed over before one that is reached from it. -/
theorem Arranged.bottomUp (arranged : Arranged pool levels block first) :
    (handed levels first).Pairwise fun earlier later =>
      ¬ Below pool earlier.block later.block := by
  induction levels generalizing block first with
  | nil => exact .nil
  | cons extent levels ih =>
      rw [handed, List.pairwise_flatMap]
      refine ⟨fun index member => ?_, ?_⟩
      · have children := arranged.2 index (List.mem_range.mp member)
        rw [List.pairwise_append]
        refine ⟨ih children, List.pairwise_singleton _ _, fun earlier inside later last below => ?_⟩
        obtain rfl := List.mem_singleton.mp last
        have reached := children.below (.inr (handed_inside inside)) below
        dsimp only at reached
        omega
      · have increasing : (List.range extent).Pairwise (· < ·) := List.pairwise_lt_range
        refine increasing.imp_of_mem ?_
        intro low high member _ ordered earlier inside later behind below
        have children := arranged.2 low (List.mem_range.mp member)
        have apart := child_mono levels first (Nat.succ_le_of_lt ordered)
        rw [Nat.succ_eq_add_one, child_succ] at apart
        have source : earlier.block = child levels first low ∨
            child levels first low + 1 ≤ earlier.block ∧
              earlier.block < child levels first low + 1 + count levels := by
          rcases List.mem_append.mp inside with deeper | last
          · exact .inr (handed_inside deeper)
          · exact .inl (List.mem_singleton.mp last ▸ rfl)
        have reached := children.below source below
        have target : child levels first high ≤ later.block := by
          rcases List.mem_append.mp behind with deeper | last
          · have bounds := handed_inside deeper
            omega
          · rw [List.mem_singleton.mp last]
        omega

/-- `function` gets the blocks of the last level, and `NOVA_FREE` those before it. -/
theorem Arranged.receivers {root level : Nat} (arranged : Arranged pool levels block first)
    (reached : AtLevel pool root level block) {each : Handed} (member : each ∈ handed levels first) :
    ∃ deeper, AtLevel pool root deeper each.block ∧ level < deeper ∧
      deeper ≤ level + levels.length ∧
      (each.toFunction = true ↔ deeper = level + levels.length) := by
  induction levels generalizing block first level with
  | nil => cases member
  | cons extent levels ih =>
      obtain ⟨index, inside, member⟩ := List.mem_flatMap.mp member
      have within := List.mem_range.mp inside
      have next : AtLevel pool root (level + 1) (child levels first index) :=
        ⟨block, reached, index, arranged.load rfl within⟩
      rw [List.length_cons]
      rcases List.mem_append.mp member with deeper | last
      · obtain ⟨found, atLevel, above, bound, receives⟩ := ih (arranged.2 index within) next deeper
        refine ⟨found, atLevel, by omega, by omega, ?_⟩
        rw [receives]
        omega
      · obtain rfl := List.mem_singleton.mp last
        refine ⟨level + 1, next, by omega, by omega, ?_⟩
        rw [List.isEmpty_iff, ← List.length_eq_zero_iff]
        omega

end Order

/-- What `nova_free_array` has handed over of the blocks that `nova_gen_array` allocated. -/
structure Matches (pool built : Pool Nat) (root dimensions : Nat) (events : List Handed) :
    Prop where
  once : (events.map Handed.block).Nodup
  allocated : ∀ block, block ∈ events.map Handed.block ↔
    pool.length ≤ block ∧ block < built.length
  bottomUp : events.Pairwise fun earlier later => ¬ Below built earlier.block later.block
  receivers : ∀ each ∈ events, ∃ level, AtLevel built root level each.block ∧ 0 < level ∧
    level ≤ dimensions ∧ (each.toFunction = true ↔ level = dimensions)

/-- `nova_free_array` hands over what `nova_gen_array` has allocated, and reads no released
block on the way. -/
theorem array_released {dimensionSizes : List Int} (some : dimensionSizes ≠ []) {pool : Pool Nat}
    {root : Nat} {cells : List (Option Nat)} (found : pool[root]? = Option.some (Option.some cells))
    (size : cells.length = slots dimensionSizes 0) :
    ∃ built events after,
      novaGenArray dimensionSizes root 0 dimensionSizes.length pool = Option.some built ∧
      novaFreeArray dimensionSizes root 0 dimensionSizes.length built =
        Option.some (events, after) ∧
      Matches pool built root dimensionSizes.length events := by
  have depth : (dimensionSizes.map Int.toNat).length = dimensionSizes.length - (0 + 1) + 1 := by
    have positive := List.length_pos_iff.mpr some
    rw [List.length_map]
    omega
  have builds : Builds (genLevels dimensionSizes (dimensionSizes.length - (0 + 1)) 0)
      (slots dimensionSizes 0) (dimensionSizes.map Int.toNat) := genLevels_builds rfl depth
  have frees : Frees (freeLevels dimensionSizes (dimensionSizes.length - (0 + 1)) 0)
      (dimensionSizes.map Int.toNat) := freeLevels_frees rfl depth
  obtain ⟨built, generated, length, -, arranged⟩ := builds root pool cells found size
  obtain ⟨after, freed, -⟩ := frees root pool.length [] built (Pool.lt_length found) arranged
  have numbers := handed_perm (dimensionSizes.map Int.toNat) pool.length
  refine ⟨built, _, after, generated, freed, ?_⟩
  rw [List.nil_append]
  refine ⟨numbers.nodup_iff.mpr List.nodup_range', fun block => ?_, arranged.bottomUp, ?_⟩
  · rw [numbers.mem_iff, List.mem_range'_1, length]
  · intro each member
    have reached : AtLevel built root 0 root := rfl
    have received := arranged.receivers reached member
    rwa [Nat.zero_add, List.length_map] at received

/-- Two blocks with three below each. -/
theorem array_released_two :
    ∃ built events after, novaGenArray [2, 3] 0 0 2 [some [none, none]] = some built ∧
      novaFreeArray [2, 3] 0 0 2 built = some (events, after) ∧
      Matches [some [none, none]] built 0 2 events :=
  @array_released [2, 3] (by decide) [some [none, none]] 0 [none, none] rfl rfl

end NovaC.Arrays.Slots
