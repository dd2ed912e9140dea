import NovaC.HashMap.Operations

namespace NovaC.HashMap

open NovaC.C NovaC.OpenAddressing

/-! Insertion and the rehashes it makes.

A new table has no deleted slots, so that the entries of the old one get to the
places where searches find them, whatever rehashes that makes in turn.
-/

variable {Data : Type} {hash : Hashmap Data}

theorem calloc_wellFormed {size : Int} (odd : size % 2 = 1) (positive : 0 < size)
    (small : size < 2147483648) :
    WellFormed (⟨calloc size.toNat, size.toNat, 0⟩ : Hashmap Data) := by
  have placed : Placed (probing size.toNat (by omega)) (calloc size.toNat : List (HEntry Data)) :=
    placed_empty _ 0
  refine ⟨by simp only; omega, by simp only; omega, placed, ?_⟩
  simp only [calloc, countActive_empty]
  rfl

theorem calloc_fresh (size : Nat) (count : Int) : Fresh (⟨calloc size, size, count⟩ : Hashmap Data) := by
  intro index entry here _
  rw [List.eq_of_mem_replicate (List.mem_of_getElem? here)]

theorem calloc_binding (size : Nat) (key : UInt64) :
    binding (calloc size : List (HEntry Data)) key = none := by
  apply binding_of_absent
  intro reached
  obtain ⟨index, entry, here, active, _⟩ := reached
  rw [List.eq_of_mem_replicate (List.mem_of_getElem? here)] at active
  cases active

def Inserts (insert : Insert Data) : Prop :=
  ∀ (hash : Hashmap Data) (data : Data) (key : UInt64) (rands : Rands), WellFormed hash →
    Unobstructed hash key → Returns (insert hash (some data) key rands) fun result =>
      Bound hash result.1 key (some data) ∧ (Fresh hash → Fresh result.1)

theorem reinsert_returns {insert : Insert Data} (inserts : Inserts insert)
    (entries : List (HEntry Data))
    (different : entries.Pairwise fun first second =>
      first.active = true → second.active = true → first.key ≠ second.key)
    (filled : ∀ entry ∈ entries, entry.active = true → entry.data ≠ none)
    (wellFormed : WellFormed hash) (fresh : Fresh hash) (rands : Rands) :
    Returns (reinsert insert entries hash rands) fun result =>
      WellFormed result.1 ∧ Fresh result.1 ∧
        (∀ entry ∈ entries, entry.active = true →
          binding result.1.table entry.key = entry.data) ∧
        ∀ key, (∀ entry ∈ entries, entry.active = true → entry.key ≠ key) →
          binding result.1.table key = binding hash.table key := by
  induction entries generalizing hash rands with
  | nil => exact .ok ⟨wellFormed, fresh, by simp, fun _ _ => rfl⟩
  | cons entry entries ih =>
      obtain ⟨apart, different⟩ := List.pairwise_cons.mp different
      have restFilled : ∀ entry ∈ entries, entry.active = true → entry.data ≠ none :=
        fun entry member => filled entry (List.mem_cons_of_mem _ member)
      rw [reinsert]
      cases active : entry.active with
      | false =>
          rw [if_neg (by simp)]
          apply (ih different restFilled wellFormed fresh rands).mono
          intro result reached
          obtain ⟨resultWellFormed, resultFresh, bound, others⟩ := reached
          refine ⟨resultWellFormed, resultFresh, ?_, ?_⟩
          · intro other member otherActive
            rcases List.mem_cons.mp member with rfl | member
            · rw [active] at otherActive
              cases otherActive
            · exact bound other member otherActive
          · exact fun key elsewhere =>
              others key fun other member => elsewhere other (List.mem_cons_of_mem _ member)
      | true =>
          rw [if_pos rfl]
          obtain ⟨data, isData⟩ := Option.ne_none_iff_exists'.mp (filled entry List.mem_cons_self active)
          rw [isData]
          apply (inserts hash data entry.key rands wellFormed
            (fresh.unobstructed wellFormed entry.key)).bind
          intro result reached
          obtain ⟨middle, rands⟩ := result
          obtain ⟨inserted, keepsFresh⟩ := reached
          apply (ih different restFilled inserted.wellFormed (keepsFresh fresh) rands).mono
          intro result reached
          obtain ⟨resultWellFormed, resultFresh, bound, others⟩ := reached
          refine ⟨resultWellFormed, resultFresh, ?_, fun key elsewhere => ?_⟩
          · intro other member otherActive
            rcases List.mem_cons.mp member with rfl | member
            · rw [others other.key fun later laterMember laterActive =>
                Ne.symm (apart later laterMember active laterActive), inserted.binding, if_pos rfl,
                isData]
            · exact bound other member otherActive
          · rw [others key fun other member => elsewhere other (List.mem_cons_of_mem _ member),
              inserted.binding, if_neg (Ne.symm (elsewhere entry List.mem_cons_self active))]

theorem rehash_returns {insert : Insert Data} (inserts : Inserts insert)
    (wellFormed : WellFormed hash) (rands : Rands) :
    Returns (rehash insert hash rands) fun result =>
      WellFormed result.1 ∧ Fresh result.1 ∧
        ∀ key, binding result.1.table key = binding hash.table key := by
  have placed := wellFormed.placed
  rw [rehash]
  refine Returns.bind (findPrimeGreaterThan_returns _ rands) ?_
  intro result reached
  obtain ⟨prime, rands⟩ := result
  obtain ⟨odd, positive, small⟩ := reached
  have different : hash.table.reverse.Pairwise fun first second =>
      first.active = true → second.active = true → first.key ≠ second.key := by
    rw [List.pairwise_reverse]
    exact placed.pairwise.imp fun apart second first => Ne.symm (apart first second)
  have filled : ∀ entry ∈ hash.table.reverse, entry.active = true → entry.data ≠ none := by
    intro entry member active
    obtain ⟨index, here⟩ := List.getElem?_of_mem (List.mem_reverse.mp member)
    exact placed.filled here active
  apply (reinsert_returns inserts hash.table.reverse different filled
    (calloc_wellFormed odd positive small) (calloc_fresh _ _) rands).mono
  intro result reached
  obtain ⟨resultWellFormed, fresh, bound, others⟩ := reached
  refine ⟨resultWellFormed, fresh, fun key => ?_⟩
  by_cases present : Present hash.table key
  · obtain ⟨index, entry, here, active, rfl⟩ := present
    rw [bound entry (List.mem_reverse.mpr (List.mem_of_getElem? here)) active,
      binding_of_active placed here active]
  · rw [others key, calloc_binding, binding_of_absent present]
    intro entry member active sameKey
    obtain ⟨index, here⟩ := List.getElem?_of_mem (List.mem_reverse.mp member)
    exact present ⟨index, entry, here, active, sameKey⟩

/-- An insertion, after the entries were moved if `entering` asks for it. -/
theorem insertFrom_inserts (depth : Nat) (entering : Bool) :
    Inserts (insertFrom depth entering : Insert Data) := by
  induction depth generalizing entering with
  | zero => exact fun _ _ _ _ _ _ => .noReturn
  | succ depth ih =>
      intro hash data key rands wellFormed unobstructed
      have entered : Returns
          (if entering ∧ (hash.size : Int) ≤ hash.count then
            rehash (insertFrom depth true) hash rands else .ok (hash, rands))
          fun result => WellFormed result.1 ∧ Unobstructed result.1 key ∧
            (∀ key, binding result.1.table key = binding hash.table key) ∧
            (Fresh hash → Fresh result.1) := by
        split
        · apply (rehash_returns (ih true) wellFormed rands).mono
          intro result reached
          obtain ⟨resultWellFormed, fresh, same⟩ := reached
          exact ⟨resultWellFormed, fresh.unobstructed resultWellFormed key, same, fun _ => fresh⟩
        · exact .ok ⟨wellFormed, unobstructed, fun _ => rfl, id⟩
      rw [insertFrom]
      apply entered.bind
      intro result reached
      obtain ⟨start, rands⟩ := result
      obtain ⟨startWellFormed, startUnobstructed, same, keepsFresh⟩ := reached
      dsimp only at startWellFormed startUnobstructed same keepsFresh ⊢
      rcases searchTable_insertAt startWellFormed startUnobstructed data with
        searched | ⟨after, searched, bound, fresh⟩
      · rw [searched, ok_bind]
        apply (rehash_returns (ih true) startWellFormed rands).bind
        intro result reached
        obtain ⟨moved, rands⟩ := result
        obtain ⟨movedWellFormed, fresh, sameAgain⟩ := reached
        apply (ih false moved data key rands movedWellFormed
          (fresh.unobstructed movedWellFormed key)).mono
        intro result reached
        obtain ⟨bound, resultFresh⟩ := reached
        refine ⟨⟨bound.wellFormed, fun other => ?_⟩, fun _ => resultFresh fresh⟩
        rw [bound.binding, sameAgain, same]
      · rw [searched, ok_bind]
        refine .ok ⟨⟨bound.wellFormed, fun other => ?_⟩, fun unmarked => fresh (keepsFresh unmarked)⟩
        rw [bound.binding, same]

end NovaC.HashMap
