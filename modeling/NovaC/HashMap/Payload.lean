import NovaC.HashMap.Rehash

namespace NovaC.HashMap

open NovaC.C NovaC.OpenAddressing

/-! Inserting never looks at the data.

A map with NULL among its data is the image of one whose data are not NULL: that map's
data say what the data are, NULL or not.
-/

variable {Data : Type}

def joinEntry (entry : HEntry (Option Data)) : HEntry Data :=
  ⟨entry.data.join, entry.active, entry.key⟩

def Hashmap.join (hash : Hashmap (Option Data)) : Hashmap Data :=
  ⟨hash.table.map joinEntry, hash.size, hash.count⟩

/-- The image of what a call returns. -/
def joined (returned : Hashmap (Option Data) × Rands) : Hashmap Data × Rands :=
  (returned.1.join, returned.2)

section Bind

variable {Value Value' Next Next' : Type} {image : Value → Value'} {nextImage : Next → Next'}

theorem bind_map {next : Value → Except Stop Next} {next' : Value' → Except Stop Next'}
    (commutes : ∀ value, next' (image value) = (next value).map nextImage)
    (result : Except Stop Value) :
    (result.map image >>= next') = (result >>= next).map nextImage := by
  cases result with
  | error stop => rfl
  | ok value => exact commutes value

end Bind

theorem insertAt_join (hash : Hashmap (Option Data)) (data : Option (Option Data)) (key : UInt64)
    (index : Nat) (entry : HEntry (Option Data)) :
    insertAt hash.join data.join key index (joinEntry entry) =
      (insertAt hash data key index entry).map Hashmap.join := by
  cases active : entry.active with
  | true =>
      by_cases same : entry.key = key
      · simp [insertAt, joinEntry, Hashmap.join, active, same, List.map_set]
      · simp [insertAt, joinEntry, active, same]
  | false => simp [insertAt, joinEntry, Hashmap.join, active, List.map_set]

theorem searchTable_join (hash : Hashmap (Option Data)) (data : Option (Option Data))
    (key : UInt64) :
    searchTable hash.join key (insertAt hash.join data.join key) =
      (searchTable hash key (insertAt hash data key)).map (Option.map Hashmap.join) := by
  have searched := search_map (insertAt_join hash data key) hash.table (nextIndex hash.size key)
    hash.size (startIndex hash.size key)
  change search (insertAt hash.join data.join key) hash.join.table (nextIndex hash.join.size key)
    hash.join.size (startIndex hash.join.size key) = _ at searched
  have sameSize : hash.join.size = hash.size := rfl
  by_cases divides : hash.size = 0 ∨ toSize (hash.size - 2) = 0
  · rw [searchTable, searchTable, sameSize, if_pos divides, if_pos divides]
    rfl
  · rw [searchTable, searchTable, searched, sameSize, if_neg divides, if_neg divides]
    cases search (insertAt hash data key) hash.table (nextIndex hash.size key) hash.size
      (startIndex hash.size key) with
    | none => rfl
    | some result => rfl

/-- The insertions commute with the image. -/
def Joins (insert' : Insert Data) (insert : Insert (Option Data)) : Prop :=
  ∀ hash data key rands,
    insert' hash.join data.join key rands = (insert hash data key rands).map joined

section Rehash

variable {insert' : Insert Data} {insert : Insert (Option Data)}

theorem reinsert_join (joins : Joins insert' insert) (entries : List (HEntry (Option Data)))
    (hash : Hashmap (Option Data)) (rands : Rands) :
    reinsert insert' (entries.map joinEntry) hash.join rands =
      (reinsert insert entries hash rands).map joined := by
  induction entries generalizing hash rands with
  | nil => rfl
  | cons entry entries ih =>
      rw [List.map_cons, reinsert, reinsert]
      have sameActive : (joinEntry entry).active = entry.active := rfl
      rw [sameActive]
      cases entry.active with
      | false =>
          rw [if_neg (by simp), if_neg (by simp)]
          exact ih hash rands
      | true =>
          rw [if_pos rfl, if_pos rfl]
          refine (congrArg (· >>= _) (joins hash entry.data entry.key rands)).trans ?_
          exact bind_map (fun returned => ih returned.1 returned.2) _

theorem calloc_join (size : Nat) (count : Int) :
    (⟨calloc size, size, count⟩ : Hashmap (Option Data)).join = ⟨calloc size, size, count⟩ := by
  rw [Hashmap.join, calloc, List.map_replicate]
  rfl

theorem rehash_join (joins : Joins insert' insert) (hash : Hashmap (Option Data)) (rands : Rands) :
    rehash insert' hash.join rands = (rehash insert hash rands).map joined := by
  have sameSize : hash.join.size = hash.size := rfl
  rw [rehash, rehash, sameSize]
  cases findPrimeGreaterThan (toInt (2 * hash.size)) rands with
  | error stop => rfl
  | ok found =>
      rw [ok_bind, ok_bind]
      have moved := reinsert_join joins hash.table.reverse
        ⟨calloc found.1.toNat, found.1.toNat, 0⟩ found.2
      rwa [calloc_join, List.map_reverse] at moved

end Rehash

theorem insertFrom_join (depth : Nat) (entering : Bool) :
    Joins (insertFrom depth entering : Insert Data) (insertFrom depth entering) := by
  induction depth generalizing entering with
  | zero => exact fun _ _ _ _ => rfl
  | succ depth ih =>
      intro hash data key rands
      rw [insertFrom, insertFrom]
      have entered : (if entering ∧ (hash.join.size : Int) ≤ hash.join.count then
            rehash (insertFrom depth true) hash.join rands else .ok (hash.join, rands)) =
          (if entering ∧ (hash.size : Int) ≤ hash.count then
            rehash (insertFrom depth true) hash rands else .ok (hash, rands)).map joined := by
        by_cases full : entering ∧ (hash.size : Int) ≤ hash.count
        · rw [if_pos full]
          exact (if_pos full).trans (rehash_join (ih true) hash rands)
        · rw [if_neg full]
          exact if_neg full
      rw [entered]
      apply bind_map
      intro started
      obtain ⟨start, rands⟩ := started
      change (searchTable start.join key (insertAt start.join data.join key) >>= _) = _
      rw [searchTable_join]
      dsimp only
      apply bind_map
      intro inserted
      cases inserted with
      | some after => rfl
      | none =>
          change (rehash (insertFrom depth true) start.join rands >>= _) = _
          rw [rehash_join (ih true)]
          apply bind_map
          exact fun moved => ih false moved.1 data key moved.2

end NovaC.HashMap
