import NovaC.HashMap.Tables

namespace NovaC.HashMap

open NovaC.C NovaC.OpenAddressing

variable {Data Result : Type} {hash : Hashmap Data} {key : UInt64}

/-- The map is in memory as its value says. -/
structure Located.Holds (state : Located Data) (hash : Hashmap Data) : Prop where
  found : state.tables.live state.table = some hash.table
  size : state.size = hash.size
  count : state.count = hash.count
  length : hash.table.length = hash.size

/-- Only the table of the map has changed, or a new one has taken its place and the old one
has been released. -/
structure Moves (before after : Located Data) : Prop where
  grows : before.tables.length ≤ after.tables.length
  others : ∀ block, block ≠ before.table → block ≠ after.table →
    after.tables.live block = before.tables.live block
  released : after.table ≠ before.table →
    after.tables.live before.table = none ∧ before.tables.length ≤ after.table

/-- The call in memory returns when the call on the value does, with what that returns. -/
inductive Follows (before : Located Data) :
    Except Stop (Hashmap Data × Rands) → Except Stop (Located Data × Rands) → Prop where
  | ok {hash : Hashmap Data} {after : Located Data} (rands : Rands) (holds : after.Holds hash)
      (moves : Moves before after) : Follows before (.ok (hash, rands)) (.ok (after, rands))
  | error (stop : Stop) : Follows before (.error stop) (.error stop)

section Live

variable {tables : Tables Data} {block other : Nat}

theorem Tables.lt_length {table : List (HEntry Data)} (found : tables.live block = some table) :
    block < tables.length :=
  (List.getElem?_eq_some_iff.mp (Option.join_eq_some_iff.mp found)).1

theorem Tables.live_new (outside : tables.length ≤ block) : tables.live block = none := by
  rw [Tables.live, List.getElem?_eq_none outside, Option.join_none]

theorem Tables.live_set_self (inside : block < tables.length)
    (table : Option (List (HEntry Data))) : Tables.live (tables.set block table) block = table := by
  rw [Tables.live, List.getElem?_set_self inside, Option.join_some]

theorem Tables.live_set_ne (different : other ≠ block) (table : Option (List (HEntry Data))) :
    Tables.live (tables.set block table) other = tables.live other := by
  rw [Tables.live, List.getElem?_set_ne (Ne.symm different), Tables.live]

theorem Tables.live_append (inside : block < tables.length) (more : Tables Data) :
    Tables.live (tables ++ more) block = tables.live block := by
  rw [Tables.live, List.getElem?_append_left inside, Tables.live]

end Live

section Moves

variable {before middle after : Located Data}

theorem Moves.refl (state : Located Data) : Moves state state :=
  ⟨Nat.le_refl _, fun _ _ _ => rfl, fun different => absurd rfl different⟩

theorem Moves.trans (first : Moves before middle) (second : Moves middle after) :
    Moves before after := by
  refine ⟨Nat.le_trans first.grows second.grows, ?_, ?_⟩
  · intro block notBefore notAfter
    by_cases between : block = middle.table
    · subst between
      have gone := (second.released (Ne.symm notAfter)).1
      rw [gone, Tables.live_new (first.released notBefore).2]
    · rw [second.others block between notAfter, first.others block notBefore between]
  · intro different
    by_cases stays : middle.table = before.table
    · have released := second.released (stays ▸ different)
      rw [stays] at released
      exact ⟨released.1, Nat.le_trans first.grows released.2⟩
    · obtain ⟨gone, new⟩ := first.released stays
      have still := second.others before.table (Ne.symm stays) (Ne.symm different)
      refine ⟨still.trans gone, ?_⟩
      by_cases last : after.table = middle.table
      · exact last ▸ new
      · exact Nat.le_trans first.grows (second.released last).2

/-- Another table than the one of the map stays where it is. -/
theorem Moves.keeps (moves : Moves before after) {block : Nat} {table : List (HEntry Data)}
    (other : block ≠ before.table) (found : before.tables.live block = some table) :
    block ≠ after.table ∧ after.tables.live block = some table := by
  have apart : block ≠ after.table := by
    rintro rfl
    exact absurd (Tables.lt_length found) (Nat.not_lt.mpr (moves.released other).2)
  exact ⟨apart, (moves.others block other apart).trans found⟩

/-- A new table has been filled, and the old one is released. -/
theorem Moves.release {size : Nat} (moves : Moves (Located.calloc before.tables size) after)
    (inside : before.table < before.tables.length) :
    Moves before { after with tables := after.tables.set before.table none } := by
  have grows : before.tables.length < after.tables.length := by
    have added := moves.grows
    simp only [Located.calloc, List.length_append, List.length_singleton] at added
    exact added
  have new : before.tables.length ≤ after.table := by
    by_cases first : after.table = (Located.calloc before.tables size).table
    · exact Nat.le_of_eq first.symm
    · have later := (moves.released first).2
      simp only [Located.calloc, List.length_append, List.length_singleton] at later
      exact Nat.le_of_succ_le later
  refine ⟨?_, ?_, fun _ => ⟨?_, new⟩⟩
  · rw [List.length_set]
    exact Nat.le_of_lt grows
  · intro block notBefore notAfter
    rw [Tables.live_set_ne notBefore]
    by_cases first : block = before.tables.length
    · subst first
      exact (moves.released (Ne.symm notAfter)).1.trans (Tables.live_new (Nat.le_refl _)).symm
    · rw [moves.others block first notAfter]
      by_cases earlier : block < before.tables.length
      · exact Tables.live_append earlier _
      · rw [Tables.live_new (Nat.not_lt.mp earlier)]
        apply Tables.live_new
        simp only [Located.calloc, List.length_append, List.length_singleton]
        omega
  · exact Tables.live_set_self (Nat.lt_trans inside grows) _

theorem Moves.write (state : Located Data) (hash : Hashmap Data) :
    Moves state (state.write hash) where
  grows := Nat.le_of_eq List.length_set.symm
  others _ different _ := Tables.live_set_ne different _
  released different := absurd rfl different

end Moves

section Follows

variable {before : Located Data} {value : Except Stop (Hashmap Data × Rands)}
  {inMemory : Except Stop (Located Data × Rands)}

theorem Follows.bind (first : Follows before value inMemory)
    {next : Hashmap Data × Rands → Except Stop (Hashmap Data × Rands)}
    {nextInMemory : Located Data × Rands → Except Stop (Located Data × Rands)}
    (rest : ∀ hash after rands, after.Holds hash → Moves before after →
      Follows before (next (hash, rands)) (nextInMemory (after, rands))) :
    Follows before (value >>= next) (inMemory >>= nextInMemory) := by
  cases first with
  | ok rands holds moves => exact rest _ _ rands holds moves
  | error stop => exact .error stop

theorem Follows.after {earlier : Located Data} (moves : Moves earlier before)
    (follows : Follows before value inMemory) : Follows earlier value inMemory := by
  cases follows with
  | ok rands holds later => exact .ok rands holds (moves.trans later)
  | error stop => exact .error stop

end Follows

theorem Located.Holds.read {state : Located Data} (holds : state.Holds hash) :
    state.read = .ok hash := by
  rw [Located.read, holds.found, holds.size, holds.count]

theorem Located.Holds.write {state : Located Data} {changed : Hashmap Data}
    (holds : state.Holds hash) (length : changed.table.length = changed.size) :
    (state.write changed).Holds changed :=
  ⟨Tables.live_set_self (Tables.lt_length holds.found) _, rfl, rfl, length⟩

theorem Located.calloc_holds (tables : Tables Data) (size : Nat) :
    (Located.calloc tables size).Holds ⟨HashMap.calloc size, size, 0⟩ where
  found := by
    rw [Located.calloc, Tables.live, List.getElem?_concat_length, Option.join_some]
  size := rfl
  count := rfl
  length := List.length_replicate

section Slots

theorem search_visited {visit : Nat → HEntry Data → Option Result} {table : List (HEntry Data)}
    {next : Nat → Nat} {rounds index : Nat} {result : Result}
    (searched : search visit table next rounds index = some (some result)) :
    ∃ place entry, visit place entry = some result := by
  induction rounds generalizing index with
  | zero => cases searched
  | succ rounds ih =>
      rw [search] at searched
      obtain ⟨entry, here, searched⟩ := Option.bind_eq_some_iff.mp searched
      cases visited : visit index entry with
      | none =>
          rw [visited] at searched
          exact ih searched
      | some found =>
          rw [visited] at searched
          cases searched
          exact ⟨index, entry, visited⟩

theorem searchTable_visited {visit : Nat → HEntry Data → Option Result} {result : Result}
    (searched : searchTable hash key visit = .ok (some result)) :
    ∃ place entry, visit place entry = some result := by
  rw [searchTable] at searched
  split at searched
  · cases searched
  · split at searched
    · cases searched
    · rename_i found
      cases searched
      exact search_visited found

theorem insertAt_length {data : Option Data} {changed : Hashmap Data}
    (length : hash.table.length = hash.size)
    (inserted : searchTable hash key (insertAt hash data key) = .ok (some changed)) :
    changed.table.length = changed.size := by
  obtain ⟨index, entry, inserted⟩ := searchTable_visited inserted
  rw [insertAt] at inserted
  split at inserted
  · split at inserted
    · cases inserted
      rwa [List.length_set]
    · cases inserted
  · cases inserted
    rwa [List.length_set]

theorem hashmapRemove_length {result : Hashmap Data × Option Data}
    (length : hash.table.length = hash.size) (removed : hashmapRemove hash key = .ok result) :
    result.1.table.length = result.1.size := by
  rw [hashmapRemove] at removed
  cases searched : searchTable hash key (removeAt hash key) with
  | error stop =>
      rw [searched] at removed
      cases removed
  | ok found =>
      rw [searched, ok_bind] at removed
      cases removed
      cases found with
      | none => exact length
      | some result =>
          obtain ⟨index, entry, visited⟩ := searchTable_visited searched
          rw [removeAt] at visited
          split at visited
          · split at visited
            · split at visited
              · cases visited
                rwa [Option.getD_some, List.length_set]
              · cases visited
                exact length
            · cases visited
          · cases visited
            exact length

end Slots

/-- What the insertion in memory has to do for the one on the value. -/
def Simulates (insert : Insert Data) (insertAt : InsertAt Data) : Prop :=
  ∀ (state : Located Data) (hash : Hashmap Data) (data : Option Data) (key : UInt64)
    (rands : Rands), state.Holds hash →
      Follows state (insert hash data key rands) (insertAt state data key rands)

section Insert

variable {insert : Insert Data} {insertAt : InsertAt Data} {state : Located Data}

/-- The old table stays readable, whatever tables the insertions go through. -/
theorem reinsert_follows (simulates : Simulates insert insertAt) (holds : state.Holds hash)
    {old size : Nat} {table : List (HEntry Data)} (other : old ≠ state.table)
    (found : state.tables.live old = some table) (inside : size ≤ table.length) (rands : Rands) :
    Follows state (reinsert insert (table.take size).reverse hash rands)
      (Located.reinsert insertAt old size state rands) := by
  induction size generalizing state hash rands with
  | zero => exact .ok rands holds (.refl state)
  | succ size ih =>
      have entry : state.entry old size = .ok table[size] := by
        rw [Located.entry, found, Option.bind_some, List.getElem?_eq_getElem inside]
      rw [List.take_succ_eq_append_getElem inside, List.reverse_append, List.reverse_singleton,
        List.singleton_append, reinsert, Located.reinsert, entry, ok_bind]
      split
      · apply (simulates state hash _ _ rands holds).bind
        intro inserted after rands holdsAfter moves
        obtain ⟨apart, stays⟩ := moves.keeps other found
        exact (ih holdsAfter apart stays (Nat.le_of_succ_le inside) rands).after moves
      · exact ih holds other found (Nat.le_of_succ_le inside) rands

theorem rehash_follows (simulates : Simulates insert insertAt) (holds : state.Holds hash)
    (rands : Rands) :
    Follows state (rehash insert hash rands) (Located.rehash insertAt state rands) := by
  have inside := Tables.lt_length holds.found
  rw [rehash, Located.rehash, holds.size]
  cases findPrimeGreaterThan (toInt (2 * hash.size)) rands with
  | error stop => exact .error stop
  | ok result =>
      obtain ⟨prime, rands⟩ := result
      rw [ok_bind, ok_bind]
      have apart : state.table ≠ (Located.calloc state.tables prime.toNat).table :=
        Nat.ne_of_lt inside
      have found : (Located.calloc state.tables prime.toNat).tables.live state.table =
          some hash.table := (Tables.live_append inside _).trans holds.found
      have moved := reinsert_follows simulates (Located.calloc_holds state.tables prime.toNat)
        apart found (Nat.le_of_eq holds.length.symm) rands
      have whole : hash.table.take hash.size = hash.table := by
        rw [← holds.length, List.take_length]
      rw [whole] at moved
      dsimp only
      generalize reinsert insert hash.table.reverse _ rands = value at moved ⊢
      generalize Located.reinsert insertAt state.table hash.size _ rands = inMemory at moved ⊢
      cases moved with
      | error stop => exact .error stop
      | @ok rehashed after rands holdsAfter moves =>
          obtain ⟨notCurrent, stays⟩ := moves.keeps apart found
          rw [ok_bind, Tables.free, stays, ok_bind]
          refine .ok rands ⟨?_, holdsAfter.size, holdsAfter.count, holdsAfter.length⟩ ?_
          · exact (Tables.live_set_ne (Ne.symm notCurrent) _).trans holdsAfter.found
          · exact moves.release inside

end Insert

theorem insertFrom_follows (depth : Nat) (entering : Bool) :
    Simulates (insertFrom depth entering : Insert Data) (Located.insertFrom depth entering) := by
  induction depth generalizing entering with
  | zero => exact fun _ _ _ _ _ _ => .error _
  | succ depth ih =>
      intro state hash data key rands holds
      rw [insertFrom, Located.insertFrom, holds.size, holds.count]
      have entered : Follows state
          (if entering ∧ (hash.size : Int) ≤ hash.count then
            rehash (insertFrom depth true) hash rands else .ok (hash, rands))
          (if entering ∧ (hash.size : Int) ≤ hash.count then
            Located.rehash (Located.insertFrom depth true) state rands else .ok (state, rands)) := by
        split
        · exact rehash_follows (ih true) holds rands
        · exact .ok rands holds (.refl state)
      apply entered.bind
      intro start middle rands holdsMiddle moves
      dsimp only
      rw [holdsMiddle.read, ok_bind]
      cases searched : searchTable start key (insertAt start data key) with
      | error stop => exact .error stop
      | ok inserted =>
          rw [ok_bind, ok_bind]
          cases inserted with
          | some changed =>
              exact .ok rands (holdsMiddle.write (insertAt_length holdsMiddle.length searched))
                (moves.trans (.write middle changed))
          | none =>
              apply ((rehash_follows (ih true) holdsMiddle rands).after moves).bind
              intro moved last rands holdsLast movesLast
              exact (ih false last moved data key rands holdsLast).after movesLast

/-- One call in memory against the one on the value. -/
inductive Answers (before : Located Data) {Answer : Type} :
    Except Stop (Answer × Hashmap Data × Rands) →
      Except Stop (Answer × Located Data × Rands) → Prop where
  | ok {hash : Hashmap Data} {after : Located Data} (answer : Answer) (rands : Rands)
      (holds : after.Holds hash) (moves : Moves before after) :
      Answers before (.ok (answer, hash, rands)) (.ok (answer, after, rands))
  | error (stop : Stop) : Answers before (.error stop) (.error stop)

theorem Located.Holds.perform {state : Located Data} (holds : state.Holds hash) (depth : Nat)
    (rands : Rands) (operation : Operation (Option Data)) :
    Answers state (HashMap.perform depth hash rands operation)
      (state.perform depth rands operation) := by
  cases operation with
  | insert data key =>
      rw [HashMap.perform, Located.perform]
      have inserted := insertFrom_follows depth true state hash data key rands holds
      rw [hashmapInsert]
      generalize HashMap.insertFrom depth true hash data key rands = value at inserted ⊢
      generalize Located.insertFrom depth true state data key rands = inMemory at inserted ⊢
      cases inserted with
      | ok rands holdsAfter moves => exact .ok _ rands holdsAfter moves
      | error stop => exact .error stop
  | remove key =>
      rw [HashMap.perform, Located.perform, holds.read, ok_bind]
      cases removed : hashmapRemove hash key with
      | error stop => exact .error stop
      | ok result =>
          exact .ok _ rands (holds.write (hashmapRemove_length holds.length removed))
            (.write state result.1)
  | get key =>
      rw [HashMap.perform, Located.perform, holds.read, ok_bind]
      cases hashmapGet hash key with
      | error stop => exact .error stop
      | ok data => exact .ok _ rands holds (.refl state)
  | contains key =>
      rw [HashMap.perform, Located.perform, holds.read, ok_bind]
      cases hashmapContains hash key with
      | error stop => exact .error stop
      | ok contains => exact .ok _ rands holds (.refl state)
  | count =>
      rw [HashMap.perform, Located.perform, hashmapCount, holds.count]
      exact .ok _ rands holds (.refl state)

theorem Located.Holds.performAll {state : Located Data} (holds : state.Holds hash) (depth : Nat)
    (rands : Rands) (operations : List (Operation (Option Data))) :
    Answers state (HashMap.performAll depth operations hash rands)
      (Located.performAll depth operations state rands) := by
  induction operations generalizing state hash rands with
  | nil => exact .ok [] rands holds (.refl state)
  | cons operation operations ih =>
      rw [HashMap.performAll, Located.performAll]
      have first := holds.perform depth rands operation
      generalize HashMap.perform depth hash rands operation = value at first ⊢
      generalize Located.perform depth state rands operation = inMemory at first ⊢
      cases first with
      | error stop => exact .error stop
      | @ok changed after answer rands holdsAfter moves =>
          rw [ok_bind, ok_bind]
          have rest := ih holdsAfter rands
          dsimp only
          generalize HashMap.performAll depth operations changed rands = value at rest ⊢
          generalize Located.performAll depth operations after rands = inMemory at rest ⊢
          cases rest with
          | error stop => exact .error stop
          | ok answers rands holdsLast movesLast =>
              exact .ok _ rands holdsLast (moves.trans movesLast)

theorem hashmapCreate_cases (tables : Tables Data) (startsize : Int) (rands : Rands) :
    (∃ stop, (hashmapCreate startsize rands : Except Stop (Hashmap Data × Rands)) = .error stop ∧
      Located.hashmapCreate tables startsize rands = .error stop) ∨
    ∃ size after, hashmapCreate startsize rands =
        .ok ((⟨calloc size, size, 0⟩ : Hashmap Data), after) ∧
      Located.hashmapCreate tables startsize rands = .ok (Located.calloc tables size, after) := by
  rw [hashmapCreate, Located.hashmapCreate]
  split
  · exact .inr ⟨1021, rands, rfl, rfl⟩
  · cases findPrimeGreaterThan (startsize - 2) rands with
    | error stop => exact .inl ⟨stop, rfl, rfl⟩
    | ok found => exact .inr ⟨found.1.toNat, found.2, rfl, rfl⟩

theorem Moves.delete {tables : Tables Data} {size : Nat} {state : Located Data}
    (moves : Moves (Located.calloc tables size) state) {table : List (HEntry Data)}
    (found : state.tables.live state.table = some table) :
    ∃ after, state.hashmapDelete = .ok after ∧ ∀ block, after.live block = tables.live block := by
  refine ⟨_, by rw [Located.hashmapDelete, Tables.free, found], fun block => ?_⟩
  by_cases current : block = state.table
  · subst current
    rw [Tables.live_set_self (Tables.lt_length found)]
    refine (Tables.live_new ?_).symm
    by_cases first : state.table = (Located.calloc tables size).table
    · exact Nat.le_of_eq first.symm
    · exact Nat.le_trans (by simp [Located.calloc]) (moves.released first).2
  · rw [Tables.live_set_ne current]
    by_cases first : block = tables.length
    · subst first
      exact (moves.released (Ne.symm current)).1.trans (Tables.live_new (Nat.le_refl _)).symm
    · rw [moves.others block first current]
      by_cases earlier : block < tables.length
      · exact Tables.live_append earlier _
      · rw [Tables.live_new (Nat.not_lt.mp earlier)]
        apply Tables.live_new
        simp only [Located.calloc, List.length_append, List.length_singleton]
        omega

/-- In memory a map answers as its value does, through every rehash and the rehashes inside
it: no released table is read or released again. In the end the memory is as it was. -/
theorem life_released (tables : Tables Data) (depth : Nat) (startsize : Int)
    (operations : List (Operation (Option Data))) (rands : Rands) :
    (∀ stop, life depth startsize operations rands = .error stop →
      Located.life tables depth startsize operations rands = .error stop) ∧
    ∀ answers, life depth startsize operations rands = .ok answers →
      ∃ after, Located.life tables depth startsize operations rands = .ok (answers, after) ∧
        ∀ block, after.live block = tables.live block := by
  rw [life, Located.life]
  rcases hashmapCreate_cases tables startsize rands with
    ⟨stop, failed, failedInMemory⟩ | ⟨size, rands, created, createdInMemory⟩
  · rw [failed, failedInMemory]
    refine ⟨fun _ same => ?_, fun _ same => ?_⟩ <;> cases same
    rfl
  · rw [created, createdInMemory, ok_bind, ok_bind]
    have ran := (Located.calloc_holds tables size).performAll depth rands operations
    dsimp only
    generalize performAll depth operations _ rands = value at ran ⊢
    generalize Located.performAll depth operations _ rands = inMemory at ran ⊢
    cases ran with
    | error stop =>
        refine ⟨fun _ same => ?_, fun _ same => ?_⟩ <;> cases same
        rfl
    | ok answers rands holds moves =>
        obtain ⟨after, deleted, restored⟩ := moves.delete holds.found
        rw [ok_bind, ok_bind, deleted]
        refine ⟨fun _ same => ?_, fun _ same => ?_⟩ <;> cases same
        exact ⟨after, rfl, restored⟩

end NovaC.HashMap
