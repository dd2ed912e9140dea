import NovaC.HashMap.Rehash

namespace NovaC.HashMap

open NovaC.C NovaC.OpenAddressing

variable {Data : Type}

inductive Operation (Data : Type) where
  | insert (data : Data) (key : UInt64)
  | remove (key : UInt64)
  | get (key : UInt64)
  | contains (key : UInt64)
  | count
  deriving Repr, DecidableEq

def Operation.map {Other : Type} (change : Data → Other) : Operation Data → Operation Other
  | insert data key => insert (change data) key
  | remove key => remove key
  | get key => get key
  | contains key => contains key
  | count => count

inductive Answer (Data : Type) where
  | done
  | data (data : Option Data)
  | contains (contains : Bool)
  | count (count : Int)
  deriving Repr, DecidableEq

/-- One call; the data to be inserted may be `NULL`. -/
def perform (depth : Nat) (hash : Hashmap Data) (rands : Rands) :
    Operation (Option Data) → Except Stop (Answer Data × Hashmap Data × Rands)
  | .insert data key => do
      let (hash, rands) ← hashmapInsert depth hash data key rands
      .ok (.done, hash, rands)
  | .remove key => do
      let (hash, data) ← hashmapRemove hash key
      .ok (.data data, hash, rands)
  | .get key => do
      let data ← hashmapGet hash key
      .ok (.data data, hash, rands)
  | .contains key => do
      let contains ← hashmapContains hash key
      .ok (.contains contains, hash, rands)
  | .count => .ok (.count (hashmapCount hash), hash, rands)

def performAll (depth : Nat) : List (Operation (Option Data)) → Hashmap Data → Rands →
    Except Stop (List (Answer Data) × Hashmap Data × Rands)
  | [], hash, rands => .ok ([], hash, rands)
  | operation :: operations, hash, rands => do
      let (answer, hash, rands) ← perform depth hash rands operation
      let (answers, hash, rands) ← performAll depth operations hash rands
      .ok (answer :: answers, hash, rands)

/-- A call that does not insert `NULL`. -/
def call (depth : Nat) (hash : Hashmap Data) (rands : Rands) (operation : Operation Data) :
    Except Stop (Answer Data × Hashmap Data × Rands) :=
  perform depth hash rands (operation.map some)

def calls (depth : Nat) : List (Operation Data) → Hashmap Data → Rands →
    Except Stop (List (Answer Data) × Hashmap Data × Rands)
  | [], hash, rands => .ok ([], hash, rands)
  | operation :: operations, hash, rands => do
      let (answer, hash, rands) ← call depth hash rands operation
      let (answers, hash, rands) ← calls depth operations hash rands
      .ok (answer :: answers, hash, rands)

abbrev Map (Data : Type) := Finmap fun _ : UInt64 => Data

/-- The same operation on a finite map. -/
def Map.call (map : Map Data) : Operation Data → Answer Data × Map Data
  | .insert data key => (.done, map.insert key data)
  | .remove key => (.data (map.lookup key), map.erase key)
  | .get key => (.data (map.lookup key), map)
  | .contains key => (.contains (map.lookup key).isSome, map)
  | .count => (.count map.keys.card, map)

def Map.calls : List (Operation Data) → Map Data → List (Answer Data)
  | [], _ => []
  | operation :: operations, map =>
      (map.call operation).1 :: Map.calls operations (map.call operation).2

structure Represents (hash : Hashmap Data) (map : Map Data) : Prop where
  wellFormed : WellFormed hash
  lookup : ∀ key, map.lookup key = binding hash.table key

/-- The operation does not insert a key that is there behind a deleted slot. -/
def Direct (hash : Hashmap Data) : Operation Data → Prop
  | .insert _ key => Unobstructed hash key
  | _ => True

/-- All operations of a run are direct in the states they are called in. -/
def DirectRun (depth : Nat) : List (Operation Data) → Hashmap Data → Rands → Prop
  | [], _, _ => True
  | operation :: operations, hash, rands =>
      Direct hash operation ∧ ∀ answer after afterRands,
        call depth hash rands operation = .ok (answer, after, afterRands) →
          DirectRun depth operations after afterRands

theorem Represents.count {hash : Hashmap Data} {map : Map Data} (represents : Represents hash map) :
    hashmapCount hash = map.keys.card := by
  have placed := represents.wellFormed.placed
  have sameKeys : map.keys = (activeKeys hash.table).toFinset := by
    ext key
    rw [Finmap.mem_keys, ← Finmap.lookup_isSome, represents.lookup, List.mem_toFinset,
      mem_activeKeys, binding_isSome placed]
  rw [hashmapCount_eq represents.wellFormed, sameKeys,
    List.toFinset_card_of_nodup (activeKeys_nodup placed)]

theorem Represents.call {hash : Hashmap Data} {map : Map Data} (represents : Represents hash map)
    (depth : Nat) (rands : Rands) (operation : Operation Data) (direct : Direct hash operation) :
    Returns (call depth hash rands operation) fun result =>
      result.1 = (map.call operation).1 ∧ Represents result.2.1 (map.call operation).2 := by
  have wellFormed := represents.wellFormed
  have lookup := represents.lookup
  cases operation with
  | insert data key =>
      apply (insertFrom_inserts depth true hash data key rands wellFormed direct).bind
      intro result reached
      obtain ⟨after, rands⟩ := result
      obtain ⟨bound, _⟩ := reached
      refine .ok ⟨rfl, bound.wellFormed, fun other => ?_⟩
      rw [bound.binding]
      by_cases same : other = key
      · rw [if_pos same, same]
        exact Finmap.lookup_insert map
      · rw [if_neg same, ← lookup]
        exact Finmap.lookup_insert_of_ne map same
  | remove key =>
      obtain ⟨after, removed, bound⟩ := hashmapRemove_eq wellFormed key
      rw [HashMap.call, Operation.map, perform, removed]
      refine .ok ⟨by rw [Map.call, lookup], bound.wellFormed, fun other => ?_⟩
      rw [bound.binding]
      by_cases same : other = key
      · rw [if_pos same, same]
        exact Finmap.lookup_erase key map
      · rw [if_neg same, ← lookup]
        exact Finmap.lookup_erase_ne same
  | get key =>
      rw [HashMap.call, Operation.map, perform, hashmapGet_eq wellFormed]
      exact .ok ⟨by rw [Map.call, lookup], represents⟩
  | contains key =>
      rw [HashMap.call, Operation.map, perform, hashmapContains_eq wellFormed]
      exact .ok ⟨by rw [Map.call, lookup], represents⟩
  | count =>
      rw [HashMap.call, Operation.map, perform, represents.count]
      exact .ok ⟨rfl, represents⟩

theorem Represents.calls {hash : Hashmap Data} {map : Map Data} (represents : Represents hash map)
    (depth : Nat) (rands : Rands) (operations : List (Operation Data))
    (direct : DirectRun depth operations hash rands) :
    Returns (calls depth operations hash rands) fun result =>
      result.1 = Map.calls operations map := by
  induction operations generalizing hash map rands with
  | nil => exact .ok rfl
  | cons operation operations ih =>
      obtain ⟨here, rest⟩ := direct
      have first := represents.call depth rands operation here
      rw [HashMap.calls]
      cases called : HashMap.call depth hash rands operation with
      | error stop =>
          rw [called] at first
          cases first
          exact .noReturn
      | ok result =>
          obtain ⟨answer, after, afterRands⟩ := result
          rw [called] at first
          cases first with
          | ok holds =>
              obtain ⟨sameAnswer, afterRepresents⟩ := holds
              rw [ok_bind]
              apply (ih afterRepresents afterRands (rest answer after afterRands called)).bind
              intro result sameAnswers
              obtain ⟨answers, final, finalRands⟩ := result
              dsimp only at sameAnswer sameAnswers
              exact .ok (by rw [Map.calls, sameAnswer, sameAnswers])

theorem calloc_represents {size : Int} (odd : size % 2 = 1) (positive : 0 < size)
    (small : size < 2147483648) :
    Represents (⟨calloc size.toNat, size.toNat, 0⟩ : Hashmap Data) ∅ where
  wellFormed := calloc_wellFormed odd positive small
  lookup key := by rw [Finmap.lookup_empty, calloc_binding]

theorem hashmapCreate_represents (startsize : Int) (rands : Rands) :
    Returns (hashmapCreate startsize rands) fun result : Hashmap Data × Rands =>
      Represents result.1 ∅ := by
  rw [hashmapCreate]
  split
  · exact .ok (calloc_represents (by decide) (by decide) (by decide) : Represents
      (⟨calloc (1021 : Int).toNat, (1021 : Int).toNat, 0⟩ : Hashmap Data) ∅)
  · apply (findPrimeGreaterThan_returns _ rands).bind
    intro result reached
    obtain ⟨prime, rands⟩ := result
    obtain ⟨odd, positive, small⟩ := reached
    exact .ok (calloc_represents odd positive small)

/-- Every call of a run that never inserts a key behind a deleted slot of its
probe sequence answers as a finite map does. -/
theorem calls_refine {startsize : Int} {rands createdRands : Rands} {hash : Hashmap Data}
    (created : hashmapCreate startsize rands = .ok (hash, createdRands)) (depth : Nat)
    (operations : List (Operation Data)) (direct : DirectRun depth operations hash createdRands) :
    Returns (calls depth operations hash createdRands) fun result =>
      result.1 = Map.calls operations ∅ := by
  have represents : Returns (hashmapCreate startsize rands) fun result : Hashmap Data × Rands =>
      Represents result.1 ∅ := hashmapCreate_represents startsize rands
  rw [created] at represents
  cases represents with
  | ok represents => exact represents.calls depth createdRands operations direct

/-- Keys 0 and 3 share their probe sequence. Key 0 is removed and inserted again, and then
key 3 behind it. -/
def collidingRun : List (Operation String) :=
  [.insert "a" 0, .insert "b" 3, .remove 0, .get 3, .insert "c" 0, .insert "d" 3, .get 3, .count]

theorem calls_refine_colliding :
    Returns (calls 1 collidingRun ⟨calloc 3, 3, 0⟩ []) fun result =>
      result.1 = Map.calls collidingRun ∅ := by
  have created : hashmapCreate 3 (List.replicate 9 0) =
      .ok ((⟨calloc 3, 3, 0⟩ : Hashmap String), []) := rfl
  have wellFormed : WellFormed (⟨calloc 3, 3, 0⟩ : Hashmap String) :=
    @calloc_wellFormed _ 3 (by decide) (by decide) (by decide)
  refine calls_refine created 1 collidingRun ⟨?_, fun _ _ _ first => ?_⟩
  · exact (calloc_fresh 3 0).unobstructed wellFormed 0
  cases first
  refine ⟨fun present => absurd (mem_activeKeys.mpr present) (by decide), fun _ _ _ second => ?_⟩
  cases second
  refine ⟨trivial, fun _ _ _ third => ?_⟩
  cases third
  refine ⟨trivial, fun _ _ _ fourth => ?_⟩
  cases fourth
  refine ⟨fun present => absurd (mem_activeKeys.mpr present) (by decide), fun _ _ _ fifth => ?_⟩
  cases fifth
  refine ⟨fun _ => ⟨1, by decide, ⟨_, rfl, rfl, rfl⟩, ?_⟩, fun _ _ _ sixth => ?_⟩
  · intro earlier isEarlier
    obtain rfl : earlier = 0 := by omega
    exact ⟨_, rfl, rfl⟩
  cases sixth
  exact ⟨trivial, fun _ _ _ _ => ⟨trivial, fun _ _ _ _ => trivial⟩⟩

/-- Keys 0 and 3 share their probe sequence in a table of three slots. With key 0
deleted, key 3 is inserted a second time in front of its own slot. -/
theorem insert_behind_deleted :
    ¬ ∀ (startsize : Int) (rands createdRands afterRands : Rands) (hash after : Hashmap Nat)
      (depth : Nat) (operations : List (Operation Nat)) (answers : List (Answer Nat)),
      0 ≤ startsize → hashmapCreate startsize rands = .ok (hash, createdRands) →
      calls depth operations hash createdRands = .ok (answers, after, afterRands) →
        answers = Map.calls operations ∅ := by
  intro claim
  have same := claim 3 (List.replicate 9 0) [] [] ⟨calloc 3, 3, 0⟩
    ⟨[⟨some 14, true, 3⟩, ⟨some 13, true, 3⟩, ⟨none, false, 0⟩], 3, 2⟩ 1
    [.insert 10 0, .insert 13 3, .remove 0, .insert 14 3, .count]
    [.done, .done, .data (some 10), .done, .count 2] (by decide) rfl rfl
  exact absurd same (by decide)

end NovaC.HashMap
