import NovaC.HashMap.NullData
import NovaC.HashMap.Refinement

namespace NovaC.HashMap

open NovaC.C NovaC.OpenAddressing

variable {Data : Type}

def Operation.removes : Operation Data → Bool
  | .remove _ => true
  | _ => false

/-- Once something has been removed, only keys are inserted that are not there. -/
def Allowed (map : Map Data) (removed : Bool) : Operation Data → Prop
  | .insert _ key => removed = true → key ∉ map
  | _ => True

def Disciplined : List (Operation Data) → Map Data → Bool → Prop
  | [], _, _ => True
  | operation :: operations, map, removed =>
      Allowed map removed operation ∧
        Disciplined operations (map.call operation).2 (removed || operation.removes)

instance (map : Map Data) (removed : Bool) (operation : Operation Data) :
    Decidable (Allowed map removed operation) :=
  match operation with
  | .insert _ _ => inferInstanceAs (Decidable (_ → _))
  | .remove _ => inferInstanceAs (Decidable True)
  | .get _ => inferInstanceAs (Decidable True)
  | .contains _ => inferInstanceAs (Decidable True)
  | .count => inferInstanceAs (Decidable True)

instance decidableDisciplined (operations : List (Operation Data)) (map : Map Data)
    (removed : Bool) : Decidable (Disciplined operations map removed) :=
  match operations with
  | [] => inferInstanceAs (Decidable True)
  | operation :: operations =>
      have := decidableDisciplined operations (map.call operation).2 (removed || operation.removes)
      inferInstanceAs (Decidable (_ ∧ _))

theorem Represents.direct {hash : Hashmap Data} {map : Map Data} {removed : Bool}
    (represents : Represents hash map) (fresh : removed = false → Fresh hash)
    {operation : Operation Data} (allowed : Allowed map removed operation) :
    Direct hash operation := by
  cases operation with
  | insert data key =>
      cases removed with
      | false => exact (fresh rfl).unobstructed represents.wellFormed key
      | true =>
          intro present
          have bound := (binding_isSome represents.wellFormed.placed).mpr present
          rw [← represents.lookup, Finmap.lookup_isSome] at bound
          exact absurd bound (allowed rfl)
  | _ => trivial

theorem call_fresh {hash : Hashmap Data} (wellFormed : WellFormed hash) (fresh : Fresh hash)
    (depth : Nat) (rands : Rands) {operation : Operation Data} (keeps : operation.removes = false) :
    Returns (call depth hash rands operation) fun result => Fresh result.2.1 := by
  cases operation with
  | insert data key =>
      apply (insertFrom_inserts depth true hash data key rands wellFormed
        (fresh.unobstructed wellFormed key)).bind
      intro result reached
      exact .ok (reached.2 fresh)
  | remove key => cases keeps
  | get key =>
      rw [call, Operation.map, perform, hashmapGet_eq wellFormed]
      exact .ok fresh
  | contains key =>
      rw [call, Operation.map, perform, hashmapContains_eq wellFormed]
      exact .ok fresh
  | count => exact .ok fresh

/-- A run that the finite map allows is direct in every table that represents it. -/
theorem Represents.directRun {hash : Hashmap Data} {map : Map Data} {removed : Bool}
    (represents : Represents hash map) (fresh : removed = false → Fresh hash) (depth : Nat)
    (rands : Rands) {operations : List (Operation Data)}
    (disciplined : Disciplined operations map removed) :
    DirectRun depth operations hash rands := by
  induction operations generalizing hash map removed rands with
  | nil => trivial
  | cons operation operations ih =>
      obtain ⟨allowed, rest⟩ := disciplined
      have direct := represents.direct fresh allowed
      refine ⟨direct, fun answer after afterRands called => ?_⟩
      have reached := represents.call depth rands operation direct
      rw [called] at reached
      refine ih reached.holds.2 (fun unchanged => ?_) afterRands rest
      obtain ⟨none, keeps⟩ := Bool.or_eq_false_iff.mp unchanged
      have still := call_fresh represents.wellFormed (fresh none) depth rands keeps
      rw [called] at still
      exact still.holds

/-- A map is a finite map to every caller that, once it has removed something, inserts a key
only when the map does not contain it. -/
theorem calls_absent {startsize : Int} {rands createdRands : Rands} {hash : Hashmap Data}
    (created : hashmapCreate startsize rands = .ok (hash, createdRands)) (depth : Nat)
    (operations : List (Operation Data)) (disciplined : Disciplined operations ∅ false) :
    Returns (calls depth operations hash createdRands) fun result =>
      result.1 = Map.calls operations ∅ := by
  have start : Returns (hashmapCreate startsize rands) fun result : Hashmap Data × Rands =>
      WellFormed result.1 ∧ Fresh result.1 ∧ ∀ key, binding result.1.table key = none :=
    hashmapCreate_empty startsize rands
  rw [created] at start
  obtain ⟨wellFormed, fresh, empty⟩ := start.holds
  have represents : Represents hash ∅ :=
    ⟨wellFormed, fun key => (Finmap.lookup_empty key).trans (empty key).symm⟩
  exact represents.calls depth createdRands operations
    (represents.directRun (fun _ => fresh) depth createdRands disciplined)

/-- Key 0 is removed and inserted again; key 3 shares its probe sequence. -/
theorem calls_absent_again :
    Returns (calls 1 [.insert "a" 0, .insert "b" 3, .remove 0, .insert "c" 0, .get 3]
      ⟨calloc 3, 3, 0⟩ []) fun result =>
        result.1 = Map.calls [.insert "a" 0, .insert "b" 3, .remove 0, .insert "c" 0, .get 3] ∅ := by
  have created : hashmapCreate 3 (List.replicate 9 0) =
      .ok ((⟨calloc 3, 3, 0⟩ : Hashmap String), []) := rfl
  exact calls_absent created 1 _ (by decide)

end NovaC.HashMap
