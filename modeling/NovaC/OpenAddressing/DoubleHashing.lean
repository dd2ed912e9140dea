import Mathlib
import NovaC.OpenAddressing.Table

namespace NovaC.OpenAddressing

section Stride

variable {size stride start : Nat}

theorem stride_iterate (inside : start < size) (round : Nat) :
    (fun index => (index + stride) % size)^[round] start = (start + round * stride) % size := by
  induction round with
  | zero => rw [Function.iterate_zero_apply, Nat.zero_mul, Nat.add_zero, Nat.mod_eq_of_lt inside]
  | succ round ih =>
      rw [Function.iterate_succ_apply', ih, Nat.mod_add_mod, Nat.succ_mul, Nat.add_assoc]

/-- A stride without a common divisor with the size visits a slot once. -/
theorem stride_injective (coprime : size.Coprime stride) {round other : Nat} (inside : round < size)
    (otherInside : other < size)
    (same : (start + round * stride) % size = (start + other * stride) % size) :
    round = other := by
  have multiples : round * stride ≡ other * stride [MOD size] :=
    Nat.ModEq.add_left_cancel' start same
  have rounds : round ≡ other [MOD size] := Nat.ModEq.cancel_right_of_coprime coprime multiples
  exact Nat.ModEq.eq_of_lt_of_lt rounds inside otherInside

end Stride

variable {Key Data : Type} {table : List (Slot Key Data)} {path : Nat → Nat}

/-- Different slots in as many rounds as there are slots are all of them. -/
theorem visits_all (inside : ∀ round < table.length, path round < table.length)
    (different : ∀ round < table.length, ∀ other < table.length, path round = path other →
      round = other) {index : Nat} (here : index < table.length) :
    ∃ round < table.length, path round = index := by
  have maps : ∀ round ∈ Finset.range table.length, path round ∈ Finset.range table.length := by
    intro round member
    exact Finset.mem_range.mpr (inside round (Finset.mem_range.mp member))
  have onto := Finset.surjOn_of_injOn_of_card_le path maps
    (fun round member other otherMember same =>
      different round (by simpa using member) other (by simpa using otherMember) same) le_rfl
  obtain ⟨round, member, same⟩ := onto (by simpa using here)
  exact ⟨round, by simpa using member, same⟩

/-- A table with a slot that is not active has one on the path. -/
theorem exists_inactive (inside : ∀ round < table.length, path round < table.length)
    (different : ∀ round < table.length, ∀ other < table.length, path round = path other →
      round = other) (free : countActive table < table.length) :
    ∃ round < table.length, ∃ slot, table[path round]? = some slot ∧ slot.active = false := by
  by_contra none
  have allActive : ∀ slot ∈ table, slot.active = true := by
    intro slot member
    obtain ⟨index, here⟩ := List.getElem?_of_mem member
    obtain ⟨round, before, rfl⟩ :=
      visits_all inside different (List.getElem?_eq_some_iff.mp here).1
    by_contra inactive
    exact none ⟨round, before, slot, here, by simpa using inactive⟩
  have all : countActive table = table.length := List.countP_eq_length.mpr allActive
  omega

end NovaC.OpenAddressing
