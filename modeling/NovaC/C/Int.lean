import Mathlib

namespace NovaC.C

/-! The integer types of a C with 32-bit `int` and 64-bit `size_t`.

A signed operation whose result is not in the range of its type has no meaning
and gives `none`; a conversion wraps around.
-/

def IsInt (value : Int) : Prop := -2147483648 ≤ value ∧ value < 2147483648

instance (value : Int) : Decidable (IsInt value) :=
  inferInstanceAs (Decidable (_ ∧ _))

/-- Conversion to `int`. -/
def toInt (value : Int) : Int := value.bmod 4294967296

/-- Conversion to `long`. -/
def toLong (value : Int) : Int := value.bmod 18446744073709551616

/-- Conversion to `size_t` or `unsigned long`. -/
def toSize (value : Int) : Nat := (value % 18446744073709551616).toNat

def mulInt (left right : Int) : Option Int :=
  if IsInt (left * right) then some (left * right) else none

def addInt (left right : Int) : Option Int :=
  if IsInt (left + right) then some (left + right) else none

def subInt (left right : Int) : Option Int :=
  if IsInt (left - right) then some (left - right) else none

theorem addInt_natCast {left right : Nat} (fits : left + right < 2147483648) :
    addInt left right = some ((left + right : Nat) : Int) := by
  rw [addInt, if_pos ⟨by omega, by omega⟩]
  rfl

theorem addInt_some {left right sum : Int} (added : addInt left right = some sum) :
    sum = left + right ∧ IsInt sum := by
  rw [addInt] at added
  split at added
  · rename_i range
    cases added
    exact ⟨rfl, range⟩
  · cases added

theorem subInt_some {left right difference : Int}
    (subtracted : subInt left right = some difference) :
    difference = left - right ∧ IsInt difference := by
  rw [subInt] at subtracted
  split at subtracted
  · rename_i range
    cases subtracted
    exact ⟨rfl, range⟩
  · cases subtracted

theorem mulInt_some {left right product : Int} (multiplied : mulInt left right = some product) :
    product = left * right ∧ IsInt product := by
  rw [mulInt] at multiplied
  split at multiplied
  · rename_i range
    cases multiplied
    exact ⟨rfl, range⟩
  · cases multiplied

theorem toInt_of_isInt {value : Int} (range : IsInt value) : toInt value = value := by
  obtain ⟨lower, upper⟩ := range
  unfold toInt
  rw [Int.bmod_def]
  omega

theorem toInt_spec (value : Int) :
    IsInt (toInt value) ∧ ∃ turns, toInt value = value - 4294967296 * turns := by
  have range : IsInt (toInt value) := by
    unfold toInt
    constructor <;> rw [Int.bmod_def] <;> omega
  refine ⟨range, (value - toInt value) / 4294967296, ?_⟩
  unfold toInt
  rw [Int.bmod_def]
  omega

theorem toSize_natCast (value : Nat) : toSize value = value % 18446744073709551616 := by
  unfold toSize
  omega

end NovaC.C
