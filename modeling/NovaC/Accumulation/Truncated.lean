import Mathlib

namespace NovaC.Accumulation

/-! Amounts that come in little by little and are handed out in whole units.

For every `unit` that was held, `rate` pieces are due. Each time the pieces for what is
held are handed out, and what they cost is taken from it, rounded down: less is taken
than was handed out where `rate` does not divide the cost.
-/

section Definitions

variable (unit rate : Nat)

/-- The pieces for an amount. -/
def due (amount : Nat) : Nat :=
  amount * rate / unit

def cost (pieces : Nat) : Nat :=
  pieces * unit / rate

def handOut : Nat → List Nat → List Nat
  | _, [] => []
  | held, amount :: amounts =>
      let pieces := due unit rate (held + amount)
      pieces :: handOut (held + amount - cost unit rate pieces) amounts

/-- What comes in behind `sum` never meets an excess that makes up a piece; each piece
handed out in time adds what rounding down its cost leaves. -/
def Lossless : Nat → Nat → List Nat → Prop
  | _, _, [] => True
  | sum, excess, amount :: amounts =>
      (sum + amount) * rate % unit + excess < unit ∧
        Lossless (sum + amount)
          (excess + (due unit rate (sum + amount) - due unit rate sum) * unit % rate) amounts

instance decidableLossless : (sum excess : Nat) → (amounts : List Nat) →
    Decidable (Lossless unit rate sum excess amounts)
  | _, _, [] => inferInstanceAs (Decidable True)
  | _, _, _ :: amounts => @instDecidableAnd _ _ inferInstance (decidableLossless _ _ amounts)

end Definitions

variable {unit rate : Nat}

theorem due_mono {smaller larger : Nat} (le : smaller ≤ larger) :
    due unit rate smaller ≤ due unit rate larger :=
  Nat.div_le_div_right (Nat.mul_le_mul_right rate le)

theorem cost_due_le (amount : Nat) : cost unit rate (due unit rate amount) ≤ amount := by
  apply Nat.div_le_of_le_mul
  rw [Nat.mul_comm rate]
  exact Nat.div_mul_le_self _ unit

section Step

variable {sum excess held amount : Nat}

theorem held_add (holds : held * rate = sum * rate % unit + excess) :
    (held + amount) * rate = unit * (due unit rate (sum + amount) - due unit rate sum) +
      ((sum + amount) * rate % unit + excess) := by
  have whole := Nat.div_add_mod (sum * rate) unit
  have wholeAfter := Nat.div_add_mod ((sum + amount) * rate) unit
  have mono := Nat.mul_le_mul_left unit (@due_mono unit rate _ _ (Nat.le_add_right sum amount))
  have added := Nat.add_mul sum amount rate
  rw [Nat.mul_sub, Nat.add_mul]
  unfold due at mono ⊢
  omega

/-- The pieces handed out are those that have become due, unless the excess makes up
another one. -/
theorem due_held (unitPositive : 0 < unit)
    (holds : held * rate = sum * rate % unit + excess) :
    due unit rate (held + amount) = due unit rate (sum + amount) - due unit rate sum ↔
      (sum + amount) * rate % unit + excess < unit := by
  rw [due, held_add holds, Nat.mul_add_div unitPositive]
  constructor
  · intro same
    exact (Nat.div_eq_zero_iff.mp (by omega)).resolve_left (by omega)
  · intro small
    rw [Nat.div_eq_of_lt small, Nat.add_zero]

theorem held_after
    (holds : held * rate = sum * rate % unit + excess) :
    (held + amount - cost unit rate (due unit rate (sum + amount) - due unit rate sum)) * rate =
      (sum + amount) * rate % unit +
        (excess + (due unit rate (sum + amount) - due unit rate sum) * unit % rate) := by
  have total := @held_add unit rate sum excess held amount holds
  generalize due unit rate (sum + amount) - due unit rate sum = pieces at total ⊢
  have division := Nat.div_add_mod (pieces * unit) rate
  rw [Nat.mul_comm rate] at division
  rw [Nat.sub_mul, cost, total, Nat.mul_comm unit]
  omega

end Step

/-- The pieces handed out so far are always those that are due exactly when nothing is
lost on the way. -/
theorem handOut_due_iff (unitPositive : 0 < unit) {sum excess held : Nat}
    (amounts : List Nat) (holds : held * rate = sum * rate % unit + excess) :
    (∀ count ≤ amounts.length, ((handOut unit rate held amounts).take count).sum =
        due unit rate (sum + (amounts.take count).sum) - due unit rate sum) ↔
      Lossless unit rate sum excess amounts := by
  induction amounts generalizing sum excess held with
  | nil => simp [handOut, Lossless]
  | cons amount amounts ih =>
      have step := @due_held unit rate sum excess held amount unitPositive holds
      have mono := @due_mono unit rate _ _ (Nat.le_add_right sum amount)
      rw [Lossless, ← step]
      constructor
      · intro always
        have first : due unit rate (held + amount) =
            due unit rate (sum + amount) - due unit rate sum := by
          have here := always 1 (by simp)
          simpa [handOut] using here
        refine ⟨first, ?_⟩
        rw [← ih (held_after holds)]
        intro count within
        have here := always (count + 1) (Nat.succ_le_succ within)
        rw [handOut, List.take_succ_cons, List.take_succ_cons, List.sum_cons, List.sum_cons,
          first, ← Nat.add_assoc] at here
        omega
      · intro both
        obtain ⟨first, rest⟩ := both
        rw [← ih (held_after holds)] at rest
        intro count within
        cases count with
        | zero => simp
        | succ count =>
            have here := rest count (Nat.le_of_succ_le_succ within)
            have later := @due_mono unit rate _ _
              (Nat.le_add_right (sum + amount) (amounts.take count).sum)
            rw [handOut, List.take_succ_cons, List.take_succ_cons, List.sum_cons, List.sum_cons,
              first, here, ← Nat.add_assoc]
            omega

/-- Nothing is lost where each piece costs a whole amount, or each amount makes up whole
pieces. -/
theorem lossless_of_dvd (unitPositive : 0 < unit) (divides : rate ∣ unit ∨ unit ∣ rate)
    (sum : Nat) (amounts : List Nat) : Lossless unit rate sum 0 amounts := by
  induction amounts generalizing sum with
  | nil => trivial
  | cons amount amounts ih =>
      have whole : (due unit rate (sum + amount) - due unit rate sum) * unit % rate = 0 := by
        rcases divides with costs | ⟨pieces, rfl⟩
        · exact Nat.mod_eq_zero_of_dvd (Dvd.dvd.mul_left costs _)
        · have each : ∀ amount, due unit (unit * pieces) amount = amount * pieces := by
            intro amount
            rw [due, Nat.mul_left_comm, Nat.mul_div_cancel_left _ unitPositive]
          rw [each, each, ← Nat.sub_mul, Nat.add_sub_cancel_left, Nat.mul_assoc,
            Nat.mul_comm pieces, Nat.mul_mod_left]
      refine ⟨Nat.mod_lt _ unitPositive, ?_⟩
      rw [whole]
      exact ih _

end NovaC.Accumulation
