import NovaC.HashMap.HashMap

namespace NovaC.HashMap

open NovaC.C

/-- The call has a meaning, and what it returns satisfies `post`. -/
inductive Returns {Value : Type} : Except Stop Value → (Value → Prop) → Prop where
  | ok {value : Value} {post : Value → Prop} (holds : post value) : Returns (.ok value) post
  | noReturn {post : Value → Prop} : Returns (.error .noReturn) post

section Returns

variable {Value Next : Type} {result : Except Stop Value} {next : Value → Except Stop Next}
  {post : Value → Prop} {nextPost : Next → Prop}

theorem Returns.bind (first : Returns result post)
    (rest : ∀ value, post value → Returns (next value) nextPost) :
    Returns (result >>= next) nextPost := by
  cases first with
  | ok holds => exact rest _ holds
  | noReturn => exact .noReturn

theorem Returns.mono {weaker : Value → Prop} (first : Returns result post)
    (implies : ∀ value, post value → weaker value) : Returns result weaker := by
  cases first with
  | ok holds => exact .ok (implies _ holds)
  | noReturn => exact .noReturn

theorem Returns.holds {value : Value} (returns : Returns (.ok value) post) : post value := by
  cases returns with
  | ok holds => exact holds

@[simp] theorem ok_bind (value : Value) (next : Value → Except Stop Next) :
    (Except.ok value >>= next) = next value := rfl

end Returns

theorem toInt_odd {value : Int} (odd : value % 2 = 1) : toInt value % 2 = 1 := by
  unfold toInt
  rw [Int.bmod_def]
  omega

theorem toInt_range (value : Int) : IsInt (toInt value) := by
  unfold toInt IsInt
  rw [Int.bmod_def]
  omega

theorem isPrimeRounds_returns {val : Nat} (odd : val % 2 = 1)
    (rounds : Nat) (rands : Rands) : Returns (isPrimeRounds val rounds rands) fun _ => True := by
  induction rounds generalizing rands with
  | zero => exact .ok trivial
  | succ rounds ih =>
      cases rands with
      | nil => exact .noReturn
      | cons rand rands =>
          have divides : toSize (val - 4) ≠ 0 := by
            unfold toSize
            omega
          simp only [isPrimeRounds, if_neg divides]
          split
          · exact ih rands
          · exact .ok trivial

theorem isPrime_returns {val : Int} (odd : val % 2 = 1) (rands : Rands) :
    Returns (isPrime val rands) fun _ => 0 < val := by
  rw [isPrime]
  split
  · exact .noReturn
  · rw [if_neg (by omega)]
    apply (isPrimeRounds_returns (by omega) 9 rands).mono
    intro _ _
    omega

theorem findPrimeFrom_returns {val : Int} (odd : val % 2 = 1) (range : IsInt val) (rounds : Nat)
    (rands : Rands) : Returns (findPrimeFrom rounds val rands) fun found =>
      found.1 % 2 = 1 ∧ 0 < found.1 ∧ found.1 < 2147483648 := by
  induction rounds generalizing val rands with
  | zero => exact .noReturn
  | succ rounds ih =>
      have prime := isPrime_returns odd rands
      rw [findPrimeFrom]
      cases tested : isPrime val rands with
      | error stop =>
          rw [tested] at prime
          cases prime
          exact .noReturn
      | ok answer =>
          obtain ⟨isPrime, rands⟩ := answer
          rw [tested] at prime
          cases prime with
          | ok positive =>
              cases isPrime with
              | true => exact .ok ⟨odd, positive, range.2⟩
              | false => exact ih (toInt_odd (by omega)) (toInt_range _) rands

theorem findPrimeGreaterThan_returns (val : Int) (rands : Rands) :
    Returns (findPrimeGreaterThan val rands) fun found =>
      found.1 % 2 = 1 ∧ 0 < found.1 ∧ found.1 < 2147483648 := by
  apply findPrimeFrom_returns _ (toInt_range _)
  apply toInt_odd
  split
  · omega
  · omega

end NovaC.HashMap
