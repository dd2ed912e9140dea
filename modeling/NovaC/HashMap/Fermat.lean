import NovaC.HashMap.Primes

namespace NovaC.HashMap

open NovaC.C

/-- `(rand() % (val-4)) + 2`, as an `int` -/
def base (val rand : Nat) : Int :=
  toInt (rand % toSize (val - 4) + 2 : Nat)

/-- The products of `while (exp)` are in the range of an `int`. -/
def ProductsFit (val : Nat) : Nat → Nat → Int → Int → Prop
  | 0, _, _, _ => True
  | bits + 1, exp, p, a => exp = 0 ∨
      (exp % 2 = 1 → IsInt (p * a)) ∧ IsInt (a * a) ∧
        ProductsFit val bits (exp / 2) (if exp % 2 = 1 then mulMod p a val else p) (mulMod a a val)

/-- Those of the rounds that are run. -/
def RoundsFit (val : Nat) : Nat → Rands → Prop
  | 0, _ => True
  | _ + 1, [] => True
  | rounds + 1, rand :: rands => ProductsFit val 31 (val - 1) 1 (base val rand) ∧
      (powMod val 31 (val - 1) 1 (base val rand) = 1 → RoundsFit val rounds rands)

/-- `rand` returns an `int` that is not negative. -/
def RandsValid (rands : Rands) : Prop :=
  ∀ rand ∈ rands, rand < 2 ^ 31

/-- The number is accepted whatever `rand` returns, without a product out of range, and the
search for a prime does not go past it. -/
structure NeverRejects (val : Nat) : Prop where
  accepts : ∀ rands, RandsValid rands → rands.length = 9 → isPrime val rands = .ok (true, [])
  fits : ∀ rands, RandsValid rands → rands.length = 9 → RoundsFit val 9 rands
  stops : ∀ (start : Int) (rands : Rands), 0 ≤ start → start < val → RandsValid rands →
    9 * val ≤ rands.length →
    ∃ found rest, findPrimeGreaterThan start rands = .ok (found, rest) ∧ found ≤ val

/-- A power, by squaring. -/
theorem mul_pow_halved {M : Type} [CommMonoid M] (p a : M) (exp : Nat) :
    p * a ^ exp = (if exp % 2 = 1 then p * a else p) * (a * a) ^ (exp / 2) := by
  have halves : a ^ exp = (a * a) ^ (exp / 2) * a ^ (exp % 2) := by
    rw [← pow_two, ← pow_mul, ← pow_add, Nat.div_add_mod]
  rcases Nat.mod_two_eq_zero_or_one exp with even | odd
  · rw [halves, even, pow_zero, mul_one, if_neg (by decide)]
  · rw [halves, odd, pow_one, if_pos rfl, mul_comm ((a * a) ^ (exp / 2)), mul_assoc]

section Powers

variable {val : Nat} (small : val ≤ 46341)
include small

theorem product_isInt {x y : Nat} (left : x < val) (right : y < val) :
    IsInt ((x : Int) * (y : Int)) := by
  have bound : x * y ≤ 46340 * 46340 := Nat.mul_le_mul (by omega) (by omega)
  rw [← Nat.cast_mul]
  exact ⟨by omega, by omega⟩

theorem mulMod_natCast {x y : Nat} (left : x < val) (right : y < val) :
    mulMod x y val = ((x * y % val : Nat) : Int) := by
  have bound : x * y ≤ 46340 * 46340 := Nat.mul_le_mul (by omega) (by omega)
  have below : x * y % val < val := Nat.mod_lt _ (by omega)
  rw [mulMod, toInt_of_isInt (product_isInt small left right), ← Nat.cast_mul, toSize_natCast,
    Nat.mod_eq_of_lt (by omega : x * y < 18446744073709551616)]
  exact toInt_of_isInt ⟨by omega, by omega⟩

theorem halved_lt {x y exp : Nat} (left : x < val) :
    (if exp % 2 = 1 then x * y % val else x) < val := by
  split
  · exact Nat.mod_lt _ (by omega)
  · exact left

theorem mulMod_halved {p a exp : Nat} (left : p < val) (right : a < val) :
    (if exp % 2 = 1 then mulMod p a val else (p : Int)) =
      ((if exp % 2 = 1 then p * a % val else p : Nat) : Int) := by
  rw [mulMod_natCast small left right]
  split <;> rfl

theorem powMod_natCast (bits : Nat) {exp p a : Nat} (short : exp < 2 ^ bits) (left : p < val)
    (right : a < val) : powMod val bits exp p a = ((p * a ^ exp % val : Nat) : Int) := by
  induction bits generalizing exp p a with
  | zero =>
      obtain rfl : exp = 0 := by omega
      rw [powMod, pow_zero, Nat.mul_one, Nat.mod_eq_of_lt left]
  | succ bits ih =>
      rw [powMod]
      by_cases done : exp = 0
      · rw [if_pos done, done, pow_zero, Nat.mul_one, Nat.mod_eq_of_lt left]
      · rw [if_neg done, mulMod_halved small left right, mulMod_natCast small right right,
          ih (by rw [pow_succ] at short; omega) (halved_lt small left) (Nat.mod_lt _ (by omega))]
        congr 1
        have halves : p * a ^ exp ≡
            (if exp % 2 = 1 then p * a % val else p) * (a * a % val) ^ (exp / 2) [MOD val] := by
          rw [mul_pow_halved]
          refine Nat.ModEq.mul ?_ (Nat.ModEq.pow _ (Nat.mod_modEq _ _).symm)
          split
          · exact (Nat.mod_modEq _ _).symm
          · exact Nat.ModEq.refl _
        exact halves.symm

theorem productsFit (bits : Nat) {exp p a : Nat} (left : p < val) (right : a < val) :
    ProductsFit val bits exp p a := by
  induction bits generalizing exp p a with
  | zero => trivial
  | succ bits ih =>
      refine .inr ⟨fun _ => product_isInt small left right, product_isInt small right right, ?_⟩
      rw [mulMod_halved small left right, mulMod_natCast small right right]
      exact ih (halved_lt small left) (Nat.mod_lt _ (by omega))

end Powers

theorem base_eq {val : Nat} (five : 5 ≤ val) (range : val < 2 ^ 31) (rand : Nat) :
    base val rand = ((rand % (val - 4) + 2 : Nat) : Int) := by
  have divisor : toSize (val - 4) = val - 4 := by
    unfold toSize
    omega
  have below := Nat.mod_lt rand (show 0 < val - 4 by omega)
  rw [base, divisor]
  exact toInt_of_isInt ⟨by omega, by omega⟩

section Accepting

variable {val : Nat}

/-- Fermat: every base passes. -/
theorem powMod_prime (prime : val.Prime) (five : 5 ≤ val) (small : val ≤ 46341) (rand : Nat) :
    powMod val 31 (val - 1) 1 (base val rand) = 1 := by
  have below := Nat.mod_lt rand (show 0 < val - 4 by omega)
  have coprime : Nat.Coprime (rand % (val - 4) + 2) val :=
    (Nat.coprime_of_lt_prime (by omega) (by omega) prime).symm
  have fermat : (rand % (val - 4) + 2) ^ (val - 1) % val = 1 := by
    have totient := Nat.ModEq.pow_totient coprime
    rw [Nat.totient_prime prime] at totient
    rw [totient, Nat.mod_eq_of_lt (by omega)]
  have ran := @powMod_natCast val small 31 (val - 1) 1 (rand % (val - 4) + 2)
    (by omega) (by omega) (by omega)
  rw [Nat.one_mul, fermat] at ran
  rw [base_eq five (by omega)]
  exact ran

theorem isPrimeRounds_cons {rounds rand : Nat} {rands : Rands} (divides : toSize (val - 4) ≠ 0) :
    isPrimeRounds val (rounds + 1) (rand :: rands) =
      if powMod val 31 (val - 1) 1 (base val rand) = 1 then isPrimeRounds val rounds rands
      else .ok (false, rands) := by
  rw [isPrimeRounds]
  exact if_neg divides

theorem divisor_ne_zero (odd : val % 2 = 1) : toSize (val - 4) ≠ 0 := by
  unfold toSize
  omega

theorem isPrimeRounds_prime (prime : val.Prime) (five : 5 ≤ val) (small : val ≤ 46341)
    {rounds : Nat} {rands : Rands} (enough : rounds ≤ rands.length) :
    isPrimeRounds val rounds rands = .ok (true, rands.drop rounds) ∧
      RoundsFit val rounds rands := by
  have odd : val % 2 = 1 := Nat.odd_iff.mp (prime.odd_of_ne_two (by omega))
  induction rounds generalizing rands with
  | zero => exact ⟨rfl, trivial⟩
  | succ rounds ih =>
      cases rands with
      | nil => simp at enough
      | cons rand rands =>
          obtain ⟨accepted, fit⟩ := ih (by simpa using enough)
          rw [isPrimeRounds_cons (divisor_ne_zero odd), if_pos (powMod_prime prime five small rand)]
          refine ⟨accepted, ?_, fun _ => fit⟩
          have below := Nat.mod_lt rand (show 0 < val - 4 by omega)
          rw [base_eq five (by omega)]
          exact @productsFit val small 31 (val - 1) 1 _ (by omega) (by omega)

theorem isPrime_prime (prime : val.Prime) (five : 5 ≤ val) (small : val ≤ 46341) {rands : Rands}
    (enough : 9 ≤ rands.length) : isPrime val rands = .ok (true, rands.drop 9) := by
  rw [isPrime, if_neg (by omega), if_neg (by omega), Int.toNat_natCast]
  exact (isPrimeRounds_prime prime five small enough).1

end Accepting

section Searching

variable {val : Nat}

/-- A test takes no more than a value of `rand` for each round. -/
theorem isPrimeRounds_takes (odd : val % 2 = 1) {rounds : Nat} {rands : Rands}
    (enough : rounds ≤ rands.length) :
    ∃ answer rest, isPrimeRounds val rounds rands = .ok (answer, rest) ∧
      rands.length ≤ rest.length + rounds := by
  induction rounds generalizing rands with
  | zero => exact ⟨true, rands, rfl, Nat.le_refl _⟩
  | succ rounds ih =>
      cases rands with
      | nil => simp at enough
      | cons rand rands =>
          rw [isPrimeRounds_cons (divisor_ne_zero odd), List.length_cons]
          split
          · obtain ⟨answer, rest, ran, taken⟩ := ih (by simpa using enough)
            exact ⟨answer, rest, ran, by omega⟩
          · exact ⟨false, rands, rfl, by omega⟩

theorem isPrime_takes {candidate : Int} (odd : candidate % 2 = 1) (positive : 0 < candidate)
    {rands : Rands} (enough : 9 ≤ rands.length) :
    ∃ answer rest, isPrime candidate rands = .ok (answer, rest) ∧
      rands.length ≤ rest.length + 9 := by
  rw [isPrime, if_neg (by omega), if_neg (by omega)]
  exact isPrimeRounds_takes (by omega) enough

/-- The search ends at a candidate that is accepted for sure, or before. -/
theorem findPrimeFrom_stops (odd : val % 2 = 1) (range : val < 2 ^ 31)
    (accepted : ∀ rands : Rands, 9 ≤ rands.length → ∃ rest, isPrime val rands = .ok (true, rest))
    (distance : Nat) {candidate : Int} {rounds : Nat} {rands : Rands} (positive : 0 < candidate)
    (apart : candidate + 2 * distance = val) (more : distance < rounds)
    (enough : 9 * (distance + 1) ≤ rands.length) :
    ∃ found rest, findPrimeFrom rounds candidate rands = .ok (found, rest) ∧ found ≤ val := by
  induction distance generalizing candidate rounds rands with
  | zero =>
      obtain ⟨rounds, rfl⟩ := Nat.exists_eq_succ_of_ne_zero (Nat.ne_of_gt more)
      obtain rfl : candidate = val := by omega
      obtain ⟨rest, accept⟩ := accepted rands (by omega)
      exact ⟨val, rest, by rw [findPrimeFrom, accept], Int.le_refl _⟩
  | succ distance ih =>
      obtain ⟨rounds, rfl⟩ := Nat.exists_eq_succ_of_ne_zero (show rounds ≠ 0 by omega)
      obtain ⟨answer, rest, tested, taken⟩ :=
        isPrime_takes (show candidate % 2 = 1 by omega) positive (show 9 ≤ rands.length by omega)
      rw [findPrimeFrom, tested]
      cases answer with
      | true => exact ⟨candidate, rest, rfl, by omega⟩
      | false =>
          have next : toInt (candidate + 2) = candidate + 2 := toInt_of_isInt ⟨by omega, by omega⟩
          simp only [next]
          exact ih (by omega) (by omega) (by omega) (by omega)

theorem findPrimeGreaterThan_stops (odd : val % 2 = 1) (range : val < 2 ^ 31)
    (accepted : ∀ rands : Rands, 9 ≤ rands.length → ∃ rest, isPrime val rands = .ok (true, rest))
    {start : Int} (nonnegative : 0 ≤ start) (below : start < val) {rands : Rands}
    (enough : 9 * val ≤ rands.length) :
    ∃ found rest, findPrimeGreaterThan start rands = .ok (found, rest) ∧ found ≤ val := by
  have first : ∃ distance : Nat, (if start % 2 = 1 then start + 2 else start + 1) + 2 * distance = val := by
    split
    · exact ⟨((val - start - 2) / 2).toNat, by omega⟩
    · exact ⟨((val - start - 1) / 2).toNat, by omega⟩
  obtain ⟨distance, apart⟩ := first
  have positive : 0 < if start % 2 = 1 then start + 2 else start + 1 := by
    split <;> omega
  rw [findPrimeGreaterThan]
  generalize (if start % 2 = 1 then start + 2 else start + 1) = candidate at apart positive ⊢
  rw [toInt_of_isInt ⟨by omega, by omega⟩]
  exact findPrimeFrom_stops odd range accepted distance positive apart (by omega) (by omega)

end Searching

/-- The last base, `val - 3`, is squared in the first round. -/
theorem roundsFit_square {val : Nat} (five : 5 ≤ val) (range : val < 2 ^ 31)
    (fits : RoundsFit val 9 (List.replicate 9 (val - 5))) : val ≤ 46343 := by
  obtain ⟨products, -⟩ := fits
  rw [base_eq five range, Nat.mod_eq_of_lt (by omega)] at products
  rcases products with done | ⟨-, square, -⟩
  · omega
  · rw [← Nat.cast_mul] at square
    obtain ⟨-, upper⟩ := square
    by_contra large
    have bound : 46341 * 46341 ≤ (val - 5 + 2) * (val - 5 + 2) :=
      Nat.mul_le_mul (by omega) (by omega)
    omega

/-- Primes are accepted without a product out of range as far as 46341, and no further. -/
theorem neverRejects_iff {val : Nat} (prime : val.Prime) (five : 5 ≤ val) (range : val < 2 ^ 31) :
    NeverRejects val ↔ val ≤ 46341 := by
  refine ⟨fun never => ?_, fun small => ?_⟩
  · have valid : RandsValid (List.replicate 9 (val - 5)) := by
      intro rand member
      rw [List.eq_of_mem_replicate member]
      omega
    have bound := roundsFit_square five range (never.fits _ valid List.length_replicate)
    by_contra large
    have composite : val = 46342 ∨ val = 46343 := by omega
    rcases composite with rfl | rfl
    · exact absurd prime (by norm_num)
    · exact absurd prime (by norm_num)
  · have odd : val % 2 = 1 := Nat.odd_iff.mp (prime.odd_of_ne_two (by omega))
    refine ⟨fun rands _ length => ?_, fun rands _ length => ?_, ?_⟩
    · rw [isPrime_prime prime five small (by omega), List.drop_of_length_le (by omega)]
    · exact (isPrimeRounds_prime prime five small (by omega)).2
    · intro start rands nonnegative below _ enough
      exact findPrimeGreaterThan_stops odd range
        (fun rands enough => ⟨_, isPrime_prime prime five small enough⟩) nonnegative below enough

theorem neverRejects_1021 : NeverRejects 1021 ↔ 1021 ≤ 46341 :=
  neverRejects_iff (by norm_num) (by decide) (by decide)

/-- 46349 is rejected when `rand` gives 46340. -/
theorem rejects_46349 :
    Nat.Prime 46349 ∧ RandsValid (List.replicate 9 46340) ∧
      isPrime (46349 : Nat) (List.replicate 9 46340) = .ok (false, List.replicate 8 46340) ∧
      ¬ NeverRejects 46349 := by
  have valid : RandsValid (List.replicate 9 46340) := by
    intro rand member
    rw [List.eq_of_mem_replicate member]
    decide
  have rejected : isPrime (46349 : Nat) (List.replicate 9 46340) =
      .ok (false, List.replicate 8 46340) := by
    decide +kernel
  refine ⟨by norm_num, valid, rejected, fun never => ?_⟩
  have accepted := never.accepts _ valid List.length_replicate
  rw [rejected] at accepted
  cases accepted

end NovaC.HashMap
