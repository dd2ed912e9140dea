import NovaC.C.Int

namespace NovaC.Threads

open NovaC.C

/-! `lib_nova_thread_sleep` of `NativeThread.h` on Linux and macOS, and the functions of
`NativeThread.c` that it calls.

The macro puts the text of its argument before `* 1000000`, so that the operators of the
argument decide what is multiplied. What is out of range wraps around.
-/

/-- The types in which the milliseconds may be counted. -/
inductive Whole where
  | int
  | longLong
deriving DecidableEq

namespace Whole

def convert : Whole → Int → Int
  | int => toInt
  | longLong => toLong

/-- The type in which two operands meet. -/
def common : Whole → Whole → Whole
  | int, int => int
  | _, _ => longLong

def size : Whole → Int
  | int => 4294967296
  | longLong => 18446744073709551616

theorem convert_eq (type : Whole) (value : Int) :
    type.convert value = value.bmod type.size.toNat := by
  cases type <;> rfl

theorem convert_convert (type : Whole) (value : Int) :
    type.convert (type.convert value) = type.convert value := by
  rw [convert_eq, convert_eq, Int.bmod_bmod]

theorem convert_spec (type : Whole) (value : Int) :
    -type.size ≤ 2 * type.convert value ∧ 2 * type.convert value < type.size ∧
      ∃ turns, type.convert value = value - type.size * turns := by
  refine ⟨?_, ?_, (value - type.convert value) / type.size, ?_⟩ <;>
    cases type <;> simp only [convert, toInt, toLong, size] <;> rw [Int.bmod_def] <;> omega

theorem convert_of_range {type : Whole} {value : Int} (lower : -type.size ≤ 2 * value)
    (upper : 2 * value < type.size) : type.convert value = value := by
  cases type <;> simp only [convert, toInt, toLong, size] at * <;> rw [Int.bmod_def] <;> omega

theorem size_le_common (left right : Whole) : right.size ≤ (left.common right).size := by
  cases left <;> cases right <;> decide

end Whole

/-- A value and its type. -/
structure Millis where
  type : Whole
  value : Int
  inRange : type.convert value = value

namespace Millis

def of (type : Whole) (value : Int) : Millis :=
  ⟨type, type.convert value, type.convert_convert value⟩

/-- The product with 1000000, which is an `int`. -/
def nanos (millis : Millis) : Millis :=
  of (millis.type.common .int) (millis.value * 1000000)

/-- An `int` or a `long_long` below 2^43 that is not negative. -/
structure Given (millis : Millis) : Prop where
  nonnegative : 0 ≤ millis.value
  below : millis.type = .longLong → millis.value < 2 ^ 43

/-- The product is in range: always for a `long_long`. -/
def Small (millis : Millis) : Prop :=
  millis.type = .int → -2147 ≤ millis.value ∧ millis.value ≤ 2147

end Millis

inductive Sign where
  | plus
  | minus
deriving DecidableEq

def Sign.join : Sign → Int → Int → Int
  | plus, left, right => left + right
  | minus, left, right => left - right

/-- The text that the macro is given, by the operator that binds loosest in it. -/
inductive Argument where
  /-- nothing looser than `*` -/
  | operand (millis : Millis)
  | additive (sign : Sign) (left right : Millis)
  /-- an operator looser than `+`: what it and its left side make of its right side -/
  | looser (operator : Millis → Millis) (right : Argument)

namespace Argument

def value : Argument → Millis
  | operand millis => millis
  | additive sign left right =>
      .of (left.type.common right.type) (sign.join left.value right.value)
  | looser operator right => operator right.value

/-- `_MILLIS_ * 1000000`: only what is behind the last operator is multiplied. -/
def nanos : Argument → Millis
  | operand millis => millis.nanos
  | additive sign left right =>
      .of (left.type.common right.nanos.type) (sign.join left.value right.nanos.value)
  | looser operator right => operator right.nanos

/-- An operand is small enough; a sum or difference has 0 in front of such an operand; a looser
operator makes of its right side, multiplied, a million times what it makes of it as it is. -/
def Scales : Argument → Prop
  | operand millis => millis.Small
  | additive _ left right => left.value = 0 ∧ right.Small
  | looser operator right =>
      (operator right.nanos).value = (operator right.value).value * 1000000

end Argument

structure Timespec where
  tv_sec : Int
  tv_nsec : Int
deriving DecidableEq

namespace Timespec

/-- What `nanosleep` accepts. -/
def Valid (time : Timespec) : Prop :=
  0 ≤ time.tv_sec ∧ 0 ≤ time.tv_nsec ∧ time.tv_nsec < 1000000000

instance (time : Timespec) : Decidable time.Valid :=
  inferInstanceAs (Decidable (_ ∧ _))

def nanos (time : Timespec) : Int :=
  time.tv_sec * 1000000000 + time.tv_nsec

end Timespec

/-- What a signal makes of a call of `nanosleep`: the nanoseconds that it has slept, and
what it leaves in `rem`. -/
structure Interruption where
  slept : Int
  rem : Timespec
deriving DecidableEq

/-- `rem` is the unslept part of the request. -/
structure Interruption.Of (interruption : Interruption) (req : Timespec) : Prop where
  slept : 0 ≤ interruption.slept
  valid : interruption.rem.Valid
  unslept : interruption.slept + interruption.rem.nanos = req.nanos

/-- Each interruption is one of the request that those before it have left. -/
def Interrupts : Timespec → List Interruption → Prop
  | _, [] => True
  | req, interruption :: interruptions =>
      interruption.Of req ∧ Interrupts interruption.rem interruptions

structure Sleep where
  requests : List Timespec
  /-- `none` when `nanosleep` rejects a request, which leaves `rem` without a value -/
  slept : Option Int
deriving DecidableEq

def threadNanosleep2 (req : Timespec) : List Interruption → Sleep
  | [] => ⟨[req], if req.Valid then some req.nanos else none⟩
  | interruption :: interruptions =>
      if req.Valid then
        let later := threadNanosleep2 interruption.rem interruptions
        ⟨req :: later.requests, later.slept.map (interruption.slept + ·)⟩
      else ⟨[req], none⟩

/-- The `req` of `thread_nanosleep`. -/
def splitNanos (nanos : Int) : Timespec where
  tv_sec := nanos.tdiv 1000000000
  tv_nsec := nanos.tmod 1000000000

def threadNanosleep (nanos : Int) (interruptions : List Interruption) : Sleep :=
  threadNanosleep2 (splitNanos nanos) interruptions

def libNovaThreadSleep (argument : Argument) (interruptions : List Interruption) : Sleep :=
  threadNanosleep argument.nanos.value interruptions

/-- What a sleep of that many milliseconds is. -/
structure Sleep.Lasts (sleep : Sleep) (millis : Int) : Prop where
  first : ∃ request, sleep.requests.head? = some request ∧ request.Valid ∧
    request.nanos = millis * 1000000
  valid : ∀ request ∈ sleep.requests, request.Valid
  slept : sleep.slept = some (millis * 1000000)

theorem splitNanos_nanos (nanos : Int) : (splitNanos nanos).nanos = nanos :=
  Int.tdiv_mul_add_tmod nanos 1000000000

theorem splitNanos_valid {nanos : Int} (nonnegative : 0 ≤ nanos) : (splitNanos nanos).Valid := by
  refine ⟨Int.tdiv_nonneg nonnegative (by decide), Int.tmod_nonneg _ nonnegative, ?_⟩
  exact Int.tmod_lt_of_pos nanos (by decide)

theorem threadNanosleep2_head (req : Timespec) (interruptions : List Interruption) :
    (threadNanosleep2 req interruptions).requests.head? = some req := by
  cases interruptions with
  | nil => rfl
  | cons interruption interruptions =>
      rw [threadNanosleep2]
      split <;> rfl

/-- However often it is interrupted, a valid request is slept to its end. -/
theorem threadNanosleep2_valid {req : Timespec} (valid : req.Valid)
    {interruptions : List Interruption} (interrupts : Interrupts req interruptions) :
    (∀ request ∈ (threadNanosleep2 req interruptions).requests, request.Valid) ∧
      (threadNanosleep2 req interruptions).slept = some req.nanos := by
  induction interruptions generalizing req with
  | nil =>
      rw [threadNanosleep2, if_pos valid]
      exact ⟨fun request member => List.mem_singleton.mp member ▸ valid, rfl⟩
  | cons interruption interruptions ih =>
      obtain ⟨ofRequest, others⟩ := interrupts
      obtain ⟨laterValid, laterSlept⟩ := ih ofRequest.valid others
      rw [threadNanosleep2, if_pos valid]
      refine ⟨fun request member => ?_, ?_⟩
      · rcases List.mem_cons.mp member with rfl | later
        · exact valid
        · exact laterValid request later
      · simp only [laterSlept, Option.map_some, ofRequest.unslept]

theorem threadNanosleep_lasts {millis : Int} (nonnegative : 0 ≤ millis)
    {interruptions : List Interruption}
    (interrupts : Interrupts (splitNanos (millis * 1000000)) interruptions) :
    (threadNanosleep (millis * 1000000) interruptions).Lasts millis := by
  have denotes := splitNanos_nanos (millis * 1000000)
  have valid : (splitNanos (millis * 1000000)).Valid := splitNanos_valid (by omega)
  obtain ⟨allValid, slept⟩ := threadNanosleep2_valid valid interrupts
  rw [denotes] at slept
  exact ⟨⟨_, threadNanosleep2_head _ _, valid, denotes⟩, allValid, slept⟩

theorem eq_zero_of_scaled {size left turns : Int} (coprime : IsCoprime size 999999)
    (bounds : |left| < size) (scaled : left * 999999 = size * turns) : left = 0 :=
  Int.eq_zero_of_abs_lt_dvd (coprime.dvd_of_dvd_mul_right ⟨turns, scaled⟩) bounds

theorem Whole.size_coprime (type : Whole) : IsCoprime type.size 999999 := by
  cases type <;> simp only [size] <;> rw [Int.isCoprime_iff_gcd_eq_one] <;> decide

namespace Millis

theorem bounds (millis : Millis) :
    -millis.type.size ≤ 2 * millis.value ∧ 2 * millis.value < millis.type.size := by
  obtain ⟨lower, upper, -⟩ := millis.type.convert_spec millis.value
  rw [millis.inRange] at lower upper
  exact ⟨lower, upper⟩

variable {millis : Millis}

theorem nanos_type : millis.nanos.type = millis.type := by
  cases type : millis.type <;> simp [nanos, of, type, Whole.common]

theorem nanos_value : millis.nanos.value = millis.type.convert (millis.value * 1000000) := by
  cases type : millis.type <;> simp [nanos, of, type, Whole.common]

theorem nanos_eq_iff (given : millis.Given) :
    millis.nanos.value = millis.value * 1000000 ↔ millis.Small := by
  obtain ⟨nonnegative, below⟩ := given
  obtain ⟨lower, upper, turns, wrapped⟩ := millis.type.convert_spec (millis.value * 1000000)
  rw [nanos_value]
  cases type : millis.type with
  | int =>
      simp only [type, Whole.size] at lower upper wrapped
      refine ⟨fun same _ => ?_, fun small => ?_⟩
      · omega
      · have range := small type
        omega
  | longLong =>
      have upTo := below type
      simp only [type, Whole.size] at lower upper wrapped
      refine ⟨fun _ isInt => ?_, fun _ => ?_⟩
      · cases type.symm.trans isInt
      · omega

end Millis

/-- An `int` product cannot make up for the `long_long` that is not multiplied. -/
theorem eq_zero_of_narrow {left right product wraps : Int}
    (rightLower : -4294967296 ≤ 2 * right) (rightUpper : 2 * right ≤ 4294967296)
    (lower : -4294967296 ≤ 2 * product) (upper : 2 * product ≤ 4294967296)
    (wrapped : product = right * 1000000 - 4294967296 * wraps)
    (same : left + product = (left + right) * 1000000) : left = 0 := by
  have few : -500001 ≤ wraps ∧ wraps ≤ 500001 := by
    clear same
    omega
  have scaled : left * 999999 = 4294967296 * -wraps := by linear_combination wrapped - same
  have coprime : IsCoprime (999999 : Int) 4294967296 := by
    rw [Int.isCoprime_iff_gcd_eq_one]
    decide
  obtain ⟨rest, isRest⟩ : (999999 : Int) ∣ -wraps :=
    coprime.dvd_of_dvd_mul_left ⟨left, by rw [← scaled, mul_comm]⟩
  clear wrapped same rightLower rightUpper lower upper
  omega

/-- A `long_long` sum of so little does not wrap around. -/
theorem turns_eq_zero {left right product turns rounds : Int}
    (leftLower : -18446744073709551616 ≤ 2 * left) (leftUpper : 2 * left < 18446744073709551616)
    (rightLower : -4294967296 ≤ 2 * right) (rightUpper : 2 * right ≤ 4294967296)
    (lower : -4294967296 ≤ 2 * product) (upper : 2 * product ≤ 4294967296)
    (nonnegative : 0 ≤ left + right - 18446744073709551616 * turns)
    (below : left + right - 18446744073709551616 * turns < 8796093022208)
    (same : left + product - 18446744073709551616 * rounds =
      (left + right - 18446744073709551616 * turns) * 1000000) : turns = 0 ∧ rounds = 0 := by
  have noTurns : turns = 0 := by
    clear same
    omega
  subst turns
  exact ⟨rfl, by omega⟩

section

variable {sign : Sign} {left right : Millis}

/-- Multiplying the last operand alone gives the product only when nothing is before it: where
both sides meet in the type of that operand, because 999999 is odd, and else because the
product of an `int` is too small. -/
theorem left_eq_zero (given : (Argument.additive sign left right).value.Given)
    (same : (Argument.additive sign left right).nanos.value =
      (Argument.additive sign left right).value.value * 1000000) : left.value = 0 := by
  obtain ⟨nonnegative, below⟩ := given
  obtain ⟨leftLower, leftUpper⟩ := left.bounds
  obtain ⟨rightLower, rightUpper⟩ := right.bounds
  obtain ⟨-, -, turns, sum⟩ :=
    (left.type.common right.type).convert_spec (sign.join left.value right.value)
  obtain ⟨lower, upper, wraps, product⟩ := right.type.convert_spec (right.value * 1000000)
  obtain ⟨-, -, rounds, nanos⟩ := (left.type.common right.type).convert_spec
    (sign.join left.value (right.type.convert (right.value * 1000000)))
  simp only [Argument.value, Argument.nanos, Millis.of, Millis.nanos_type, Millis.nanos_value]
    at same nonnegative below
  rw [nanos, sum] at same
  by_cases meet : left.type.common right.type = right.type
  · have leftSize : left.type.size ≤ right.type.size := by
      revert meet
      cases left.type <;> cases right.type <;> simp [Whole.common, Whole.size]
    rw [product, meet] at same
    have scaled : ∃ rest, left.value * 999999 = right.type.size * rest := by
      cases sign with
      | plus =>
          refine ⟨turns * 1000000 - wraps - rounds, ?_⟩
          rw [Sign.join, Sign.join] at same
          linear_combination -same
      | minus =>
          refine ⟨turns * 1000000 + wraps - rounds, ?_⟩
          rw [Sign.join, Sign.join] at same
          linear_combination -same
    obtain ⟨rest, scaled⟩ := scaled
    exact eq_zero_of_scaled right.type.size_coprime (abs_lt.mpr ⟨by omega, by omega⟩) scaled
  · obtain ⟨isLong, isInt⟩ : left.type = .longLong ∧ right.type = .int := by
      revert meet
      cases left.type <;> cases right.type <;> simp [Whole.common]
    have upTo := below (by rw [isLong, Whole.common]; exact nofun)
    rw [sum] at upTo nonnegative
    generalize right.type.convert (right.value * 1000000) = scaled at *
    simp only [isLong, isInt, Whole.common, Whole.size]
      at leftLower leftUpper rightLower rightUpper lower upper product same nonnegative upTo
    cases sign with
    | plus =>
        rw [Sign.join, Sign.join] at same
        rw [Sign.join] at nonnegative upTo
        obtain ⟨rfl, rfl⟩ := turns_eq_zero leftLower leftUpper rightLower rightUpper.le lower
          upper.le nonnegative upTo same
        exact eq_zero_of_narrow rightLower rightUpper.le lower upper.le product
          (by linear_combination same)
    | minus =>
        have opposite {value : Int} (bound : 2 * value < 4294967296) :
            -4294967296 ≤ 2 * -value := by omega
        have opposite' {value : Int} (bound : -4294967296 ≤ 2 * value) :
            2 * -value ≤ 4294967296 := by omega
        rw [Sign.join, Sign.join, sub_eq_add_neg left.value, sub_eq_add_neg left.value] at same
        rw [Sign.join, sub_eq_add_neg left.value] at nonnegative upTo
        obtain ⟨rfl, rfl⟩ := turns_eq_zero leftLower leftUpper (opposite rightUpper)
          (opposite' rightLower) (opposite upper) (opposite' lower) nonnegative upTo same
        exact @eq_zero_of_narrow _ _ _ (-wraps) (opposite rightUpper) (opposite' rightLower)
          (opposite upper) (opposite' lower) (by linear_combination -product)
          (by linear_combination same)

/-- With nothing before it, the last operand is the argument, up to its sign. -/
theorem additive_value (given : (Argument.additive sign left right).value.Given)
    (nothing : left.value = 0) :
    (Argument.additive sign left right).value.value = sign.join 0 right.value := by
  have nonnegative := given.nonnegative
  obtain ⟨rightLower, rightUpper⟩ := right.bounds
  have wider := left.type.size_le_common right.type
  simp only [Argument.value, Millis.of, nothing] at nonnegative ⊢
  generalize left.type.common right.type = type at *
  obtain ⟨lower, upper, turns, wrapped⟩ := type.convert_spec (sign.join 0 right.value)
  by_cases inRange : 2 * sign.join 0 right.value < type.size
  · apply Whole.convert_of_range _ inRange
    cases sign <;> rw [Sign.join] <;> omega
  · have most : 2 * sign.join 0 right.value = type.size := by
      cases sign <;> rw [Sign.join] at inRange ⊢ <;> omega
    cases type <;> simp only [Whole.size] at * <;> omega

theorem additive_nanos (small : right.Small) (below : right.type = .longLong →
      -2 ^ 43 < right.value ∧ right.value < 2 ^ 43) (nothing : left.value = 0) :
    (Argument.additive sign left right).nanos.value = sign.join 0 right.value * 1000000 := by
  have range : -right.type.size < 2 * (right.value * 1000000) ∧
      2 * (right.value * 1000000) < right.type.size := by
    cases type : right.type with
    | int =>
        have := small type
        rw [Whole.size]
        omega
    | longLong =>
        have := below type
        rw [Whole.size]
        omega
  have wider := left.type.size_le_common right.type
  simp only [Argument.nanos, Millis.of, Millis.nanos_type, Millis.nanos_value, nothing]
  rw [Whole.convert_of_range range.1.le range.2, Whole.convert_of_range]
  · cases sign <;> rw [Sign.join, Sign.join] <;> ring
  · cases sign <;> rw [Sign.join] <;> omega
  · cases sign <;> rw [Sign.join] <;> omega

theorem additive_small (given : (Argument.additive sign left right).value.Given)
    (nothing : left.value = 0)
    (same : (Argument.additive sign left right).nanos.value =
      (Argument.additive sign left right).value.value * 1000000) : right.Small := by
  intro isInt
  have isValue := additive_value given nothing
  have nonnegative := given.nonnegative
  obtain ⟨lower, upper, -⟩ := right.type.convert_spec (right.value * 1000000)
  simp only [Argument.nanos, Millis.of, Millis.nanos_type, Millis.nanos_value, nothing] at same
  generalize right.type.convert (right.value * 1000000) = scaled at *
  rw [isValue] at same nonnegative
  rw [isInt, Whole.size] at lower upper
  have few : 2 * (left.type.common .int).convert (sign.join 0 scaled) ≤ 4294967296 := by
    cases left.type with
    | int =>
        have := (Whole.int.convert_spec (sign.join 0 scaled)).2.1
        rw [Whole.size] at this
        exact this.le
    | longLong =>
        show 2 * Whole.longLong.convert (sign.join 0 scaled) ≤ 4294967296
        rw [Whole.convert_of_range] <;> cases sign <;> simp only [Sign.join, Whole.size] <;> omega
  rw [isInt] at same
  cases sign <;> simp only [Sign.join] at few nonnegative same <;> omega

theorem additive_nanos_iff (given : (Argument.additive sign left right).value.Given) :
    (Argument.additive sign left right).nanos.value =
        (Argument.additive sign left right).value.value * 1000000 ↔
      left.value = 0 ∧ right.Small := by
  constructor
  · intro same
    have nothing := left_eq_zero given same
    exact ⟨nothing, additive_small given nothing same⟩
  · intro ⟨nothing, small⟩
    have isValue := additive_value given nothing
    rw [isValue]
    apply additive_nanos small _ nothing
    intro isLong
    have isType : (Argument.additive sign left right).value.type = .longLong := by
      rw [Argument.value, Millis.of, isLong]
      cases left.type <;> rfl
    have below := given.below isType
    have nonnegative := given.nonnegative
    rw [isValue] at below nonnegative
    cases sign <;> rw [Sign.join] at below nonnegative <;> omega

end

namespace Argument

theorem nanos_eq_iff {argument : Argument} (given : argument.value.Given) :
    argument.nanos.value = argument.value.value * 1000000 ↔ argument.Scales := by
  cases argument with
  | operand millis => exact Millis.nanos_eq_iff given
  | additive sign left right => exact additive_nanos_iff given
  | looser operator right => exact Iff.rfl

/-- A sleep lasts as long as asked, whatever interrupts it, when the product is the one of the
argument. -/
theorem sleep_lasts_iff (argument : Argument) (given : argument.value.Given) :
    (∀ interruptions, Interrupts (splitNanos argument.nanos.value) interruptions →
      (libNovaThreadSleep argument interruptions).Lasts argument.value.value) ↔
        argument.Scales := by
  rw [← nanos_eq_iff given]
  refine ⟨fun lasts => ?_, fun scaled interruptions interrupts => ?_⟩
  · obtain ⟨request, first, -, denotes⟩ := (lasts [] trivial).first
    have head := threadNanosleep2_head (splitNanos argument.nanos.value) []
    obtain rfl := Option.some.inj (head.symm.trans first)
    rwa [splitNanos_nanos] at denotes
  · rw [scaled] at interrupts
    rw [libNovaThreadSleep, scaled]
    exact threadNanosleep_lasts given.nonnegative interrupts

/-- `2000`, and `1000LL + 500LL` -/
theorem sleep_lasts_iff_two_seconds :
    ((∀ interruptions,
        Interrupts (splitNanos (nanos (.operand (.of .int 2000))).value) interruptions →
          (libNovaThreadSleep (.operand (.of .int 2000)) interruptions).Lasts 2000) ↔
        Scales (.operand (.of .int 2000))) ∧
      ((∀ interruptions, Interrupts (splitNanos
          (nanos (.additive .plus (.of .longLong 1000) (.of .longLong 500))).value) interruptions →
          (libNovaThreadSleep (.additive .plus (.of .longLong 1000) (.of .longLong 500))
            interruptions).Lasts 1500) ↔
        Scales (.additive .plus (.of .longLong 1000) (.of .longLong 500))) :=
  ⟨sleep_lasts_iff (.operand (.of .int 2000)) ⟨by decide, by decide⟩,
    sleep_lasts_iff (.additive .plus (.of .longLong 1000) (.of .longLong 500))
      ⟨by decide, by decide⟩⟩

/-- 2148 as an `int` asks for a time before now. -/
theorem sleep_overflows :
    (value (.operand (.of .int 2148))).Given ∧
      libNovaThreadSleep (.operand (.of .int 2148)) [] = ⟨[⟨-2, -146967296⟩], none⟩ ∧
      ¬ ∀ interruptions,
        Interrupts (splitNanos (nanos (.operand (.of .int 2148))).value) interruptions →
          (libNovaThreadSleep (.operand (.of .int 2148)) interruptions).Lasts
            (value (.operand (.of .int 2148))).value := by
  refine ⟨⟨by decide, by decide⟩, by decide, fun lasts => ?_⟩
  have slept := (lasts [] trivial).slept
  exact absurd slept (by decide)

/-- Half a second, and not one and a half: the first operand is not multiplied. -/
example : (libNovaThreadSleep (.additive .plus (.of .longLong 1000) (.of .longLong 500))
    []).requests = [⟨0, 500001000⟩] := by
  decide

end Argument

end NovaC.Threads
