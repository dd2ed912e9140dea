import NovaC.C.Parsing
import NovaC.C.Types

namespace NovaC.C

/-! Integer constants, and the constant expressions that are made of them with
parentheses, negation and subtraction.

Hexadecimal constants and suffixes other than `LL` are left out.
-/

variable (platform : Platform)

/-- The types that a constant may have, the first one that holds its value being its own. -/
def constantTypes (octal longLong : Bool) : List IntType :=
  if longLong then
    if octal then [.longLong, ⟨.longLong, false⟩] else [.longLong]
  else if octal then
    [.int, ⟨.int, false⟩, .long, ⟨.long, false⟩, .longLong, ⟨.longLong, false⟩]
  else [.int, .long, .longLong]

def isOctalDigit (digit : Char) : Bool :=
  digit.isDigit && digit != '8' && digit != '9'

/-- The digits of a constant, and whether it ends in `LL`. -/
def constantOf (digits : List Char) (longLong : Bool) : Option (IntType × Int) :=
  let octal := digits.head? == some '0'
  if octal && !digits.all isOctalDigit then none
  else
    let value : Int := Nat.ofDigitChars (if octal then 8 else 10) digits 0
    ((constantTypes octal longLong).find? fun type => type.Holds platform value).map (·, value)

def constant (spelling : List Char) : Option (IntType × Int) :=
  let digits := spelling.takeWhile Char.isDigit
  if spelling.dropWhile Char.isDigit = [] then constantOf platform digits false
  else if spelling.dropWhile Char.isDigit = "LL".toList then constantOf platform digits true
  else none

/-- A signed result that is out of range has no meaning. -/
def arithmeticResult (type : IntType) (value : Int) : Option (IntType × Int) :=
  if type.signed then if type.Holds platform value then some (type, value) else none
  else some (type, type.convert platform value)

def Expression.constantValue : Expression → Option (IntType × Int)
  | number spelling => constant platform spelling
  | parens inner => inner.constantValue
  | unary .negate operand => do
      let (type, value) ← operand.constantValue
      arithmeticResult platform type.promote (-value)
  | binary .minus left right => do
      let (leftType, leftValue) ← left.constantValue
      let (rightType, rightValue) ← right.constantValue
      let type := IntType.arithmetic platform leftType rightType
      arithmeticResult platform type
        (type.convert platform leftValue - type.convert platform rightValue)
  | _ => none

/-- The value of a text that is an integer constant expression. -/
def constantExpression (text : List Char) : Option (IntType × Int) := do
  let tokens ← tokenise text
  let expression ← parse (fun _ => false) tokens
  expression.constantValue platform

/-! Octal and decimal digits -/

theorem ofDigitChars_mono {digits : List Char} {low high : Nat} (ordered : low ≤ high) :
    Nat.ofDigitChars 8 digits low ≤ Nat.ofDigitChars 10 digits high ∧
      (low < high → Nat.ofDigitChars 8 digits low < Nat.ofDigitChars 10 digits high) := by
  induction digits generalizing low high with
  | nil => exact ⟨ordered, fun strict => strict⟩
  | cons digit digits ih =>
      have further := @ih (8 * low + (digit.toNat - '0'.toNat)) (10 * high + (digit.toNat - '0'.toNat))
        (by omega)
      exact ⟨further.1, fun strict => further.2 (by omega)⟩

theorem le_ofDigitChars {base : Nat} (positive : 0 < base) (digits : List Char) (start : Nat) :
    start ≤ Nat.ofDigitChars base digits start := by
  induction digits generalizing start with
  | nil => exact Nat.le_refl _
  | cons digit digits ih =>
      have grown : start ≤ base * start := Nat.le_mul_of_pos_left start positive
      have further := ih (base * start + (digit.toNat - '0'.toNat))
      exact (by omega : start ≤ base * start + (digit.toNat - '0'.toNat)).trans further

theorem isOctalDigit_iff {digit : Char} (isDigit : digit.isDigit = true) :
    isOctalDigit digit = true ↔ digit.toNat - '0'.toNat < 8 := by
  have bounds : 48 ≤ digit.toNat ∧ digit.toNat ≤ 57 := by
    simpa [Char.isDigit, UInt32.le_iff_toNat_le] using isDigit
  have zero : '0'.toNat = 48 := rfl
  have differs : ∀ other : Char, digit ≠ other ↔ digit.toNat ≠ other.toNat := fun other =>
    not_congr Char.toNat_inj.symm
  simp only [isOctalDigit, isDigit, Bool.true_and, Bool.and_eq_true, bne_iff_ne, differs]
  have eight : '8'.toNat = 56 := rfl
  have nine : '9'.toNat = 57 := rfl
  omega

/-- The digits spell one number in both notations when it is a single octal digit. -/
theorem octal_iff {digits : List Char} (areDigits : ∀ digit ∈ digits, digit.isDigit = true) :
    digits.all isOctalDigit = true ∧ Nat.ofDigitChars 8 digits 0 = Nat.ofDigitChars 10 digits 0 ↔
      Nat.ofDigitChars 10 digits 0 < 8 := by
  induction digits with
  | nil => simp [Nat.ofDigitChars]
  | cons digit digits ih =>
      obtain ⟨isDigit, others⟩ := List.forall_mem_cons.mp areDigits
      have octal := isOctalDigit_iff isDigit
      rw [List.all_cons, Bool.and_eq_true, octal, Nat.ofDigitChars_cons, Nat.ofDigitChars_cons,
        Nat.zero_add]
      rcases Nat.eq_zero_or_pos (digit.toNat - '0'.toNat) with zero | positive
      · rw [zero, ← ih others]
        simp
      cases digits with
      | nil => simp [Nat.ofDigitChars]
      | cons next digits =>
          rw [Nat.ofDigitChars_cons, Nat.ofDigitChars_cons]
          have strict := (@ofDigitChars_mono digits
            (8 * (digit.toNat - '0'.toNat) + (next.toNat - '0'.toNat))
            (10 * (digit.toNat - '0'.toNat) + (next.toNat - '0'.toNat)) (by omega)).2 (by omega)
          have large := le_ofDigitChars (show 0 < 10 by omega) digits
            (10 * (digit.toNat - '0'.toNat) + (next.toNat - '0'.toNat))
          constructor <;> intro assumed <;> omega

/-! The value of a run of digits -/

variable {platform} {digits : List Char}

theorem constant_append (areDigits : digits.all Char.isDigit = true) (longLong : Bool) :
    constant platform (digits ++ if longLong then "LL".toList else []) =
      constantOf platform digits longLong := by
  have before : (digits ++ if longLong then "LL".toList else []).takeWhile Char.isDigit = digits :=
    takeWhile_stops (List.all_eq_true.mp areDigits) (by cases longLong <;> simp)
  have behind : (digits ++ if longLong then "LL".toList else []).dropWhile Char.isDigit =
      if longLong then "LL".toList else [] := by
    have whole := List.takeWhile_append_dropWhile (p := Char.isDigit)
      (l := digits ++ if longLong then "LL".toList else [])
    rw [before] at whole
    exact List.append_cancel_left whole
  rw [constant, before, behind]
  cases longLong <;> simp

theorem arithmeticResult_signed {type : IntType} {value : Int} (signed : type.signed = true)
    (holds : type.Holds platform value) :
    arithmeticResult platform type value = some (type, value) := by
  rw [arithmeticResult, if_pos signed, if_pos holds]

theorem longLong_holds {value : Int} :
    IntType.longLong.Holds platform value ↔ -2 ^ 63 ≤ value ∧ value < 2 ^ 63 := by
  simp [IntType.Holds, IntType.longLong, IntType.bits, Rank.bits]

/-- Without a leading zero, a constant that the suffix gives room for is signed. -/
theorem constantOf_decimal (noZero : digits.head? ≠ some '0') {longLong : Bool}
    (small : Nat.ofDigitChars 10 digits 0 < if longLong then 2 ^ 63 else 2 ^ 31) :
    constantOf platform digits longLong =
      some (if longLong then .longLong else .int, (Nat.ofDigitChars 10 digits 0 : Int)) := by
  have decimal : (digits.head? == some '0') = false := beq_eq_false_iff_ne.mpr noZero
  rw [constantOf, decimal]
  simp only [Bool.false_and, Bool.false_eq_true, if_false]
  cases longLong with
  | true =>
      rw [if_pos rfl] at small
      have holds : IntType.longLong.Holds platform (Nat.ofDigitChars 10 digits 0 : Int) :=
        longLong_holds.mpr (by omega)
      simp [constantTypes, holds]
  | false =>
      rw [if_neg (by decide)] at small
      have holds : IntType.int.Holds platform (Nat.ofDigitChars 10 digits 0 : Int) :=
        (IntType.int_holds platform).mpr (by omega)
      simp [constantTypes, holds]

theorem constantOf_octal (zero : digits.head? = some '0')
    (areDigits : ∀ digit ∈ digits, digit.isDigit = true)
    (small : Nat.ofDigitChars 10 digits 0 < 8) :
    constantOf platform digits false = some (.int, (Nat.ofDigitChars 10 digits 0 : Int)) := by
  obtain ⟨octal, same⟩ := (octal_iff areDigits).mpr small
  have leads : (digits.head? == some '0') = true := beq_iff_eq.mpr zero
  have holds : IntType.int.Holds platform (Nat.ofDigitChars 10 digits 0 : Int) :=
    (IntType.int_holds platform).mpr (by omega)
  rw [constantOf, leads]
  simp [octal, same, constantTypes, holds]

theorem constantOf_some {longLong : Bool} {type : IntType} {value : Int}
    (zero : digits.head? = some '0')
    (read : constantOf platform digits longLong = some (type, value)) :
    digits.all isOctalDigit = true ∧ value = (Nat.ofDigitChars 8 digits 0 : Nat) ∧
      type.promote = type := by
  have leads : (digits.head? == some '0') = true := beq_iff_eq.mpr zero
  rw [constantOf, leads] at read
  simp only [Bool.true_and, if_true] at read
  split at read
  · cases read
  · rename_i octal
    obtain ⟨found, isFound, same⟩ := Option.map_eq_some_iff.mp read
    obtain ⟨rfl, rfl⟩ := Prod.mk.inj same
    have member := List.mem_of_find?_eq_some isFound
    have promoted : ∀ type ∈ constantTypes true longLong, type.promote = type := by
      cases longLong <;> decide
    exact ⟨by simpa using octal, rfl, promoted found member⟩

end NovaC.C
