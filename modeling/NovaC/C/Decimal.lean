import NovaC.C.Buffer

namespace NovaC.C

def digitByte (digit : Char) : UInt8 :=
  UInt8.ofNat digit.toNat

/-- `%d` of a number that is not negative -/
def decimal (number : Nat) : List UInt8 :=
  (Nat.toDigits 10 number).map digitByte

/-- `%d` -/
def printInt (number : Int) : List UInt8 :=
  if number < 0 then 45 :: decimal (-number).toNat else decimal number.toNat

def isDigit (byte : UInt8) : Bool :=
  48 ≤ byte.toNat ∧ byte.toNat ≤ 57

def isSpace (byte : UInt8) : Bool :=
  byte.toNat = 32 ∨ 9 ≤ byte.toNat ∧ byte.toNat ≤ 13

def atoiDigits : Buffer → Nat → Option Nat
  | some byte :: rest, value =>
      if isDigit byte then atoiDigits rest (10 * value + (byte.toNat - 48)) else some value
  | _, _ => none

def atoiSign : Buffer → Option Int
  | some byte :: rest =>
      if byte = 45 then (atoiDigits rest 0).map fun value => -(value : Int)
      else if byte = 43 then (atoiDigits rest 0).map Nat.cast
      else (atoiDigits (some byte :: rest) 0).map Nat.cast
  | _ => none

def skipSpaces : Buffer → Buffer
  | some byte :: rest => if isSpace byte then skipSpaces rest else some byte :: rest
  | buffer => buffer

/-- A number that is not an `int` has no meaning. -/
def atoi (buffer : Buffer) : Option Int := do
  let number ← atoiSign (skipSpaces buffer)
  if IsInt number then some number else none

theorem digitByte_toNat {digit : Char} (isDigit : digit.isDigit) :
    (digitByte digit).toNat = digit.toNat ∧ 48 ≤ digit.toNat ∧ digit.toNat ≤ 57 := by
  have bounds : 48 ≤ digit.toNat ∧ digit.toNat ≤ 57 := by
    simpa [Char.isDigit, UInt32.le_iff_toNat_le] using isDigit
  refine ⟨?_, bounds⟩
  rw [digitByte, UInt8.toNat_ofNat']
  omega

theorem decimal_digits {number : Nat} {byte : UInt8} (member : byte ∈ decimal number) :
    48 ≤ byte.toNat ∧ byte.toNat ≤ 57 := by
  obtain ⟨digit, inDigits, rfl⟩ := List.mem_map.mp member
  obtain ⟨same, bounds⟩ :=
    digitByte_toNat (Nat.isDigit_of_mem_toDigits (by omega) (by omega) inDigits)
  rwa [same]

theorem decimal_ne_nil (number : Nat) : decimal number ≠ [] := by
  rw [decimal, Ne, List.map_eq_nil_iff]
  exact Nat.toDigits_ne_nil

theorem decimal_length (number : Nat) :
    (decimal number).length = if number < 10 then 1 else (decimal (number / 10)).length + 1 := by
  rw [decimal, List.length_map, Nat.toDigits_eq_if (by omega)]
  split
  · rfl
  · rw [List.length_append, List.length_singleton, decimal, List.length_map]

theorem decimal_length_le {number width : Nat} (positive : 0 < width) :
    (decimal number).length ≤ width ↔ number < 10 ^ width := by
  rw [decimal, List.length_map]
  exact Nat.length_toDigits_le_iff (by omega) positive

theorem atoiDigits_digits (digits : List Char) (areDigits : ∀ digit ∈ digits, digit.isDigit)
    {last : UInt8} (notDigit : isDigit last = false) (rest : Buffer) (value : Nat) :
    atoiDigits ((digits.map digitByte).map some ++ some last :: rest) value =
      some (Nat.ofDigitChars 10 digits value) := by
  induction digits generalizing value with
  | nil => simp [atoiDigits, notDigit, Nat.ofDigitChars]
  | cons digit digits ih =>
      obtain ⟨sameByte, bounds⟩ := digitByte_toNat (areDigits digit List.mem_cons_self)
      have digitFirst : isDigit (digitByte digit) = true := by
        simpa [isDigit, sameByte] using bounds
      rw [List.map_cons, List.map_cons, List.cons_append, atoiDigits, if_pos digitFirst,
        ih fun digit member => areDigits digit (List.mem_cons_of_mem _ member)]
      rw [sameByte]
      rfl

theorem atoi_decimal {number : Nat} (range : IsInt number) (rest : Buffer) :
    atoi ((decimal number).map some ++ some 32 :: rest) = some (number : Int) := by
  have digits : atoiDigits ((decimal number).map some ++ some 32 :: rest) 0 = some number := by
    rw [decimal, atoiDigits_digits _ (fun digit member =>
      Nat.isDigit_of_mem_toDigits (by omega) (by omega) member) (by decide),
      Nat.ofDigitChars_toDigits (by omega) (by omega)]
  obtain ⟨first, others, split⟩ := List.exists_cons_of_ne_nil (decimal_ne_nil number)
  obtain ⟨lower, upper⟩ := decimal_digits (split ▸ List.mem_cons_self : first ∈ decimal number)
  have notSpace : isSpace first = false := by
    simp only [isSpace, decide_eq_false_iff_not]
    omega
  have notMinus : first ≠ 45 := by
    intro same
    rw [same] at lower
    exact absurd lower (by decide)
  have notPlus : first ≠ 43 := by
    intro same
    rw [same] at lower
    exact absurd lower (by decide)
  rw [split, List.map_cons, List.cons_append] at digits ⊢
  have signed : atoiSign (some first :: (others.map some ++ some 32 :: rest)) =
      some (number : Int) := by
    rw [atoiSign, if_neg notMinus, if_neg notPlus, digits, Option.map_some]
  rw [atoi, skipSpaces, notSpace, if_neg (by decide), signed, Option.bind_eq_bind, Option.bind_some,
    if_pos range]

end NovaC.C
