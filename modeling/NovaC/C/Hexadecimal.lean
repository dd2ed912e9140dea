import NovaC.C.Decimal

namespace NovaC.C

/-- `%x` -/
def hexadecimal (number : Nat) : List UInt8 :=
  (Nat.toDigits 16 number).map digitByte

def hexDigitValue (byte : UInt8) : Nat :=
  if byte.toNat < 58 then byte.toNat - 48 else byte.toNat - 87

def ofHexadecimal (digits : List UInt8) : Nat :=
  digits.foldl (fun value byte => 16 * value + hexDigitValue byte) 0

theorem hexadecimal_of_lt {number : Nat} (digit : number < 16) :
    hexadecimal number = [digitByte number.digitChar] := by
  rw [hexadecimal, Nat.toDigits_of_lt_base digit, List.map_singleton]

theorem hexadecimal_of_le {number : Nat} (more : 16 ≤ number) :
    hexadecimal number = hexadecimal (number / 16) ++ [digitByte (number % 16).digitChar] := by
  rw [hexadecimal, Nat.toDigits_of_base_le (by omega) more, List.map_append, List.map_singleton,
    hexadecimal]

theorem hexadecimal_length_le {number width : Nat} (positive : 0 < width) :
    (hexadecimal number).length ≤ width ↔ number < 16 ^ width := by
  rw [hexadecimal, List.length_map, Nat.length_toDigits_le_iff (by omega) positive]

theorem digitByte_hex : ∀ digit < 16, hexDigitValue (digitByte digit.digitChar) = digit ∧
    digitByte digit.digitChar ≠ 0 := by
  decide

theorem ofHexadecimal_hexadecimal (number : Nat) : ofHexadecimal (hexadecimal number) = number := by
  induction number using Nat.strongRecOn with
  | ind number ih =>
      by_cases digit : number < 16
      · rw [hexadecimal_of_lt digit, ofHexadecimal, List.foldl_cons, List.foldl_nil,
          (digitByte_hex number digit).1]
        omega
      · have remainder := (digitByte_hex (number % 16) (Nat.mod_lt _ (by omega))).1
        have quotient := ih (number / 16) (by omega)
        rw [ofHexadecimal] at quotient
        rw [hexadecimal_of_le (by omega), ofHexadecimal, List.foldl_append, quotient,
          List.foldl_cons, List.foldl_nil, remainder]
        omega

theorem hexadecimal_injective {left right : Nat} (same : hexadecimal left = hexadecimal right) :
    left = right := by
  rw [← ofHexadecimal_hexadecimal left, same, ofHexadecimal_hexadecimal]

theorem hexadecimal_nulFree (number : Nat) : 0 ∉ hexadecimal number := by
  induction number using Nat.strongRecOn with
  | ind number ih =>
      by_cases digit : number < 16
      · rw [hexadecimal_of_lt digit, List.mem_singleton]
        exact Ne.symm (digitByte_hex number digit).2
      · rw [hexadecimal_of_le (by omega), List.mem_append, List.mem_singleton, not_or]
        exact ⟨ih _ (by omega), Ne.symm (digitByte_hex _ (Nat.mod_lt _ (by omega))).2⟩

end NovaC.C
