import Mathlib

namespace NovaC.C

/-! The integer types of a C with 8-bit bytes, 16-bit `short`, 32-bit `int` and 64-bit
`long long`.

A conversion to a signed type wraps around as well, as the compilers document it.
-/

structure Platform where
  charSigned : Bool
  longBits : Nat
  longBits_eq : longBits = 32 ∨ longBits = 64

inductive Rank where
  | char
  | short
  | int
  | long
  | longLong
deriving DecidableEq

structure IntType where
  rank : Rank
  signed : Bool
deriving DecidableEq

namespace Rank

def number : Rank → Nat
  | char => 0
  | short => 1
  | int => 2
  | long => 3
  | longLong => 4

def bits (platform : Platform) : Rank → Nat
  | char => 8
  | short => 16
  | int => 32
  | long => platform.longBits
  | longLong => 64

theorem bits_mono (platform : Platform) {first second : Rank}
    (ordered : first.number ≤ second.number) : first.bits platform ≤ second.bits platform := by
  have long := platform.longBits_eq
  cases first <;> cases second <;> simp only [number, bits] at ordered ⊢ <;> omega

end Rank

namespace IntType

def short : IntType := ⟨.short, true⟩

def int : IntType := ⟨.int, true⟩

def long : IntType := ⟨.long, true⟩

def longLong : IntType := ⟨.longLong, true⟩

def char (platform : Platform) : IntType := ⟨.char, platform.charSigned⟩

variable (platform : Platform) {type other : IntType} {value : Int}

def bits (type : IntType) : Nat :=
  type.rank.bits platform

def Holds (type : IntType) (value : Int) : Prop :=
  if type.signed then -2 ^ (type.bits platform - 1) ≤ value ∧ value < 2 ^ (type.bits platform - 1)
  else 0 ≤ value ∧ value < 2 ^ type.bits platform

instance : Decidable (type.Holds platform value) :=
  inferInstanceAs (Decidable (ite _ _ _))

def convert (type : IntType) (value : Int) : Int :=
  if type.signed then value.bmod (2 ^ type.bits platform) else value % 2 ^ type.bits platform

/-- The integer promotions. -/
def promote (type : IntType) : IntType :=
  if type.rank.number < Rank.int.number then int else type

/-- The common type of a signed and an unsigned one. -/
def mixed (signed unsigned : IntType) : IntType :=
  if signed.rank.number ≤ unsigned.rank.number then unsigned
  else if unsigned.bits platform < signed.bits platform then signed
  else ⟨signed.rank, false⟩

/-- The usual arithmetic conversions of promoted types. -/
def arithmeticPromoted (first second : IntType) : IntType :=
  if first.signed = second.signed then
    if first.rank.number ≤ second.rank.number then second else first
  else if first.signed then mixed platform first second
  else mixed platform second first

/-- The usual arithmetic conversions. -/
def arithmetic (first second : IntType) : IntType :=
  arithmeticPromoted platform first.promote second.promote

theorem bits_pos (type : IntType) : 0 < type.bits platform := by
  have long := platform.longBits_eq
  cases rank : type.rank <;> simp only [bits, rank, Rank.bits] <;> omega

theorem convert_of_holds (holds : type.Holds platform value) : type.convert platform value = value := by
  have positive := type.bits_pos platform
  rw [Holds] at holds
  rw [convert]
  split at holds
  · rename_i signed
    rw [if_pos signed]
    obtain ⟨bits, sized⟩ : ∃ bits, type.bits platform = bits + 1 := ⟨type.bits platform - 1, by omega⟩
    rw [sized, Nat.add_sub_cancel] at holds
    rw [sized]
    apply Int.bmod_eq_of_le_mul_two
    · push_cast [pow_succ]; omega
    · push_cast [pow_succ]; omega
  · rename_i unsigned
    rw [if_neg unsigned]
    exact Int.emod_eq_of_lt holds.1 holds.2

theorem convert_holds (type : IntType) (value : Int) :
    type.Holds platform (type.convert platform value) := by
  rw [Holds, convert]
  split
  · obtain ⟨bits, sized⟩ : ∃ bits, type.bits platform = bits + 1 :=
      ⟨type.bits platform - 1, by have positive := type.bits_pos platform; omega⟩
    have positive : 0 < 2 ^ (bits + 1) := Nat.two_pow_pos (bits + 1)
    have lower := @Int.le_bmod value _ positive
    have upper := @Int.bmod_lt value _ positive
    have double : (2 : Int) ^ (bits + 1) = 2 ^ bits * 2 := pow_succ 2 bits
    rw [sized, Nat.add_sub_cancel]
    push_cast at lower upper
    rw [double] at lower upper
    constructor <;> omega
  · have positive : (0 : Int) < 2 ^ type.bits platform := by positivity
    exact ⟨Int.emod_nonneg _ positive.ne', Int.emod_lt_of_pos _ positive⟩

theorem convert_eq_iff : type.convert platform value = value ↔ type.Holds platform value := by
  constructor
  · intro same
    rw [← same]
    exact convert_holds platform type value
  · exact convert_of_holds platform

theorem convert_emod (type : IntType) (value : Int) :
    type.convert platform value % 2 ^ type.bits platform = value % 2 ^ type.bits platform := by
  rw [convert]
  split
  · have kept := @Int.bmod_emod value (2 ^ type.bits platform)
    push_cast at kept
    exact kept
  · exact Int.emod_emod_of_dvd _ (dvd_refl _)

theorem convert_congr (type : IntType) {first second : Int}
    (same : first % 2 ^ type.bits platform = second % 2 ^ type.bits platform) :
    type.convert platform first = type.convert platform second := by
  rw [convert, convert]
  split
  · have firstReduced := Int.emod_bmod first (2 ^ type.bits platform)
    have secondReduced := Int.emod_bmod second (2 ^ type.bits platform)
    push_cast at firstReduced secondReduced
    rw [← firstReduced, ← secondReduced, same]
  · exact same

/-- Converting to a type that is at least as wide first makes no difference. -/
theorem convert_convert (type wider : IntType) (value : Int)
    (wide : type.bits platform ≤ wider.bits platform) :
    type.convert platform (wider.convert platform value) = type.convert platform value := by
  apply convert_congr
  have divides : (2 : Int) ^ type.bits platform ∣ 2 ^ wider.bits platform := pow_dvd_pow 2 wide
  rw [← Int.emod_emod_of_dvd _ divides, convert_emod, Int.emod_emod_of_dvd _ divides]

theorem bits_le_promote (type : IntType) : type.bits platform ≤ type.promote.bits platform := by
  rw [promote]
  split
  · rename_i narrow
    exact Rank.bits_mono platform (Nat.le_of_lt narrow)
  · exact Nat.le_refl _

theorem bits_le_of_rank {low high : IntType} (ordered : low.rank.number ≤ high.rank.number) :
    low.bits platform ≤ high.bits platform :=
  Rank.bits_mono platform ordered

theorem bits_le_mixed (signed unsigned : IntType) :
    signed.bits platform ≤ (mixed platform signed unsigned).bits platform ∧
      unsigned.bits platform ≤ (mixed platform signed unsigned).bits platform := by
  rw [mixed]
  split
  · rename_i below
    exact ⟨bits_le_of_rank platform below, Nat.le_refl _⟩
  · rename_i above
    have unsignedLower := @bits_le_of_rank platform unsigned signed (by omega)
    split
    · exact ⟨Nat.le_refl _, unsignedLower⟩
    · exact ⟨Nat.le_refl _, unsignedLower⟩

theorem bits_le_arithmeticPromoted (first second : IntType) :
    first.bits platform ≤ (arithmeticPromoted platform first second).bits platform ∧
      second.bits platform ≤ (arithmeticPromoted platform first second).bits platform := by
  rw [arithmeticPromoted]
  split
  · split
    · rename_i below
      exact ⟨bits_le_of_rank platform below, Nat.le_refl _⟩
    · rename_i above
      exact ⟨Nat.le_refl _, bits_le_of_rank platform (by omega)⟩
  · split
    · exact bits_le_mixed platform _ _
    · exact (bits_le_mixed platform _ _).symm

theorem bits_le_arithmetic (first second : IntType) :
    first.bits platform ≤ (arithmetic platform first second).bits platform ∧
      second.bits platform ≤ (arithmetic platform first second).bits platform := by
  have promoted := bits_le_arithmeticPromoted platform first.promote second.promote
  exact ⟨(bits_le_promote platform first).trans promoted.1,
    (bits_le_promote platform second).trans promoted.2⟩

theorem holds_of_signed {narrow wide : IntType} (narrowSigned : narrow.signed = true)
    (wideSigned : wide.signed = true) (bits : narrow.bits platform ≤ wide.bits platform)
    (holds : narrow.Holds platform value) : wide.Holds platform value := by
  rw [Holds, if_pos narrowSigned] at holds
  rw [Holds, if_pos wideSigned]
  have power : (2 : Int) ^ (narrow.bits platform - 1) ≤ 2 ^ (wide.bits platform - 1) :=
    pow_le_pow_right₀ (by norm_num) (by omega)
  constructor <;> omega

theorem int_holds : int.Holds platform value ↔ -2147483648 ≤ value ∧ value < 2147483648 := by
  simp [Holds, int, bits, Rank.bits]

theorem holds_promote (holds : type.Holds platform value) :
    type.promote.Holds platform value := by
  rw [promote]
  split
  · rename_i narrow
    have small : type.bits platform = 8 ∨ type.bits platform = 16 := by
      cases rank : type.rank <;> simp [rank, bits, Rank.bits, Rank.number] at narrow ⊢
    rw [Holds] at holds
    rw [int_holds]
    rcases small with small | small <;> rw [small] at holds <;> split at holds <;>
      norm_num at holds <;> omega
  · exact holds

/-- Operands whose promoted types are signed keep their values. -/
theorem holds_arithmetic {first second : IntType} (firstSigned : first.promote.signed = true)
    (secondSigned : second.promote.signed = true) :
    (first.Holds platform value → (arithmetic platform first second).Holds platform value) ∧
      (second.Holds platform value → (arithmetic platform first second).Holds platform value) := by
  have signed : (arithmetic platform first second).signed = true := by
    rw [arithmetic, arithmeticPromoted, if_pos (firstSigned.trans secondSigned.symm)]
    split <;> assumption
  have bits := bits_le_arithmeticPromoted platform first.promote second.promote
  constructor
  · intro holds
    exact holds_of_signed platform firstSigned signed bits.1 (holds_promote platform holds)
  · intro holds
    exact holds_of_signed platform secondSigned signed bits.2 (holds_promote platform holds)

end IntType

end NovaC.C
