import NovaC.C.Hexadecimal

namespace NovaC.Objects

open NovaC.C

/-! `hashCode` of `NativeObject.c` on a 64-bit platform, for a `malloc` that succeeds and a
`%p` that prints `0x` and the hexadecimal digits.
-/

/-- `%p` -/
def printPointer (obj : UInt64) : List UInt8 :=
  48 :: 120 :: hexadecimal obj.toNat

/-- What `hashCode` stores in the block that it has allocated. -/
def hashCodeIn (code : Buffer) (obj : UInt64) : Option Buffer := do
  let code ← code.storeAll 2 (printPointer obj ++ [0])
  let code ← code.store 0 48
  let code ← code.store 1 120
  code.store 10 0

def hashCode (obj : UInt64) : Option Buffer :=
  hashCodeIn (Buffer.malloc (10 + 1)) obj

/-- The string of a hash code. -/
def hashText (obj : UInt64) : Option (List UInt8) :=
  (hashCode obj).bind Buffer.cString

/-- Both hash codes are stored inside their blocks, and their strings differ. -/
def ToldApart (left right : UInt64) : Prop :=
  ∃ leftText rightText, hashText left = some leftText ∧ hashText right = some rightText ∧
    leftText ≠ rightText

section Stores

variable {code after : Buffer} {obj : UInt64}

/-- What is printed, behind the two bytes that are stored before it. -/
def printed (obj : UInt64) : List UInt8 :=
  48 :: 120 :: printPointer obj

theorem printed_nulFree (obj : UInt64) : 0 ∉ printed obj := by
  simp only [printed, printPointer, List.mem_cons, not_or]
  exact ⟨by decide, by decide, by decide, by decide, hexadecimal_nulFree obj.toNat⟩

theorem hashCodeIn_cells (first second : Option UInt8) {gone rest : Buffer}
    (length : gone.length = (printPointer obj ++ [0]).length)
    (ten : 11 ≤ (first :: second :: (gone ++ rest)).length) :
    hashCodeIn (first :: second :: (gone ++ rest)) obj =
      some (((printed obj).map some ++ some 0 :: rest).take 10 ++
        some 0 :: ((printed obj).map some ++ some 0 :: rest).drop 11) := by
  have pointer : Buffer.storeAll (first :: second :: (gone ++ rest)) 2 (printPointer obj ++ [0]) =
      some (first :: second :: ((printPointer obj ++ [0]).map some ++ rest)) :=
    Buffer.storeAll_append [first, second] gone rest length
  have zero : Buffer.store (first :: second :: ((printPointer obj ++ [0]).map some ++ rest)) 0 48 =
      some (some 48 :: second :: ((printPointer obj ++ [0]).map some ++ rest)) :=
    Buffer.store_append [] _ first 48
  have one : Buffer.store (some 48 :: second :: ((printPointer obj ++ [0]).map some ++ rest)) 1 120 =
      some (some 48 :: some 120 :: ((printPointer obj ++ [0]).map some ++ rest)) :=
    Buffer.store_append [some 48] _ second 120
  have whole : some 48 :: some 120 :: ((printPointer obj ++ [0]).map some ++ rest) =
      (printed obj).map some ++ some 0 :: rest := by
    simp [printed]
  have inside : 10 < ((printed obj).map some ++ some 0 :: rest).length := by
    rw [← whole]
    simp only [List.length_cons, List.length_append, List.length_map] at length ten ⊢
    omega
  rw [hashCodeIn, pointer, Option.bind_eq_bind, Option.bind_some, zero, Option.bind_some, one,
    Option.bind_some, whole]
  exact Buffer.store_index inside 0

theorem hashCodeIn_eq (ten : 11 ≤ code.length)
    (room : (hexadecimal obj.toNat).length + 5 ≤ code.length) :
    ∃ rest : Buffer, hashCodeIn code obj =
      some (((printed obj).map some ++ some 0 :: rest).take 10 ++
        some 0 :: ((printed obj).map some ++ some 0 :: rest).drop 11) := by
  have length : (printPointer obj ++ [0]).length = (hexadecimal obj.toNat).length + 3 := by
    simp [printPointer]
  obtain ⟨first, second, start⟩ : ∃ first second, code.take 2 = [first, second] :=
    List.length_eq_two.mp (by rw [List.length_take]; omega)
  have whole := List.take_append_drop 2 code
  rw [start] at whole
  have split : first :: second :: ((code.drop 2).take (printPointer obj ++ [0]).length ++
      (code.drop 2).drop (printPointer obj ++ [0]).length) = code := by
    rw [List.take_append_drop]
    exact whole
  have cells := @hashCodeIn_cells obj first second
    ((code.drop 2).take (printPointer obj ++ [0]).length)
    ((code.drop 2).drop (printPointer obj ++ [0]).length)
    (by rw [List.length_take, List.length_drop]; omega) (by rwa [split])
  rw [split] at cells
  exact ⟨_, cells⟩

/-- In a block that has room for it, the string is `0x0x` and the first six digits. -/
theorem hashCodeIn_text (ten : 11 ≤ code.length)
    (room : (hexadecimal obj.toNat).length + 5 ≤ code.length) :
    (hashCodeIn code obj).bind Buffer.cString = some ((printed obj).take 10) := by
  obtain ⟨rest, stored⟩ := hashCodeIn_eq ten room
  have nulFree := printed_nulFree obj
  rw [stored, Option.bind_some]
  by_cases long : 10 ≤ (printed obj).length
  · rw [List.take_append_of_le_length (by rwa [List.length_map]), ← List.map_take]
    exact Buffer.cString_append (fun nul => nulFree (List.mem_of_mem_take nul)) _
  · obtain ⟨more, missing⟩ : ∃ more, 10 - (printed obj).length = more + 1 :=
      ⟨9 - (printed obj).length, by omega⟩
    have whole : (printed obj).take 10 = printed obj := List.take_of_length_le (by omega)
    rw [List.take_append, List.length_map, missing, List.take_succ_cons, List.append_assoc,
      List.cons_append, ← List.map_take, whole]
    exact Buffer.cString_append nulFree _

theorem hashCode_room (stored : hashCode obj = some after) :
    (hexadecimal obj.toNat).length ≤ 6 := by
  obtain ⟨code, printed, -⟩ := Option.bind_eq_some_iff.mp stored
  have fits := Buffer.storeAll_some printed
  simp only [printPointer, Buffer.malloc, List.length_append, List.length_cons, List.length_nil,
    List.length_replicate, Int.reduceToNat] at fits
  omega

end Stores

/-- The digits of a small address fit, behind `0x0x`. -/
theorem hashText_eq {obj : UInt64} (small : obj.toNat < 2 ^ 24) :
    hashText obj = some (printed obj) := by
  have few : (hexadecimal obj.toNat).length ≤ 6 := (hexadecimal_length_le (by decide)).mpr small
  have size : (Buffer.malloc (10 + 1)).length = 11 := List.length_replicate
  have short : (printed obj).length ≤ 10 := by
    simp only [printed, printPointer, List.length_cons]
    omega
  rw [hashText, hashCode, hashCodeIn_text (by omega) (by omega), List.take_of_length_le short]

theorem hashText_small {obj : UInt64} {text : List UInt8} (found : hashText obj = some text) :
    obj.toNat < 2 ^ 24 := by
  obtain ⟨code, stored, -⟩ := Option.bind_eq_some_iff.mp found
  exact (hexadecimal_length_le (by decide)).mp (hashCode_room stored)

/-- Two objects are told apart when both are below 2^24. -/
theorem toldApart_iff {left right : UInt64} (different : left ≠ right) :
    ToldApart left right ↔ left.toNat < 2 ^ 24 ∧ right.toNat < 2 ^ 24 := by
  refine ⟨?_, ?_⟩
  · rintro ⟨leftText, rightText, leftFound, rightFound, -⟩
    exact ⟨hashText_small leftFound, hashText_small rightFound⟩
  · rintro ⟨leftSmall, rightSmall⟩
    refine ⟨_, _, hashText_eq leftSmall, hashText_eq rightSmall, fun same => different ?_⟩
    simp only [printed, printPointer, List.cons.injEq, true_and] at same
    exact UInt64.toNat_inj.mp (hexadecimal_injective same)

theorem toldApart_small :
    ToldApart 4096 65536 ↔
      UInt64.toNat 4096 < 2 ^ 24 ∧ UInt64.toNat 65536 < 2 ^ 24 :=
  toldApart_iff (by decide)

/-- Two addresses of twelve digits: what is printed does not fit, and where it does, the same
six digits are left. -/
theorem not_toldApart :
    hashCode 0x7f0000000010 = none ∧ hashCode 0x7f0000000020 = none ∧
      (hashCodeIn (Buffer.malloc 17) 0x7f0000000010).bind Buffer.cString =
        (hashCodeIn (Buffer.malloc 17) 0x7f0000000020).bind Buffer.cString ∧
      ¬ ToldApart 0x7f0000000010 0x7f0000000020 := by
  have unprinted : hashCode 0x7f0000000010 = none := by decide
  refine ⟨unprinted, by decide, by decide, ?_⟩
  rintro ⟨leftText, rightText, leftFound, -⟩
  rw [hashText, unprinted] at leftFound
  cases leftFound

end NovaC.Objects
