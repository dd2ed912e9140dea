import NovaC.C.Int

namespace NovaC.C

/-! A block of bytes and the strings in it.

A byte that was never written is `none`; reading it, and reading or writing
outside the block, has no meaning.
-/

abbrev Buffer := List (Option UInt8)

namespace Buffer

variable {buffer : Buffer} {text : List UInt8}

def malloc (size : Nat) : Buffer :=
  List.replicate size none

def realloc (buffer : Buffer) (size : Nat) : Buffer :=
  buffer.take size ++ List.replicate (size - buffer.length) none

def storeAll (buffer : Buffer) (index : Int) (bytes : List UInt8) : Option Buffer :=
  if 0 ≤ index ∧ index.toNat + bytes.length ≤ buffer.length then
    some (buffer.take index.toNat ++ bytes.map some ++ buffer.drop (index.toNat + bytes.length))
  else none

def store (buffer : Buffer) (index : Int) (byte : UInt8) : Option Buffer :=
  buffer.storeAll index [byte]

/-- `memcpy(&target[position], &source[start], count)` between two blocks -/
def memcpy (target : Buffer) (position : Int) (source : Buffer) (start count : Int) :
    Option Buffer :=
  if 0 ≤ position ∧ 0 ≤ start ∧ 0 ≤ count ∧ position + count ≤ target.length ∧
      start + count ≤ source.length then
    some (target.take position.toNat ++ ((source.drop start.toNat).take count.toNat ++
      target.drop (position + count).toNat))
  else none

def loadAll : Buffer → Nat → Option (List UInt8)
  | _, 0 => some []
  | some byte :: rest, count + 1 => (loadAll rest count).map (byte :: ·)
  | _, _ + 1 => none

/-- The string that starts at the first byte. -/
def cString : Buffer → Option (List UInt8)
  | some byte :: rest => if byte = 0 then some [] else (cString rest).map (byte :: ·)
  | _ => none

def cStringAt (buffer : Buffer) (index : Int) : Option (List UInt8) :=
  if 0 ≤ index then cString (buffer.drop index.toNat) else none

def ofString (text : List UInt8) : Buffer :=
  text.map some ++ [some 0]

theorem storeAll_append (before gone after : Buffer) {bytes : List UInt8}
    (sameLength : gone.length = bytes.length) :
    (before ++ (gone ++ after)).storeAll before.length bytes =
      some (before ++ (bytes.map some ++ after)) := by
  have fits : before.length + bytes.length ≤ (before ++ (gone ++ after)).length := by
    simp only [List.length_append]
    omega
  have dropped : (before ++ (gone ++ after)).drop (before.length + bytes.length) = after := by
    rw [← List.append_assoc, ← sameLength, ← List.length_append, List.drop_left]
  simp only [storeAll, Int.natCast_nonneg, Int.toNat_natCast, fits, true_and, if_true, dropped,
    List.take_left, List.append_assoc]

theorem store_append (before after : Buffer) (last : Option UInt8) (byte : UInt8) :
    (before ++ last :: after).store before.length byte = some (before ++ some byte :: after) :=
  storeAll_append before [last] after rfl

theorem store_index {index : Nat} (inside : index < buffer.length) (byte : UInt8) :
    buffer.store index byte = some (buffer.take index ++ some byte :: buffer.drop (index + 1)) := by
  have fits : 0 ≤ (index : Int) ∧ (index : Int).toNat + [byte].length ≤ buffer.length := by
    rw [List.length_singleton]
    omega
  rw [store, storeAll, if_pos fits, Int.toNat_natCast]
  simp

theorem storeAll_some {after : Buffer} {index : Int} {bytes : List UInt8}
    (stored : buffer.storeAll index bytes = some after) :
    index.toNat + bytes.length ≤ buffer.length := by
  rw [storeAll] at stored
  split at stored
  · rename_i fits
    exact fits.2
  · cases stored

theorem realloc_grow (buffer : Buffer) (more : Nat) :
    buffer.realloc (buffer.length + more) = buffer ++ List.replicate more none := by
  rw [realloc, List.take_of_length_le (Nat.le_add_right _ _), Nat.add_sub_cancel_left]

theorem realloc_of_le {size : Nat} (grows : buffer.length ≤ size) :
    buffer.realloc size = buffer ++ List.replicate (size - buffer.length) none := by
  rw [realloc, List.take_of_length_le grows]

theorem memcpy_start {target after source : Buffer} {position count : Int}
    (copied : target.memcpy position source 0 count = some after) :
    (0 ≤ position ∧ 0 ≤ count ∧ position + count ≤ target.length ∧ count ≤ source.length) ∧
      after = target.take position.toNat ++ (source.take count.toNat ++
        target.drop (position + count).toNat) := by
  rw [memcpy] at copied
  split at copied
  · rename_i bounds
    cases copied
    rw [Int.toNat_zero, List.drop_zero]
    exact ⟨⟨bounds.1, bounds.2.2.1, bounds.2.2.2.1, by omega⟩, rfl⟩
  · cases copied

theorem memcpy_start_of_bounds {target source : Buffer} {position count : Nat}
    (inTarget : position + count ≤ target.length) (inSource : count ≤ source.length) :
    target.memcpy position source 0 count =
      some (target.take position ++ (source.take count ++ target.drop (position + count))) := by
  rw [memcpy, if_pos (by omega), Int.toNat_zero, List.drop_zero]
  rfl

theorem realloc_shrink (before after : Buffer) :
    realloc (before ++ after) before.length = before := by
  rw [realloc, List.take_left, List.length_append, Nat.sub_eq_zero_of_le (Nat.le_add_right _ _),
    List.replicate_zero, List.append_nil]

theorem loadAll_append (bytes : List UInt8) (rest : Buffer) :
    loadAll (bytes.map some ++ rest) bytes.length = some bytes := by
  induction bytes with
  | nil => simp only [List.length_nil, loadAll]
  | cons byte bytes ih =>
      rw [List.map_cons, List.cons_append, List.length_cons, loadAll, ih, Option.map_some]

theorem cString_append (nulFree : 0 ∉ text) (rest : Buffer) :
    cString (text.map some ++ some 0 :: rest) = some text := by
  induction text with
  | nil => rfl
  | cons byte text ih =>
      rw [List.mem_cons, not_or] at nulFree
      rw [List.map_cons, List.cons_append, cString, if_neg (Ne.symm nulFree.1), ih nulFree.2,
        Option.map_some]

/-- Without a NUL in them, the bytes at the start of a buffer start its string. -/
theorem cString_starts {chunk : List UInt8} {rest : Buffer} (nulFree : 0 ∉ chunk)
    (read : cString (chunk.map some ++ rest) = some text) : chunk <+: text := by
  induction chunk generalizing text with
  | nil => exact List.nil_prefix
  | cons byte chunk ih =>
      rw [List.mem_cons, not_or] at nulFree
      rw [List.map_cons, List.cons_append, cString, if_neg (Ne.symm nulFree.1)] at read
      obtain ⟨tail, readTail, rfl⟩ := Option.map_eq_some_iff.mp read
      exact (List.prefix_cons_inj byte).mpr (ih nulFree.2 readTail)

theorem cString_nulFree (read : cString buffer = some text) : 0 ∉ text := by
  induction buffer generalizing text with
  | nil => cases read
  | cons first rest ih =>
      cases first with
      | none => cases read
      | some byte =>
          rw [cString] at read
          split at read
          · cases read
            simp
          · rename_i notNul
            obtain ⟨tail, readTail, rfl⟩ := Option.map_eq_some_iff.mp read
            rw [List.mem_cons, not_or]
            exact ⟨Ne.symm notNul, ih readTail⟩

end Buffer

end NovaC.C
