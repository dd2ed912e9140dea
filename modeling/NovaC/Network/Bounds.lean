import NovaC.Network.Receiving

namespace NovaC.Network

open NovaC.C Receiving

/-! Whether `nova_socket_receive` keeps to its buffer, whatever a peer sends.

A call that reads a byte that nobody wrote, reads or writes outside the buffer,
or leaves the range of an `int`, has no meaning.
-/

section Reading

variable {bytes : List UInt8} {unread : Nat}

theorem atoiDigits_unread (bytes : List UInt8) (unread value : Nat) :
    atoiDigits (bytes.map some ++ List.replicate unread none) value =
      atoiDigits (bytes.map some) value := by
  induction bytes generalizing value with
  | nil => cases unread <;> simp [atoiDigits, List.replicate_succ]
  | cons byte bytes ih =>
      rw [List.map_cons, List.cons_append, atoiDigits, atoiDigits]
      split
      · exact ih _
      · rfl

theorem skipSpaces_unread (bytes : List UInt8) (unread : Nat) :
    skipSpaces (bytes.map some ++ List.replicate unread none) =
      (bytes.dropWhile isSpace).map some ++ List.replicate unread none := by
  induction bytes with
  | nil => cases unread <;> simp [skipSpaces, List.replicate_succ]
  | cons byte bytes ih =>
      rw [List.map_cons, List.cons_append, skipSpaces, List.dropWhile_cons]
      split
      · exact ih
      · rfl

theorem atoiSign_unread (bytes : List UInt8) (unread : Nat) :
    atoiSign (bytes.map some ++ List.replicate unread none) = atoiSign (bytes.map some) := by
  cases bytes with
  | nil => cases unread <;> simp [atoiSign, List.replicate_succ]
  | cons byte bytes =>
      have digits := atoiDigits_unread (byte :: bytes) unread 0
      rw [List.map_cons, List.cons_append] at digits ⊢
      rw [atoiSign, atoiSign, digits, atoiDigits_unread]

/-- Bytes that were never written make no difference to a number that ends in
front of them, and no other has a meaning. -/
theorem atoi_unread (bytes : List UInt8) (unread : Nat) :
    atoi (bytes.map some ++ List.replicate unread none) = atoi (bytes.map some) := by
  have skipped := skipSpaces_unread bytes 0
  rw [List.replicate_zero, List.append_nil, List.append_nil] at skipped
  rw [atoi, atoi, skipSpaces_unread, skipped, atoiSign_unread]

theorem scanSpace_unread (bytes : List UInt8) (unread : Nat) {offset : Int} :
    scanSpace (bytes.map some ++ List.replicate unread none) 1 = some offset ↔
      32 ∈ bytes ∧ offset = bytes.idxOf 32 + 1 := by
  constructor
  · intro scanned
    obtain ⟨before, after, rfl, noSpace, rfl⟩ := scanSpace_some unread scanned
    rw [List.idxOf_append_of_notMem noSpace, List.idxOf_cons_self]
    exact ⟨by simp, by omega⟩
  · intro found
    obtain ⟨member, rfl⟩ := found
    obtain ⟨before, after, rfl, noSpace⟩ := List.eq_append_cons_of_mem member
    rw [List.idxOf_append_of_notMem noSpace, List.idxOf_cons_self, List.map_append,
      List.append_assoc, List.map_cons, List.cons_append, scanSpace_append noSpace]
    congr 1
    omega

end Reading

/-- The read fills the buffer, and the message does not end with it; `size` is
that of header and message. -/
def GoesOn (reads : List (List UInt8)) (size : Int) (round : Nat) : Prop :=
  ∃ chunk, reads[round]? = some chunk ∧ chunk.length = 128 ∧ 128 * ((round : Int) + 1) ≠ size

/-- If the first read gives bytes, then a space among them, a number that ends
inside them, and an end of the message before the size of the buffer is no `int`. -/
def WellDelimited : List (List UInt8) → Prop
  | [] => True
  | first :: reads => first = [] ∨ 32 ∈ first ∧ ∃ total, atoi (first.map some) = some total ∧
      ¬ ∀ round < 16777215, GoesOn (first :: reads) (total + (first.idxOf 32 + 1)) round

/-- The call has a meaning, and the string that it returns starts in its block, at
the latest with the final NUL. -/
def InBounds (reads : List (List UInt8)) : Prop :=
  ∃ result remaining, novaSocketReceive reads = some (result, remaining) ∧
    ∀ message offset, result = some (message, offset) →
      ∃ last : Nat, message.length = last + 1 ∧ message[last]? = some (some 0) ∧
        0 ≤ offset ∧ offset ≤ last

section GoesOn

variable {chunk : List UInt8} {reads : List (List UInt8)} {size : Int} {round : Nat}

theorem goesOn_zero : GoesOn (chunk :: reads) size 0 ↔ chunk.length = 128 ∧ size ≠ 128 := by
  constructor
  · intro goesOn
    obtain ⟨other, here, full, more⟩ := goesOn
    cases here
    exact ⟨full, by omega⟩
  · intro more
    exact ⟨chunk, rfl, more.1, by omega⟩

theorem goesOn_succ :
    GoesOn (chunk :: reads) size (round + 1) ↔ GoesOn reads (size - 128) round := by
  have sameEnd : 128 * (((round + 1 : Nat) : Int) + 1) ≠ size ↔
      128 * ((round : Int) + 1) ≠ size - 128 := by
    omega
  rw [GoesOn, GoesOn, List.getElem?_cons_succ]
  simp only [sameEnd]

end GoesOn

section Rounds

variable {read : List UInt8} {reads : List (List UInt8)} {rest : Buffer} {count total offset : Int}

theorem receiveLoop_full (full : ¬ read.length + rest.length + 128 < 2147483648) :
    receiveLoop reads (holding read rest count total offset) = none := by
  cases ran : receiveLoop reads (holding read rest count total offset) with
  | none => rfl
  | some result => exact absurd (receiveLoop_bound ran) full

theorem receiveLoop_eq_none_iff (started : 0 < count) (room : rest.length = 1)
    (fits : ∀ chunk ∈ reads, chunk.length ≤ 128) :
    receiveLoop reads (holding read rest count total offset) = none ↔
      ∀ round : Nat, read.length + 128 * round + 129 < 2147483648 →
        GoesOn reads (total + offset - read.length) round := by
  induction reads generalizing read rest count with
  | nil =>
      by_cases short : read.length + 129 < 2147483648
      · have grown := @grow_holding read rest count total offset (by omega)
        simp only [receiveLoop, grown, Option.map_some, reduceCtorEq, false_iff]
        intro goesOn
        obtain ⟨chunk, here, _⟩ := goesOn 0 (by omega)
        cases here
      · refine ⟨fun _ round inside => by omega, fun _ => receiveLoop_full (by omega)⟩
  | cons chunk reads ih =>
      by_cases short : read.length + 129 < 2147483648
      swap
      · refine ⟨fun _ round inside => by omega, fun _ => receiveLoop_full (by omega)⟩
      have chunkFits := fits chunk List.mem_cons_self
      by_cases empty : chunk = []
      · subst empty
        have grown := @grow_holding read rest count total offset (by omega)
        simp only [receiveLoop, grown, Option.bind_eq_bind, Option.bind_some, if_true,
          reduceCtorEq, false_iff]
        intro goesOn
        have full := (goesOn_zero.mp (goesOn 0 (by omega))).1
        cases full
      rw [receiveLoop_later (by omega) empty chunkFits room short]
      split
      · rename_i more
        rw [ih (by omega) (by simp; omega)
          fun chunk member => fits chunk (List.mem_cons_of_mem _ member)]
        rw [List.length_append] at more ⊢
        have sameSize : total + offset - ((read.length + chunk.length : Nat) : Int) =
            total + offset - read.length - 128 := by
          omega
        rw [sameSize]
        constructor
        · intro goesOn round inside
          cases round with
          | zero => exact goesOn_zero.mpr ⟨more.1, by omega⟩
          | succ round => exact goesOn_succ.mpr (goesOn round (by omega))
        · intro goesOn round inside
          exact goesOn_succ.mp (goesOn (round + 1) (by omega))
      · rename_i stops
        simp only [reduceCtorEq, false_iff]
        intro goesOn
        have more := goesOn_zero.mp (goesOn 0 (by omega))
        rw [List.length_append] at stops
        exact stops ⟨more.1, by omega⟩

end Rounds

section First

variable {chunk : List UInt8} {reads : List (List UInt8)}

theorem novaSocketReceive_overlong {total offset : Int} (nonempty : chunk ≠ [])
    (fits : ∀ read ∈ chunk :: reads, read.length ≤ 128)
    (number : atoi (firstRead chunk) = some total)
    (space : scanSpace (firstRead chunk) 1 = some offset) :
    novaSocketReceive (chunk :: reads) = none ↔
      ∀ round < 16777215, GoesOn (chunk :: reads) (total + offset) round := by
  have chunkFits := fits chunk List.mem_cons_self
  rw [novaSocketReceive_cons nonempty chunkFits number space]
  split
  · rename_i more
    rw [receiveLoop_eq_none_iff (by omega) (by rw [List.length_replicate]; omega)
      fun read member => fits read (List.mem_cons_of_mem _ member)]
    have sameSize : total + offset - chunk.length = total + offset - 128 := by omega
    rw [sameSize]
    constructor
    · intro goesOn round inside
      cases round with
      | zero => exact goesOn_zero.mpr ⟨more.1, by omega⟩
      | succ round => exact goesOn_succ.mpr (goesOn round (by omega))
    · intro goesOn round inside
      exact goesOn_succ.mp (goesOn (round + 1) (by omega))
  · rename_i stops
    simp only [reduceCtorEq, false_iff]
    intro goesOn
    have more := goesOn_zero.mp (goesOn 0 (by omega))
    exact stops ⟨more.1, by omega⟩

theorem wellDelimited_cons (nonempty : chunk ≠ []) :
    WellDelimited (chunk :: reads) ↔ ∃ total offset, atoi (firstRead chunk) = some total ∧
      scanSpace (firstRead chunk) 1 = some offset ∧
        ¬ ∀ round < 16777215, GoesOn (chunk :: reads) (total + offset) round := by
  rw [WellDelimited, firstRead, atoi_unread, or_iff_right nonempty]
  constructor
  · intro wellDelimited
    obtain ⟨member, total, number, ends⟩ := wellDelimited
    exact ⟨total, _, number, (scanSpace_unread _ _).mpr ⟨member, rfl⟩, ends⟩
  · intro wellDelimited
    obtain ⟨total, offset, number, space, ends⟩ := wellDelimited
    obtain ⟨member, rfl⟩ := (scanSpace_unread _ _).mp space
    exact ⟨member, total, number, ends⟩

theorem novaSocketReceive_isSome_iff (fits : ∀ read ∈ reads, read.length ≤ 128) :
    (∃ result, novaSocketReceive reads = some result) ↔ WellDelimited reads := by
  cases reads with
  | nil => simp [novaSocketReceive, receiveLoop, grow_start, WellDelimited]
  | cons chunk reads =>
      by_cases nonempty : chunk = []
      · subst nonempty
        simp [novaSocketReceive, receiveLoop, grow_start, WellDelimited]
      rw [wellDelimited_cons nonempty]
      constructor
      · intro ran
        obtain ⟨result, ran⟩ := ran
        obtain ⟨total, offset, number, space⟩ :=
          novaSocketReceive_header nonempty (fits chunk List.mem_cons_self) ran
        refine ⟨total, offset, number, space, fun goesOn => ?_⟩
        rw [(novaSocketReceive_overlong nonempty fits number space).mpr goesOn] at ran
        cases ran
      · intro wellDelimited
        obtain ⟨total, offset, number, space, ends⟩ := wellDelimited
        apply Option.ne_none_iff_exists'.mp
        exact fun nothing => ends ((novaSocketReceive_overlong nonempty fits number space).mp nothing)

end First

/-- The call keeps to its buffer exactly when the first read has a header that
ends in it, and the message ends before the buffer is too large. -/
theorem in_bounds_iff (reads : List (List UInt8)) (fits : ∀ read ∈ reads, read.length ≤ 128) :
    InBounds reads ↔ WellDelimited reads := by
  rw [← novaSocketReceive_isSome_iff fits]
  constructor
  · intro inBounds
    obtain ⟨result, remaining, ran, _⟩ := inBounds
    exact ⟨_, ran⟩
  · intro ran
    obtain ⟨⟨result, remaining⟩, ran⟩ := ran
    refine ⟨result, remaining, ran, ?_⟩
    intro message offset returned
    subst returned
    obtain ⟨full, last, header, body, _, _, _, _, _, _, rfl, rfl⟩ := novaSocketReceive_some fits ran
    refine ⟨(header ++ 32 :: body).length, ?_, ?_, by omega, ?_⟩
    · rw [Buffer.ofString, List.length_append, List.length_map, List.length_singleton]
    · rw [Buffer.ofString, List.getElem?_append_right (by rw [List.length_map]), List.length_map,
        Nat.sub_self]
      rfl
    · rw [List.length_append, List.length_cons]
      omega

/-- 130 bytes, whose frame fills the first of its two reads; a third read is for the next call. -/
theorem in_bounds_iff_several :
    InBounds [[49, 51, 48, 32] ++ List.replicate 124 97, List.replicate 6 97,
        [50, 32, 104, 105]] ↔
      WellDelimited [[49, 51, 48, 32] ++ List.replicate 124 97, List.replicate 6 97,
        [50, 32, 104, 105]] :=
  in_bounds_iff _ (by decide +kernel)

/-- Without a space in "hi" the search for one leaves the bytes that were read. -/
theorem header_scan_overruns : ¬ InBounds [[104, 105]] := by
  intro inBounds
  obtain ⟨result, remaining, ran, _⟩ := inBounds
  obtain ⟨total, offset, _, space⟩ := novaSocketReceive_header (by simp) (by decide) ran
  have member := ((scanSpace_unread [104, 105] _).mp space).1
  exact absurd member (by decide)

end NovaC.Network
