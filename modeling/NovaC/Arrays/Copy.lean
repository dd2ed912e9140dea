import NovaC.C.Int

namespace NovaC.Arrays

open NovaC.C

/-! `arrayCopy` of `Nova.c`, with pointers of eight bytes.

`memcpy` has no meaning when it leaves one of its blocks, or when the two ranges are in
one block and overlap.
-/

def sizeofDest : Nat :=
  8

/-- `dIndex *= size`: the product is a `size_t` and the variable an `int`. -/
def scale (index : Int) : Int :=
  toInt (toSize (toSize index * sizeofDest))

/-- `memcpy(&target[position], &source[start], count)` between two blocks -/
def memcpy (target : List UInt8) (position : Int) (source : List UInt8) (start count : Int) :
    Option (List UInt8) :=
  if 0 ≤ position ∧ 0 ≤ start ∧ 0 ≤ count ∧ position + count ≤ target.length ∧
      start + count ≤ source.length then
    some (target.take position.toNat ++ ((source.drop start.toNat).take count.toNat ++
      target.drop (position + count).toNat))
  else none

def memcpyWithin (block : List UInt8) (position start count : Int) : Option (List UInt8) :=
  if count = 0 ∨ position + count ≤ start ∨ start + count ≤ position then
    memcpy block position block start count
  else none

/-- `calloc`; a negative count is a `size_t` that cannot be allocated. -/
def calloc (count : Int) (size : Nat) : Option (List UInt8) :=
  if 0 ≤ count then some (List.replicate (count.toNat * size) 0) else none

inductive Source where
  | dest
  | other (bytes : List UInt8)
deriving DecidableEq

/-- The destination after the call; nothing else is written. -/
def arrayCopy (dest : List UInt8) (dIndex : Int) (src : Source) (sIndex len destLen : Int) :
    Option (List UInt8) :=
  let dIndex := scale dIndex
  let sIndex := scale sIndex
  let len := scale len
  let destLen := scale destLen
  match src with
  | .other source => memcpy dest dIndex source sIndex len
  | .dest =>
      if dIndex > sIndex then do
        let tmp ← calloc destLen sizeofDest
        let rest ← subInt destLen dIndex
        let tmp ← memcpy tmp 0 dest dIndex rest
        let dest ← memcpyWithin dest dIndex sIndex len
        memcpy dest (← addInt dIndex len) tmp 0 rest
      else if sIndex > dIndex then do
        memcpyWithin dest dIndex sIndex (← addInt (← subInt destLen sIndex) 1)
      else some dest

/-- The arguments of a call, with the lengths of both arrays in elements. -/
structure CopyArguments where
  /-- both pointers are those of one array -/
  same : Bool
  destLen : Nat
  sLen : Nat
  dIndex : Nat
  sIndex : Nat
  len : Nat
  destLenInt : IsInt destLen
  sIndexInt : IsInt sIndex
  inDest : dIndex + len ≤ destLen
  inSource : sIndex + len ≤ sLen
  sameLength : same = true → sLen = destLen

namespace CopyArguments

variable (arguments : CopyArguments)

def call (dest source : List UInt8) : Option (List UInt8) :=
  arrayCopy dest arguments.dIndex (if arguments.same then .dest else .other source)
    arguments.sIndex arguments.len arguments.destLen

/-- The requested range is that of the source, byte for byte, and the other elements are
as they were. -/
structure Copied (dest source after : List UInt8) : Prop where
  length : after.length = dest.length
  range : ∀ index < arguments.len, ∀ byte < 8,
    after[8 * (arguments.dIndex + index) + byte]? = source[8 * (arguments.sIndex + index) + byte]?
  others : ∀ index < arguments.destLen,
    index < arguments.dIndex ∨ arguments.dIndex + arguments.len ≤ index → ∀ byte < 8,
      after[8 * index + byte]? = dest[8 * index + byte]?

/-- Whatever the arrays contain, the call copies the range and nothing else. -/
def Copies : Prop :=
  ∀ dest source : List UInt8, dest.length = 8 * arguments.destLen →
    source.length = 8 * arguments.sLen → (arguments.same = true → source = dest) →
      ∃ after, arguments.call dest source = some after ∧ arguments.Copied dest source after

/-- The byte offset is the index times eight. -/
def Fits (index : Nat) : Prop :=
  8 * index < 2147483648

/-- Between two arrays the offsets do not wrap around. Within one array there is nothing
to move, or the range moves right, clear of itself, and the length has wrapped around to
the first index. -/
def Harmless : Prop :=
  if arguments.same then
    if scale arguments.dIndex > scale arguments.sIndex then
      0 ≤ scale arguments.sIndex ∧
        (arguments.len = 0 ∧ scale arguments.dIndex ≤ scale arguments.destLen ∨
          Fits (arguments.dIndex + arguments.len) ∧
            arguments.sIndex + arguments.len ≤ arguments.dIndex ∧
            scale arguments.destLen = scale arguments.dIndex)
    else scale arguments.dIndex = scale arguments.sIndex ∧
      (arguments.dIndex = arguments.sIndex ∨ arguments.len = 0)
  else Fits arguments.dIndex ∧ Fits arguments.sIndex ∧ Fits arguments.len ∨
    arguments.len = 0 ∧ 0 ≤ scale arguments.dIndex ∧ 0 ≤ scale arguments.sIndex

end CopyArguments

theorem scale_natCast (index : Nat) :
    IsInt (scale index) ∧ ∃ turns, scale index = 8 * index - 4294967296 * turns ∧ 0 ≤ turns := by
  have product : (toSize (toSize index * sizeofDest) : Int) =
      8 * index % 18446744073709551616 := by
    rw [toSize_natCast, sizeofDest]
    unfold toSize
    omega
  obtain ⟨range, turns, turned⟩ := toInt_spec (toSize (toSize index * sizeofDest))
  refine ⟨range, (8 * index - scale index) / 4294967296, ?_, ?_⟩ <;>
    unfold IsInt at range <;> rw [scale] <;> omega

theorem memcpy_some {target after source : List UInt8} {position start count : Int}
    (copied : memcpy target position source start count = some after) :
    0 ≤ position ∧ 0 ≤ start ∧ 0 ≤ count ∧ position + count ≤ target.length ∧
      start + count ≤ source.length := by
  rw [memcpy] at copied
  split at copied
  · assumption
  · cases copied

theorem memcpy_length {target after source : List UInt8} {position start count : Int}
    (copied : memcpy target position source start count = some after) :
    after.length = target.length := by
  have bounds := memcpy_some copied
  rw [memcpy, if_pos bounds, Option.some.injEq] at copied
  subst copied
  simp only [List.length_append, List.length_take, List.length_drop]
  omega

theorem memcpy_getElem? {target after source : List UInt8} {position start count : Int}
    (copied : memcpy target position source start count = some after) (index : Nat) :
    after[index]? = if position ≤ index ∧ index < position + count then
      source[(start + index - position).toNat]? else target[index]? := by
  have bounds := memcpy_some copied
  rw [memcpy, if_pos bounds, Option.some.injEq] at copied
  subst copied
  obtain ⟨lower, startLower, countLower, upper, within⟩ := bounds
  rcases Nat.lt_or_ge index position.toNat with before | reached
  · rw [if_neg (by omega), List.getElem?_append_left (by rw [List.length_take]; omega),
      List.getElem?_take_of_lt before]
  rw [List.getElem?_append_right (by rw [List.length_take]; omega), List.length_take,
    Nat.min_eq_left (by omega)]
  rcases Nat.lt_or_ge (index - position.toNat) count.toNat with inside | beyond
  · rw [if_pos (by omega), List.getElem?_append_left
      (by rw [List.length_take, List.length_drop]; omega), List.getElem?_take_of_lt inside,
      List.getElem?_drop]
    congr 1
    omega
  · rw [if_neg (by omega), List.getElem?_append_right
      (by rw [List.length_take, List.length_drop]; omega), List.length_take, List.length_drop,
      List.getElem?_drop]
    congr 1
    omega

theorem memcpy_zero {target source : List UInt8} {position start : Int}
    (lower : 0 ≤ position) (upper : position ≤ target.length)
    (startLower : 0 ≤ start) (within : start ≤ source.length) :
    memcpy target position source start 0 = some target := by
  rw [memcpy, if_pos (by omega), Int.add_zero, Int.toNat_zero, List.take_zero, List.nil_append,
    List.take_append_drop]

theorem memcpyWithin_some {block after : List UInt8} {position start count : Int}
    (copied : memcpyWithin block position start count = some after) :
    memcpy block position block start count = some after ∧
      (count = 0 ∨ position + count ≤ start ∨ start + count ≤ position) := by
  rw [memcpyWithin] at copied
  split at copied
  · rename_i apart
    exact ⟨copied, apart⟩
  · cases copied

/-- An array in which the bytes of one element are 1 and all others 0. -/
def marked (element length : Nat) : List UInt8 :=
  (List.range (8 * length)).map fun byte => if byte / 8 = element then 1 else 0

theorem marked_length (element length : Nat) : (marked element length).length = 8 * length := by
  rw [marked, List.length_map, List.length_range]

theorem marked_getElem? {element length byte : Nat} (within : byte < 8 * length) :
    (marked element length)[byte]? = some (if byte / 8 = element then 1 else 0) := by
  rw [marked, List.getElem?_map, List.getElem?_range within, Option.map_some]

theorem marked_eq_one {element length byte : Nat}
    (one : (marked element length)[byte]? = some 1) : byte / 8 = element := by
  rcases Nat.lt_or_ge byte (8 * length) with within | beyond
  · rw [marked_getElem? within] at one
    by_contra other
    rw [if_neg other] at one
    simp at one
  · rw [List.getElem?_eq_none (by rw [marked_length]; omega)] at one
    cases one

theorem marked_element {element length byte : Nat} (within : element < length) (small : byte < 8) :
    (marked element length)[8 * element + byte]? = some 1 := by
  rw [marked_getElem? (by omega), if_pos (by omega)]

namespace CopyArguments

variable {arguments : CopyArguments}

theorem call_other (different : arguments.same = false) (dest source : List UInt8) :
    arguments.call dest source = memcpy dest (scale arguments.dIndex) source
      (scale arguments.sIndex) (scale arguments.len) := by
  simp [call, arrayCopy, different]

section Within

variable {dIndex sIndex len destLen : Int} {dest source after : List UInt8}
  (dScaled : scale arguments.dIndex = dIndex) (sScaled : scale arguments.sIndex = sIndex)
  (lenScaled : scale arguments.len = len) (destScaled : scale arguments.destLen = destLen)
  (same : arguments.same = true) (called : arguments.call dest source = some after)

include dScaled sScaled lenScaled destScaled same called in
/-- Moving right: the range, and after it what was at the first index and beyond. -/
theorem call_right (right : dIndex > sIndex) :
    (0 ≤ sIndex ∧ 0 ≤ len ∧ dIndex ≤ destLen ∧ (len = 0 ∨ sIndex + len ≤ dIndex) ∧
        IsInt (dIndex + len) ∧ len + destLen ≤ dest.length) ∧
      after.length = dest.length ∧ ∀ index : Nat, after[index]? =
        if dIndex ≤ index ∧ index < dIndex + len then dest[(sIndex + index - dIndex).toNat]?
        else if dIndex + len ≤ index ∧ index < len + destLen then dest[(index - len).toNat]?
        else dest[index]? := by
  simp only [call, arrayCopy, same, if_true, dScaled, sScaled, lenScaled, destScaled,
    if_pos right, Option.bind_eq_bind, Option.bind_eq_some_iff] at called
  clear dScaled sScaled lenScaled destScaled
  obtain ⟨empty, allocated, rest, subtracted, tmp, saved, moved, shifted, position, added,
    restored⟩ := called
  obtain ⟨rfl, -⟩ := subInt_some subtracted
  obtain ⟨rfl, fits⟩ := addInt_some added
  obtain ⟨shifted, apart⟩ := memcpyWithin_some shifted
  have savedBounds := memcpy_some saved
  have shiftedBounds := memcpy_some shifted
  have restoredBounds := memcpy_some restored
  rw [memcpy_length shifted] at restoredBounds
  refine ⟨⟨by omega, by omega, by omega, by omega, fits, by omega⟩,
    (memcpy_length restored).trans (memcpy_length shifted), ?_⟩
  intro index
  rw [memcpy_getElem? restored, memcpy_getElem? shifted]
  split
  · rename_i beyond
    rw [if_neg (by omega), if_pos (by omega), memcpy_getElem? saved, if_pos (by omega)]
    congr 1
    omega
  · rename_i within
    split
    · rfl
    · rw [if_neg (by omega)]

include dScaled sScaled lenScaled destScaled same in
theorem call_right_exists (dest source : List UInt8) (right : dIndex > sIndex) (lower : 0 ≤ sIndex) (lenLower : 0 ≤ len)
    (upper : dIndex ≤ destLen) (apart : len = 0 ∨ sIndex + len ≤ dIndex)
    (destRange : IsInt destLen) (sum : IsInt (dIndex + len))
    (room : len + destLen ≤ dest.length) :
    ∃ after, arguments.call dest source = some after := by
  have difference : IsInt (destLen - dIndex) := by
    unfold IsInt at *
    omega
  obtain ⟨tmp, saved⟩ : ∃ tmp, memcpy (List.replicate (destLen.toNat * sizeofDest) 0) 0 dest dIndex
      (destLen - dIndex) = some tmp :=
    ⟨_, if_pos (by rw [List.length_replicate, sizeofDest]; omega)⟩
  have tmpLength := memcpy_length saved
  rw [List.length_replicate, sizeofDest] at tmpLength
  obtain ⟨moved, shifted⟩ : ∃ moved, memcpy dest dIndex dest sIndex len = some moved :=
    ⟨_, if_pos (by omega)⟩
  have movedLength := memcpy_length shifted
  obtain ⟨after, restored⟩ : ∃ after, memcpy moved (dIndex + len) tmp 0 (destLen - dIndex) =
      some after :=
    ⟨_, if_pos (by omega)⟩
  have disjoint : len = 0 ∨ dIndex + len ≤ sIndex ∨ sIndex + len ≤ dIndex := by omega
  refine ⟨after, ?_⟩
  simp only [call, arrayCopy, same, if_true, dScaled, sScaled, lenScaled, destScaled,
    if_pos right, Option.bind_eq_bind]
  rw [calloc, if_pos (by omega), Option.bind_some, subInt, if_pos difference, Option.bind_some,
    saved, Option.bind_some, memcpyWithin, if_pos disjoint, shifted, Option.bind_some, addInt,
    if_pos sum, Option.bind_some, restored]

include dScaled sScaled destScaled same called in
/-- Moving left: everything from the source's index on, and one byte more. -/
theorem call_left (left : sIndex > dIndex) :
    (0 ≤ dIndex ∧ sIndex ≤ destLen + 1 ∧ destLen < dest.length) ∧
      ∀ index : Nat, after[index]? =
        if dIndex ≤ index ∧ index < dIndex + (destLen - sIndex + 1) then
          dest[(sIndex + index - dIndex).toNat]?
        else dest[index]? := by
  simp only [call, arrayCopy, same, if_true, dScaled, sScaled, destScaled,
    if_neg (Int.lt_asymm left), if_pos left, Option.bind_eq_bind, Option.bind_eq_some_iff]
    at called
  clear dScaled sScaled destScaled
  obtain ⟨rest, subtracted, count, added, moved⟩ := called
  obtain ⟨rfl, -⟩ := subInt_some subtracted
  obtain ⟨rfl, -⟩ := addInt_some added
  obtain ⟨moved, apart⟩ := memcpyWithin_some moved
  have bounds := memcpy_some moved
  exact ⟨⟨by omega, by omega, by omega⟩, memcpy_getElem? moved⟩

include dScaled sScaled same called in
theorem call_still (still : dIndex = sIndex) : after = dest := by
  subst still
  simpa [call, arrayCopy, same, dScaled, sScaled] using called.symm

end Within

theorem other_reached (different : arguments.same = false) (copies : arguments.Copies)
    {index : Nat} (within : index < arguments.len) :
    scale arguments.dIndex ≤ 8 * (arguments.dIndex + index) ∧
      8 * (arguments.dIndex + index) < scale arguments.dIndex + scale arguments.len ∧
      (scale arguments.sIndex + 8 * (arguments.dIndex + index) - scale arguments.dIndex).toNat / 8 =
        arguments.sIndex + index := by
  have inDest := arguments.inDest
  have inSource := arguments.inSource
  obtain ⟨after, called, copied⟩ := copies (marked arguments.destLen arguments.destLen)
    (marked (arguments.sIndex + index) arguments.sLen) (marked_length _ _) (marked_length _ _)
    (by simp [different])
  have range := copied.range index within 0 (by omega)
  rw [marked_element (by omega) (by omega)] at range
  rw [call_other different] at called
  rw [memcpy_getElem? called] at range
  split at range
  · rename_i written
    have place := marked_eq_one range
    refine ⟨by simpa using written.1, by simpa using written.2, by simpa using place⟩
  · have outside := marked_eq_one range
    omega

theorem other_harmless (different : arguments.same = false) (copies : arguments.Copies) :
    arguments.Harmless := by
  rw [Harmless, if_neg (by simp [different])]
  rcases Nat.eq_zero_or_pos arguments.len with nothing | some
  · right
    obtain ⟨after, called, -⟩ := copies (marked 0 arguments.destLen) (marked 0 arguments.sLen)
      (marked_length _ _) (marked_length _ _) (by simp [different])
    rw [call_other different] at called
    have bounds := memcpy_some called
    exact ⟨nothing, bounds.1, bounds.2.1⟩
  · left
    have first := other_reached different copies some
    have last := other_reached different copies (Nat.sub_lt some Nat.one_pos)
    obtain ⟨dRange, dTurns, dScale, dPos⟩ := scale_natCast arguments.dIndex
    obtain ⟨sRange, sTurns, sScale, sPos⟩ := scale_natCast arguments.sIndex
    obtain ⟨lRange, lTurns, lScale, lPos⟩ := scale_natCast arguments.len
    generalize scale arguments.dIndex = dIndex, scale arguments.sIndex = sIndex,
      scale arguments.len = len at *
    unfold IsInt at dRange sRange lRange
    unfold Fits
    omega

theorem scale_of_fits {index : Nat} (fits : Fits index) : scale index = 8 * index := by
  obtain ⟨range, turns, scaled, positive⟩ := scale_natCast index
  unfold IsInt at range
  unfold Fits at fits
  omega

theorem scale_le (index : Nat) : scale index ≤ 8 * index := by
  obtain ⟨range, turns, scaled, positive⟩ := scale_natCast index
  omega

theorem scale_zero : scale (0 : Nat) = 0 :=
  scale_of_fits (by unfold Fits; omega)

theorem copied_unmoved {dest source : List UInt8} (nothing : arguments.len = 0) :
    arguments.Copied dest source dest := by
  refine ⟨rfl, ?_, fun _ _ _ _ _ => rfl⟩
  intro index within
  omega

theorem other_copies (different : arguments.same = false) (harmless : arguments.Harmless) :
    arguments.Copies := by
  intro dest source destLength sourceLength _
  have inDest := arguments.inDest
  have inSource := arguments.inSource
  rw [Harmless, if_neg (by simp [different])] at harmless
  rw [call_other different]
  rcases harmless with ⟨dFits, sFits, lenFits⟩ | ⟨nothing, dLower, sLower⟩
  · rw [scale_of_fits dFits, scale_of_fits sFits, scale_of_fits lenFits]
    obtain ⟨after, copied⟩ : ∃ after, memcpy dest (8 * arguments.dIndex) source
        (8 * arguments.sIndex) (8 * arguments.len) = some after :=
      ⟨_, if_pos (by omega)⟩
    refine ⟨after, copied, memcpy_length copied, ?_, ?_⟩
    · intro index within byte small
      rw [memcpy_getElem? copied, if_pos (by omega)]
      congr 1
      omega
    · intro index within outside byte small
      rw [memcpy_getElem? copied, if_neg (by omega)]
  · have dUpper := scale_le arguments.dIndex
    have sUpper := scale_le arguments.sIndex
    refine ⟨dest, ?_, copied_unmoved nothing⟩
    rw [nothing, scale_zero]
    exact memcpy_zero dLower (by omega) sLower (by omega)

theorem Copies.within (copies : arguments.Copies) (same : arguments.same = true) (element : Nat) :
    ∃ after, arguments.call (marked element arguments.destLen) (marked element arguments.destLen) =
        some after ∧
      arguments.Copied (marked element arguments.destLen) (marked element arguments.destLen) after :=
  copies _ _ (marked_length _ _) (by rw [marked_length, arguments.sameLength same]) (fun _ => rfl)

/-- Moving left, a single byte of the element after the last is moved as well. -/
theorem left_copies (same : arguments.same = true)
    (left : scale arguments.sIndex > scale arguments.dIndex) : ¬arguments.Copies := by
  intro copies
  have inDest := arguments.inDest
  have inSource := arguments.inSource
  have sameLength := arguments.sameLength same
  obtain ⟨dRange, dTurns, dTurned, dPos⟩ := scale_natCast arguments.dIndex
  obtain ⟨sRange, sTurns, sTurned, sPos⟩ := scale_natCast arguments.sIndex
  obtain ⟨nRange, nTurns, nTurned, nPos⟩ := scale_natCast arguments.destLen
  generalize dScaled : scale arguments.dIndex = dIndex at *
  generalize sScaled : scale arguments.sIndex = sIndex at *
  generalize destScaled : scale arguments.destLen = destLen at *
  have moved := fun (dest after : List UInt8) (called : arguments.call dest dest = some after) =>
    call_left dScaled sScaled destScaled same called left
  clear dScaled sScaled destScaled
  obtain ⟨start, called, -⟩ := copies.within same 0
  have bounds := (moved _ start called).1
  rw [marked_length] at bounds
  obtain ⟨last, lastEq⟩ : ∃ last : Nat, 8 * last = dIndex + destLen - sIndex :=
    ⟨((dIndex + destLen - sIndex) / 8).toNat, by omega⟩
  obtain ⟨beyond, beyondEq⟩ : ∃ beyond : Nat, 8 * beyond = destLen :=
    ⟨(destLen / 8).toNat, by omega⟩
  by_cases requested : arguments.dIndex ≤ last ∧ last < arguments.dIndex + arguments.len
  · obtain ⟨after, called, copied⟩ :=
      copies.within same (arguments.sIndex + (last - arguments.dIndex))
    have second := copied.range (last - arguments.dIndex) (by omega) 1 (by omega)
    rw [marked_element (by omega) (by omega), (moved _ _ called).2, if_neg (by omega)] at second
    have place := marked_eq_one second
    have sameIndex : arguments.dIndex = arguments.sIndex := by omega
    unfold IsInt at dRange sRange
    omega
  · obtain ⟨after, called, copied⟩ := copies.within same beyond
    have first := copied.others last (by omega) (by omega) 0 (by omega)
    rw [(moved _ _ called).2, if_pos (by omega)] at first
    have read : (sIndex + (8 * last + 0 : Nat) - dIndex).toNat = 8 * beyond + 0 := by omega
    rw [read, marked_element (by omega) (by omega)] at first
    have place := marked_eq_one first.symm
    omega

theorem still_harmless (same : arguments.same = true)
    (still : scale arguments.dIndex = scale arguments.sIndex) (copies : arguments.Copies) :
    arguments.dIndex = arguments.sIndex ∨ arguments.len = 0 := by
  have inDest := arguments.inDest
  have inSource := arguments.inSource
  have sameLength := arguments.sameLength same
  by_contra wanted
  rw [not_or] at wanted
  obtain ⟨different, some⟩ := wanted
  obtain ⟨after, called, copied⟩ := copies.within same arguments.sIndex
  have first := copied.range 0 (by omega) 0 (by omega)
  rw [call_still rfl rfl same called still, Nat.add_zero arguments.sIndex,
    marked_element (by omega) (by omega)] at first
  have place := marked_eq_one first
  omega

theorem right_harmless (same : arguments.same = true)
    (right : scale arguments.dIndex > scale arguments.sIndex) (copies : arguments.Copies) :
    0 ≤ scale arguments.sIndex ∧
      (arguments.len = 0 ∧ scale arguments.dIndex ≤ scale arguments.destLen ∨
        Fits (arguments.dIndex + arguments.len) ∧
          arguments.sIndex + arguments.len ≤ arguments.dIndex ∧
          scale arguments.destLen = scale arguments.dIndex) := by
  have inDest := arguments.inDest
  have inSource := arguments.inSource
  have sameLength := arguments.sameLength same
  obtain ⟨dRange, dTurns, dTurned, dPos⟩ := scale_natCast arguments.dIndex
  obtain ⟨sRange, sTurns, sTurned, sPos⟩ := scale_natCast arguments.sIndex
  obtain ⟨lenRange, lenTurns, lenTurned, lenPos⟩ := scale_natCast arguments.len
  obtain ⟨nRange, nTurns, nTurned, nPos⟩ := scale_natCast arguments.destLen
  generalize dScaled : scale arguments.dIndex = dIndex at *
  generalize sScaled : scale arguments.sIndex = sIndex at *
  generalize lenScaled : scale arguments.len = len at *
  generalize destScaled : scale arguments.destLen = destLen at *
  have moved := fun (dest after : List UInt8) (called : arguments.call dest dest = some after) =>
    call_right dScaled sScaled lenScaled destScaled same called right
  clear dScaled sScaled lenScaled destScaled
  obtain ⟨start, called, -⟩ := copies.within same 0
  have bounds := (moved _ start called).1
  rw [marked_length] at bounds
  refine ⟨bounds.1, ?_⟩
  rcases Nat.eq_zero_or_pos arguments.len with nothing | some
  · exact .inl ⟨nothing, bounds.2.2.1⟩
  right
  have reached : ∀ index < arguments.len, 8 * (arguments.dIndex + index) < len + destLen ∧
      (8 * (arguments.dIndex + index) < dIndex + len →
        (sIndex + (8 * (arguments.dIndex + index) + 0 : Nat) - dIndex).toNat / 8 =
          arguments.sIndex + index) := by
    intro index within
    obtain ⟨after, called, copied⟩ := copies.within same (arguments.sIndex + index)
    have range := copied.range index within 0 (by omega)
    rw [marked_element (by omega) (by omega), (moved _ _ called).2.2] at range
    split at range
    · exact ⟨by omega, fun _ => marked_eq_one range⟩
    split at range
    · exact ⟨by omega, by omega⟩
    · have place := marked_eq_one range
      have sameIndex : arguments.dIndex = arguments.sIndex := by omega
      unfold IsInt at dRange sRange
      omega
  have first := reached 0 some
  have last := reached (arguments.len - 1) (by omega)
  unfold IsInt at *
  have dTimes : dIndex = 8 * arguments.dIndex := by omega
  have lenTimes : len = 8 * arguments.len := by omega
  have sTimes : sIndex = 8 * arguments.sIndex := by omega
  refine ⟨by unfold Fits; omega, by omega, ?_⟩
  by_contra longer
  obtain ⟨after, called, copied⟩ := copies.within same arguments.dIndex
  have next := copied.others (arguments.dIndex + arguments.len) (by omega) (by omega) 0 (by omega)
  have read : ((8 * (arguments.dIndex + arguments.len) + 0 : Nat) - len).toNat =
      8 * arguments.dIndex + 0 := by omega
  rw [(moved _ _ called).2.2, if_neg (by omega), if_pos (by omega), read,
    marked_element (by omega) (by omega)] at next
  have place := marked_eq_one next.symm
  omega

theorem right_copies (same : arguments.same = true)
    (right : scale arguments.dIndex > scale arguments.sIndex)
    (lower : 0 ≤ scale arguments.sIndex)
    (harmless : arguments.len = 0 ∧ scale arguments.dIndex ≤ scale arguments.destLen ∨
      Fits (arguments.dIndex + arguments.len) ∧
        arguments.sIndex + arguments.len ≤ arguments.dIndex ∧
        scale arguments.destLen = scale arguments.dIndex) : arguments.Copies := by
  intro dest source destLength sourceLength snapshot
  rw [snapshot same]
  have inDest := arguments.inDest
  have upper := scale_le arguments.destLen
  have destRange := (scale_natCast arguments.destLen).1
  rcases harmless with ⟨nothing, reaches⟩ | ⟨fits, apart, ends⟩
  · have lenScaled : scale arguments.len = 0 := by rw [nothing, scale_zero]
    have sum : IsInt (scale arguments.dIndex + 0) := by
      rw [Int.add_zero]
      exact (scale_natCast arguments.dIndex).1
    obtain ⟨after, called⟩ := call_right_exists rfl rfl lenScaled rfl same dest dest right
      lower (Int.le_refl 0) reaches (.inl rfl) destRange sum (by omega)
    obtain ⟨-, -, moved⟩ := call_right rfl rfl lenScaled rfl same called right
    have unchanged : after = dest := by
      apply List.ext_getElem?
      intro index
      rw [moved, if_neg (by omega), Int.sub_zero, Int.toNat_natCast, ite_self]
    rw [unchanged] at called
    exact ⟨dest, called, copied_unmoved nothing⟩
  · have dScaled : scale arguments.dIndex = 8 * arguments.dIndex :=
      scale_of_fits (by unfold Fits at fits ⊢; omega)
    have sScaled : scale arguments.sIndex = 8 * arguments.sIndex :=
      scale_of_fits (by unfold Fits at fits ⊢; omega)
    have lenScaled : scale arguments.len = 8 * arguments.len :=
      scale_of_fits (by unfold Fits at fits ⊢; omega)
    rw [dScaled] at ends
    rw [dScaled, sScaled] at right
    have destFits : IsInt (8 * (arguments.dIndex : Int)) := by
      unfold Fits at fits
      constructor <;> omega
    have sum : IsInt (8 * (arguments.dIndex : Int) + 8 * arguments.len) := by
      unfold Fits at fits
      constructor <;> omega
    obtain ⟨after, called⟩ := call_right_exists dScaled sScaled lenScaled ends same dest dest
      right (by omega) (by omega) (by omega) (by omega) destFits sum (by omega)
    obtain ⟨-, length, moved⟩ := call_right dScaled sScaled lenScaled ends same called right
    refine ⟨after, called, length, ?_, ?_⟩
    · intro index within byte small
      have place : (8 * (arguments.sIndex : Int) + (8 * (arguments.dIndex + index) + byte : Nat) -
          8 * arguments.dIndex).toNat = 8 * (arguments.sIndex + index) + byte := by omega
      rw [moved, if_pos (by omega), place]
    · intro index within outside byte small
      rw [moved, if_neg (by omega), if_neg (by omega)]

/-- Shifting left reads past the array, and shifting right writes past it unless the array's
length in bytes wraps around to the destination's offset. -/
theorem copies_iff (arguments : CopyArguments) : arguments.Copies ↔ arguments.Harmless := by
  cases same : arguments.same with
  | false => exact ⟨other_harmless same, other_copies same⟩
  | true =>
      rw [Harmless, if_pos same]
      by_cases right : scale arguments.dIndex > scale arguments.sIndex
      · rw [if_pos right]
        exact ⟨right_harmless same right, fun harmless =>
          right_copies same right harmless.1 harmless.2⟩
      rw [if_neg right]
      constructor
      · intro copies
        by_cases left : scale arguments.sIndex > scale arguments.dIndex
        · exact absurd copies (left_copies same left)
        · have still := Int.le_antisymm (Int.not_lt.mp right) (Int.not_lt.mp left)
          exact ⟨still, still_harmless same still copies⟩
      · intro harmless
        obtain ⟨still, unmoved⟩ := harmless
        intro dest source destLength sourceLength snapshot
        rw [snapshot same]
        refine ⟨dest, by simp [call, arrayCopy, same, still], ?_⟩
        rcases unmoved with sameIndex | nothing
        · exact ⟨rfl, fun _ _ _ _ => by rw [sameIndex], fun _ _ _ _ _ => rfl⟩
        · exact copied_unmoved nothing

/-- Moving the first of two elements to the second writes past the array. -/
theorem shift_right_overflows :
    let arguments : CopyArguments := ⟨true, 2, 2, 1, 0, 1, by decide, by decide, by decide,
      by decide, by decide⟩
    ¬arguments.Copies := by
  intro arguments copies
  obtain ⟨after, called, -⟩ := copies (List.replicate 16 0) (List.replicate 16 0) rfl rfl
    (fun _ => rfl)
  have room := (call_right (scale_of_fits (by unfold Fits; decide))
    (scale_of_fits (by unfold Fits; decide)) (scale_of_fits (by unfold Fits; decide))
    (scale_of_fits (by unfold Fits; decide)) rfl called (by decide)).1.2.2.2.2.2
  exact absurd room (by decide)

end CopyArguments

end NovaC.Arrays
