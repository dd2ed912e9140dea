import NovaC.Arrays.Copy
import NovaC.C.Buffer

namespace NovaC.Traces

open NovaC.C

/-! The loop of `addr2line` in `NovaExceptionHandling.c`, with the lines that `fgets`
delivers, and its calls of `arrayCopy`.

Nothing outside a block is read or written; where the program would, the result is `none`.
-/

/-- A string that `fgets(buf, 1024, fp)` leaves in `buf`. -/
structure Line where
  text : List UInt8
  nulFree : 0 ∉ text
  short : text.length ≤ 1023
deriving DecidableEq

def output (lines : List Line) : List UInt8 :=
  lines.flatMap Line.text

/-- `index *= size`, with `sizeof(dest)` as a parameter -/
def scaleBy (pointerSize : Nat) (index : Int) : Int :=
  toInt (toSize (toSize index * pointerSize))

/-- `arrayCopy` between two blocks, where `destLen` is not used. -/
def arrayCopyApart (pointerSize : Nat) (dest : Buffer) (dIndex : Int) (src : Buffer)
    (sIndex len : Int) : Option Buffer :=
  dest.memcpy (scaleBy pointerSize dIndex) src (scaleBy pointerSize sIndex)
    (scaleBy pointerSize len)

/-- What `fgets` did not write in `buf` stays. -/
def fgets (buf : Buffer) (line : Line) : Buffer :=
  Buffer.ofString line.text ++ buf.drop (line.text.length + 1)

structure Reading where
  outbuf : Buffer
  pos : Int
  buf : Buffer
deriving DecidableEq

/-- One round of the loop. -/
def Reading.append (pointerSize : Nat) (reading : Reading) (line : Line) : Option Reading := do
  let buf := fgets reading.buf line
  let text ← buf.cString
  let len := toInt text.length
  let size ← addInt (← addInt reading.pos len) 1
  let outbuf := reading.outbuf.realloc (toSize size)
  let outbuf ← arrayCopyApart pointerSize outbuf reading.pos buf 0 len
  let pos ← addInt reading.pos len
  some { outbuf := outbuf, pos := pos, buf := buf }

def Reading.start : Reading :=
  { outbuf := Buffer.malloc 0, pos := 0, buf := Buffer.malloc 1024 }

def addr2line (pointerSize : Nat) (lines : List Line) : Option Buffer := do
  let reading ← lines.foldlM (Reading.append pointerSize) Reading.start
  reading.outbuf.store reading.pos 0

/-- `arrayCopy` of `NovaC.Arrays`, whose pointers have eight bytes, on blocks without
unwritten bytes. -/
theorem arrayCopyApart_eight (dest source : List UInt8) (dIndex sIndex len destLen : Int) :
    arrayCopyApart 8 (dest.map some) dIndex (source.map some) sIndex len =
      (Arrays.arrayCopy dest dIndex (.other source) sIndex len destLen).map (List.map some) := by
  have sameScale : ∀ index, scaleBy 8 index = Arrays.scale index := fun _ => rfl
  simp only [arrayCopyApart, Arrays.arrayCopy, Arrays.memcpy, Buffer.memcpy, sameScale,
    List.length_map]
  split
  · simp only [Option.map_some, List.map_append, List.map_take, List.map_drop]
  · rfl

/-- What the copy of a line puts behind the copies before it. -/
def Chunk (pointerSize : Nat) (line : Line) (chunk : Buffer) : Prop :=
  chunk.length = scaleBy pointerSize line.text.length ∧
    ∃ rest, chunk = (Buffer.ofString line.text ++ rest).take chunk.length

/-- The copies follow one another; behind them nothing is written. -/
structure Written (pointerSize : Nat) (lines : List Line) (reading : Reading) (chunks : List Buffer)
    (unwritten : Nat) : Prop where
  pos : reading.pos = (output lines).length
  buf : reading.buf.length = 1024
  room : reading.outbuf.length ≤ (output lines).length + 1
  pieces : List.Forall₂ (Chunk pointerSize) lines chunks
  outbuf : reading.outbuf = chunks.flatten ++ List.replicate unwritten none
  scaled : chunks.flatten.length = scaleBy pointerSize (output lines).length
  fits : (output lines).length + 1 < 2147483648

/-- For every line the byte count that `arrayCopy` computes is its length; for the last
one with any text it may include the NUL. -/
def Counts (pointerSize : Nat) : List Line → Prop
  | [] => True
  | line :: lines =>
      scaleBy pointerSize line.text.length = line.text.length ∧ Counts pointerSize lines ∨
        scaleBy pointerSize line.text.length = line.text.length + 1 ∧
          ∀ later ∈ lines, later.text = []

section Scaling

variable {pointerSize : Nat}

theorem toInt_congr {value other : Int} (same : value % 4294967296 = other % 4294967296) :
    toInt value = toInt other := by
  rw [toInt, toInt, Int.bmod_def, Int.bmod_def]
  omega

theorem scaleBy_natCast (pointerSize count : Nat) :
    scaleBy pointerSize count = toInt (count * pointerSize) := by
  have wrapped : count % 18446744073709551616 * pointerSize % 4294967296 =
      count * pointerSize % 4294967296 :=
    ((Nat.mod_modEq count 18446744073709551616).of_dvd (by decide)).mul_right pointerSize
  rw [scaleBy, toSize_natCast, ← Int.natCast_mul, toSize_natCast, ← Int.natCast_mul]
  apply toInt_congr
  omega

theorem scaleBy_add {left right start count : Nat} (leftScaled : scaleBy pointerSize left = start)
    (rightScaled : scaleBy pointerSize right = count) (fits : start + count < 2147483648) :
    scaleBy pointerSize ((left + right : Nat) : Int) = ((start + count : Nat) : Int) := by
  obtain ⟨-, turns, leftTurned⟩ := toInt_spec (left * pointerSize : Int)
  obtain ⟨-, turns', rightTurned⟩ := toInt_spec (right * pointerSize : Int)
  obtain ⟨range, turns'', turned⟩ := toInt_spec ((left + right : Nat) * pointerSize : Int)
  unfold IsInt at range
  rw [Int.natCast_add, Int.add_mul] at turned range
  rw [scaleBy_natCast] at leftScaled rightScaled
  rw [scaleBy_natCast, Int.natCast_add, Int.add_mul]
  omega

theorem scaleBy_zero (pointerSize : Nat) : scaleBy pointerSize (0 : Nat) = 0 := by
  rw [scaleBy_natCast, Int.natCast_zero, Int.zero_mul]
  rfl

theorem Counts.of_empty {lines : List Line} (empty : ∀ line ∈ lines, line.text = []) :
    Counts pointerSize lines := by
  induction lines with
  | nil => trivial
  | cons line lines ih =>
      rw [List.forall_mem_cons] at empty
      rw [Counts, empty.1]
      exact .inl ⟨scaleBy_zero pointerSize, ih empty.2⟩

end Scaling

@[simp] theorem output_nil : output [] = [] :=
  rfl

@[simp] theorem output_cons (line : Line) (lines : List Line) :
    output (line :: lines) = line.text ++ output lines :=
  List.flatMap_cons

theorem output_append_singleton (lines : List Line) (line : Line) :
    output (lines ++ [line]) = output lines ++ line.text := by
  rw [output, output, List.flatMap_append, List.flatMap_singleton]

theorem output_nulFree (lines : List Line) : 0 ∉ output lines := by
  intro member
  obtain ⟨line, -, inside⟩ := List.mem_flatMap.mp member
  exact line.nulFree inside

theorem fgets_length {buf : Buffer} (whole : buf.length = 1024) (line : Line) :
    (fgets buf line).length = 1024 := by
  have short := line.short
  simp only [fgets, Buffer.ofString, List.length_append, List.length_map, List.length_singleton,
    List.length_drop]
  omega

theorem fgets_cString (buf : Buffer) (line : Line) : (fgets buf line).cString = some line.text := by
  rw [fgets, Buffer.ofString, List.append_assoc]
  exact Buffer.cString_append line.nulFree _

section Round

variable {pointerSize count : Nat} {reading after : Reading} {line : Line}

/-- One round, where `pos` is at `count`. -/
theorem append_iff (pos : reading.pos = count) :
    reading.append pointerSize line = some after ↔
      count + line.text.length + 1 < 2147483648 ∧ ∃ outbuf,
        (reading.outbuf.realloc (count + line.text.length + 1)).memcpy (scaleBy pointerSize count)
          (fgets reading.buf line) 0 (scaleBy pointerSize line.text.length) = some outbuf ∧
        after = ⟨outbuf, (count + line.text.length : Nat), fgets reading.buf line⟩ := by
  have short := line.short
  have len : toInt line.text.length = line.text.length := toInt_of_isInt ⟨by omega, by omega⟩
  have zero := scaleBy_zero pointerSize
  rw [Int.natCast_zero] at zero
  have unfolded : reading.append pointerSize line =
      (addInt count line.text.length).bind fun pos => (addInt pos 1).bind fun size =>
        ((reading.outbuf.realloc (toSize size)).memcpy (scaleBy pointerSize count)
          (fgets reading.buf line) 0 (scaleBy pointerSize line.text.length)).bind fun outbuf =>
            (addInt count line.text.length).bind fun pos =>
              some ⟨outbuf, pos, fgets reading.buf line⟩ := by
    rw [Reading.append, fgets_cString]
    simp only [Option.bind_eq_bind, Option.bind_some]
    rw [pos, len]
    simp only [arrayCopyApart, zero]
  rw [unfolded]
  constructor
  · intro appended
    simp only [Option.bind_eq_some_iff] at appended
    obtain ⟨moved, added, size, sized, outbuf, copied, pos, sum, same⟩ := appended
    cases added.symm.trans sum
    obtain ⟨rfl, -⟩ := addInt_some added
    obtain ⟨rfl, upper⟩ := addInt_some sized
    have fits : count + line.text.length + 1 < 2147483648 := by
      have := upper.2
      omega
    have asSize : toSize ((count : Int) + line.text.length + 1) = count + line.text.length + 1 := by
      unfold toSize
      omega
    rw [asSize] at copied
    exact ⟨fits, outbuf, copied, (Option.some.inj same).symm⟩
  · intro appended
    obtain ⟨fits, outbuf, copied, rfl⟩ := appended
    have moved : addInt count line.text.length = some ((count + line.text.length : Nat) : Int) :=
      addInt_natCast (by omega)
    have sized : addInt ((count + line.text.length : Nat) : Int) 1 =
        some ((count + line.text.length + 1 : Nat) : Int) :=
      addInt_natCast fits
    have asSize : toSize ((count + line.text.length + 1 : Nat) : Int) =
        count + line.text.length + 1 := by
      rw [toSize_natCast, Nat.mod_eq_of_lt (by omega)]
    rw [moved, Option.bind_some, sized, Option.bind_some, asSize, copied]
    rfl

theorem Written.append {lines : List Line} {chunks : List Buffer} {unwritten : Nat}
    (written : Written pointerSize lines reading chunks unwritten)
    (appended : reading.append pointerSize line = some after) :
    ∃ chunk unwritten, Written pointerSize (lines ++ [line]) after (chunks ++ [chunk]) unwritten := by
  obtain ⟨fits, outbuf, copied, rfl⟩ := (append_iff written.pos).mp appended
  have room := written.room
  have whole := fgets_length written.buf line
  rw [Buffer.realloc_of_le (by omega), written.outbuf, List.append_assoc,
    List.replicate_append_replicate, ← written.outbuf, ← written.scaled] at copied
  obtain ⟨⟨-, lower, inTarget, inSource⟩, rfl⟩ := Buffer.memcpy_start copied
  obtain ⟨size, counted⟩ := Int.eq_ofNat_of_zero_le lower
  have chunkLength : ((fgets reading.buf line).take size).length = size := by
    rw [List.length_take]
    omega
  have sameOutput : (output (lines ++ [line])).length =
      (output lines).length + line.text.length := by
    rw [output_append_singleton, List.length_append]
  have sizes := congrArg List.length written.outbuf
  rw [counted] at inTarget
  rw [List.length_append, List.length_replicate] at sizes inTarget
  refine ⟨(fgets reading.buf line).take size,
    unwritten + ((output lines).length + line.text.length + 1 - reading.outbuf.length) - size, ?_⟩
  rw [counted, ← Int.natCast_add, Int.toNat_natCast, Int.toNat_natCast, Int.toNat_natCast,
    List.take_left, List.drop_append, List.drop_replicate, List.drop_eq_nil_of_le (by omega),
    List.nil_append]
  have flat : (chunks ++ [(fgets reading.buf line).take size]).flatten =
      chunks.flatten ++ (fgets reading.buf line).take size := by
    rw [List.flatten_append, List.flatten_singleton]
  refine ⟨?_, whole, ?_, ?_, ?_, ?_, ?_⟩
  · rw [sameOutput]
  · rw [sameOutput]
    simp only [List.length_append, chunkLength, List.length_replicate]
    omega
  · refine List.rel_append written.pieces (.cons ⟨?_, reading.buf.drop (line.text.length + 1), ?_⟩ .nil)
    · rw [chunkLength, counted]
    · rw [chunkLength]
      rfl
  · have remaining : unwritten + ((output lines).length + line.text.length + 1 -
        reading.outbuf.length) - (chunks.flatten.length + size - chunks.flatten.length) =
        unwritten + ((output lines).length + line.text.length + 1 - reading.outbuf.length) -
          size := by
      rw [Nat.add_sub_cancel_left]
    rw [flat, List.append_assoc, remaining]
  · have inside : chunks.flatten.length + size < 2147483648 := by omega
    rw [flat, List.length_append, chunkLength, sameOutput,
      scaleBy_add written.scaled.symm counted inside]
  · rw [sameOutput]
    exact fits

theorem Written.run {before lines : List Line} {chunks : List Buffer} {unwritten : Nat}
    (written : Written pointerSize before reading chunks unwritten)
    (ran : lines.foldlM (Reading.append pointerSize) reading = some after) :
    ∃ chunks unwritten, Written pointerSize (before ++ lines) after chunks unwritten := by
  induction lines generalizing before reading chunks unwritten with
  | nil =>
      cases ran
      rw [List.append_nil]
      exact ⟨chunks, unwritten, written⟩
  | cons line lines ih =>
      rw [List.foldlM_cons] at ran
      obtain ⟨next, appended, rest⟩ := Option.bind_eq_some_iff.mp ran
      obtain ⟨chunk, unwritten, nextWritten⟩ := written.append appended
      obtain ⟨chunks, unwritten, afterWritten⟩ := ih nextWritten rest
      rw [List.append_assoc, List.singleton_append] at afterWritten
      exact ⟨chunks, unwritten, afterWritten⟩

end Round

/-- A copy that is longer than its line has the line's NUL in it. -/
theorem Chunk.cases {pointerSize : Nat} {line : Line} {chunk : Buffer}
    (piece : Chunk pointerSize line chunk) :
    chunk.length ≤ line.text.length ∨
      ∃ more, chunk = line.text.map some ++ some 0 :: more := by
  obtain ⟨-, rest, taken⟩ := piece
  rcases Nat.lt_or_ge line.text.length chunk.length with long | short
  · right
    obtain ⟨more, longer⟩ := Nat.exists_eq_add_of_lt long
    refine ⟨rest.take more, ?_⟩
    rw [longer, Buffer.ofString, List.append_assoc, Nat.add_assoc, List.take_append,
      List.length_map, Nat.add_sub_cancel_left, List.take_of_length_le
        (by rw [List.length_map]; omega)] at taken
    rw [taken, List.singleton_append, List.take_succ_cons]
  · exact .inl short

/-- If the copies are the text, and at most one byte more, then they are as long as
the lines, up to the NUL of the last one. -/
theorem counts_of_flatten {pointerSize : Nat} {lines : List Line} {chunks : List Buffer}
    {body tail : Buffer} (pieces : List.Forall₂ (Chunk pointerSize) lines chunks)
    (whole : chunks.flatten = body ++ tail) (atMostOne : tail.length ≤ 1)
    (nulFree : some 0 ∉ body) (long : (output lines).length ≤ body.length) :
    body.length = (output lines).length ∧ Counts pointerSize lines := by
  induction pieces generalizing body with
  | nil =>
      rw [List.flatten_nil] at whole
      obtain ⟨rfl, -⟩ := List.nil_eq_append_iff.mp whole
      exact ⟨rfl, trivial⟩
  | @cons line chunk lines chunks piece pieces ih =>
      rw [output_cons, List.length_append] at long ⊢
      rw [List.flatten_cons] at whole
      rcases piece.cases with short | ⟨more, exceeds⟩
      · obtain ⟨body', rfl⟩ : ∃ body', body = chunk ++ body' := by
          rcases List.append_eq_append_iff.mp whole with ⟨body', rfl, -⟩ | ⟨more, rfl, -⟩
          · exact ⟨body', rfl⟩
          · rw [List.length_append] at short
            have nothing : more = [] := List.length_eq_zero_iff.mp (by omega)
            exact ⟨[], by rw [nothing, List.append_nil, List.append_nil]⟩
        rw [List.append_assoc] at whole
        rw [List.length_append] at long ⊢
        rw [List.mem_append, not_or] at nulFree
        obtain ⟨sameLength, counts⟩ := ih (List.append_cancel_left whole) nulFree.2 (by omega)
        have exact : chunk.length = line.text.length := by omega
        exact ⟨by omega, .inl ⟨by rw [← piece.1, exact], counts⟩⟩
      · have notLonger : body.length ≤ line.text.length := by
          apply Nat.le_of_not_lt
          intro longer
          have atNul : (body ++ tail)[line.text.length]? = some (some 0) := by
            rw [← whole, exceeds, List.append_assoc, List.getElem?_append_right (by simp)]
            simp
          rw [List.getElem?_append_left longer] at atNul
          exact nulFree (List.mem_of_getElem? atNul)
        have nothingLater : output lines = [] := List.length_eq_zero_iff.mp (by omega)
        have sizes := congrArg List.length whole
        rw [exceeds] at sizes
        simp only [List.length_append, List.length_map, List.length_cons] at sizes
        have exact : chunk.length = line.text.length + 1 := by
          rw [exceeds]
          simp only [List.length_append, List.length_map, List.length_cons]
          omega
        refine ⟨by omega, .inr ⟨by rw [← piece.1, exact]; rfl, ?_⟩⟩
        exact List.flatMap_eq_nil_iff.mp nothingLater

theorem start_buf_length : Reading.start.buf.length = 1024 :=
  List.length_replicate

theorem take_copied (body piece gone after : Buffer) {count : Nat} (least : piece.length ≤ count) :
    (body ++ ((piece ++ gone).take count ++ after)).take (body.length + piece.length) =
      body ++ piece := by
  rw [List.take_length_add_append, List.take_append_of_le_length
    (by rw [List.length_take, List.length_append]; omega), List.take_take, Nat.min_eq_left least,
    List.take_left]

section Whole

variable {pointerSize : Nat} {lines : List Line}

theorem start_written (pointerSize : Nat) : Written pointerSize [] Reading.start [] 0 where
  pos := rfl
  buf := start_buf_length
  room := Nat.zero_le 1
  pieces := .nil
  outbuf := rfl
  scaled := (scaleBy_zero pointerSize).symm
  fits := by decide

theorem store_last {outbuf after : Buffer} {count : Nat} (room : outbuf.length ≤ count + 1)
    (stored : outbuf.store count 0 = some after) :
    count < outbuf.length ∧ after = outbuf.take count ++ [some 0] := by
  rw [Buffer.store, Buffer.storeAll] at stored
  split at stored
  · rename_i inside
    cases stored
    have exact : outbuf.length = count + 1 := by
      have := inside.2
      rw [List.length_singleton] at this
      omega
    rw [Int.toNat_natCast, List.length_singleton, ← exact, List.drop_length, List.append_nil]
    exact ⟨by omega, rfl⟩
  · cases stored

theorem counts_of_output (ran : addr2line pointerSize lines =
      some (Buffer.ofString (output lines))) :
    lines ≠ [] ∧ (output lines).length + 1 < 2147483648 ∧ Counts pointerSize lines := by
  obtain ⟨reading, folded, stored⟩ := Option.bind_eq_some_iff.mp ran
  obtain ⟨chunks, unwritten, written⟩ := (start_written pointerSize).run folded
  rw [List.nil_append] at written
  rw [written.pos] at stored
  obtain ⟨inside, same⟩ := store_last written.room stored
  have text : reading.outbuf.take (output lines).length = (output lines).map some :=
    (List.append_cancel_right same).symm
  have room := written.room
  have sizes := congrArg List.length written.outbuf
  rw [List.length_append, List.length_replicate] at sizes
  have allWritten : (output lines).length ≤ chunks.flatten.length := by
    apply Nat.le_of_not_lt
    intro fewer
    have unwrittenCell : reading.outbuf[chunks.flatten.length]? = some none := by
      rw [written.outbuf, List.getElem?_append_right (Nat.le_refl _), Nat.sub_self,
        List.getElem?_replicate_of_lt (by omega)]
    rw [← List.getElem?_take_of_lt fewer, text] at unwrittenCell
    obtain ⟨byte, -, other⟩ := List.mem_map.mp (List.mem_of_getElem? unwrittenCell)
    cases other
  have whole : chunks.flatten =
      (output lines).map some ++ chunks.flatten.drop (output lines).length := by
    rw [← text, written.outbuf, List.take_append_of_le_length allWritten, List.take_append_drop]
  have nulFree : some 0 ∉ (output lines).map some := by
    intro member
    obtain ⟨byte, inText, isNul⟩ := List.mem_map.mp member
    cases isNul
    exact output_nulFree lines inText
  refine ⟨?_, written.fits, ?_⟩
  · rintro rfl
    cases folded
    exact absurd inside (by decide)
  · exact (counts_of_flatten written.pieces whole (by rw [List.length_drop]; omega) nulFree
      (by rw [List.length_map])).2

/-- The text of the lines before is there, and the lines still to come are copied behind it. -/
structure Ready (pointerSize : Nat) (before lines : List Line) (reading : Reading) : Prop where
  pos : reading.pos = (output before).length
  buf : reading.buf.length = 1024
  room : reading.outbuf.length ≤ (output before).length + 1
  terminator : before ≠ [] → (output before).length < reading.outbuf.length
  text : reading.outbuf.take (output before).length = (output before).map some
  counts : scaleBy pointerSize (output before).length = (output before).length ∧
      Counts pointerSize lines ∨
    scaleBy pointerSize (output before).length = (output before).length + 1 ∧
      ∀ line ∈ lines, line.text = []

theorem append_some {reading : Reading} {line : Line} {length position count : Nat}
    (pos : reading.pos = length) (buf : reading.buf.length = 1024)
    (fits : length + line.text.length + 1 < 2147483648)
    (room : reading.outbuf.length ≤ length + line.text.length + 1)
    (positioned : scaleBy pointerSize length = position)
    (counted : scaleBy pointerSize line.text.length = count)
    (inTarget : position + count ≤ length + line.text.length + 1) (inSource : count ≤ 1024) :
    ∃ grown : Buffer, grown.length = length + line.text.length + 1 ∧
      (∀ size ≤ reading.outbuf.length, grown.take size = reading.outbuf.take size) ∧
      reading.append pointerSize line = some
        ⟨grown.take position ++ ((fgets reading.buf line).take count ++
          grown.drop (position + count)), (length + line.text.length : Nat),
          fgets reading.buf line⟩ := by
  refine ⟨reading.outbuf.realloc (length + line.text.length + 1), ?_, ?_, ?_⟩
  · rw [Buffer.realloc_of_le room, List.length_append, List.length_replicate]
    omega
  · intro size within
    rw [Buffer.realloc_of_le room, List.take_append_of_le_length within]
  · refine (append_iff pos).mpr ⟨fits, _, ?_, rfl⟩
    rw [positioned, counted]
    apply Buffer.memcpy_start_of_bounds
    · rw [Buffer.realloc_of_le room, List.length_append, List.length_replicate]
      omega
    · rw [fgets_length buf]
      exact inSource

section Appending

variable {before : List Line} {line : Line} {reading : Reading}

theorem Ready.inBlock (ready : Ready pointerSize before lines reading) :
    (output before).length ≤ reading.outbuf.length := by
  have sizes := congrArg List.length ready.text
  rw [List.length_take, List.length_map] at sizes
  omega

/-- The line is copied to the end of the text, and perhaps its NUL with it. -/
theorem Ready.append_line (ready : Ready pointerSize before (line :: lines) reading)
    (fits : (output before).length + line.text.length + 1 < 2147483648)
    (positioned : scaleBy pointerSize (output before).length = (output before).length)
    {count : Nat} (counted : scaleBy pointerSize line.text.length = count)
    (later : count = line.text.length ∧ Counts pointerSize lines ∨
      count = line.text.length + 1 ∧ ∀ line ∈ lines, line.text = []) :
    ∃ after, reading.append pointerSize line = some after ∧
      Ready pointerSize (before ++ [line]) lines after := by
  have short := line.short
  have room := ready.room
  have whole := fgets_length ready.buf line
  obtain ⟨grown, grownLength, kept, appended⟩ :=
    append_some ready.pos ready.buf fits (by omega) positioned counted (by omega) (by omega)
  have inside : (output before).length + count < 2147483648 := by omega
  have scaled := scaleBy_add positioned counted inside
  have sameOutput : (output (before ++ [line])).length =
      (output before).length + line.text.length := by
    rw [output_append_singleton, List.length_append]
  have sizes : (grown.take (output before).length ++ ((fgets reading.buf line).take count ++
      grown.drop ((output before).length + count))).length =
        (output before).length + line.text.length + 1 := by
    simp only [List.length_append, List.length_take, List.length_drop]
    omega
  refine ⟨_, appended, ?_, whole, ?_, ?_, ?_, ?_⟩
  · rw [sameOutput]
  · rw [sameOutput, sizes]
  · intro _
    rw [sameOutput, sizes]
    exact Nat.lt_succ_self _
  · have enough : (line.text.map some).length ≤ count := by
      rw [List.length_map]
      omega
    have copied := take_copied ((output before).map some) (line.text.map some)
      ([some 0] ++ reading.buf.drop (line.text.length + 1))
      (grown.drop ((output before).length + count)) enough
    rw [List.length_map, List.length_map] at copied
    rw [sameOutput, output_append_singleton, kept _ ready.inBlock, ready.text, List.map_append,
      fgets, Buffer.ofString, List.append_assoc (line.text.map some)]
    exact copied
  · rw [sameOutput]
    rcases later with ⟨rfl, counts⟩ | ⟨rfl, empty⟩
    · exact .inl ⟨scaled, counts⟩
    · exact .inr ⟨scaled, empty⟩

/-- Everything is copied, with a NUL, and an empty line adds nothing. -/
theorem Ready.append_empty (ready : Ready pointerSize before (line :: lines) reading)
    (fits : (output before).length + line.text.length + 1 < 2147483648)
    (positioned : scaleBy pointerSize (output before).length = (output before).length + 1)
    (nothing : line.text = []) (empty : ∀ line ∈ lines, line.text = []) :
    ∃ after, reading.append pointerSize line = some after ∧
      Ready pointerSize (before ++ [line]) lines after := by
  have room := ready.room
  have counted : scaleBy pointerSize line.text.length = (0 : Nat) := by
    rw [nothing]
    exact scaleBy_zero pointerSize
  have atEnd : scaleBy pointerSize (output before).length =
      ((output before).length + 1 : Nat) := positioned
  obtain ⟨grown, grownLength, kept, appended⟩ :=
    append_some ready.pos ready.buf fits (by omega) atEnd counted (by omega) (by omega)
  rw [List.take_zero, List.nil_append, Nat.add_zero, List.take_append_drop] at appended
  have unchanged : output (before ++ [line]) = output before := by
    rw [output_append_singleton, nothing, List.append_nil]
  rw [nothing, List.length_nil, Nat.add_zero] at grownLength appended
  refine ⟨_, appended, ?_, fgets_length ready.buf line, ?_, ?_, ?_, ?_⟩
  · rw [unchanged]
  · rw [unchanged, grownLength]
  · intro _
    rw [unchanged, grownLength]
    exact Nat.lt_succ_self _
  · rw [unchanged, kept _ ready.inBlock, ready.text]
  · rw [unchanged]
    exact .inr ⟨positioned, empty⟩

theorem Ready.append (ready : Ready pointerSize before (line :: lines) reading)
    (fits : (output before).length + line.text.length + 1 < 2147483648) :
    ∃ after, reading.append pointerSize line = some after ∧
      Ready pointerSize (before ++ [line]) lines after := by
  rcases ready.counts with ⟨positioned, counts⟩ | ⟨positioned, empty⟩
  · rcases counts with ⟨exact, counts⟩ | ⟨longer, empty⟩
    · exact ready.append_line fits positioned exact (.inl ⟨rfl, counts⟩)
    · exact @Ready.append_line _ _ _ _ _ ready fits positioned (line.text.length + 1) longer
        (.inr ⟨rfl, empty⟩)
  · rw [List.forall_mem_cons] at empty
    exact ready.append_empty fits positioned empty.1 empty.2

end Appending

theorem Ready.run {before : List Line} {reading : Reading}
    (ready : Ready pointerSize before lines reading)
    (fits : (output before).length + (output lines).length + 1 < 2147483648) :
    ∃ after, lines.foldlM (Reading.append pointerSize) reading = some after ∧
      Ready pointerSize (before ++ lines) [] after := by
  induction lines generalizing before reading with
  | nil =>
      rw [List.append_nil]
      exact ⟨reading, rfl, ready⟩
  | cons line lines ih =>
      rw [output_cons, List.length_append] at fits
      obtain ⟨next, appended, nextReady⟩ := ready.append (by omega)
      obtain ⟨after, folded, afterReady⟩ := ih nextReady (by
        rw [output_append_singleton, List.length_append]
        omega)
      rw [List.append_assoc, List.singleton_append] at afterReady
      refine ⟨after, ?_, afterReady⟩
      rw [List.foldlM_cons, appended]
      exact folded

theorem output_of_counts (nonempty : lines ≠ [])
    (fits : (output lines).length + 1 < 2147483648) (counts : Counts pointerSize lines) :
    addr2line pointerSize lines = some (Buffer.ofString (output lines)) := by
  have started : Ready pointerSize [] lines Reading.start :=
    { pos := rfl
      buf := start_buf_length
      room := Nat.zero_le 1
      terminator := fun contradictory => absurd rfl contradictory
      text := rfl
      counts := .inl ⟨scaleBy_zero pointerSize, counts⟩ }
  obtain ⟨after, folded, ready⟩ := started.run (by rwa [output_nil, List.length_nil, Nat.zero_add])
  rw [List.nil_append] at ready
  have room := ready.room
  have inside := ready.terminator nonempty
  have exact : after.outbuf.length = (output lines).length + 1 := by omega
  rw [addr2line, folded]
  change after.outbuf.store after.pos 0 = _
  rw [ready.pos, Buffer.store, Buffer.storeAll, if_pos
    ⟨Int.natCast_nonneg _, by rw [Int.toNat_natCast, List.length_singleton]; omega⟩]
  rw [Int.toNat_natCast, ready.text, List.length_singleton, ← exact, List.drop_length,
    List.append_nil]
  rfl

end Whole

/-- The output is complete, and nothing outside a block is written, exactly when there is
a line, the output is not too long for `pos`, and the copies are as long as the lines. -/
theorem addr2line_output_iff (pointerSize : Nat) (lines : List Line) :
    addr2line pointerSize lines = some (Buffer.ofString (output lines)) ↔
      lines ≠ [] ∧ (output lines).length + 1 < 2147483648 ∧ Counts pointerSize lines := by
  constructor
  · exact counts_of_output
  · intro condition
    exact output_of_counts condition.1 condition.2.1 condition.2.2

/-- With the pointers of any real machine every line has to be empty. -/
theorem counts_iff_empty {pointerSize : Nat} {lines : List Line} (several : 3 ≤ pointerSize)
    (small : 1023 * pointerSize < 2147483648) :
    Counts pointerSize lines ↔ ∀ line ∈ lines, line.text = [] := by
  constructor
  · intro counts
    induction lines with
    | nil =>
        intro line member
        cases member
    | cons line lines ih =>
        have bytes : line.text.length * pointerSize ≤ 1023 * pointerSize :=
          Nat.mul_le_mul_right pointerSize line.short
        have scaled : scaleBy pointerSize line.text.length =
            ((line.text.length * pointerSize : Nat) : Int) := by
          rw [scaleBy_natCast, ← Int.natCast_mul]
          exact toInt_of_isInt ⟨by omega, by omega⟩
        have least := Nat.mul_le_mul_left line.text.length several
        rw [Counts, scaled] at counts
        rw [List.forall_mem_cons]
        rcases counts with ⟨exact, counts⟩ | ⟨longer, empty⟩
        · exact ⟨List.length_eq_zero_iff.mp (by omega), ih counts⟩
        · exact ⟨List.length_eq_zero_iff.mp (by omega), empty⟩
  · exact Counts.of_empty

-- without a line the terminator is written behind a block of no bytes
example : addr2line 8 [] = none := by decide

/-- A line of one character: eight bytes are copied into a block of two. -/
theorem short_line_overflows :
    ¬addr2line 8 [⟨[63], by decide, by decide⟩] =
      some (Buffer.ofString (output [⟨[63], by decide, by decide⟩])) := by
  intro complete
  have counts := (counts_of_output complete).2.2
  rw [counts_iff_empty (by decide) (by decide)] at counts
  exact absurd (counts _ (List.mem_singleton_self _)) (by decide)

end NovaC.Traces
