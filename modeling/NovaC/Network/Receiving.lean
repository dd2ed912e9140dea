import NovaC.Network.NativeSocket

namespace NovaC.Network

open NovaC.C

/-! What `nova_socket_receive` makes of the reads.

All reads but the last one fill the buffer, so the bytes read so far lie together
at its start.
-/

namespace Receiving

variable {read chunk : List UInt8} {rest : Buffer} {count total offset : Int}

/-- The state with these bytes at the start of the message. -/
def holding (read : List UInt8) (rest : Buffer) (count total offset : Int) : Receiving where
  message := read.map some ++ rest
  messageLength := (read.length + rest.length : Nat)
  count := count
  total := total
  offset := offset

theorem holding_length (read : List UInt8) (rest : Buffer) :
    (read.map some ++ rest).length = read.length + rest.length := by
  rw [List.length_append, List.length_map]

@[simp] theorem holding_message :
    (holding read rest count total offset).message = read.map some ++ rest := rfl

@[simp] theorem holding_messageLength :
    (holding read rest count total offset).messageLength = (read.length + rest.length : Nat) := rfl

theorem grow_holding (fits : read.length + rest.length + 128 < 2147483648) :
    (holding read rest count total offset).grow =
      some (holding read (rest ++ List.replicate 128 none) count total offset) := by
  have length : addInt ((read.length + rest.length : Nat) : Int) bufSize =
      some ((read.length + rest.length + 128 : Nat) : Int) := addInt_natCast fits
  have size : toSize ((read.length + rest.length + 128 : Nat) : Int) =
      (read.map some ++ rest).length + 128 := by
    rw [toSize_natCast, holding_length]
    omega
  rw [grow, holding_messageLength, length, Option.bind_eq_bind, Option.bind_some, size,
    holding_message, Buffer.realloc_grow, holding, holding, List.append_assoc, List.length_append,
    List.length_replicate, Nat.add_assoc]

theorem grow_some {after : Receiving}
    (grown : (holding read rest count total offset).grow = some after) :
    read.length + rest.length + 128 < 2147483648 := by
  rw [grow, holding_messageLength] at grown
  cases added : addInt ((read.length + rest.length : Nat) : Int) bufSize with
  | none =>
      rw [added] at grown
      cases grown
  | some length =>
      obtain ⟨sum, lower, upper⟩ := addInt_some added
      unfold bufSize at sum
      omega

theorem storeAll_holding (fits : chunk.length ≤ 128) (room : rest.length = 129) :
    Buffer.storeAll (read.map some ++ rest)
        (((read.length + rest.length : Nat) : Int) - bufSize - 1) chunk =
      some ((read ++ chunk).map some ++ rest.drop chunk.length) := by
  have stored := Buffer.storeAll_append (read.map some) (rest.take chunk.length)
    (rest.drop chunk.length) (show _ = chunk.length by rw [List.length_take]; omega)
  have position : ((read.map some).length : Int) =
      ((read.length + rest.length : Nat) : Int) - bufSize - 1 := by
    rw [bufSize, List.length_map, room]
    omega
  rw [List.take_append_drop, position] at stored
  rw [stored, List.map_append, List.append_assoc]

theorem holding_append (fits : chunk.length ≤ rest.length) :
    (read ++ chunk).length + (rest.drop chunk.length).length = read.length + rest.length := by
  rw [List.length_append, List.length_drop]
  omega

theorem fill_later (started : count ≠ 0) (fits : chunk.length ≤ 128)
    (room : rest.length = 129) :
    (holding read rest count total offset).fill chunk =
      some (holding (read ++ chunk) (rest.drop chunk.length) (count + 1) total offset) := by
  rw [fill, holding_message, holding_messageLength, storeAll_holding fits room,
    Option.bind_eq_bind, Option.bind_some, holding, if_neg started, holding,
    holding_append (by omega)]

theorem fill_first (fits : chunk.length ≤ 128) (room : rest.length = 129) :
    (holding read rest 0 total offset).fill chunk =
      (atoi ((read ++ chunk).map some ++ rest.drop chunk.length)).bind fun total =>
        (scanSpace ((read ++ chunk).map some ++ rest.drop chunk.length) 1).map fun offset =>
          holding (read ++ chunk) (rest.drop chunk.length) 1 total offset := by
  rw [fill, holding_message, holding_messageLength, storeAll_holding fits room,
    Option.bind_eq_bind, Option.bind_some, holding, if_pos rfl]
  simp only [holding, holding_append (show chunk.length ≤ rest.length by omega)]
  congr 1
  funext total
  cases scanSpace ((read ++ chunk).map some ++ rest.drop chunk.length) 1 with
  | none => rfl
  | some offset => rfl

theorem finish_holding (fits : chunk.length ≤ 128) (room : rest.length + chunk.length = 129)
    (short : read.length < 2147483648) :
    (holding read rest count total offset).finish chunk.length =
      some (Buffer.ofString read, offset) := by
  obtain ⟨last, rest, rfl⟩ := List.exists_cons_of_length_pos (show 0 < rest.length by omega)
  rw [List.length_cons] at room
  have size : ((read.length + (last :: rest).length : Nat) : Int) - (bufSize - chunk.length) =
      (read.length + 1 : Nat) := by
    rw [bufSize, List.length_cons]
    omega
  have position : ((read.length + 1 : Nat) : Int) - 1 = (read.map some).length := by
    rw [List.length_map]
    omega
  have sizeBytes : toSize ((read.length + 1 : Nat) : Int) = (read.map some ++ [some 0]).length := by
    rw [toSize_natCast, List.length_append, List.length_map, List.length_singleton]
    omega
  rw [finish, holding_messageLength, size, position, holding_message, Buffer.store_append,
    Option.bind_eq_bind, Option.bind_some, sizeBytes, ← List.singleton_append, ← List.append_assoc,
    Buffer.realloc_shrink]
  rfl

theorem scanSpace_append {before : List UInt8} (noSpace : 32 ∉ before) (rest : Buffer)
    (start : Int) :
    scanSpace (before.map some ++ some 32 :: rest) start = some (start + before.length) := by
  induction before generalizing start with
  | nil => simp [scanSpace]
  | cons byte before ih =>
      rw [List.mem_cons, not_or] at noSpace
      rw [List.map_cons, List.cons_append, scanSpace, if_neg (Ne.symm noSpace.1), ih noSpace.2,
        List.length_cons]
      congr 1
      omega

theorem scanSpace_some {bytes : List UInt8} {start : Int} (unread : Nat)
    (scanned : scanSpace (bytes.map some ++ List.replicate unread none) start = some offset) :
    ∃ before after, bytes = before ++ 32 :: after ∧ 32 ∉ before ∧
      offset = start + before.length := by
  induction bytes generalizing start with
  | nil =>
      cases unread with
      | zero => cases scanned
      | succ unread => cases scanned
  | cons byte bytes ih =>
      rw [List.map_cons, List.cons_append, scanSpace] at scanned
      split at scanned
      · rename_i isSpace
        cases scanned
        exact ⟨[], bytes, by rw [isSpace]; rfl, by simp, by simp⟩
      · rename_i notSpace
        obtain ⟨before, after, rfl, noSpace, rfl⟩ := ih scanned
        refine ⟨byte :: before, after, rfl, ?_, ?_⟩
        · rw [List.mem_cons, not_or]
          exact ⟨Ne.symm notSpace, noSpace⟩
        · rw [List.length_cons]
          omega

end Receiving

open Receiving

section Rounds

variable {read chunk : List UInt8} {reads : List (List UInt8)} {rest : Buffer}
  {count total offset : Int}

theorem receiveLoop_round {state grown : Receiving} (nonempty : chunk ≠ [])
    (grows : state.grow = some grown)
    (fills : grown.fill chunk = some (holding read rest count total offset))
    (fits : chunk.length ≤ 128) (room : rest.length + chunk.length = 129)
    (short : read.length < 2147483648) :
    receiveLoop (chunk :: reads) state =
      if chunk.length = 128 ∧ (read.length : Int) - offset ≠ total then
        receiveLoop reads (holding read rest count total offset)
      else some (some (Buffer.ofString read, offset), reads) := by
  have goesOn : (bufSize ≤ chunk.length ∧
      ((read.length + rest.length : Nat) : Int) - offset - 1 ≠ total) ↔
      chunk.length = 128 ∧ (read.length : Int) - offset ≠ total := by
    unfold bufSize
    omega
  rw [receiveLoop, grows, Option.bind_eq_bind, Option.bind_some, if_neg nonempty, fills,
    Option.bind_eq_bind, Option.bind_some, finish_holding fits room short]
  simp only [holding_messageLength]
  by_cases more : chunk.length = 128 ∧ (read.length : Int) - offset ≠ total
  · rw [if_pos more]
    exact if_pos (goesOn.mpr more)
  · rw [if_neg more]
    exact if_neg (goesOn.not.mpr more)

theorem receiveLoop_later (started : count ≠ 0) (nonempty : chunk ≠ []) (fits : chunk.length ≤ 128)
    (room : rest.length = 1) (short : read.length + 129 < 2147483648) :
    receiveLoop (chunk :: reads) (holding read rest count total offset) =
      if chunk.length = 128 ∧ ((read ++ chunk).length : Int) - offset ≠ total then
        receiveLoop reads (holding (read ++ chunk)
          ((rest ++ List.replicate 128 none).drop chunk.length) (count + 1) total offset)
      else some (some (Buffer.ofString (read ++ chunk), offset), reads) := by
  have grownRoom : (rest ++ List.replicate 128 none).length = 129 := by
    rw [List.length_append, List.length_replicate, room]
  apply receiveLoop_round nonempty (grow_holding (by omega))
    (fill_later started fits grownRoom) fits
  · rw [List.length_drop]
    omega
  · rw [List.length_append]
    omega

theorem receiveLoop_bound {result : Option (Buffer × Int) × List (List UInt8)}
    (ran : receiveLoop reads (holding read rest count total offset) = some result) :
    read.length + rest.length + 128 < 2147483648 := by
  cases grown : (holding read rest count total offset).grow with
  | none => cases reads <;> simp [receiveLoop, grown] at ran
  | some state => exact grow_some grown

theorem receiveLoop_ended {state : Receiving} {message : Buffer × Int}
    {remaining : List (List UInt8)} :
    receiveLoop ([] :: reads) state ≠ some (some message, remaining) := by
  rw [receiveLoop]
  cases state.grow with
  | none => simp
  | some grown => simp

theorem receiveLoop_some {message : Buffer} {remaining : List (List UInt8)} {offset' : Int}
    (started : 0 < count) (room : rest.length = 1) (fits : ∀ chunk ∈ reads, chunk.length ≤ 128)
    (ran : receiveLoop reads (holding read rest count total offset) =
      some (some (message, offset'), remaining)) :
    ∃ full last, reads = full ++ last :: remaining ∧ (∀ chunk ∈ full, chunk.length = 128) ∧
      last ≠ [] ∧ read.length + full.flatten.length + 129 < 2147483648 ∧
      message = Buffer.ofString (read ++ (full.flatten ++ last)) ∧ offset' = offset := by
  induction reads generalizing read rest count with
  | nil =>
      obtain ⟨grown, _, ended⟩ := Option.map_eq_some_iff.mp ran
      cases ended
  | cons chunk reads ih =>
      have short := receiveLoop_bound ran
      have chunkFits := fits chunk List.mem_cons_self
      have nonempty : chunk ≠ [] := by
        intro empty
        rw [empty] at ran
        exact receiveLoop_ended ran
      rw [receiveLoop_later (by omega) nonempty chunkFits room (by omega)] at ran
      split at ran
      · rename_i more
        obtain ⟨full, last, rfl, allFull, lastNonempty, shorter, rfl, rfl⟩ := ih (by omega)
          (by rw [List.length_drop, List.length_append, List.length_replicate]; omega)
          (fun chunk member => fits chunk (List.mem_cons_of_mem _ member)) ran
        refine ⟨chunk :: full, last, rfl, ?_, lastNonempty, ?_, ?_, rfl⟩
        · intro other member
          rcases List.mem_cons.mp member with rfl | member
          · exact more.1
          · exact allFull other member
        · rw [List.flatten_cons, List.length_append]
          rw [List.length_append] at shorter
          omega
        · simp only [List.flatten_cons, List.append_assoc]
      · cases ran
        refine ⟨[], chunk, rfl, by simp, nonempty, ?_, by simp, rfl⟩
        simp only [List.flatten_nil, List.length_nil]
        omega

theorem receiveLoop_total {full remaining : List (List UInt8)} {last : List UInt8}
    (started : 0 < count) (room : rest.length = 1)
    (allFull : ∀ chunk ∈ full, chunk.length = 128) (nonempty : last ≠ [])
    (fits : last.length ≤ 128) (short : read.length + full.flatten.length + 129 < 2147483648)
    (isTotal : ((read ++ (full.flatten ++ last)).length : Int) - offset = total) :
    receiveLoop (full ++ last :: remaining) (holding read rest count total offset) =
      some (some (Buffer.ofString (read ++ (full.flatten ++ last)), offset), remaining) := by
  induction full generalizing read rest count with
  | nil =>
      simp only [List.flatten_nil, List.length_nil] at short
      rw [List.nil_append, receiveLoop_later (by omega) nonempty fits room (by omega), if_neg]
      · rfl
      · exact fun more => more.2 isTotal
  | cons chunk full ih =>
      have isFull := allFull chunk List.mem_cons_self
      rw [List.flatten_cons, List.length_append] at short
      have positive := List.length_pos_iff.mpr nonempty
      have more : ((read ++ chunk).length : Int) - offset ≠ total := by
        rw [← isTotal]
        simp only [List.flatten_cons, List.length_append]
        omega
      rw [List.cons_append, receiveLoop_later (by omega) (by intro empty; simp [empty] at isFull)
        (by omega) room (by omega), if_pos ⟨isFull, more⟩, ih (by omega)
        (by rw [List.length_drop, List.length_append, List.length_replicate]; omega)
        (fun other member => allFull other (List.mem_cons_of_mem _ member))
        (by rw [List.length_append]; omega)
        (by rw [← isTotal, List.flatten_cons, List.append_assoc, List.append_assoc]),
        List.flatten_cons, List.append_assoc, List.append_assoc]

end Rounds

section First

variable {chunk : List UInt8} {reads : List (List UInt8)}

def firstRead (chunk : List UInt8) : Buffer :=
  chunk.map some ++ List.replicate (129 - chunk.length) none

theorem fill_start (nonempty : chunk ≠ []) (fits : chunk.length ≤ 128) :
    (holding [] (some 0 :: List.replicate 128 none) 0 0 0).fill chunk =
      (atoi (firstRead chunk)).bind fun total => (scanSpace (firstRead chunk) 1).map fun offset =>
        holding chunk (List.replicate (129 - chunk.length) none) 1 total offset := by
  have dropped : (some 0 :: List.replicate 128 (none : Option UInt8)).drop chunk.length =
      List.replicate (129 - chunk.length) none := by
    obtain ⟨byte, bytes, rfl⟩ := List.exists_cons_of_ne_nil nonempty
    rw [List.length_cons, List.drop_succ_cons, List.drop_replicate]
    congr 1
    omega
  rw [fill_first fits (by simp), dropped]
  rfl

theorem grow_start :
    Receiving.start.grow = some (holding [] (some 0 :: List.replicate 128 none) 0 0 0) := by
  have grown : (holding [] [some 0] 0 0 0).grow = _ := grow_holding (by simp)
  exact grown

theorem novaSocketReceive_cons {total offset : Int} (nonempty : chunk ≠ [])
    (fits : chunk.length ≤ 128) (number : atoi (firstRead chunk) = some total)
    (space : scanSpace (firstRead chunk) 1 = some offset) :
    novaSocketReceive (chunk :: reads) =
      if chunk.length = 128 ∧ (chunk.length : Int) - offset ≠ total then
        receiveLoop reads (holding chunk (List.replicate (129 - chunk.length) none) 1 total offset)
      else some (some (Buffer.ofString chunk, offset), reads) := by
  apply receiveLoop_round nonempty grow_start
  · rw [fill_start nonempty fits, number, space]
    rfl
  · exact fits
  · rw [List.length_replicate]
    omega
  · omega

theorem novaSocketReceive_header {result : Option (Buffer × Int) × List (List UInt8)}
    (nonempty : chunk ≠ []) (fits : chunk.length ≤ 128)
    (ran : novaSocketReceive (chunk :: reads) = some result) :
    ∃ total offset, atoi (firstRead chunk) = some total ∧
      scanSpace (firstRead chunk) 1 = some offset := by
  rw [novaSocketReceive, receiveLoop, grow_start, Option.bind_eq_bind, Option.bind_some,
    if_neg nonempty, fill_start nonempty fits] at ran
  cases number : atoi (firstRead chunk) with
  | none => simp [number] at ran
  | some total =>
      cases space : scanSpace (firstRead chunk) 1 with
      | none => simp [number, space] at ran
      | some offset => exact ⟨total, offset, rfl, rfl⟩

theorem novaSocketReceive_some {message : Buffer} {offset : Int} {remaining : List (List UInt8)}
    (fits : ∀ chunk ∈ reads, chunk.length ≤ 128)
    (ran : novaSocketReceive reads = some (some (message, offset), remaining)) :
    ∃ full last header body, reads = full ++ last :: remaining ∧
      (∀ chunk ∈ full, chunk.length = 128) ∧ last ≠ [] ∧ full.flatten.length + 129 < 2147483648 ∧
      full.flatten ++ last = header ++ 32 :: body ∧ 32 ∉ header ∧ offset = header.length + 1 ∧
      message = Buffer.ofString (header ++ 32 :: body) := by
  cases reads with
  | nil => simp [novaSocketReceive, receiveLoop, grow_start] at ran
  | cons chunk reads =>
      have chunkFits := fits chunk List.mem_cons_self
      have nonempty : chunk ≠ [] := by
        intro empty
        rw [empty] at ran
        exact receiveLoop_ended ran
      obtain ⟨total, start, number, space⟩ := novaSocketReceive_header nonempty chunkFits ran
      rw [novaSocketReceive_cons nonempty chunkFits number space] at ran
      obtain ⟨header, body, rfl, noSpace, rfl⟩ := scanSpace_some _ space
      split at ran
      · rename_i more
        obtain ⟨full, last, rfl, allFull, lastNonempty, short, rfl, rfl⟩ :=
          receiveLoop_some (by omega) (by rw [List.length_replicate]; omega)
            (fun chunk member => fits chunk (List.mem_cons_of_mem _ member)) ran
        refine ⟨(header ++ 32 :: body) :: full, last, header, body ++ (full.flatten ++ last), rfl,
          ?_, lastNonempty, ?_, ?_, noSpace, Int.add_comm _ _, ?_⟩
        · intro other member
          rcases List.mem_cons.mp member with rfl | member
          · exact more.1
          · exact allFull other member
        · rwa [List.flatten_cons, List.length_append]
        · simp only [List.flatten_cons, List.append_assoc, List.cons_append]
        · simp only [List.append_assoc, List.cons_append]
      · cases ran
        exact ⟨[], _, header, body, rfl, by simp, nonempty, by simp, rfl, noSpace,
          Int.add_comm _ _, rfl⟩

end First

end NovaC.Network
