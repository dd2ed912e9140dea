import NovaC.Network.Sending
import NovaC.Network.Receiving

namespace NovaC.Network

open NovaC.C

def sendAll : List (List UInt8) → Option (List UInt8)
  | [] => some []
  | message :: messages => do
      let sent ← novaSocketSend (Buffer.ofString message)
      let rest ← sendAll messages
      some (sent ++ rest)

/-- As many calls of `nova_socket_receive`, each of which returns a string, with
the reads that are left. -/
def receiveAll : Nat → List (List UInt8) → Option (List (List UInt8) × List (List UInt8))
  | 0, reads => some ([], reads)
  | count + 1, reads => do
      let (result, reads) ← novaSocketReceive reads
      let (message, offset) ← result
      let text ← message.cStringAt offset
      let (texts, reads) ← receiveAll count reads
      some (text :: texts, reads)

/-- The lengths of the reads of a frame of this length: as many full buffers as
there are, and the rest. -/
def readLengths (length : Nat) : List Nat :=
  List.replicate (length / 128) 128 ++ if length % 128 = 0 then [] else [length % 128]

theorem readLengths_concat {length rounds last : Nat} (positive : 0 < last) (fits : last ≤ 128)
    (total : rounds * 128 + last = length) :
    readLengths length = List.replicate rounds 128 ++ [last] := by
  rw [readLengths]
  by_cases isFull : last = 128
  · have quotient : length / 128 = rounds + 1 := by omega
    have remainder : length % 128 = 0 := by omega
    rw [quotient, if_pos remainder, List.append_nil, List.replicate_succ', isFull]
  · have quotient : length / 128 = rounds := by omega
    have remainder : length % 128 = last := by omega
    rw [quotient, remainder, if_neg (by omega)]

theorem exists_full_of_readLengths {reads : List (List UInt8)} {length : Nat}
    (positive : 0 < length) (lengths : reads.map List.length = readLengths length) :
    ∃ full last, reads = full ++ [last] ∧ (∀ chunk ∈ full, chunk.length = 128) ∧ last ≠ [] ∧
      last.length ≤ 128 := by
  have concat := readLengths_concat (show 0 < (length - 1) % 128 + 1 by omega) (by omega)
    (show (length - 1) / 128 * 128 + ((length - 1) % 128 + 1) = length by omega)
  rw [concat] at lengths
  obtain ⟨full, rest, rfl, fullLengths, restLengths⟩ := List.map_eq_append_iff.mp lengths
  obtain ⟨last, rfl, lastLength⟩ := List.map_eq_singleton_iff.mp restLengths
  refine ⟨full, last, rfl, ?_, ?_, by omega⟩
  · intro chunk member
    have inLengths := List.mem_map_of_mem (f := List.length) member
    rw [fullLengths] at inLengths
    exact List.eq_of_mem_replicate inLengths
  · exact List.length_pos_iff.mp (by omega)

theorem full_lengths {full : List (List UInt8)} (allFull : ∀ chunk ∈ full, chunk.length = 128) :
    full.map List.length = List.replicate full.length 128 := by
  apply List.eq_replicate_iff.mpr
  simpa using allFull

theorem full_flatten_length {full : List (List UInt8)}
    (allFull : ∀ chunk ∈ full, chunk.length = 128) : full.flatten.length = full.length * 128 := by
  rw [List.length_flatten, full_lengths allFull, List.sum_replicate_nat]

theorem map_length_eq_readLengths {full : List (List UInt8)} {last : List UInt8}
    (nonempty : last ≠ []) (fits : last.length ≤ 128)
    (allFull : ∀ chunk ∈ full, chunk.length = 128) :
    (full ++ [last]).map List.length = readLengths (full.flatten ++ last).length := by
  have total : full.length * 128 + last.length = (full.flatten ++ last).length := by
    rw [List.length_append, full_flatten_length allFull]
  rw [readLengths_concat (List.length_pos_iff.mpr nonempty) fits total, List.map_append,
    full_lengths allFull, List.map_singleton]

theorem cStringAt_body (header : List UInt8) {body : List UInt8} (nulFree : 0 ∉ body) :
    (Buffer.ofString (header ++ 32 :: body)).cStringAt ((header.length : Int) + 1) = some body := by
  have dropped : (Buffer.ofString (header ++ 32 :: body)).drop (header.length + 1) =
      body.map some ++ [some 0] := by
    have split : Buffer.ofString (header ++ 32 :: body) =
        (header ++ [32]).map some ++ (body.map some ++ [some 0]) := by
      simp [Buffer.ofString]
    rw [split]
    exact List.drop_left' (by simp)
  rw [Buffer.cStringAt, if_pos (by omega)]
  have position : ((header.length : Int) + 1).toNat = header.length + 1 := by omega
  rw [position, dropped]
  exact Buffer.cString_append nulFree []

theorem sum_readLengths (length : Nat) : (readLengths length).sum = length := by
  rw [readLengths, List.sum_append_nat, List.sum_replicate_nat]
  by_cases whole : length % 128 = 0
  · rw [if_pos whole, List.sum_nil]
    omega
  · rw [if_neg whole, List.sum_singleton]
    omega

theorem space_notMem_decimal (number : Nat) : 32 ∉ decimal number := by
  intro member
  exact absurd (decimal_digits member) (by decide)

theorem eq_of_space {header body header' body' : List UInt8} (noSpace : 32 ∉ header)
    (noSpace' : 32 ∉ header') (same : header ++ 32 :: body = header' ++ 32 :: body') :
    header = header' ∧ body = body' := by
  induction header generalizing header' with
  | nil =>
      cases header' with
      | nil => exact ⟨rfl, (List.cons.inj same).2⟩
      | cons byte header' =>
          have first := (List.cons.inj same).1
          simp [first] at noSpace'
  | cons byte header ih =>
      cases header' with
      | nil =>
          have first := (List.cons.inj same).1
          simp [first] at noSpace
      | cons byte' header' =>
          obtain ⟨rfl, rest⟩ := List.cons.inj same
          rw [List.mem_cons, not_or] at noSpace noSpace'
          obtain ⟨rfl, sameBody⟩ := ih noSpace.2 noSpace'.2 rest
          exact ⟨rfl, sameBody⟩

theorem novaSocketReceive_first {message body : List UInt8} {reads : List (List UInt8)}
    (range : message.length < 2147483648)
    (fits : (decimal message.length ++ 32 :: body).length ≤ 128) :
    novaSocketReceive ((decimal message.length ++ 32 :: body) :: reads) =
      if (decimal message.length ++ 32 :: body).length = 128 ∧
          (body.length : Int) ≠ message.length then
        receiveLoop reads (Receiving.holding (decimal message.length ++ 32 :: body)
          (List.replicate (129 - (decimal message.length ++ 32 :: body).length) none) 1
          message.length ((decimal message.length).length + 1))
      else some (some (Buffer.ofString (decimal message.length ++ 32 :: body),
        (decimal message.length).length + 1), reads) := by
  have number : atoi (firstRead (decimal message.length ++ 32 :: body)) =
      some (message.length : Int) := by
    rw [firstRead, List.map_append, List.map_cons, List.append_assoc, List.cons_append]
    exact atoi_decimal ⟨by omega, by omega⟩ _
  have space : Receiving.scanSpace (firstRead (decimal message.length ++ 32 :: body)) 1 =
      some ((decimal message.length).length + 1 : Int) := by
    rw [firstRead, List.map_append, List.map_cons, List.append_assoc, List.cons_append,
      Receiving.scanSpace_append (space_notMem_decimal _), Int.add_comm]
  have bodyLength : ((decimal message.length ++ 32 :: body).length : Int) -
      ((decimal message.length).length + 1) = body.length := by
    rw [List.length_append, List.length_cons]
    omega
  rw [novaSocketReceive_cons (by simp) fits number space, bodyLength]

theorem novaSocketReceive_frame {message : List UInt8} {full remaining : List (List UInt8)}
    {last : List UInt8} (allFull : ∀ chunk ∈ full, chunk.length = 128) (nonempty : last ≠ [])
    (fits : last.length ≤ 128) (isFrame : full.flatten ++ last = frame message)
    (short : (frame message).length ≤ 2147483520) :
    novaSocketReceive (full ++ last :: remaining) =
      some (some (Buffer.ofString (frame message), ((decimal message.length).length : Int) + 1),
        remaining) := by
  have total := frame_length message
  cases full with
  | nil =>
      rw [List.flatten_nil, List.nil_append] at isFrame
      subst isFrame
      rw [List.nil_append, frame, novaSocketReceive_first (by omega) fits]
      simp
  | cons chunk full =>
      have chunkFull := allFull chunk List.mem_cons_self
      have restFull : ∀ chunk ∈ full, chunk.length = 128 :=
        fun chunk member => allFull chunk (List.mem_cons_of_mem _ member)
      have restBytes := full_flatten_length restFull
      have digits : (decimal message.length).length ≤ 10 :=
        (decimal_length_le (by omega)).mpr (by omega)
      have positive := List.length_pos_iff.mpr nonempty
      rw [List.flatten_cons, List.append_assoc, frame] at isFrame
      rcases List.append_eq_append_iff.mp isFrame with ⟨header, inside, _⟩ | ⟨body, inside, behind⟩
      · have longer := congrArg List.length inside
        rw [List.length_append] at longer
        omega
      · cases body with
        | nil =>
            rw [inside, List.append_nil] at chunkFull
            omega
        | cons byte body =>
            rw [List.cons_append] at behind
            obtain ⟨rfl, rest⟩ := List.cons.inj behind
            subst inside
            have restLength := congrArg List.length rest
            rw [List.length_append, List.length_append] at restLength
            have more : (body.length : Int) ≠ message.length := by omega
            have bound : (decimal message.length ++ 32 :: body).length + full.flatten.length + 129 <
                2147483648 := by
              rw [List.length_append, List.length_cons] at chunkFull ⊢
              omega
            rw [List.cons_append, novaSocketReceive_first (by omega) (by omega),
              if_pos ⟨chunkFull, more⟩, receiveLoop_total (by omega) (by simp [chunkFull])
              restFull nonempty fits bound (by rw [rest]; simp only [List.length_append, List.length_cons]; omega),
              List.append_assoc, List.cons_append, ← rest, frame]

/-- A stream of frames that came in as many reads as the frames take. -/
def FrameReads (messages : List (List UInt8)) (reads : List (List UInt8)) : Prop :=
  (∀ message ∈ messages, (frame message).length ≤ 2147483520) ∧
    reads.map List.length = messages.flatMap fun message => readLengths (frame message).length

theorem sendAll_nulFree {messages : List (List UInt8)} {stream : List UInt8}
    (sent : sendAll messages = some stream) : 0 ∉ stream := by
  induction messages generalizing stream with
  | nil =>
      cases sent
      simp
  | cons message messages ih =>
      obtain ⟨sentFirst, sentHere, sends⟩ := Option.bind_eq_some_iff.mp sent
      obtain ⟨streamRest, sentRest, sum⟩ := Option.bind_eq_some_iff.mp sends
      cases sum
      rw [List.mem_append, not_or]
      exact ⟨novaSocketSend_nulFree sentHere, ih sentRest⟩

theorem receiveAll_some {messages reads rest : List (List UInt8)} {stream : List UInt8}
    (sent : sendAll messages = some stream)
    (fits : ∀ chunk ∈ reads, chunk ≠ [] ∧ chunk.length ≤ 128) (split : reads.flatten = stream)
    (received : receiveAll messages.length reads = some (messages, rest)) :
    FrameReads messages reads := by
  induction messages generalizing reads stream with
  | nil =>
      cases sent
      have ended : reads = [] := by
        cases reads with
        | nil => rfl
        | cons chunk reads =>
            have empty := List.flatten_eq_nil_iff.mp split chunk List.mem_cons_self
            exact absurd empty (fits chunk List.mem_cons_self).1
      subst ended
      exact ⟨by simp, rfl⟩
  | cons message messages ih =>
      obtain ⟨sentFirst, sentHere, sends⟩ := Option.bind_eq_some_iff.mp sent
      obtain ⟨streamRest, sentRest, sum⟩ := Option.bind_eq_some_iff.mp sends
      cases sum
      obtain ⟨⟨result, reads'⟩, receivedFirst, received⟩ := Option.bind_eq_some_iff.mp received
      obtain ⟨⟨buffer, offset⟩, isResult, received⟩ := Option.bind_eq_some_iff.mp received
      obtain ⟨text, isText, received⟩ := Option.bind_eq_some_iff.mp received
      obtain ⟨⟨texts, rest'⟩, receivedRest, same⟩ := Option.bind_eq_some_iff.mp received
      cases isResult
      cases same
      obtain ⟨full, last, header, body, rfl, allFull, nonempty, short, isFrame, noSpace, rfl, rfl⟩ :=
        novaSocketReceive_some (fun chunk member => (fits chunk member).2) receivedFirst
      have lastFits := (fits last (by simp)).2
      have fullBytes := full_flatten_length allFull
      have bodyBytes := congrArg List.length isFrame
      simp only [List.length_append, List.length_cons] at bodyBytes
      have streamNulFree := sendAll_nulFree sent
      rw [List.flatten_append, List.flatten_cons, ← List.append_assoc, isFrame] at split
      have bodyNulFree : 0 ∉ body := by
        intro member
        rw [← split] at streamNulFree
        simp [member] at streamNulFree
      obtain rfl : message = body :=
        Option.some.inj (isText.symm.trans (cStringAt_body header bodyNulFree))
      have digits : (decimal message.length).length ≤ 10 := (decimal_length_le (by omega)).mpr (by omega)
      have frameBytes := frame_length message
      cases sentHere.symm.trans (novaSocketSend_frame bodyNulFree (by omega))
      rw [frame, List.append_assoc, List.append_assoc] at split
      obtain ⟨rfl, sameRest⟩ := eq_of_space noSpace (space_notMem_decimal _) split
      have rest := List.append_cancel_left sameRest
      obtain ⟨restShort, restLengths⟩ := ih sentRest
        (fun chunk member => fits chunk (by simp [member])) rest receivedRest
      refine ⟨?_, ?_⟩
      · intro message member
        rcases List.mem_cons.mp member with rfl | member
        · omega
        · exact restShort message member
      · rw [List.append_cons, List.map_append, map_length_eq_readLengths nonempty lastFits allFull,
          isFrame, restLengths, List.flatMap_cons, frame]

theorem sendAll_frames {messages : List (List UInt8)} (nulFree : ∀ message ∈ messages, 0 ∉ message)
    (short : ∀ message ∈ messages, (frame message).length ≤ 2147483520) :
    sendAll messages = some (messages.flatMap frame) := by
  induction messages with
  | nil => rfl
  | cons message messages ih =>
      have messageShort := short message List.mem_cons_self
      rw [sendAll, novaSocketSend_frame (nulFree message List.mem_cons_self) (by omega),
        ih (fun message member => nulFree message (List.mem_cons_of_mem _ member))
          (fun message member => short message (List.mem_cons_of_mem _ member))]
      rfl

theorem receiveAll_frames {messages reads : List (List UInt8)}
    (nulFree : ∀ message ∈ messages, 0 ∉ message)
    (split : reads.flatten = messages.flatMap frame) (frameReads : FrameReads messages reads) :
    receiveAll messages.length reads = some (messages, []) := by
  obtain ⟨short, lengths⟩ := frameReads
  induction messages generalizing reads with
  | nil =>
      rw [List.flatMap_nil, List.map_eq_nil_iff] at lengths
      rw [lengths]
      rfl
  | cons message messages ih =>
      have messageShort := short message List.mem_cons_self
      rw [List.flatMap_cons] at split lengths
      obtain ⟨used, reads', rfl, usedLengths, restLengths⟩ := List.map_eq_append_iff.mp lengths
      have usedBytes : used.flatten.length = (frame message).length := by
        rw [List.length_flatten, usedLengths, sum_readLengths]
      rw [List.flatten_append] at split
      obtain ⟨isFrame, restSplit⟩ := List.append_inj split usedBytes
      have positive : 0 < (frame message).length := by
        rw [frame_length]
        omega
      obtain ⟨full, last, rfl, allFull, nonempty, fits⟩ :=
        exists_full_of_readLengths positive usedLengths
      rw [List.flatten_append, List.flatten_singleton] at isFrame
      rw [List.length_cons, receiveAll, List.append_assoc, List.singleton_append,
        novaSocketReceive_frame allFull nonempty fits isFrame messageShort]
      dsimp only [Option.bind_eq_bind, Option.bind_some]
      rw [frame, cStringAt_body _ (nulFree message List.mem_cons_self), Option.bind_some,
        ih (fun message member => nulFree message (List.mem_cons_of_mem _ member)) restSplit
          (fun message member => short message (List.mem_cons_of_mem _ member)) restLengths,
        Option.bind_some]

/-- The messages come out as they went in for exactly those reads that stop at
the end of each frame and nowhere else but at full buffers. -/
theorem receiveAll_iff (messages reads : List (List UInt8))
    (nulFree : ∀ message ∈ messages, 0 ∉ message)
    (fits : ∀ chunk ∈ reads, chunk ≠ [] ∧ chunk.length ≤ 128)
    (split : ∀ stream, sendAll messages = some stream → reads.flatten = stream) :
    ((sendAll messages).isSome ∧
        ∃ rest, receiveAll messages.length reads = some (messages, rest)) ↔
      FrameReads messages reads := by
  constructor
  · intro reached
    obtain ⟨sends, rest, received⟩ := reached
    obtain ⟨stream, sent⟩ := Option.isSome_iff_exists.mp sends
    exact receiveAll_some sent fits (split stream sent) received
  · intro frameReads
    have sent := sendAll_frames nulFree frameReads.1
    refine ⟨by rw [sent]; rfl, [], ?_⟩
    exact receiveAll_frames nulFree (split _ sent) frameReads

/-- "hi", a message of 130 bytes whose frame fills the first of its two reads, and "yo". -/
def severalMessages : List (List UInt8) := [[104, 105], List.replicate 130 97, [121, 111]]

def severalReads : List (List UInt8) :=
  [[50, 32, 104, 105], [49, 51, 48, 32] ++ List.replicate 124 97, List.replicate 6 97,
    [50, 32, 121, 111]]

theorem receiveAll_iff_several :
    ((sendAll severalMessages).isSome ∧
        ∃ rest, receiveAll 3 severalReads = some (severalMessages, rest)) ↔
      FrameReads severalMessages severalReads := by
  refine receiveAll_iff severalMessages severalReads (by decide +kernel) (by decide +kernel) ?_
  intro stream sent
  rw [sendAll_frames (by decide +kernel) (by decide +kernel)] at sent
  cases sent
  decide +kernel

/-- "hi" and "yo" are both pending when the first is received: one read gives
both, and the first string is "hi2 yo". -/
theorem receiveAll_merges :
    ¬ ∀ (messages reads : List (List UInt8)) (stream : List UInt8),
      (∀ message ∈ messages, 0 ∉ message) →
      (∀ chunk ∈ reads, chunk ≠ [] ∧ chunk.length ≤ 128) →
      sendAll messages = some stream → reads.flatten = stream →
        ∃ rest, receiveAll messages.length reads = some (messages, rest) := by
  intro claim
  have sent : sendAll [[104, 105], [121, 111]] = some [50, 32, 104, 105, 50, 32, 121, 111] :=
    sendAll_frames (by decide) (by decide)
  have fits : ∀ chunk ∈ [[50, 32, 104, 105, 50, 32, 121, (111 : UInt8)]],
      chunk ≠ [] ∧ chunk.length ≤ 128 := by decide
  obtain ⟨rest, received⟩ := claim _ _ _ (by decide) fits sent rfl
  obtain ⟨_, lengths⟩ := receiveAll_some sent fits rfl received
  exact absurd lengths (by decide)

end NovaC.Network
