import NovaC.Files.GetStr

namespace NovaC.Files

open NovaC.C

/-- The bytes up to the first newline, and those behind it. -/
def firstLine : List UInt8 → List UInt8 × List UInt8
  | [] => ([], [])
  | c :: stream =>
      if c = newline then ([c], stream) else (c :: (firstLine stream).1, (firstLine stream).2)

/-- The size of a block that has to take another byte and a NUL behind `read` bytes. -/
def grownTo (read n : Nat) : Nat :=
  if n < read + 2 then Reading.grownSize n else n

/-- Reading this stream into a block of `n` bytes, with `read` bytes of the line in it, never
needs as much as the limit. -/
def SizesBelow (limit : Nat) : Nat → Nat → List UInt8 → Prop
  | read, n, [] => grownTo read n < limit
  | read, n, c :: stream =>
      grownTo read n < limit ∧
        SizesBelow limit (if c = newline then 0 else read + 1) (grownTo read n) stream

namespace Reading

/-- The reading that has stored these bytes, with the rest of the block behind them. -/
def holding (read : List UInt8) (rest : Buffer) : Reading where
  block := read.map some ++ rest
  n := read.length + rest.length
  nchars_avail := rest.length
  read_pos := read.length

variable {read : List UInt8} {rest : Buffer}

theorem holding_n (read : List UInt8) (rest : Buffer) :
    (holding read rest).n = read.length + rest.length :=
  rfl

theorem holding_consistent (read : List UInt8) (rest : Buffer) :
    check (holding read rest).Consistent = .ok () := by
  rw [check, if_pos]
  simp only [Consistent, holding, Nat.cast_add]

theorem grownSize_eq (n : Nat) : ∃ more, 64 ≤ more ∧ grownSize n = n + more := by
  unfold grownSize MIN_CHUNK
  split
  · exact ⟨n, by omega, by omega⟩
  · exact ⟨64, by omega, rfl⟩

theorem resize_holding {more : Nat} (fits : rest.length + more < 2 ^ 31)
    (short : read.length < 2 ^ 31) :
    (holding read rest).resize (read.length + rest.length + more) =
      holding read (rest ++ List.replicate more none) := by
  have sized : (read.map some ++ rest).length = read.length + rest.length := by
    rw [List.length_append, List.length_map]
  have remaining : toInt (((read.length + rest.length + more : Nat) : Int) - read.length) =
      ((rest.length + more : Nat) : Int) := by
    rw [toInt_of_isInt ⟨by omega, by omega⟩]
    omega
  have position : toSize (((read.length + rest.length + more : Nat) : Int) -
      ((rest.length + more : Nat) : Int)) = read.length := by
    rw [toSize]
    omega
  have moved : Buffer.realloc (read.map some ++ rest) (read.length + rest.length + more) =
      read.map some ++ (rest ++ List.replicate more none) := by
    rw [← sized, Buffer.realloc_grow, List.append_assoc]
  simp only [resize, holding, remaining, position, moved, List.length_append,
    List.length_replicate]
  rw [Nat.add_assoc]

theorem grow_holding {limit : Nat} (fits : read.length + rest.length < limit)
    (ints : limit ≤ 2 ^ 31 ∨ read.length + 66 ≤ 2 ^ 31) :
    ((holding read rest).grow limit = .error .sizeLimit ∧
        limit ≤ max 128 (2 * (read.length + 1)) ∧
        limit ≤ grownTo read.length (read.length + rest.length)) ∨
      ∃ room, (holding read rest).grow limit = .ok (holding read room) ∧ 2 ≤ room.length ∧
        read.length + room.length < limit ∧
        read.length + room.length = grownTo read.length (read.length + rest.length) := by
  by_cases full : (holding read rest).nchars_avail < 2
  · obtain ⟨more, enough, grown⟩ := grownSize_eq (read.length + rest.length)
    have few : rest.length < 2 := by
      simp only [holding] at full
      omega
    have small : more ≤ max 64 (read.length + rest.length) := by
      unfold grownSize MIN_CHUNK at grown
      split at grown <;> omega
    have reached : grownTo read.length (read.length + rest.length) =
        read.length + rest.length + more := by
      rw [grownTo, if_pos (by omega), grown]
    by_cases below : read.length + rest.length + more < limit
    · right
      have length : (rest ++ List.replicate more none : Buffer).length = rest.length + more := by
        rw [List.length_append, List.length_replicate]
      refine ⟨rest ++ List.replicate more none, ?_, by omega, by omega, by omega⟩
      rw [grow, if_pos full, holding_n, grown, if_pos below, resize_holding (by omega) (by omega)]
      simp only [holding_consistent]
      rfl
    · left
      exact ⟨by rw [grow, if_pos full, holding_n, grown, if_neg below], by omega, by omega⟩
  · right
    simp only [holding] at full
    exact ⟨rest, by rw [grow, holding, if_neg full], by omega, fits, by
      rw [grownTo, if_neg (by omega)]⟩

theorem store_holding (read : List UInt8) (last : Option UInt8) (rest : Buffer) (byte : UInt8) :
    (holding read (last :: rest)).store byte =
      .ok { holding read (last :: rest) with block := read.map some ++ some byte :: rest } := by
  have inside : (holding read (last :: rest)).read_pos < (holding read (last :: rest)).n := by
    simp only [holding, List.length_cons]
    omega
  have stored := Buffer.store_append (read.map some) rest last byte
  rw [List.length_map] at stored
  rw [store, check, if_pos inside]
  simp only [holding, stored]
  rfl

/-- What is left when the bytes, and the NUL behind them, have been stored. -/
def ended (read : List UInt8) (rest : Buffer) : Line where
  block := some (read.map some ++ some 0 :: rest)
  n := read.length + (rest.length + 1)

theorem finish_holding (last : Option UInt8) (fits : read.length < 2 ^ 31) :
    (holding read (last :: rest)).finish 0 = .ok ((read.length : Int), ended read rest) := by
  rw [finish, store_holding]
  have count : toInt ((read.length : Int) - (0 : Nat)) = read.length := by
    rw [toInt_of_isInt ⟨by omega, by omega⟩]
    omega
  simp only [holding, List.length_cons, bind, Except.bind, pure, Except.pure, count, ended]

/-- A round that finds room for the byte. -/
theorem loop_cons_holding {limit : Nat} {last : Option UInt8} {room : Buffer} {c : UInt8}
    (grown : (holding read rest).grow limit = .ok (holding read (last :: room)))
    (stream : List UInt8) :
    loop limit newline 0 (holding read rest) (c :: stream) =
      if c = newline then
        (holding (read ++ [c]) room).finish 0 >>= fun found => pure (found.1, found.2, stream)
      else loop limit newline 0 (holding (read ++ [c]) room) stream := by
  have next : ({ holding read (last :: room) with
      block := read.map some ++ some c :: room
      read_pos := (holding read (last :: room)).read_pos + 1
      nchars_avail := (holding read (last :: room)).nchars_avail - 1 } : Reading) =
      holding (read ++ [c]) room := by
    simp only [holding, List.map_append, List.map_cons, List.map_nil, List.append_assoc,
      List.singleton_append, List.length_append, List.length_cons, List.length_nil,
      Reading.mk.injEq, true_and, and_true]
    omega
  rw [loop, holding_consistent, grown, ← next]
  simp only [bind, Except.bind, store_holding]

/-- How the loop may end when `text` is what it stores up to the end of a line, or of the
file, and `stream` is left: at the size limit, with nothing stored, or with the text. The
sizes stay below the limit when they do so in what is left. -/
inductive Ends (limit : Nat) (sizes : Prop) (text stream : List UInt8) :
    Except Failure (Int × Line × List UInt8) → Prop where
  | full (long : limit ≤ max 128 (2 * (text.length + 1))) (exceeds : ¬sizes) :
      Ends limit sizes text stream (.error .sizeLimit)
  | nothing (block : Buffer) (below : block.length < limit) (empty : text = []) (kept : sizes) :
      Ends limit sizes text stream (.ok (-1, ⟨some block, block.length⟩, []))
  | line (tail : Buffer) (below : text.length + (tail.length + 1) < limit) (some : text ≠ [])
      (kept : sizes ↔ SizesBelow limit 0 (text.length + (tail.length + 1)) stream) :
      Ends limit sizes text stream (.ok ((text.length : Int), ended text tail, stream))

/-- The end of the file. -/
theorem loop_nil_holding {limit : Nat} (fits : read.length + rest.length < limit)
    (ints : limit ≤ 2 ^ 31 ∨ read.length + 66 ≤ 2 ^ 31) :
    Ends limit (SizesBelow limit read.length (read.length + rest.length) []) read []
      (loop limit newline 0 (holding read rest) []) := by
  rw [loop, holding_consistent, SizesBelow]
  rcases grow_holding fits ints with ⟨full, long, exceeds⟩ | ⟨room, grown, enough, below, reached⟩
  · rw [full]
    exact .full long (Nat.not_lt.mpr exceeds)
  · rw [grown]
    cases read with
    | nil =>
        simp only [bind, Except.bind, pure, Except.pure, holding, List.map_nil, List.nil_append,
          List.length_nil, Nat.zero_add, if_true]
        simp only [List.length_nil, Nat.zero_add] at below reached
        exact .nothing room below rfl (by rwa [← reached])
    | cons byte read =>
        cases room with
        | nil => simp at enough
        | cons last tail =>
            have some : (holding (byte :: read) (last :: tail)).read_pos ≠ 0 := by
              simp [holding]
            simp only [bind, Except.bind, pure, Except.pure, if_neg some]
            rw [finish_holding last (by simp only [List.length_cons] at below ints ⊢; omega)]
            rw [@List.length_cons _ last tail] at reached below
            refine .line tail below (List.cons_ne_nil _ _) ?_
            rw [SizesBelow, ← reached, grownTo, if_neg (by simp only [List.length_cons]; omega)]

/-- The newline is stored, and the NUL behind it. -/
theorem loop_newline_holding {limit : Nat} {last : Option UInt8} {room : Buffer}
    (grown : (holding read rest).grow limit = .ok (holding read (last :: room)))
    (some : room ≠ []) (below : read.length + (room.length + 1) < limit)
    (ints : read.length + 1 < 2 ^ 31)
    (reached : read.length + (room.length + 1) = grownTo read.length (read.length + rest.length))
    (stream : List UInt8) :
    Ends limit (SizesBelow limit read.length (read.length + rest.length) (newline :: stream))
      (read ++ [newline]) stream
      (loop limit newline 0 (holding read rest) (newline :: stream)) := by
  obtain ⟨second, tail, rfl⟩ := List.exists_cons_of_ne_nil some
  have size : (read ++ [newline]).length = read.length + 1 := by simp
  rw [loop_cons_holding grown, if_pos rfl, finish_holding second (by omega)]
  rw [List.length_cons] at below reached
  refine .line tail (by omega) (by simp) ?_
  have sameSize : (read ++ [newline]).length + (tail.length + 1) =
      grownTo read.length (read.length + rest.length) := by omega
  rw [SizesBelow, if_pos rfl, sameSize]
  exact and_iff_right (by omega)

theorem loop_holding {limit : Nat} (fits : read.length + rest.length < limit)
    (stream : List UInt8)
    (ints : limit ≤ 2 ^ 31 ∨ (read ++ (firstLine stream).1).length + 66 ≤ 2 ^ 31) :
    Ends limit (SizesBelow limit read.length (read.length + rest.length) stream)
      (read ++ (firstLine stream).1) (firstLine stream).2
      (loop limit newline 0 (holding read rest) stream) := by
  induction stream generalizing read rest with
  | nil =>
      rw [firstLine, List.append_nil] at ints ⊢
      exact loop_nil_holding fits ints
  | cons c stream ih =>
      have one : 1 ≤ (firstLine (c :: stream)).1.length := by
        rw [firstLine]
        split <;> simp
      have whole : (read ++ (firstLine (c :: stream)).1).length =
          read.length + (firstLine (c :: stream)).1.length := List.length_append
      rcases grow_holding fits (by omega) with
        ⟨full, long, exceeds⟩ | ⟨room, grown, enough, below, reached⟩
      · rw [loop, holding_consistent, full]
        exact .full (by omega) fun sizes => absurd sizes.1 (Nat.not_lt.mpr exceeds)
      · cases room with
        | nil => simp at enough
        | cons last room =>
            simp only [List.length_cons] at enough below reached
            by_cases ends : c = newline
            · subst c
              rw [firstLine, if_pos rfl]
              exact loop_newline_holding grown (List.ne_nil_of_length_pos (by omega)) below
                (by omega) reached stream
            · rw [firstLine, if_neg ends] at ints ⊢
              rw [loop_cons_holding grown, if_neg ends]
              rw [List.append_cons] at ints ⊢
              have size : (read ++ [c]).length = read.length + 1 := by simp
              have sizes : SizesBelow limit read.length (read.length + rest.length) (c :: stream) ↔
                  SizesBelow limit (read ++ [c]).length ((read ++ [c]).length + room.length)
                    stream := by
                have sameSize : (read ++ [c]).length + room.length =
                    grownTo read.length (read.length + rest.length) := by omega
                rw [SizesBelow, if_neg ends, sameSize, size]
                exact and_iff_right (by omega)
              rw [propext sizes]
              exact ih (by omega) ints

end Reading

/-- A NULL pointer, or a block of `n` bytes. -/
def Line.Valid (line : Line) : Prop :=
  ∀ block, line.block = some block → line.n = block.length ∧ block.length < 2 ^ 30

/-- `Line.Valid` with another bound on the size. -/
def Line.ValidBelow (bound : Nat) (line : Line) : Prop :=
  ∀ block, line.block = some block → line.n = block.length ∧ block.length < bound

theorem novaGetlineBelow_eq {bound : Nat} {line : Line} (valid : line.ValidBelow bound)
    (chunk : MIN_CHUNK < bound) (ints : bound ≤ 2 ^ 31) (limit : Nat) (stream : List UInt8) :
    ∃ block : Buffer, block.length < bound ∧ block.length = line.size ∧
      novaGetlineBelow limit line stream = Reading.loop limit newline 0 (.holding [] block) stream := by
  have reading : ∀ block : Buffer, block.length < bound → ({
      block := block
      n := block.length
      nchars_avail := toInt ((block.length : Int) - (0 : Nat))
      read_pos := 0 } : Reading) = .holding [] block := by
    intro block below
    rw [toInt_of_isInt ⟨by omega, by omega⟩]
    simp [Reading.holding]
  cases pointer : line.block with
  | none =>
      have below : (Buffer.malloc MIN_CHUNK).length < bound := by
        rwa [Buffer.malloc, List.length_replicate]
      have size : line.size = MIN_CHUNK := by
        rw [Line.size, pointer]
        rfl
      refine ⟨Buffer.malloc MIN_CHUNK, below, by rw [size]; rfl, ?_⟩
      rw [← reading _ below, novaGetlineBelow, novaGetstrBelow, size, pointer]
      rfl
  | some block =>
      obtain ⟨isSize, below⟩ := valid block pointer
      have size : line.size = block.length := by
        rw [Line.size, pointer, ← isSize]
        rfl
      refine ⟨block, below, size.symm, ?_⟩
      rw [← reading _ below, novaGetlineBelow, novaGetstrBelow, size, pointer]
      rfl

theorem novaGetline_eq {line : Line} (valid : line.Valid) (stream : List UInt8) :
    ∃ block : Buffer, block.length < 2 ^ 30 ∧ block.length = line.size ∧
      novaGetline line stream = Reading.loop (2 ^ 30) newline 0 (.holding [] block) stream :=
  novaGetlineBelow_eq valid (by decide) (by decide) (2 ^ 30) stream

/-- The first line ends in its only newline, or it is the whole stream and has none. -/
theorem firstLine_cases (stream : List UInt8) :
    (∃ body after, firstLine stream = (body ++ [newline], after) ∧ newline ∉ body ∧
      stream = body ++ newline :: after) ∨ firstLine stream = (stream, []) ∧ newline ∉ stream := by
  induction stream with
  | nil => exact .inr ⟨rfl, List.not_mem_nil⟩
  | cons c stream ih =>
      by_cases ends : c = newline
      · exact .inl ⟨[], stream, by rw [firstLine, if_pos ends, ends]; rfl, List.not_mem_nil, by
          rw [ends]; rfl⟩
      · rw [firstLine, if_neg ends]
        rcases ih with ⟨body, after, line, absent, split⟩ | ⟨line, absent⟩
        · refine .inl ⟨c :: body, after, by rw [line]; rfl, ?_, by rw [split]; rfl⟩
          rw [List.mem_cons, not_or]
          exact ⟨Ne.symm ends, absent⟩
        · refine .inr ⟨by rw [line], ?_⟩
          rw [List.mem_cons, not_or]
          exact ⟨Ne.symm ends, absent⟩

theorem firstLine_append (stream : List UInt8) :
    (firstLine stream).1 ++ (firstLine stream).2 = stream := by
  rcases firstLine_cases stream with ⟨body, after, line, -, split⟩ | ⟨line, -⟩
  · rw [line, split, List.append_assoc]
    rfl
  · rw [line, List.append_nil]

theorem firstLine_ne_nil {stream : List UInt8} (some : stream ≠ []) : (firstLine stream).1 ≠ [] := by
  rcases firstLine_cases stream with ⟨body, after, line, -, -⟩ | ⟨line, -⟩
  · simp [line]
  · simpa [line] using some

/-- The stream, cut after each newline. -/
structure CutAtNewlines (stream : List UInt8) (pieces : List (List UInt8)) : Prop where
  whole : pieces.flatten = stream
  ended : ∀ piece ∈ pieces.dropLast, ∃ body, piece = body ++ [newline]
  newlines : ∀ piece ∈ pieces, piece ≠ [] ∧ newline ∉ piece.dropLast

theorem cutAtNewlines_line {body after : List UInt8} {pieces : List (List UInt8)}
    (absent : newline ∉ body) (rest : CutAtNewlines after pieces) :
    CutAtNewlines (body ++ newline :: after) ((body ++ [newline]) :: pieces) where
  whole := by rw [List.flatten_cons, rest.whole, List.append_assoc]; rfl
  ended := by
    intro piece member
    cases pieces with
    | nil => cases member
    | cons next pieces =>
        rcases List.mem_cons.mp member with rfl | later
        · exact ⟨body, rfl⟩
        · exact rest.ended piece later
  newlines := by
    intro piece member
    rcases List.mem_cons.mp member with rfl | later
    · exact ⟨by simp, by rwa [List.dropLast_concat]⟩
    · exact rest.newlines piece later

theorem cutAtNewlines_last {stream : List UInt8} (some : stream ≠ []) (absent : newline ∉ stream) :
    CutAtNewlines stream [stream] where
  whole := by simp
  ended := by simp
  newlines := by
    intro piece member
    obtain rfl := List.mem_singleton.mp member
    exact ⟨some, fun inside => absent (List.dropLast_subset _ inside)⟩

theorem cutAtNewlines_nil {pieces : List (List UInt8)} (cut : CutAtNewlines [] pieces) :
    pieces = [] := by
  cases pieces with
  | nil => rfl
  | cons piece pieces =>
      have empty := List.flatten_eq_nil_iff.mp cut.whole piece List.mem_cons_self
      exact absurd empty (cut.newlines piece List.mem_cons_self).1

theorem cutAtNewlines_firstLine {stream : List UInt8} {pieces : List (List UInt8)}
    (some : stream ≠ []) (rest : CutAtNewlines (firstLine stream).2 pieces) :
    CutAtNewlines stream ((firstLine stream).1 :: pieces) := by
  rcases firstLine_cases stream with ⟨body, after, line, absent, split⟩ | ⟨line, absent⟩
  · rw [line] at rest ⊢
    exact split ▸ cutAtNewlines_line absent rest
  · rw [line] at rest ⊢
    obtain rfl := cutAtNewlines_nil rest
    exact cutAtNewlines_last some absent

/-- `*n` is the size of the block. -/
def Line.Allocated (line : Line) : Prop :=
  ∃ block, line.block = some block ∧ line.n = block.length ∧ block.length < 2 ^ 30

/-- The call stored the piece and a NUL behind it, and returned its length. -/
def Returned.Stores (returned : Returned) (piece : List UInt8) : Prop :=
  returned.count = piece.length ∧ returned.line.Allocated ∧
    ∃ block, returned.line.block = some block ∧ block.loadAll piece.length = some piece ∧
      block[piece.length]? = some (some 0)

theorem ended_allocated {read : List UInt8} {rest : Buffer}
    (below : read.length + (rest.length + 1) < 2 ^ 30) : (Reading.ended read rest).Allocated := by
  have size : (read.map some ++ some 0 :: rest).length = read.length + (rest.length + 1) := by
    rw [List.length_append, List.length_map, List.length_cons]
  exact ⟨_, rfl, size.symm, by rwa [size]⟩

theorem ended_stores {read : List UInt8} {rest : Buffer}
    (below : read.length + (rest.length + 1) < 2 ^ 30) :
    (Returned.mk read.length (Reading.ended read rest)).Stores read := by
  refine ⟨rfl, ended_allocated below, _, rfl, Buffer.loadAll_append read _, ?_⟩
  have position : (read.map some).length = read.length := List.length_map _
  rw [List.getElem?_append_right (by omega), position, Nat.sub_self]
  rfl

theorem Line.Allocated.valid {line : Line} (allocated : line.Allocated) : line.Valid := by
  obtain ⟨block, pointer, size, below⟩ := allocated
  intro other found
  obtain rfl := Option.some.inj (pointer.symm.trans found)
  exact ⟨size, below⟩

/-- The calls of `nova_getline` cut the stream after each newline, unless a size would
reach 2^30. -/
theorem readLines_cut (calls : Nat) {line : Line} (valid : line.Valid) {stream : List UInt8}
    (enough : stream.length < calls) :
    (readLines calls line stream = .error .sizeLimit ∧ 2 ^ 29 ≤ stream.length + 1 ∧
        ¬SizesBelow (2 ^ 30) 0 line.size stream) ∨
      SizesBelow (2 ^ 30) 0 line.size stream ∧
        ∃ returned last pieces, readLines calls line stream = .ok (some (returned, last)) ∧
          CutAtNewlines stream pieces ∧ List.Forall₂ Returned.Stores returned pieces ∧
          last.Allocated := by
  induction calls generalizing line stream with
  | zero => omega
  | succ calls ih =>
      obtain ⟨block, below, size, called⟩ := novaGetline_eq valid stream
      have outcome := @Reading.loop_holding [] block (2 ^ 30) (by simpa using below) stream
        (.inl (by decide))
      rw [List.nil_append, ← called, List.length_nil, Nat.zero_add, size] at outcome
      have whole := congrArg List.length (firstLine_append stream)
      rw [List.length_append] at whole
      rw [readLines]
      generalize novaGetline line stream = result at outcome ⊢
      cases outcome with
      | full long exceeds => exact .inl ⟨rfl, by omega, exceeds⟩
      | nothing after small empty kept =>
          obtain rfl : stream = [] := by
            by_contra some
            exact firstLine_ne_nil some empty
          exact .inr ⟨kept, [], ⟨some after, after.length⟩, [], rfl, ⟨rfl, by simp, by simp⟩, .nil,
            after, rfl, rfl, small⟩
      | line tail small text kept =>
          have counted : ((firstLine stream).1.length : Int) ≠ -1 := by omega
          have positive : 0 < (firstLine stream).1.length := List.length_pos_iff.mpr text
          have some : stream ≠ [] := by
            rintro rfl
            exact text rfl
          simp only [bind, Except.bind, if_neg counted]
          rcases ih (ended_allocated small).valid (show (firstLine stream).2.length < calls by omega) with
            ⟨full, long, exceeds⟩ | ⟨sizes, others, last, pieces, read, cut, stores, allocated⟩
          · simp only [full]
            exact .inl ⟨trivial, by omega, fun sizes => exceeds (kept.mp sizes)⟩
          · simp only [read]
            exact .inr ⟨kept.mpr sizes, _, last, _, rfl, cutAtNewlines_firstLine some cut,
              .cons (ended_stores small) stores, allocated⟩

/-- The sizes stay below the limit where the stream is short enough. -/
theorem sizesBelow_of_short {line : Line} (valid : line.Valid) {stream : List UInt8}
    (short : stream.length + 1 < 2 ^ 29) : SizesBelow (2 ^ 30) 0 line.size stream := by
  rcases readLines_cut (stream.length + 1) valid (Nat.lt_succ_self _) with
    ⟨-, long, -⟩ | ⟨sizes, -⟩
  · omega
  · exact sizes

/-- Only a size that reaches 2^30 stops the calls. -/
theorem readLines_full_iff {line : Line} (valid : line.Valid) (stream : List UInt8) :
    readLines (stream.length + 1) line stream = .error .sizeLimit ↔
      ¬SizesBelow (2 ^ 30) 0 line.size stream := by
  rcases readLines_cut (stream.length + 1) valid (Nat.lt_succ_self _) with
    ⟨full, -, exceeds⟩ | ⟨sizes, returned, last, pieces, read, -⟩
  · exact iff_of_true full exceeds
  · exact iff_of_false (by rw [read]; exact nofun) (not_not.mpr sizes)

/-- Repeated calls of `nova_getline` partition the stream. -/
theorem getline_partitions {line : Line} (valid : line.Valid) (stream : List UInt8)
    (sizes : SizesBelow (2 ^ 30) 0 line.size stream) :
    ∃ returned last pieces, readLines (stream.length + 1) line stream = .ok (some (returned, last)) ∧
      CutAtNewlines stream pieces ∧ List.Forall₂ Returned.Stores returned pieces ∧
      last.Allocated :=
  ((readLines_cut (stream.length + 1) valid (Nat.lt_succ_self _)).resolve_left fun full =>
    full.2.2 sizes).2

/-- A newline, 70 times `a` and a newline, and `bc`, read into an empty block. -/
def threeLines : List UInt8 := 10 :: List.replicate 70 97 ++ [10, 98, 99]

theorem getline_partitions_three :
    ∃ returned last pieces, readLines 75 ⟨some [], 0⟩ threeLines = .ok (some (returned, last)) ∧
      CutAtNewlines threeLines pieces ∧ List.Forall₂ Returned.Stores returned pieces ∧
      last.Allocated := by
  have valid : Line.Valid ⟨some [], 0⟩ := by
    intro block found
    obtain rfl := Option.some.inj found
    exact ⟨rfl, by decide⟩
  exact getline_partitions valid threeLines (sizesBelow_of_short valid (by decide))

end NovaC.Files
