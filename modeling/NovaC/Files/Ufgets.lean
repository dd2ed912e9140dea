import NovaC.Files.Lines

namespace NovaC.Files

open NovaC.C

/-! `ufgets` of `Nova.c`, for a stream without read errors and allocations that succeed,
beside `nova_getline`.
-/

def maxlen : Nat :=
  128

/-- The variables of `ufgets`. -/
structure Ufgets where
  buffer : Buffer
  /-- an `unsigned int` -/
  size : Nat
  pos : Int
deriving DecidableEq

namespace Ufgets

def start : Ufgets where
  buffer := Buffer.malloc maxlen
  size := 128
  pos := 0

/-- `if (pos == size)`; `pos` is compared and added as an `unsigned int`. -/
def grow (ufgets : Ufgets) : Ufgets :=
  if ufgets.pos % 2 ^ 32 = ufgets.size then
    let size := ((ufgets.pos + maxlen) % 2 ^ 32).toNat
    { ufgets with buffer := ufgets.buffer.realloc size, size := size }
  else ufgets

/-- The body of the loop. -/
def append (ufgets : Ufgets) (ch : UInt8) : Option Ufgets := do
  let buffer ← ufgets.buffer.store ufgets.pos ch
  let pos ← addInt ufgets.pos 1
  pure { ufgets with buffer := buffer, pos := pos }.grow

/-- The loop, with what is left of the stream; `fgetc` gives `EOF` at its end. -/
def loop (ufgets : Ufgets) : List UInt8 → Option (Ufgets × List UInt8)
  | [] => some (ufgets, [])
  | ch :: stream => if ch = newline then some (ufgets, stream) else do
      let ufgets ← ufgets.append ch
      loop ufgets stream

end Ufgets

def ufgets (stream : List UInt8) : Option (Buffer × List UInt8) := do
  let (ufgets, stream) ← Ufgets.start.loop stream
  let buffer ← ufgets.buffer.store ufgets.pos 0
  pure (buffer, stream)

/-- The bytes before the first newline. -/
def body (stream : List UInt8) : List UInt8 :=
  stream.takeWhile (· ≠ newline)

/-- A line without the newline that it may end in. -/
def withoutNewline (line : List UInt8) : List UInt8 :=
  if line.getLast? = some newline then line.dropLast else line

theorem body_eq (stream : List UInt8) : body stream = withoutNewline (firstLine stream).1 := by
  rcases firstLine_cases stream with ⟨text, after, line, absent, split⟩ | ⟨line, absent⟩
  · have stops : body (text ++ newline :: after) = text := by
      rw [body, List.takeWhile_append_of_pos, List.takeWhile_cons_of_neg (by simp), List.append_nil]
      intro byte member
      rw [decide_eq_true_eq]
      rintro rfl
      exact absent member
    rw [line, withoutNewline, List.getLast?_concat, if_pos rfl, List.dropLast_concat, split, stops]
  · have notLast : stream.getLast? ≠ some newline := fun last =>
      absent (List.mem_of_getLast? last)
    rw [line, withoutNewline, if_neg notLast, body, List.takeWhile_eq_self_iff]
    intro byte member
    rw [decide_eq_true_eq]
    rintro rfl
    exact absent member

theorem firstLine_length (stream : List UInt8) :
    (firstLine stream).1.length ≤ (body stream).length + 1 := by
  rw [body_eq, withoutNewline]
  split
  · rw [List.length_dropLast]
    omega
  · omega

namespace Ufgets

/-- The variables when these bytes have been stored, with the rest of the buffer behind
them. -/
def holding (read : List UInt8) (rest : Buffer) : Ufgets where
  buffer := read.map some ++ rest
  size := read.length + rest.length
  pos := read.length

variable {read : List UInt8} {last : Option UInt8} {rest : Buffer}

theorem holding_full_iff (short : read.length < 2 ^ 30) :
    (holding read rest).pos % 2 ^ 32 = (holding read rest).size ↔ rest = [] := by
  rw [← List.length_eq_zero_iff]
  simp only [holding]
  omega

theorem more_room : (List.replicate maxlen none : Buffer) = none :: List.replicate 127 none :=
  List.replicate_succ

/-- There is room for another byte, or for the NUL. -/
theorem grow_holding (short : read.length < 2 ^ 30) (rest : Buffer) :
    ∃ next room, (holding read rest).grow = holding read (next :: room) := by
  cases rest with
  | nil =>
      have size : (((holding read []).pos + maxlen) % 2 ^ 32).toNat =
          (holding read []).buffer.length + maxlen := by
        simp only [holding, maxlen, List.append_nil, List.length_map]
        omega
      have grown := Buffer.realloc_grow (read.map some) maxlen
      rw [List.length_map] at grown
      refine ⟨none, List.replicate 127 none, ?_⟩
      rw [grow, if_pos ((holding_full_iff short).mpr rfl), size, ← more_room]
      simp only [holding, grown, List.append_nil, List.length_map, List.length_replicate]
  | cons next room =>
      exact ⟨next, room, by rw [grow, if_neg fun full => by
        cases (holding_full_iff short).mp full]⟩

theorem append_holding (short : read.length + 1 < 2 ^ 30) (last : Option UInt8) (rest : Buffer)
    (ch : UInt8) :
    ∃ next room, (holding read (last :: rest)).append ch =
      some (holding (read ++ [ch]) (next :: room)) := by
  have stored := Buffer.store_append (read.map some) rest last ch
  have position : addInt (holding read (last :: rest)).pos 1 = some ((read.length + 1 : Nat) : Int) :=
    @addInt_natCast read.length 1 (by omega)
  have kept : ({ holding read (last :: rest) with
      buffer := read.map some ++ some ch :: rest
      pos := ((read.length + 1 : Nat) : Int) } : Ufgets) = holding (read ++ [ch]) rest := by
    simp only [holding, List.map_append, List.map_cons, List.map_nil, List.append_assoc,
      List.singleton_append, List.length_append, List.length_cons, List.length_nil,
      Ufgets.mk.injEq, true_and, and_true]
    omega
  obtain ⟨next, room, grown⟩ := @grow_holding (read ++ [ch]) (by simpa using short) rest
  rw [List.length_map] at stored
  refine ⟨next, room, ?_⟩
  rw [append, position, ← grown, ← kept]
  simp only [holding, stored, bind, Option.bind, pure]

theorem loop_holding (last : Option UInt8) (rest : Buffer) {stream : List UInt8}
    (short : (read ++ body stream).length < 2 ^ 30) :
    ∃ next room, (holding read (last :: rest)).loop stream =
      some (holding (read ++ body stream) (next :: room), (firstLine stream).2) := by
  induction stream generalizing read last rest with
  | nil => exact ⟨last, rest, by rw [body, List.takeWhile_nil, List.append_nil]; rfl⟩
  | cons ch stream ih =>
      by_cases ends : ch = newline
      · refine ⟨last, rest, ?_⟩
        rw [loop, if_pos ends, firstLine, if_pos ends, body,
          List.takeWhile_cons_of_neg (by simpa using ends), List.append_nil]
      · have text : body (ch :: stream) = ch :: body stream :=
          List.takeWhile_cons_of_pos (by simpa using ends)
        rw [text, List.append_cons] at short ⊢
        have before : read.length + 1 < 2 ^ 30 := by
          simp only [List.length_append, List.length_cons, List.length_nil] at short
          omega
        obtain ⟨next, room, appended⟩ := append_holding before last rest ch
        rw [loop, if_neg ends, firstLine, if_neg ends, appended]
        exact ih next room short

theorem start_holding : start = holding [] (none :: List.replicate 127 none) := by
  rw [← more_room]
  simp only [start, holding, Buffer.malloc, maxlen, List.length_replicate, List.map_nil,
    List.nil_append, List.length_nil, Nat.zero_add, Nat.cast_zero]

end Ufgets

theorem ufgets_eq {stream : List UInt8} (short : (body stream).length < 2 ^ 30) :
    ∃ room : Buffer, ufgets stream =
      some ((body stream).map some ++ some 0 :: room, (firstLine stream).2) := by
  obtain ⟨last, room, ran⟩ :=
    @Ufgets.loop_holding [] none (List.replicate 127 none) stream (by simpa using short)
  have stored := Buffer.store_append ((body stream).map some) room last 0
  rw [List.length_map] at stored
  refine ⟨room, ?_⟩
  rw [ufgets, Ufgets.start_holding, ran]
  simp only [Ufgets.holding, List.nil_append, stored, bind, Option.bind, pure]

/-- The line that `nova_getline` has stored, and the length that it has returned. -/
def HoldsLine (count : Int) (line : Line) (text : List UInt8) : Prop :=
  count = text.length ∧ ∃ block, line.block = some block ∧ block.loadAll text.length = some text

/-- The string that `ufgets` returns, with its NUL. -/
def HoldsString (buffer : Buffer) (text : List UInt8) : Prop :=
  buffer.loadAll text.length = some text ∧ buffer[text.length]? = some (some 0)

/-- Both readers take the same line off a stream that is not at its end. -/
theorem line_readers_agree {line : Line} (valid : line.ValidBelow (2 ^ 31)) {stream : List UInt8}
    (some : stream ≠ []) (short : (body stream).length < 2 ^ 30) :
    ∃ count after rest text buffer,
      novaGetlineBelow (2 ^ 32) line stream = .ok (count, after, rest) ∧
      HoldsLine count after text ∧ ufgets stream = Option.some (buffer, rest) ∧
      HoldsString buffer (withoutNewline text) := by
  obtain ⟨block, below, -, called⟩ :=
    novaGetlineBelow_eq valid (by decide) (Nat.le_refl _) (2 ^ 32) stream
  have length := firstLine_length stream
  have outcome := @Reading.loop_holding [] block (2 ^ 32)
    (by rw [List.length_nil]; omega) stream (.inr (by rw [List.nil_append]; omega))
  rw [List.nil_append, ← called] at outcome
  obtain ⟨room, returned⟩ := ufgets_eq short
  generalize novaGetlineBelow (2 ^ 32) line stream = result at outcome ⊢
  cases outcome with
  | full long => omega
  | nothing block below empty => exact absurd empty (firstLine_ne_nil some)
  | line tail small text =>
      refine ⟨_, _, _, _, _, rfl, ⟨rfl, _, rfl, Buffer.loadAll_append _ _⟩, returned, ?_⟩
      rw [← body_eq]
      refine ⟨Buffer.loadAll_append _ _, ?_⟩
      rw [List.getElem?_append_right (by simp)]
      simp

/-- A line of 150 times `a`, for which both blocks grow, read into a NULL pointer. -/
def longLine : List UInt8 := List.replicate 150 97 ++ [10, 98]

theorem line_readers_agree_long :
    ∃ count after rest text buffer,
      novaGetlineBelow (2 ^ 32) ⟨none, 0⟩ longLine = .ok (count, after, rest) ∧
      HoldsLine count after text ∧ ufgets longLine = some (buffer, rest) ∧
      HoldsString buffer (withoutNewline text) :=
  @line_readers_agree ⟨none, 0⟩ (fun _ found => by cases found) longLine (by decide)
    (by decide +kernel)

end NovaC.Files
