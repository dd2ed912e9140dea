import NovaC.C.Buffer

namespace NovaC.Curl

open NovaC.C

/-! `curl_get_string` of `NativeCurl.c`, where curl can be set up and allocations succeed.

What curl does is the chunks it hands to `writefunc`, in order.
-/

/-- `size` and `nmemb` are what `writefunc` is called with. -/
structure Chunk where
  bytes : List UInt8
  size : Nat
  nmemb : Nat
  whole : size * nmemb = bytes.length
  inMemory : bytes.length < 2 ^ 64

/-- `struct string` -/
structure Text where
  ptr : Buffer
  len : Nat

def init_string : Option Text := do
  let len := 0
  let ptr ← (Buffer.malloc (len + 1)).store 0 0
  some ⟨ptr, len⟩

/-- The text after the call, and what is returned. -/
def writefunc (ptr : Buffer) (size nmemb : Nat) (s : Text) : Option (Text × Nat) := do
  let new_len := toSize (s.len + size * nmemb)
  let resized := s.ptr.realloc (toSize (new_len + 1))
  let copied ← resized.memcpy s.len ptr 0 (toSize (size * nmemb))
  let ended ← copied.store new_len 0
  some (⟨ended, new_len⟩, toSize (size * nmemb))

/-- `curl_easy_perform`, which stops when less is returned than it has handed over. -/
def perform : List Chunk → Text → Option Text
  | [], s => some s
  | chunk :: chunks, s => do
      let (s, taken) ← writefunc (chunk.bytes.map some) chunk.size chunk.nmemb s
      if taken = chunk.bytes.length then perform chunks s else some s

def curl_get_string (chunks : List Chunk) : Option Buffer := do
  let s ← init_string
  let s ← perform chunks s
  some s.ptr

/-- What curl has received. -/
def body (chunks : List Chunk) : List UInt8 := chunks.flatMap Chunk.bytes

/-- The text with these bytes and a NUL behind them. -/
def Text.holding (bytes : List UInt8) : Text := ⟨Buffer.ofString bytes, bytes.length⟩

theorem init_string_eq : init_string = some (.holding []) := rfl

theorem ofString_length (bytes : List UInt8) :
    (Buffer.ofString bytes).length = bytes.length + 1 := by
  rw [Buffer.ofString, List.length_append, List.length_map, List.length_singleton]

theorem toSize_of_lt {value : Nat} (fits : value < 2 ^ 64) : toSize value = value := by
  rw [toSize_natCast]
  exact Nat.mod_eq_of_lt fits

section Writefunc

variable (bytes : List UInt8) (chunk : Chunk)

theorem Chunk.count : ((chunk.size : Int) * chunk.nmemb) = (chunk.bytes.length : Nat) := by
  rw [← chunk.whole, Nat.cast_mul]

/-- The chunk takes the place of the NUL, and another NUL comes behind it. -/
theorem writefunc_holding (fits : bytes.length + chunk.bytes.length + 1 < 2 ^ 64) :
    writefunc (chunk.bytes.map some) chunk.size chunk.nmemb (.holding bytes) =
      some (.holding (bytes ++ chunk.bytes), chunk.bytes.length) := by
  have length : (chunk.bytes.map some).length = chunk.bytes.length := List.length_map _
  have grown : (Buffer.ofString bytes).realloc (bytes.length + chunk.bytes.length + 1) =
      bytes.map some ++ (some 0 :: List.replicate chunk.bytes.length none) := by
    rw [Nat.add_right_comm, ← ofString_length, Buffer.realloc_grow, Buffer.ofString,
      List.append_assoc, List.singleton_append]
  obtain ⟨last, behind⟩ : ∃ last, (bytes.map some ++
      (some 0 :: List.replicate chunk.bytes.length none)).drop
        (bytes.length + chunk.bytes.length) = [last] := by
    apply List.length_eq_one_iff.mp
    rw [List.length_drop, List.length_append, List.length_map, List.length_cons,
      List.length_replicate]
    omega
  have copied := @Buffer.memcpy_start_of_bounds
    (bytes.map some ++ (some 0 :: List.replicate chunk.bytes.length none)) (chunk.bytes.map some)
    bytes.length chunk.bytes.length (by simp) (Nat.le_of_eq length.symm)
  have start : (bytes.map some ++ (some 0 :: List.replicate chunk.bytes.length none)).take
      bytes.length = bytes.map some := by
    rw [List.take_left' (List.length_map _)]
  rw [start, behind, List.take_of_length_le (Nat.le_of_eq length), ← List.append_assoc,
    ← List.map_append] at copied
  have ended := Buffer.store_append ((bytes ++ chunk.bytes).map some) [] last 0
  rw [List.length_map, List.length_append] at ended
  rw [writefunc]
  simp only [Text.holding, chunk.count, ← Nat.cast_add, ← Nat.cast_succ,
    toSize_of_lt (show bytes.length + chunk.bytes.length < 2 ^ 64 by omega),
    toSize_of_lt (show bytes.length + chunk.bytes.length + 1 < 2 ^ 64 by omega),
    toSize_of_lt chunk.inMemory, grown, copied, ended, Option.bind_eq_bind, Option.bind_some,
    List.length_append]
  rfl

/-- Where the size is more than a `size_t` can hold, the block is too small for the chunk. -/
theorem writefunc_overflow (small : bytes.length + 1 < 2 ^ 64)
    (overflow : 2 ^ 64 ≤ bytes.length + chunk.bytes.length + 1) :
    writefunc (chunk.bytes.map some) chunk.size chunk.nmemb (.holding bytes) = none := by
  have inMemory := chunk.inMemory
  have short : ¬ (bytes.length : Int) + (chunk.bytes.length : Nat) ≤
      ((Text.holding bytes).ptr.realloc
        (toSize (toSize ((bytes.length : Int) + (chunk.bytes.length : Nat)) + 1))).length := by
    rw [Buffer.realloc, List.length_append, List.length_take, List.length_replicate]
    unfold toSize
    omega
  rw [writefunc, Option.bind_eq_bind, Option.bind_eq_none_iff]
  intro copied stored
  simp only [chunk.count, toSize_of_lt inMemory] at stored
  rw [Buffer.memcpy] at stored
  split at stored
  · rename_i bounds
    exact absurd bounds.2.2.2.1 short
  · cases stored

end Writefunc

theorem body_cons (chunk : Chunk) (chunks : List Chunk) :
    body (chunk :: chunks) = chunk.bytes ++ body chunks := List.flatMap_cons

theorem perform_holding (bytes : List UInt8) (chunks : List Chunk)
    (small : bytes.length + 1 < 2 ^ 64) :
    perform chunks (.holding bytes) =
      if (bytes ++ body chunks).length + 1 < 2 ^ 64 then some (.holding (bytes ++ body chunks))
      else none := by
  induction chunks generalizing bytes with
  | nil => rw [perform, body, List.flatMap_nil, List.append_nil, if_pos small]
  | cons chunk chunks ih =>
      rw [perform, body_cons]
      by_cases fits : bytes.length + chunk.bytes.length + 1 < 2 ^ 64
      · rw [writefunc_holding bytes chunk fits]
        simp only [Option.bind_eq_bind, Option.bind_some, if_true]
        rw [ih (bytes ++ chunk.bytes) (by rwa [List.length_append]), List.append_assoc]
      · have long : ¬ (bytes ++ (chunk.bytes ++ body chunks)).length + 1 < 2 ^ 64 := by
          rw [List.length_append, List.length_append]
          omega
        rw [writefunc_overflow bytes chunk small (Nat.not_lt.mp fits), if_neg long]
        rfl

/-- A string ends at its first NUL. -/
theorem cString_ofString (bytes : List UInt8) :
    (Buffer.ofString bytes).cString = some (bytes.takeWhile (· ≠ 0)) := by
  induction bytes with
  | nil => rfl
  | cons byte bytes ih =>
      rw [Buffer.ofString] at ih ⊢
      rw [List.map_cons, List.cons_append, Buffer.cString, ih, List.takeWhile_cons]
      by_cases nul : byte = 0 <;> simp [nul]

/-- Whatever the chunks, the block has all that was received and a NUL, as long as its size is
a `size_t`; the string in it is what was received up to the first NUL. -/
theorem curl_get_string_eq (chunks : List Chunk) :
    curl_get_string chunks =
        (if (body chunks).length + 1 < 2 ^ 64 then some (.ofString (body chunks)) else none) ∧
      (curl_get_string chunks).bind Buffer.cString =
        if (body chunks).length + 1 < 2 ^ 64 then some ((body chunks).takeWhile (· ≠ 0))
        else none := by
  have received : curl_get_string chunks =
      if (body chunks).length + 1 < 2 ^ 64 then some (.ofString (body chunks)) else none := by
    rw [curl_get_string, init_string_eq]
    simp only [Option.bind_eq_bind, Option.bind_some]
    rw [perform_holding [] chunks (by decide), List.nil_append]
    split <;> rfl
  refine ⟨received, ?_⟩
  rw [received]
  split
  · exact cString_ofString (body chunks)
  · rfl

end NovaC.Curl
