import NovaC.C.Buffer

namespace NovaC.Files

open NovaC.C

/-! `nova_getstr` and `nova_getline` of `NativeFile.c`, for arguments that are not NULL,
a stream without read errors and allocations that succeed.

The stream is the bytes that `getc` has not taken yet. `read_pos` is counted from
`*lineptr`. Sizes are followed up to a limit.
-/

inductive Failure where
  /-- `*n` would reach the limit -/
  | sizeLimit
  /-- a store outside the block or not below `*n`, or a failed assertion -/
  | undefined
deriving DecidableEq

def MIN_CHUNK : Nat :=
  64

/-- What `lineptr` and `n` point to. -/
structure Line where
  block : Option Buffer
  n : Nat
deriving DecidableEq

structure Reading where
  block : Buffer
  n : Nat
  nchars_avail : Int
  read_pos : Nat
deriving DecidableEq

def check (condition : Prop) [Decidable condition] : Except Failure Unit :=
  if condition then .ok () else .error .undefined

namespace Reading

/-- `*read_pos = byte` -/
def store (reading : Reading) (byte : UInt8) : Except Failure Reading := do
  check (reading.read_pos < reading.n)
  match reading.block.store reading.read_pos byte with
  | some block => pure { reading with block := block }
  | none => .error .undefined

/-- `(int)(*lineptr + *n) == (int)(read_pos + nchars_avail)`, for a block at `*lineptr` -/
def Consistent (reading : Reading) : Prop :=
  toInt (reading.n : Int) = toInt (reading.read_pos + reading.nchars_avail)

instance (reading : Reading) : Decidable reading.Consistent :=
  inferInstanceAs (Decidable (_ = _))

def grownSize (n : Nat) : Nat :=
  if MIN_CHUNK < n then n * 2 else n + MIN_CHUNK

def resize (reading : Reading) (n : Nat) : Reading :=
  let nchars_avail := toInt ((n : Int) - reading.read_pos)
  { block := reading.block.realloc n
    n := n
    nchars_avail := nchars_avail
    read_pos := toSize ((n : Int) - nchars_avail) }

def grow (limit : Nat) (reading : Reading) : Except Failure Reading :=
  if reading.nchars_avail < 2 then
    if grownSize reading.n < limit then do
      let reading := reading.resize (grownSize reading.n)
      check reading.Consistent
      pure reading
    else .error .sizeLimit
  else .ok reading

/-- What comes behind the loop: the number of characters read, and the line. -/
def finish (reading : Reading) (offset : Nat) : Except Failure (Int × Line) := do
  let reading ← reading.store 0
  pure (toInt ((reading.read_pos : Int) - offset), { block := some reading.block, n := reading.n })

/-- The loop; the result is what is returned, the line and the rest of the stream. -/
def loop (limit : Nat) (terminator : UInt8) (offset : Nat) (reading : Reading) :
    List UInt8 → Except Failure (Int × Line × List UInt8)
  | [] => do
      check reading.Consistent
      let reading ← reading.grow limit
      if reading.read_pos = 0 then
        pure (-1, { block := some reading.block, n := reading.n }, [])
      else do
        let (count, line) ← reading.finish offset
        pure (count, line, [])
  | c :: stream => do
      check reading.Consistent
      let reading ← reading.grow limit
      let reading ← reading.store c
      let reading : Reading :=
        { reading with
          read_pos := reading.read_pos + 1
          nchars_avail := reading.nchars_avail - 1 }
      if c = terminator then do
        let (count, line) ← reading.finish offset
        pure (count, line, stream)
      else loop limit terminator offset reading stream

end Reading

/-- The size that `nova_getstr` begins with. -/
def Line.size (line : Line) : Nat :=
  if line.block.isNone then MIN_CHUNK else line.n

def novaGetstrBelow (limit : Nat) (line : Line) (stream : List UInt8) (terminator : UInt8)
    (offset : Nat) : Except Failure (Int × Line × List UInt8) :=
  let n := line.size
  let block := line.block.getD (Buffer.malloc MIN_CHUNK)
  Reading.loop limit terminator offset
    { block := block, n := n, nchars_avail := toInt ((n : Int) - offset), read_pos := offset }
    stream

/-- `nova_getstr` with sizes below 2^30 -/
def novaGetstr (line : Line) (stream : List UInt8) (terminator : UInt8) (offset : Nat) :
    Except Failure (Int × Line × List UInt8) :=
  novaGetstrBelow (2 ^ 30) line stream terminator offset

def newline : UInt8 :=
  10

def novaGetline (line : Line) (stream : List UInt8) : Except Failure (Int × Line × List UInt8) :=
  novaGetstr line stream newline 0

/-- `nova_getline` with sizes below the limit -/
def novaGetlineBelow (limit : Nat) (line : Line) (stream : List UInt8) :
    Except Failure (Int × Line × List UInt8) :=
  novaGetstrBelow limit line stream newline 0

structure Returned where
  count : Int
  line : Line
deriving DecidableEq

/-- Calls of `nova_getline` with the same `lineptr` and `n` until it returns -1, at most
`calls` of them; the last result is that of the call that returned -1. -/
def readLines : Nat → Line → List UInt8 → Except Failure (Option (List Returned × Line))
  | 0, _, _ => .ok none
  | calls + 1, line, stream => do
      let (count, line, stream) ← novaGetline line stream
      if count = -1 then pure (some ([], line))
      else do
        let rest ← readLines calls line stream
        pure (rest.map fun rest => (⟨count, line⟩ :: rest.1, rest.2))

end NovaC.Files
