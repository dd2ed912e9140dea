import NovaC.C.Decimal

namespace NovaC.Network

open NovaC.C

def bufSize : Int := 128

/-- `for (size = 1; number > 0; size++)` -/
def numDigitsFrom (number size : Int) : Int :=
  if 0 < number then numDigitsFrom (number.tdiv 10) (size + 1) else size
termination_by number.toNat
decreasing_by
  rw [Int.tdiv_eq_ediv_of_nonneg (by omega)]
  omega

def numDigits (number : Int) : Int :=
  numDigitsFrom (number.tdiv 10) 1

/-- The bytes given to `write`, for the string in `message`. -/
def novaSocketSend (message : Buffer) : Option (List UInt8) := do
  let text ← message.cString
  let len := toInt text.length
  let digits := numDigits len
  let unterminated ← addInt len digits
  let size ← addInt unterminated 2
  let new := Buffer.malloc (toSize size)
  let new ← new.storeAll 0 (printInt len ++ [32, 0])
  let copied ← message.loadAll (toSize len)
  let new ← new.storeAll (digits + 1) copied
  let new ← new.store (len + digits + 1) 0
  new.cString

structure Receiving where
  message : Buffer
  messageLength : Int
  count : Int
  total : Int
  offset : Int
  deriving Repr

namespace Receiving

/-- `for (offset = 1; message[offset - 1] != ' '; offset++)`, where the buffer
starts at `message[offset - 1]` -/
def scanSpace : Buffer → Int → Option Int
  | some byte :: rest, offset => if byte = 32 then some offset else scanSpace rest (offset + 1)
  | _, _ => none

def start : Receiving where
  message := [some 0]
  messageLength := 1
  count := 0
  total := 0
  offset := 0

def grow (state : Receiving) : Option Receiving := do
  let messageLength ← addInt state.messageLength bufSize
  some { state with
    message := state.message.realloc (toSize messageLength)
    messageLength := messageLength }

/-- What `read` puts into the message, and the header of the first one. -/
def fill (state : Receiving) (chunk : List UInt8) : Option Receiving := do
  let message ← state.message.storeAll (state.messageLength - bufSize - 1) chunk
  if state.count = 0 then do
    let total ← atoi message
    let offset ← scanSpace message 1
    some { state with
      message := message, count := state.count + 1, total := total, offset := offset }
  else
    some { state with message := message, count := state.count + 1 }

/-- The pointer that is returned, as its block and its offset in it. -/
def finish (state : Receiving) (length : Int) : Option (Buffer × Int) := do
  let size := state.messageLength - (bufSize - length)
  let message ← state.message.store (size - 1) 0
  some (message.realloc (toSize size), state.offset)

end Receiving

/-- `reads` are the bytes that the calls of `read` return, after which the
connection ends; for a `read` that gives no bytes, the result is the null
pointer. -/
def receiveLoop : List (List UInt8) → Receiving →
    Option (Option (Buffer × Int) × List (List UInt8))
  | [], state => state.grow.map fun _ => (none, [])
  | chunk :: reads, state => do
      let state ← state.grow
      if chunk = [] then
        some (none, reads)
      else do
        let state ← state.fill chunk
        if bufSize ≤ chunk.length ∧ state.messageLength - state.offset - 1 ≠ state.total then
          receiveLoop reads state
        else do
          let message ← state.finish chunk.length
          some (some message, reads)

def novaSocketReceive (reads : List (List UInt8)) :
    Option (Option (Buffer × Int) × List (List UInt8)) :=
  receiveLoop reads .start

end NovaC.Network
