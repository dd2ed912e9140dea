import NovaC.C.Int
import NovaC.OpenAddressing.Table

namespace NovaC.HashMap

open NovaC.C NovaC.OpenAddressing

/-! The hash map of `HashMap.c`.

The values that `rand` gives are a list, from which each call takes one. An `int`
wraps around. A call that does not return (because it calls `rand` more often
than the list allows, or goes deeper than its bound) is told apart from one that
has no meaning.
-/

inductive Stop where
  | noReturn
  | undefined
  deriving Repr, DecidableEq

abbrev Rands := List Nat

/-- `(x * y) % val` of two `int`s and an `unsigned long`, as an `int` -/
def mulMod (x y : Int) (val : Nat) : Int :=
  toInt (toSize (toInt (x * y)) % val)

/-- `while (exp)`, for an `exp` with at most this many bits -/
def powMod (val : Nat) : Nat → Nat → Int → Int → Int
  | 0, _, p, _ => p
  | bits + 1, exp, p, a =>
      if exp = 0 then p
      else powMod val bits (exp / 2) (if exp % 2 = 1 then mulMod p a val else p) (mulMod a a val)

/-- `for (i = 9; i--;)` -/
def isPrimeRounds (val : Nat) : Nat → Rands → Except Stop (Bool × Rands)
  | 0, rands => .ok (true, rands)
  | _ + 1, [] => .error .noReturn
  | rounds + 1, rand :: rands =>
      let divisor := toSize (val - 4)
      if divisor = 0 then .error .undefined
      else if powMod val 31 (val - 1) 1 (toInt (rand % divisor + 2 : Nat)) = 1 then
        isPrimeRounds val rounds rands
      else .ok (false, rands)

/-- A negative `int` leaves `exp` negative, and shifting never makes it 0. -/
def isPrime (val : Int) (rands : Rands) : Except Stop (Bool × Rands) :=
  if val < 0 then .error .noReturn
  else if val = 0 then .error .undefined
  else isPrimeRounds val.toNat 9 rands

/-- `while (!isPrime(val))`; each round calls `rand`, which bounds the rounds. -/
def findPrimeFrom : Nat → Int → Rands → Except Stop (Int × Rands)
  | 0, _, _ => .error .noReturn
  | rounds + 1, val, rands =>
      match isPrime val rands with
      | .error stop => .error stop
      | .ok (true, rands) => .ok (val, rands)
      | .ok (false, rands) => findPrimeFrom rounds (toInt (val + 2)) rands

def findPrimeGreaterThan (val : Int) (rands : Rands) : Except Stop (Int × Rands) :=
  findPrimeFrom (rands.length + 1) (toInt (if val % 2 = 1 then val + 2 else val + 1)) rands

abbrev HEntry (Data : Type) := Slot UInt64 Data

structure Hashmap (Data : Type) where
  table : List (HEntry Data)
  size : Nat
  count : Int
  deriving Repr, DecidableEq

variable {Data Result : Type}

def calloc (size : Nat) : List (HEntry Data) :=
  List.replicate size ⟨none, false, 0⟩

def hashmapCreate (startsize : Int) (rands : Rands) : Except Stop (Hashmap Data × Rands) :=
  if startsize = 0 then
    .ok (⟨calloc 1021, 1021, 0⟩, rands)
  else do
    let (prime, rands) ← findPrimeGreaterThan (startsize - 2) rands
    .ok (⟨calloc prime.toNat, prime.toNat, 0⟩, rands)

/-- `key % hash->size` -/
def startIndex (size : Nat) (key : UInt64) : Nat :=
  key.toNat % size

/-- `(key % (hash->size-2)) + 1`, as a `long` -/
def step (size : Nat) (key : UInt64) : Int :=
  toLong (key.toNat % toSize (size - 2) + 1 : Nat)

/-- `(index + step) % hash->size` -/
def nextIndex (size : Nat) (key : UInt64) (index : Nat) : Nat :=
  ((index + step size key).tmod size).toNat

/-- The loop over the slots for a key, with what is done at a slot. -/
def searchTable (hash : Hashmap Data) (key : UInt64) (visit : Nat → HEntry Data → Option Result) :
    Except Stop (Option Result) :=
  if hash.size = 0 ∨ toSize (hash.size - 2) = 0 then .error .undefined
  else
    match search visit hash.table (nextIndex hash.size key) hash.size (startIndex hash.size key) with
    | none => .error .undefined
    | some result => .ok result

def insertAt (hash : Hashmap Data) (data : Option Data) (key : UInt64) (index : Nat)
    (entry : HEntry Data) : Option (Hashmap Data) :=
  if entry.active then
    if entry.key = key then
      some { hash with table := hash.table.set index { entry with data := data } }
    else none
  else
    some { hash with table := hash.table.set index ⟨data, true, key⟩, count := hash.count + 1 }

abbrev Insert (Data : Type) :=
  Hashmap Data → Option Data → UInt64 → Rands → Except Stop (Hashmap Data × Rands)

/-- `while (--size >= 0)`, over the old table from its end -/
def reinsert (insert : Insert Data) : List (HEntry Data) → Hashmap Data → Rands →
    Except Stop (Hashmap Data × Rands)
  | [], hash, rands => .ok (hash, rands)
  | entry :: entries, hash, rands =>
      if entry.active then do
        let (hash, rands) ← insert hash entry.data entry.key rands
        reinsert insert entries hash rands
      else reinsert insert entries hash rands

def rehash (insert : Insert Data) (hash : Hashmap Data) (rands : Rands) :
    Except Stop (Hashmap Data × Rands) := do
  let (prime, rands) ← findPrimeGreaterThan (toInt (2 * hash.size)) rands
  reinsert insert hash.table.reverse ⟨calloc prime.toNat, prime.toNat, 0⟩ rands

/-- `hashmapInsert`, with a bound on the rehashes; its `do` loop starts again
with `entering` false. -/
def insertFrom : Nat → Bool → Insert Data
  | 0, _, _, _, _, _ => .error .noReturn
  | depth + 1, entering, hash, data, key, rands => do
      let entered :=
        if entering ∧ (hash.size : Int) ≤ hash.count then
          rehash (insertFrom depth true) hash rands
        else .ok (hash, rands)
      let (hash, rands) ← entered
      let inserted ← searchTable hash key (insertAt hash data key)
      match inserted with
      | some hash => .ok (hash, rands)
      | none => do
          let (hash, rands) ← rehash (insertFrom depth true) hash rands
          insertFrom depth false hash data key rands

def hashmapInsert (depth : Nat) : Insert Data :=
  insertFrom depth true

def removeAt (hash : Hashmap Data) (key : UInt64) (index : Nat) (entry : HEntry Data) :
    Option (Hashmap Data × Option Data) :=
  if entry.data.isSome then
    if entry.key = key then
      if entry.active then
        some ({ hash with
          table := hash.table.set index { entry with active := false }
          count := hash.count - 1 }, entry.data)
      else some (hash, none)
    else none
  else some (hash, none)

def hashmapRemove (hash : Hashmap Data) (key : UInt64) :
    Except Stop (Hashmap Data × Option Data) := do
  let removed ← searchTable hash key (removeAt hash key)
  .ok (removed.getD (hash, none))

def getAt (key : UInt64) (_ : Nat) (entry : HEntry Data) : Option (Option Data) :=
  if entry.key = key then some (if entry.active then entry.data else none)
  else if entry.data.isNone then some none
  else none

def hashmapGet (hash : Hashmap Data) (key : UInt64) : Except Stop (Option Data) :=
  if hash.count ≠ 0 then do
    let data ← searchTable hash key (getAt key)
    .ok (data.getD none)
  else .ok none

def containsAt (key : UInt64) (_ : Nat) (entry : HEntry Data) : Option Bool :=
  if entry.key = key then some entry.active
  else if entry.data.isNone then some false
  else none

def hashmapContains (hash : Hashmap Data) (key : UInt64) : Except Stop Bool :=
  if hash.count ≠ 0 then do
    let contains ← searchTable hash key (containsAt key)
    .ok (contains.getD false)
  else .ok false

def hashmapCount (hash : Hashmap Data) : Int :=
  hash.count

end NovaC.HashMap
