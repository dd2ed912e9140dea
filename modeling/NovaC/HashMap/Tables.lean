import NovaC.HashMap.Refinement

namespace NovaC.HashMap

open NovaC.C NovaC.OpenAddressing

/-! The hash map with its tables in memory: each in a block that `calloc` gives and
`NOVA_FREE` releases, read and written through `hash->table`.
-/

variable {Data Result : Type}

/-- A released table is `none`, and no later one takes its place. -/
abbrev Tables (Data : Type) := List (Option (List (HEntry Data)))

def Tables.live (tables : Tables Data) (block : Nat) : Option (List (HEntry Data)) :=
  tables[block]?.join

/-- `struct s_hashmap`, and the memory -/
structure Located (Data : Type) where
  tables : Tables Data
  table : Nat
  size : Nat
  count : Int

abbrev InsertAt (Data : Type) :=
  Located Data → Option Data → UInt64 → Rands → Except Stop (Located Data × Rands)

def Tables.free (tables : Tables Data) (block : Nat) : Except Stop (Tables Data) :=
  match tables.live block with
  | some _ => .ok (tables.set block none)
  | none => .error .undefined

namespace Located

/-- What is read through `hash->table`. -/
def read (state : Located Data) : Except Stop (Hashmap Data) :=
  match state.tables.live state.table with
  | some table => .ok ⟨table, state.size, state.count⟩
  | none => .error .undefined

def write (state : Located Data) (hash : Hashmap Data) : Located Data :=
  { state with
    tables := state.tables.set state.table (some hash.table)
    size := hash.size
    count := hash.count }

/-- `table[size]`, of a table that may not be the one of the map -/
def entry (state : Located Data) (table size : Nat) : Except Stop (HEntry Data) :=
  match (state.tables.live table).bind (·[size]?) with
  | some entry => .ok entry
  | none => .error .undefined

/-- A new table: `calloc` -/
def calloc (tables : Tables Data) (size : Nat) : Located Data :=
  ⟨tables ++ [some (HashMap.calloc size)], tables.length, size, 0⟩

def hashmapCreate (tables : Tables Data) (startsize : Int) (rands : Rands) :
    Except Stop (Located Data × Rands) :=
  if startsize = 0 then
    .ok (calloc tables 1021, rands)
  else do
    let (prime, rands) ← findPrimeGreaterThan (startsize - 2) rands
    .ok (calloc tables prime.toNat, rands)

/-- `while(--size >= 0)`, which reads the old table -/
def reinsert (insert : InsertAt Data) (table : Nat) : Nat → Located Data → Rands →
    Except Stop (Located Data × Rands)
  | 0, state, rands => .ok (state, rands)
  | size + 1, state, rands => do
      let entry ← state.entry table size
      if entry.active then do
        let (state, rands) ← insert state entry.data entry.key rands
        reinsert insert table size state rands
      else reinsert insert table size state rands

def rehash (insert : InsertAt Data) (state : Located Data) (rands : Rands) :
    Except Stop (Located Data × Rands) := do
  let size := state.size
  let table := state.table
  let (prime, rands) ← findPrimeGreaterThan (toInt (2 * size)) rands
  let (state, rands) ← reinsert insert table size (calloc state.tables prime.toNat) rands
  let tables ← state.tables.free table
  .ok ({ state with tables }, rands)

def insertFrom : Nat → Bool → InsertAt Data
  | 0, _, _, _, _, _ => .error .noReturn
  | depth + 1, entering, state, data, key, rands => do
      let entered :=
        if entering ∧ (state.size : Int) ≤ state.count then
          rehash (insertFrom depth true) state rands
        else .ok (state, rands)
      let (state, rands) ← entered
      let hash ← state.read
      let inserted ← searchTable hash key (insertAt hash data key)
      match inserted with
      | some hash => .ok (state.write hash, rands)
      | none => do
          let (state, rands) ← rehash (insertFrom depth true) state rands
          insertFrom depth false state data key rands

def perform (depth : Nat) (state : Located Data) (rands : Rands) :
    Operation (Option Data) → Except Stop (Answer Data × Located Data × Rands)
  | .insert data key => do
      let (state, rands) ← insertFrom depth true state data key rands
      .ok (.done, state, rands)
  | .remove key => do
      let (hash, data) ← hashmapRemove (← state.read) key
      .ok (.data data, state.write hash, rands)
  | .get key => do
      let data ← hashmapGet (← state.read) key
      .ok (.data data, state, rands)
  | .contains key => do
      let contains ← hashmapContains (← state.read) key
      .ok (.contains contains, state, rands)
  | .count => .ok (.count state.count, state, rands)

def performAll (depth : Nat) : List (Operation (Option Data)) → Located Data → Rands →
    Except Stop (List (Answer Data) × Located Data × Rands)
  | [], state, rands => .ok ([], state, rands)
  | operation :: operations, state, rands => do
      let (answer, state, rands) ← state.perform depth rands operation
      let (answers, state, rands) ← performAll depth operations state rands
      .ok (answer :: answers, state, rands)

/-- `hashmapDelete`; the `struct` is gone as well. -/
def hashmapDelete (state : Located Data) : Except Stop (Tables Data) :=
  state.tables.free state.table

end Located

/-- What the life of a map answers, from `hashmapCreate` to `hashmapDelete`. -/
def life (depth : Nat) (startsize : Int) (operations : List (Operation (Option Data)))
    (rands : Rands) : Except Stop (List (Answer Data)) := do
  let (hash, rands) ← hashmapCreate startsize rands
  let (answers, _) ← performAll depth operations hash rands
  .ok answers

/-- The same with what it leaves of the memory. -/
def Located.life (tables : Tables Data) (depth : Nat) (startsize : Int)
    (operations : List (Operation (Option Data))) (rands : Rands) :
    Except Stop (List (Answer Data) × Tables Data) := do
  let (state, rands) ← hashmapCreate tables startsize rands
  let (answers, state, _) ← performAll depth operations state rands
  let tables ← state.hashmapDelete
  .ok (answers, tables)

end NovaC.HashMap
