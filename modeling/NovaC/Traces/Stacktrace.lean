import NovaC.C.Int
import NovaC.C.Pool

namespace NovaC.Traces

open NovaC.C

/-! `nova_get_calling_stacktrace` of `NovaExceptionHandling.c` and its callback.

The blocks are those of the array of traces, with their sizes counted in `char*`. The
allocator decides at every call of `NOVA_REALLOC` if the block moves.
-/

variable {Frame Trace State : Type}

/-- `data` is `vs[0]` and `size` what `vs[1]` points to, beside the blocks and how often
`NOVA_REALLOC` was called. -/
structure Collector (Trace : Type) where
  pool : Pool Trace
  reallocs : Nat
  data : Nat
  size : Int
deriving DecidableEq

def addTraceElement (moves : Nat → Bool) (trace : Trace) (ptrs : Collector Trace) :
    Option (Collector Trace) := do
  let count ← addInt ptrs.size 1
  let resized ← ptrs.pool.realloc ptrs.data (toSize count) (moves ptrs.reallocs)
  let pool ← resized.1.store resized.2 ptrs.size trace
  let size ← addInt ptrs.size 1
  -- `data` is a copy of `ptrs[0]`, which stays as it was
  some { ptrs with pool := pool, reallocs := ptrs.reallocs + 1, size := size }

/-- `while (upstack(context, &frame))`, where the stack is the frames still to come -/
def walk (addr2line : Frame → Trace) (processFunc : Trace → State → Option State) :
    List Frame → State → Option State
  | [], ptr => some ptr
  | frame :: stack, ptr => do
      let ptr ← processFunc (addr2line frame) ptr
      walk addr2line processFunc stack ptr

def novaProcessCallingStacktrace (addr2line : Frame → Trace) (count : Int) (stack : List Frame)
    (processFunc : Trace → State → Option State) (ptr : State) : Option State :=
  walk addr2line processFunc (stack.drop count.toNat) ptr

/-- The array that is returned, and what the run leaves behind. -/
def novaGetCallingStacktrace (moves : Nat → Bool) (addr2line : Frame → Trace) (count : Int)
    (stack : List Frame) (lines : Int) : Option (Nat × Collector Trace) := do
  let (pool, outbuf) := Pool.malloc [] 0
  let vs : Collector Trace := { pool := pool, reallocs := 0, data := outbuf, size := lines }
  let vs ← novaProcessCallingStacktrace addr2line count stack (addTraceElement moves) vs
  some (outbuf, vs)

/-- The run never touches a released block, and what it returns is the traces. -/
def Complete (traces : List Trace) (run : Option (Nat × Collector Trace)) : Prop :=
  ∃ outbuf vs, run = some (outbuf, vs) ∧ vs.size = traces.length ∧
    vs.pool[outbuf]? = some (some (traces.map some))

/-- The array holds the traces collected so far. -/
structure Collected (ptrs : Collector Trace) (traces : List Trace) : Prop where
  size : ptrs.size = traces.length
  reallocs : ptrs.reallocs = traces.length
  array : ptrs.pool[ptrs.data]? = some (some (traces.map some))

section Steps

variable {moves : Nat → Bool} {addr2line : Frame → Trace} {ptrs after : Collector Trace}
  {traces : List Trace}

theorem addTraceElement_some {trace : Trace} (added : addTraceElement moves trace ptrs = some after) :
    addInt ptrs.size 1 = some after.size ∧ after.data = ptrs.data ∧
      after.reallocs = ptrs.reallocs + 1 ∧ ∃ resized,
        ptrs.pool.realloc ptrs.data (toSize after.size) (moves ptrs.reallocs) = some resized ∧
        resized.1.store resized.2 ptrs.size trace = some after.pool := by
  simp only [addTraceElement, Option.bind_eq_bind, Option.bind_eq_some_iff] at added
  obtain ⟨count, counted, resized, reallocated, pool, stored, size, sized, same⟩ := added
  cases same
  cases counted.symm.trans sized
  exact ⟨counted, rfl, rfl, resized, reallocated, stored⟩

theorem addTraceElement_in_place (collected : Collected ptrs traces)
    (stays : moves ptrs.reallocs = false) (fits : traces.length + 1 < 2147483648) (trace : Trace) :
    ∃ after, addTraceElement moves trace ptrs = some after ∧
      Collected after (traces ++ [trace]) := by
  obtain ⟨size, reallocs, array⟩ := collected
  have inside := Pool.lt_length array
  have counted : addInt ptrs.size 1 = some ((traces.length + 1 : Nat) : Int) := by
    rw [size]
    exact addInt_natCast fits
  have asSize : toSize ((traces.length + 1 : Nat) : Int) = (traces.map some).length + 1 := by
    rw [toSize_natCast, List.length_map]
    omega
  have grown : (ptrs.pool.set ptrs.data (some (traces.map some ++ [none])))[ptrs.data]? =
      some (some (traces.map some ++ [none])) :=
    List.getElem?_set_self inside
  have stored := Pool.store_grown grown trace
  rw [List.length_map, ← size, List.set_set] at stored
  refine ⟨⟨ptrs.pool.set ptrs.data (some (traces.map some ++ [some trace])), ptrs.reallocs + 1,
    ptrs.data, ((traces.length + 1 : Nat) : Int)⟩, ?_, ?_⟩
  · simp only [addTraceElement, counted, Option.bind_eq_bind, Option.bind_some, stays, asSize,
      Pool.realloc_in_place array, Pool.resize_grow, stored]
  · refine ⟨by rw [List.length_append, List.length_singleton], ?_, ?_⟩
    · rw [reallocs, List.length_append, List.length_singleton]
    · rw [List.map_append]
      exact List.getElem?_set_self inside

theorem addTraceElement_moved {trace : Trace} (added : addTraceElement moves trace ptrs = some after)
    (moved : moves ptrs.reallocs = true) : after.pool[after.data]? = some none := by
  obtain ⟨-, sameData, -, resized, reallocated, stored⟩ := addTraceElement_some added
  rw [moved] at reallocated
  obtain ⟨released, different⟩ := Pool.realloc_moved reallocated
  rw [sameData]
  exact (Pool.store_other stored different).trans released

/-- Once the array is released, the next element has no meaning. -/
theorem walk_released {stack : List Frame} (released : ptrs.pool[ptrs.data]? = some none)
    (walked : walk addr2line (addTraceElement moves) stack ptrs = some after) : after = ptrs := by
  cases stack with
  | nil => exact (Option.some.inj walked).symm
  | cons frame stack =>
      obtain ⟨next, added, -⟩ := Option.bind_eq_some_iff.mp walked
      obtain ⟨-, -, -, resized, reallocated, -⟩ := addTraceElement_some added
      obtain ⟨cells, live⟩ := Pool.realloc_live reallocated
      rw [released] at live
      cases live

theorem walk_some {stack : List Frame} (range : IsInt ptrs.size)
    (walked : walk addr2line (addTraceElement moves) stack ptrs = some after) :
    IsInt after.size ∧ after.data = ptrs.data := by
  induction stack generalizing ptrs with
  | nil =>
      cases walked
      exact ⟨range, rfl⟩
  | cons frame stack ih =>
      obtain ⟨next, added, rest⟩ := Option.bind_eq_some_iff.mp walked
      obtain ⟨counted, sameData, -⟩ := addTraceElement_some added
      obtain ⟨afterRange, restData⟩ := ih (addInt_some counted).2 rest
      exact ⟨afterRange, restData.trans sameData⟩

theorem walk_in_place (addr2line : Frame → Trace) {stack : List Frame}
    (collected : Collected ptrs traces)
    (stay : ∀ call < traces.length + stack.length, moves call = false)
    (fits : traces.length + stack.length < 2147483648) :
    ∃ after, walk addr2line (addTraceElement moves) stack ptrs = some after ∧
      Collected after (traces ++ stack.map addr2line) := by
  induction stack generalizing ptrs traces with
  | nil => exact ⟨ptrs, rfl, by rwa [List.map_nil, List.append_nil]⟩
  | cons frame stack ih =>
      rw [List.length_cons] at stay fits
      have stays : moves ptrs.reallocs = false := stay _ (by rw [collected.reallocs]; omega)
      obtain ⟨next, added, nextCollected⟩ :=
        addTraceElement_in_place collected stays (by omega) (addr2line frame)
      have sameLength : (traces ++ [addr2line frame]).length + stack.length =
          traces.length + (stack.length + 1) := by
        rw [List.length_append, List.length_singleton]
        omega
      obtain ⟨after, rest, afterCollected⟩ :=
        ih nextCollected (by rwa [sameLength]) (by rwa [sameLength])
      refine ⟨after, ?_, ?_⟩
      · rw [walk, added]
        exact rest
      · rwa [List.append_assoc, List.singleton_append] at afterCollected

/-- A run that ends with the array still there never moved it. -/
theorem walk_stays {stack : List Frame} {cells : List (Option Trace)}
    (walked : walk addr2line (addTraceElement moves) stack ptrs = some after)
    (live : after.pool[after.data]? = some (some cells)) :
    ∀ call < stack.length, moves (ptrs.reallocs + call) = false := by
  induction stack generalizing ptrs with
  | nil =>
      intro call within
      exact absurd within (Nat.not_lt_zero call)
  | cons frame stack ih =>
      obtain ⟨next, added, rest⟩ := Option.bind_eq_some_iff.mp walked
      obtain ⟨-, -, counted, -⟩ := addTraceElement_some added
      have stays : moves ptrs.reallocs = false := by
        by_contra moved
        have released := addTraceElement_moved added (Bool.eq_true_of_not_eq_false moved)
        have unchanged := walk_released released rest
        rw [unchanged, released] at live
        cases live
      intro call within
      cases call with
      | zero => exact stays
      | succ call =>
          have later := ih rest call (Nat.lt_of_succ_lt_succ within)
          rw [counted] at later
          rwa [Nat.add_assoc, Nat.add_comm 1 call] at later

end Steps

/-- The trace is complete exactly when no reallocation moves the array. -/
theorem stacktrace_complete_iff (moves : Nat → Bool) (addr2line : Frame → Trace) (count : Int)
    (stack : List Frame) :
    Complete ((stack.drop count.toNat).map addr2line)
        (novaGetCallingStacktrace moves addr2line count stack 0) ↔
      (∀ call < (stack.drop count.toNat).length, moves call = false) ∧
        (stack.drop count.toNat).length < 2147483648 := by
  let start : Collector Trace := { pool := [some []], reallocs := 0, data := 0, size := 0 }
  have run : novaGetCallingStacktrace moves addr2line count stack 0 =
      (walk addr2line (addTraceElement moves) (stack.drop count.toNat) start).bind
        fun vs => some (0, vs) := rfl
  have zeroRange : IsInt 0 := by decide
  constructor
  · intro complete
    obtain ⟨outbuf, vs, returned, size, array⟩ := complete
    rw [run, Option.bind_eq_some_iff] at returned
    obtain ⟨after, walked, same⟩ := returned
    cases same
    obtain ⟨range, sameData⟩ := walk_some zeroRange walked
    constructor
    · intro call within
      have stays := walk_stays walked (by rw [sameData]; exact array) call within
      rwa [Nat.zero_add] at stays
    · rw [size, List.length_map] at range
      exact Int.ofNat_lt.mp range.2
  · intro condition
    obtain ⟨stay, fits⟩ := condition
    have started : Collected start ([] : List Trace) := ⟨rfl, rfl, rfl⟩
    obtain ⟨after, walked, collected⟩ := walk_in_place addr2line started
      (by rwa [List.length_nil, Nat.zero_add]) (by rwa [List.length_nil, Nat.zero_add])
    rw [List.nil_append] at collected
    obtain ⟨-, sameData⟩ := walk_some zeroRange walked
    have array := collected.array
    rw [sameData] at array
    exact ⟨0, after, by rw [run, walked]; rfl, collected.size, array⟩

/-- When the first reallocation moves the array, the second frame's resizes the released one. -/
theorem moved_array_used_again :
    ¬Complete ((([10, 20] : List Nat).drop (0 : Int).toNat).map id)
      (novaGetCallingStacktrace (fun call => call == 0) id 0 [10, 20] 0) := by
  intro complete
  obtain ⟨outbuf, vs, returned, -, -⟩ := complete
  have undefined : novaGetCallingStacktrace (fun call => call == 0) id 0 [10, 20] 0 =
      (none : Option (Nat × Collector Nat)) := by decide
  rw [undefined] at returned
  cases returned

end NovaC.Traces
