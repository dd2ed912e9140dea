import NovaC.Closures.Prelude

namespace NovaC.Closures

section Aliasing

/-! A variable behind one location that nothing else reaches. -/

variable {state : State} {location : Location} {mine : Accessor → Bool}

theorem locate_store (accessor : Accessor) (state : State) (value : Int) (location : Location) :
    accessor.locate (state.store value location) = accessor.locate state := by
  cases location <;> cases accessor <;> rfl

theorem load_store {before : Int} (held : state.load location = some before) (value : Int) :
    (state.store value location).load location = some value := by
  cases location with
  | stack name => simp [State.load, State.store]
  | block number =>
      obtain ⟨inside, -⟩ := List.getElem?_eq_some_iff.mp held
      simp [State.load, State.store, inside]

theorem load_store_other {other : Location} (different : other ≠ location) (value : Int) :
    (state.store value location).load other = state.load other := by
  cases location with
  | stack name =>
      cases other with
      | stack otherName =>
          have distinct : otherName ≠ name := fun same => different (congrArg Location.stack same)
          simp [State.load, State.store, distinct]
      | block otherNumber => rfl
  | block number =>
      cases other with
      | stack otherName => rfl
      | block otherNumber =>
          have distinct : number ≠ otherNumber :=
            fun same => different (congrArg Location.block same.symm)
          simp [State.load, State.store, distinct]

def Reaches (state : State) (accessor : Accessor) (location : Location) : Prop :=
  accessor.locate state = some location ∧ ∃ value, state.load location = some value

theorem Reaches.store {accessor : Accessor} {other : Location}
    (reaches : Reaches state accessor other) (value : Int) {before : Int}
    (held : state.load location = some before) :
    Reaches (state.store value location) accessor other := by
  obtain ⟨located, content, loaded⟩ := reaches
  refine ⟨(locate_store accessor state value location).trans located, ?_⟩
  by_cases same : other = location
  · exact ⟨value, same ▸ load_store held value⟩
  · exact ⟨content, (load_store_other same value).trans loaded⟩

theorem observe_eq_register {events : List Event} {value : Int}
    (own : ∀ event ∈ events, mine event.accessor = true →
      event.accessor.locate state = some location)
    (others : ∀ event ∈ events, mine event.accessor = false →
      ∃ other, other ≠ location ∧ Reaches state event.accessor other)
    (held : state.load location = some value) :
    observe mine state events = some (register mine value events) := by
  induction events generalizing state value with
  | nil => rfl
  | cons event events ih =>
      have ownRest := fun other member => own other (List.mem_cons_of_mem event member)
      have othersRest := fun other member => others other (List.mem_cons_of_mem event member)
      cases event with
      | read accessor =>
          have rest := ih ownRest othersRest held
          cases isMine : mine accessor with
          | true =>
              have located := own (.read accessor) List.mem_cons_self isMine
              simp only [Event.accessor] at located
              simp [observe, register, located, held, rest, isMine]
          | false =>
              obtain ⟨other, -, located, content, loaded⟩ :=
                others (.read accessor) List.mem_cons_self isMine
              simp only [Event.accessor] at located
              simp [observe, register, located, loaded, rest, isMine]
      | write accessor written =>
          cases isMine : mine accessor with
          | true =>
              have located := own (.write accessor written) List.mem_cons_self isMine
              simp only [Event.accessor] at located
              have rest := @ih (state.store written location) written
                (fun event member isMine =>
                  (locate_store _ _ _ _).trans (ownRest event member isMine))
                (fun event member notMine => by
                  obtain ⟨other, different, reaches⟩ := othersRest event member notMine
                  exact ⟨other, different, reaches.store written held⟩)
                (load_store held written)
              simp [observe, register, located, rest, isMine]
          | false =>
              obtain ⟨target, different, located, content, loaded⟩ :=
                others (.write accessor written) List.mem_cons_self isMine
              simp only [Event.accessor] at located
              have rest := @ih (state.store written target) value
                (fun event member isMine =>
                  (locate_store _ _ _ _).trans (ownRest event member isMine))
                (fun event member notMine => by
                  obtain ⟨other, different, reaches⟩ := othersRest event member notMine
                  exact ⟨other, different, reaches.store written loaded⟩)
                ((load_store_other different.symm written).trans held)
              simp [observe, register, located, rest, isMine]

end Aliasing

variable {fresh : Nat → Int}

def VariableDeclaration.accesses (original : VariableDeclaration) : Accessor → Bool
  | .body other => other = original
  | .closure capture => original.captures.contains capture

def Method.Has (method : Method) : Accessor → Prop
  | .body original => original ∈ method.declarations
  | .closure capture => capture ∈ method.declarations.flatMap (·.captures)

/-- Whatever is read and written by the body and the closures, each of them reads what
was last written to the variable by any of them, and its initial value before that. -/
def Shares (fresh : Nat → Int) (method : Method) (original : VariableDeclaration) : Prop :=
  ∃ state, runAll fresh method.generateSource method.start = some state ∧
    ∀ events : List Event, (∀ event ∈ events, method.Has event.accessor) →
      observe original.accesses state events =
        some (register original.accesses original.initial events)

section Prepared

variable (fresh) {method : Method} {original : VariableDeclaration}

theorem prepared_placed (wellFormed : method.WellFormed) (member : original ∈ method.declarations) :
    Placed (method.prepared fresh) original (blockNumber method.declarations original) := by
  have placed := foldl_prepare_placed fresh
    { method.start with contexts := method.closureContextDeclarations.reverse }
    wellFormed.captures member
  have number : method.start.blocks.length + blockNumber method.declarations original =
      blockNumber method.declarations original := Nat.zero_add _
  rwa [number] at placed

theorem prepared_block (member : original ∈ method.declarations)
    (heap : original.requiresHeapAllocation = true) :
    (method.prepared fresh).load (.block (blockNumber method.declarations original)) =
      some (fresh (blockNumber method.declarations original)) := by
  have inside : blockNumber method.declarations original <
      (method.declarations.filter (·.requiresHeapAllocation)).length :=
    List.idxOf_lt_length_of_mem (List.mem_filter.mpr ⟨member, heap⟩)
  simp only [State.load, Method.prepared, foldl_prepare_blocks, Method.start, List.length_nil,
    Nat.zero_add, List.nil_append]
  rw [List.getElem?_map, List.getElem?_range inside, Option.map_some]

theorem prepared_body (wellFormed : method.WellFormed) (member : original ∈ method.declarations)
    (isLocal : original.isParameter = false) (heap : original.requiresHeapAllocation = true) :
    (Accessor.body original).locate (method.prepared fresh) =
      some (.block (blockNumber method.declarations original)) := by
  obtain ⟨first, rest, declared⟩ :=
    List.exists_cons_of_ne_nil (wellFormed.captured original member heap)
  have inside : first.capture ∈ original.captures := by
    simp [VariableDeclaration.captures, declared]
  have placed := (prepared_placed fresh wellFormed member first.capture inside).2 heap
  simp [Accessor.locate, isLocal, heap, declared, placed]

theorem prepared_closure (wellFormed : method.WellFormed) {capture : Capture}
    (member : original ∈ method.declarations)
    (inside : capture ∈ original.captures) :
    (Accessor.closure capture).locate (method.prepared fresh) =
      some (original.home (blockNumber method.declarations original)) :=
  (prepared_placed fresh wellFormed member capture inside).1

theorem home_ne_block {other : VariableDeclaration} (member : original ∈ method.declarations)
    (heap : original.requiresHeapAllocation = true) (different : other ≠ original) :
    other.home (blockNumber method.declarations other) ≠
      .block (blockNumber method.declarations original) := by
  intro same
  rw [VariableDeclaration.home] at same
  split at same
  · have number := Location.block.inj same
    exact different ((List.idxOf_inj (List.mem_filter.mpr ⟨member, heap⟩)).mp number.symm).symm
  · cases same

theorem home_loads (member : original ∈ method.declarations) :
    ∃ value, (method.prepared fresh).load
      (original.home (blockNumber method.declarations original)) = some value := by
  rw [VariableDeclaration.home]
  split
  · rename_i heap
    exact ⟨_, prepared_block fresh member heap⟩
  · exact ⟨_, rfl⟩

theorem body_reaches_other (wellFormed : method.WellFormed) {other : VariableDeclaration}
    (member : original ∈ method.declarations) (heap : original.requiresHeapAllocation = true)
    (otherMember : other ∈ method.declarations) (different : other ≠ original) :
    ∃ location, location ≠ .block (blockNumber method.declarations original) ∧
      Reaches (method.prepared fresh) (.body other) location := by
  cases isParameter : other.isParameter with
  | true =>
      refine ⟨.stack other.name, by simp, ?_, _, rfl⟩
      simp [Accessor.locate, isParameter]
  | false =>
      cases otherHeap : other.requiresHeapAllocation with
      | false =>
          refine ⟨.stack other.name, by simp, ?_, _, rfl⟩
          simp [Accessor.locate, isParameter, otherHeap]
      | true =>
          have apart := home_ne_block member heap different
          have loads := home_loads fresh otherMember
          rw [VariableDeclaration.home, if_pos otherHeap] at apart loads
          exact ⟨_, apart, prepared_body fresh wellFormed otherMember isParameter otherHeap, loads⟩

theorem shares_of_local (wellFormed : method.WellFormed) (member : original ∈ method.declarations)
    (heap : original.requiresHeapAllocation = true) (isLocal : original.isParameter = false)
    (content : fresh (blockNumber method.declarations original) = original.initial) :
    Shares fresh method original := by
  refine ⟨_, runAll_generateSource wellFormed, fun events has => ?_⟩
  refine @observe_eq_register _ (.block (blockNumber method.declarations original)) _ _ _ ?_ ?_ ?_
  · intro event inside mine
    cases accessor : event.accessor with
    | body other =>
        rw [accessor] at mine
        obtain rfl := of_decide_eq_true mine
        exact prepared_body fresh wellFormed member isLocal heap
    | closure capture =>
        rw [accessor] at mine
        rw [prepared_closure fresh wellFormed member (List.contains_iff_mem.mp mine),
          VariableDeclaration.home, if_pos heap]
  · intro event inside notMine
    have available := has event inside
    cases accessor : event.accessor with
    | body other =>
        rw [accessor] at notMine available
        exact body_reaches_other fresh wellFormed member heap available (of_decide_eq_false notMine)
    | closure capture =>
        rw [accessor] at notMine available
        obtain ⟨other, otherMember, captured⟩ := List.mem_flatMap.mp available
        have different : other ≠ original := by
          intro same
          subst same
          rw [VariableDeclaration.accesses, List.contains_iff_mem.mpr captured] at notMine
          cases notMine
        exact ⟨_, home_ne_block member heap different,
          prepared_closure fresh wellFormed otherMember captured, home_loads fresh otherMember⟩
  · rw [prepared_block fresh member heap, content]

end Prepared

/-- The captures share the variable with the body exactly when it is no parameter and its
block happens to hold the initial value: nothing copies the argument or the default value
into the block. -/
theorem shares_iff {method : Method} (wellFormed : method.WellFormed)
    {original : VariableDeclaration} (member : original ∈ method.declarations)
    (heap : original.requiresHeapAllocation = true) :
    Shares fresh method original ↔ original.isParameter = false ∧
      fresh (blockNumber method.declarations original) = original.initial := by
  constructor
  · intro shares
    obtain ⟨state, ran, reads⟩ := shares
    obtain rfl := Option.some.inj ((runAll_generateSource wellFormed).symm.trans ran)
    obtain ⟨first, rest, declared⟩ :=
      List.exists_cons_of_ne_nil (wellFormed.captured original member heap)
    have captured : first.capture ∈ original.captures := by
      simp [VariableDeclaration.captures, declared]
    have closure : method.Has (.closure first.capture) :=
      List.mem_flatMap.mpr ⟨original, member, captured⟩
    have located := prepared_closure fresh wellFormed member captured
    rw [VariableDeclaration.home, if_pos heap] at located
    have loaded := prepared_block fresh member heap
    have own : original.accesses (.closure first.capture) = true :=
      List.contains_iff_mem.mpr captured
    cases isParameter : original.isParameter with
    | false =>
        have read := reads [.read (.closure first.capture)] (by simpa [Event.accessor] using closure)
        simp [observe, register, located, loaded, own] at read
        exact ⟨rfl, read⟩
    | true =>
        have bodyLocated : (Accessor.body original).locate (method.prepared fresh) =
            some (.stack original.name) := by
          simp [Accessor.locate, isParameter]
        -- The body's write goes to the stack, where the closure does not look.
        have readLocated := (locate_store (.closure first.capture) (method.prepared fresh)
          (fresh (blockNumber method.declarations original) + 1) (.stack original.name)).trans located
        have readLoaded := (@load_store_other (method.prepared fresh) (.stack original.name)
          (.block (blockNumber method.declarations original)) (by simp)
          (fresh (blockNumber method.declarations original) + 1)).trans loaded
        have ownBody : original.accesses (.body original) = true := by
          simp [VariableDeclaration.accesses]
        have read := reads [.write (.body original)
            (fresh (blockNumber method.declarations original) + 1),
          .read (.closure first.capture)] (by
            simp only [List.mem_cons, List.not_mem_nil, or_false, forall_eq_or_imp, forall_eq]
            exact ⟨member, closure⟩)
        simp [observe, register, bodyLocated, readLocated, readLoaded, own, ownBody] at read
  · intro holds
    exact shares_of_local fresh wellFormed member heap holds.1 holds.2

/-- `y`, captured by one closure, and `x`, captured by two, with 6 as its default value. -/
def capturedY : VariableDeclaration where
  name := 1
  isParameter := false
  initial := 0
  requiresHeapAllocation := true
  closureVariableDeclarations := [⟨⟨2, 1⟩, true, 0⟩]

def sharedX : VariableDeclaration where
  name := 0
  isParameter := false
  initial := 6
  requiresHeapAllocation := true
  closureVariableDeclarations := [⟨⟨1, 0⟩, true, 0⟩, ⟨⟨2, 0⟩, true, 0⟩]

def twoContexts : Method where
  id := 0
  closureContextDeclarations := [1, 2]
  parameters := []
  locals := [capturedY, sharedX]

theorem twoContexts_wellFormed : twoContexts.WellFormed where
  parameters := by decide
  locals := by decide
  captures := by decide
  captured := by decide
  capturing := by decide

/-- The second block holds 6. -/
theorem shares_iff_twoContexts :
    Shares (fun number => 5 + number) twoContexts sharedX ↔ sharedX.isParameter = false ∧
      (5 + (blockNumber twoContexts.declarations sharedX : Int)) = sharedX.initial :=
  @shares_iff (fun number => 5 + number) _ twoContexts_wellFormed _ (by decide) rfl

/-- `x`, a parameter that one closure captures. -/
def capturedX : VariableDeclaration where
  name := 0
  isParameter := true
  initial := 5
  requiresHeapAllocation := true
  closureVariableDeclarations := [⟨⟨1, 0⟩, true, 0⟩]

def parameterX : Method where
  id := 0
  closureContextDeclarations := [1]
  parameters := [capturedX]
  locals := []

example : parameterX.WellFormed where
  parameters := by decide
  locals := by decide
  captures := by decide
  captured := by decide
  capturing := by decide

/-- The closure does not see the argument 5. -/
theorem argument_not_captured : ¬Shares (fun _ => 0) parameterX (capturedX) := by
  intro shares
  obtain ⟨state, ran, reads⟩ := shares
  obtain rfl := Option.some.inj ran
  have read := reads [.read (.closure ⟨1, 0⟩)] (by
    simp only [List.mem_singleton, forall_eq]
    exact List.mem_flatMap.mpr ⟨capturedX, by decide, by decide⟩)
  exact absurd read (by decide)

end NovaC.Closures
