import NovaC.Closures.Writers

namespace NovaC.Closures

variable {fresh : Nat → Int}

def VariableDeclaration.captures (original : VariableDeclaration) : List Capture :=
  original.closureVariableDeclarations.map (·.capture)

namespace Method

def declarations (method : Method) : List VariableDeclaration :=
  method.parameters ++ method.locals

/-- What the frontend makes sure of, for contexts that the method creates. -/
structure WellFormed (method : Method) : Prop where
  parameters : ∀ original ∈ method.parameters, original.isParameter = true
  locals : ∀ original ∈ method.locals, original.isParameter = false
  captures : (method.declarations.flatMap (·.captures)).Nodup
  captured : ∀ original ∈ method.declarations, original.requiresHeapAllocation = true →
    original.closureVariableDeclarations ≠ []
  capturing : ∀ original ∈ method.declarations,
    ∀ declaration ∈ original.closureVariableDeclarations,
      declaration.requiresHeapAllocation = original.requiresHeapAllocation ∧
        declaration.capture.context ∈ method.closureContextDeclarations ∧
        declaration.parentMethod = method.id

end Method

variable {state : State} {original : VariableDeclaration}

/-- A heap variable for the location, where there is one. -/
def Location.heap : Location → Option Nat → Option Nat
  | block number, _ => some number
  | stack _, before => before

theorem Location.heap_heap (location : Location) (before : Option Nat) :
    location.heap (location.heap before) = location.heap before := by
  cases location <;> rfl

/-- The contexts' fields, and their heap variables, point to the location. -/
def State.attach (state : State) (captures : List Capture) (location : Location) : State :=
  { state with
    heaps := fun capture =>
      if capture ∈ captures then location.heap (state.heaps capture) else state.heaps capture
    fields := fun capture =>
      if capture ∈ captures then some location else state.fields capture }

theorem attach_nil (state : State) (location : Location) : state.attach [] location = state := by
  simp [State.attach]

theorem attach_cons (state : State) (capture : Capture) (captures : List Capture)
    (location : Location) :
    (state.attach [capture] location).attach captures location =
      state.attach (capture :: captures) location := by
  simp only [State.attach]
  congr 1 <;> funext other <;>
    by_cases first : other = capture <;> by_cases later : other ∈ captures <;>
      simp [first, later, Location.heap_heap]

theorem foldl_attach (captures : List Capture) (location : Location) (state : State) :
    captures.foldl (fun state capture => state.attach [capture] location) state =
      state.attach captures location := by
  induction captures generalizing state with
  | nil => exact (attach_nil state location).symm
  | cons capture captures ih => rw [List.foldl_cons, ih, attach_cons]

theorem attach_single (state : State) (capture : Capture) (number : Nat) :
    state.attach [capture] (.block number) =
      { state with
        heaps := Function.update state.heaps capture (some number)
        fields := Function.update state.fields capture (some (.block number)) } := by
  simp only [State.attach, Location.heap, List.mem_singleton]
  congr 1 <;> funext other <;> rw [Function.update_apply]

theorem attach_single_stack (state : State) (capture : Capture) (name : VariableId) :
    state.attach [capture] (.stack name) =
      { state with fields := Function.update state.fields capture (some (.stack name)) } := by
  simp only [State.attach, Location.heap, List.mem_singleton, ite_self]
  congr 1
  funext other
  rw [Function.update_apply]

theorem runAll_append (first rest : List Statement) (state : State) :
    runAll fresh (first ++ rest) state = (runAll fresh first state).bind (runAll fresh rest) := by
  induction first generalizing state with
  | nil => rfl
  | cons statement first ih =>
      simp only [List.cons_append, runAll]
      cases statement.run fresh state with
      | none => rfl
      | some next => exact ih next

/-- A loop of the writers: what each item's statements do, as long as `Holds` is kept. -/
theorem runAll_flatMap {α : Type} {statements : α → List Statement} {step : State → α → State}
    {Holds : State → Prop} {items : List α}
    (one : ∀ item ∈ items, ∀ state, Holds state →
      runAll fresh (statements item) state = some (step state item) ∧ Holds (step state item))
    (holds : Holds state) :
    runAll fresh (items.flatMap statements) state = some (items.foldl step state) := by
  induction items generalizing state with
  | nil => rfl
  | cons item items ih =>
      obtain ⟨ran, kept⟩ := one item List.mem_cons_self state holds
      rw [List.flatMap_cons, runAll_append, ran, Option.bind_some, List.foldl_cons]
      exact ih (fun other member => one other (List.mem_cons_of_mem _ member)) kept

theorem runAll_alias {declarations : List ClosureVariableDeclaration}
    {first : ClosureVariableDeclaration} {number : Nat} (name : VariableId)
    (alike : ∀ declaration ∈ declarations, declaration.requiresHeapAllocation = true ∧
      declaration.capture.context ∈ state.contexts ∧ declaration.parentMethod = first.parentMethod)
    (allocated : state.heaps first.capture = some number) :
    runAll fresh (declarations.flatMap (·.generateAssignment name (some first))) state =
      some (state.attach (declarations.map (·.capture)) (.block number)) := by
  rw [← foldl_attach, List.foldl_map]
  refine @runAll_flatMap fresh _ _ _ _ (fun between => between.contexts = state.contexts ∧
    between.heaps first.capture = some number) _ ?_ ⟨rfl, allocated⟩
  intro declaration member between kept
  obtain ⟨sameContexts, stillAllocated⟩ := kept
  obtain ⟨heap, declared, sameMethod⟩ := alike declaration member
  rw [← sameContexts] at declared
  have still : Function.update between.heaps declaration.capture (some number) first.capture =
      some number := by
    rw [Function.update_apply, stillAllocated, ite_self]
  refine ⟨?_, sameContexts, ?_⟩
  · simp [ClosureVariableDeclaration.generateAssignment, sameMethod, heap, runAll, Statement.run,
      stillAllocated, declared, attach_single, still]
  · rw [attach_single]
    exact still

theorem runAll_address {declarations : List ClosureVariableDeclaration}
    {first : ClosureVariableDeclaration} (name : VariableId)
    (alike : ∀ declaration ∈ declarations, declaration.requiresHeapAllocation = false ∧
      declaration.capture.context ∈ state.contexts ∧ declaration.parentMethod = first.parentMethod) :
    runAll fresh (declarations.flatMap (·.generateAssignment name (some first))) state =
      some (state.attach (declarations.map (·.capture)) (.stack name)) := by
  rw [← foldl_attach, List.foldl_map]
  refine @runAll_flatMap fresh _ _ _ _ (fun between => between.contexts = state.contexts) _ ?_ rfl
  intro declaration member between sameContexts
  obtain ⟨direct, declared, sameMethod⟩ := alike declaration member
  rw [← sameContexts] at declared
  refine ⟨?_, sameContexts⟩
  simp [ClosureVariableDeclaration.generateAssignment, sameMethod, direct, runAll, Statement.run,
    declared, attach_single_stack]

/-- Where the variable's captures point to. -/
def VariableDeclaration.home (original : VariableDeclaration) (number : Nat) : Location :=
  if original.requiresHeapAllocation then .block number else .stack original.name

def VariableDeclaration.allocate (fresh : Nat → Int) (original : VariableDeclaration)
    (state : State) : State :=
  if original.requiresHeapAllocation then
    { state with blocks := state.blocks ++ [fresh state.blocks.length] }
  else state

/-- All captures are in contexts of one method, and all or none of them need the heap. -/
structure Capturable (original : VariableDeclaration) (contexts : List ContextId)
    (method : MethodId) : Prop where
  captured : original.requiresHeapAllocation = true → original.closureVariableDeclarations ≠ []
  capturing : ∀ declaration ∈ original.closureVariableDeclarations,
    declaration.requiresHeapAllocation = original.requiresHeapAllocation ∧
      declaration.capture.context ∈ contexts ∧ declaration.parentMethod = method

theorem runAll_generateAssignments {method : MethodId}
    (capturable : Capturable original state.contexts method) :
    runAll fresh original.generateAssignments state =
      some ((original.allocate fresh state).attach original.captures
        (original.home state.blocks.length)) := by
  cases declared : original.closureVariableDeclarations with
  | nil =>
      have direct : original.requiresHeapAllocation = false := by
        cases heap : original.requiresHeapAllocation with
        | false => rfl
        | true => exact absurd declared (capturable.captured heap)
      simp [VariableDeclaration.generateAssignments, VariableDeclaration.allocate,
        VariableDeclaration.captures, declared, direct, runAll, attach_nil]
  | cons first rest =>
      have alike : ∀ declaration ∈ first :: rest,
          declaration.requiresHeapAllocation = original.requiresHeapAllocation ∧
            declaration.capture.context ∈ state.contexts ∧ declaration.parentMethod = method :=
        declared ▸ capturable.capturing
      obtain ⟨firstHeap, firstDeclared, firstMethod⟩ := alike first List.mem_cons_self
      simp only [VariableDeclaration.generateAssignments, VariableDeclaration.allocate,
        VariableDeclaration.captures, VariableDeclaration.home, declared]
      rw [runAll_append]
      cases heap : original.requiresHeapAllocation with
      | true =>
          have one : runAll fresh (first.generateAssignment original.name none) state =
              some ({ state with blocks := state.blocks ++ [fresh state.blocks.length] }.attach
                [first.capture] (.block state.blocks.length)) := by
            simp [ClosureVariableDeclaration.generateAssignment, firstHeap, heap, runAll,
              Statement.run, firstDeclared, attach_single]
          rw [one, Option.bind_some, runAll_alias, attach_cons]
          · rfl
          · intro declaration member
            obtain ⟨sameHeap, inContext, sameMethod⟩ :=
              alike declaration (List.mem_cons_of_mem _ member)
            exact ⟨sameHeap.trans heap, inContext, sameMethod.trans firstMethod.symm⟩
          · simp [State.attach, Location.heap]
      | false =>
          have one : runAll fresh (first.generateAssignment original.name none) state =
              some (state.attach [first.capture] (.stack original.name)) := by
            simp [ClosureVariableDeclaration.generateAssignment, firstHeap, heap, runAll,
              Statement.run, firstDeclared, attach_single_stack]
          rw [one, Option.bind_some, runAll_address, attach_cons]
          · rfl
          · intro declaration member
            obtain ⟨sameHeap, inContext, sameMethod⟩ :=
              alike declaration (List.mem_cons_of_mem _ member)
            exact ⟨sameHeap.trans heap, inContext, sameMethod.trans firstMethod.symm⟩

/-- The declaration, if it is a local variable, and the captures. -/
def State.prepare (fresh : Nat → Int) (state : State) (original : VariableDeclaration) :
    State :=
  let declared :=
    if original.isParameter then state
    else { state with stack := Function.update state.stack original.name original.initial }
  (original.allocate fresh declared).attach original.captures (original.home state.blocks.length)

theorem allocate_contexts (original : VariableDeclaration) (state : State) :
    (original.allocate fresh state).contexts = state.contexts := by
  rw [VariableDeclaration.allocate]
  split <;> rfl

theorem prepare_contexts (original : VariableDeclaration) (state : State) :
    (state.prepare fresh original).contexts = state.contexts := by
  simp only [State.prepare, State.attach, allocate_contexts]
  split <;> rfl

theorem runAll_parameters {method : MethodId} {parameters : List VariableDeclaration}
    (areParameters : ∀ original ∈ parameters, original.isParameter = true)
    (capturable : ∀ original ∈ parameters, Capturable original state.contexts method) :
    runAll fresh (parameters.flatMap (·.generateAssignments)) state =
      some (parameters.foldl (·.prepare fresh ·) state) := by
  refine @runAll_flatMap fresh _ _ _ _ (fun between => between.contexts = state.contexts) _ ?_ rfl
  intro original member between sameContexts
  have here := capturable original member
  rw [← sameContexts] at here
  refine ⟨?_, (prepare_contexts original between).trans sameContexts⟩
  rw [runAll_generateAssignments here, State.prepare, if_pos (areParameters original member)]

theorem runAll_locals {method : MethodId} {locals : List VariableDeclaration}
    (areLocal : ∀ original ∈ locals, original.isParameter = false)
    (capturable : ∀ original ∈ locals, Capturable original state.contexts method) :
    runAll fresh (locals.flatMap (·.generateDeclaration)) state =
      some (locals.foldl (·.prepare fresh ·) state) := by
  refine @runAll_flatMap fresh _ _ _ _ (fun between => between.contexts = state.contexts) _ ?_ rfl
  intro original member between sameContexts
  have here := capturable original member
  rw [← sameContexts] at here
  refine ⟨?_, (prepare_contexts original between).trans sameContexts⟩
  rw [State.prepare, if_neg (by simp [areLocal original member])]
  exact runAll_generateAssignments here

/-- How many blocks are allocated before the variable's. -/
def blockNumber (originals : List VariableDeclaration) (original : VariableDeclaration) : Nat :=
  (originals.filter (·.requiresHeapAllocation)).idxOf original

theorem prepare_blocks (state : State) (original : VariableDeclaration) :
    (state.prepare fresh original).blocks = state.blocks ++
      if original.requiresHeapAllocation then [fresh state.blocks.length] else [] := by
  simp only [State.prepare, State.attach, VariableDeclaration.allocate]
  cases original.requiresHeapAllocation <;> cases original.isParameter <;> simp

theorem foldl_prepare_blocks (originals : List VariableDeclaration) (state : State) :
    (originals.foldl (·.prepare fresh ·) state).blocks = state.blocks ++
      (List.range (originals.filter (·.requiresHeapAllocation)).length).map
        fun number => fresh (state.blocks.length + number) := by
  induction originals generalizing state with
  | nil => simp
  | cons original originals ih =>
      rw [List.foldl_cons, ih, prepare_blocks]
      cases heap : original.requiresHeapAllocation with
      | false => simp [heap]
      | true =>
          simp only [if_true, List.filter_cons, heap, List.length_cons, List.range_succ_eq_map,
            List.map_cons, List.map_map, List.append_assoc, List.singleton_append,
            List.length_append, List.length_nil, Nat.add_zero]
          congr 3
          funext number
          simp only [Function.comp_apply]
          congr 1
          omega

section Placed

variable (fresh)

theorem prepare_other {capture : Capture} (state : State)
    (other : capture ∉ original.captures) :
    (state.prepare fresh original).heaps capture = state.heaps capture ∧
      (state.prepare fresh original).fields capture = state.fields capture := by
  simp only [State.prepare, State.attach, if_neg other, VariableDeclaration.allocate]
  constructor <;> split <;> split <;> rfl

theorem foldl_prepare_other {capture : Capture} {originals : List VariableDeclaration}
    (state : State) (other : capture ∉ originals.flatMap (·.captures)) :
    (originals.foldl (·.prepare fresh ·) state).heaps capture = state.heaps capture ∧
      (originals.foldl (·.prepare fresh ·) state).fields capture = state.fields capture := by
  induction originals generalizing state with
  | nil => exact ⟨rfl, rfl⟩
  | cons original originals ih =>
      rw [List.flatMap_cons, List.mem_append, not_or] at other
      obtain ⟨sameHeaps, sameFields⟩ := prepare_other fresh state other.1
      obtain ⟨restHeaps, restFields⟩ := ih (state.prepare fresh original) other.2
      exact ⟨restHeaps.trans sameHeaps, restFields.trans sameFields⟩

/-- The variable's captures point to its home. -/
def Placed (state : State) (original : VariableDeclaration) (number : Nat) : Prop :=
  ∀ capture ∈ original.captures, state.fields capture = some (original.home number) ∧
    (original.requiresHeapAllocation = true → state.heaps capture = some number)

theorem prepare_placed (state : State) (original : VariableDeclaration) :
    Placed (state.prepare fresh original) original state.blocks.length := by
  intro capture member
  simp only [State.prepare, State.attach, if_pos member, true_and]
  intro heap
  simp [VariableDeclaration.home, heap, Location.heap]

theorem foldl_prepare_placed {originals : List VariableDeclaration} (state : State)
    (distinct : (originals.flatMap (·.captures)).Nodup) (member : original ∈ originals) :
    Placed (originals.foldl (·.prepare fresh ·) state) original
      (state.blocks.length + blockNumber originals original) := by
  induction originals generalizing state with
  | nil => cases member
  | cons first originals ih =>
      rw [List.flatMap_cons, List.nodup_append] at distinct
      obtain ⟨-, restDistinct, apart⟩ := distinct
      rw [List.foldl_cons]
      by_cases same : original = first
      · subst same
        intro capture inside
        have outside : capture ∉ originals.flatMap (·.captures) :=
          fun later => apart capture inside capture later rfl
        obtain ⟨sameHeaps, sameFields⟩ :=
          foldl_prepare_other fresh (state.prepare fresh original) outside
        obtain ⟨placed, placedHeap⟩ := prepare_placed fresh state original capture inside
        rw [sameHeaps, sameFields, placed]
        cases heap : original.requiresHeapAllocation with
        | false => simp [VariableDeclaration.home, heap]
        | true => simp [blockNumber, heap, placedHeap heap]
      · have later : original ∈ originals := (List.mem_cons.mp member).resolve_left same
        have placed := ih (state.prepare fresh first) restDistinct later
        have number : (state.prepare fresh first).blocks.length + blockNumber originals original =
            state.blocks.length + blockNumber (first :: originals) original := by
          rw [prepare_blocks, List.length_append]
          cases heap : first.requiresHeapAllocation with
          | false => simp [blockNumber, heap]
          | true =>
              have firstOther : first ≠ original := fun equal => same equal.symm
              simp only [if_true, List.length_singleton, blockNumber, List.filter_cons, heap,
                List.idxOf_cons_ne _ firstOther]
              omega
        rwa [number] at placed

end Placed

theorem runAll_contexts (contexts : List ContextId) (state : State) :
    runAll fresh (contexts.map .declareContext) state =
      some { state with contexts := contexts.reverse ++ state.contexts } := by
  induction contexts generalizing state with
  | nil => rfl
  | cons context contexts ih =>
      rw [List.map_cons, runAll, Statement.run, Option.bind_some, ih]
      simp

/-- The state in which the body begins. -/
def Method.prepared (fresh : Nat → Int) (method : Method) : State :=
  method.declarations.foldl (·.prepare fresh ·)
    { method.start with contexts := method.closureContextDeclarations.reverse }

theorem foldl_prepare_contexts (originals : List VariableDeclaration) (state : State) :
    (originals.foldl (·.prepare fresh ·) state).contexts = state.contexts := by
  induction originals generalizing state with
  | nil => rfl
  | cons original originals ih => rw [List.foldl_cons, ih, prepare_contexts]

theorem runAll_generateSource {method : Method} (wellFormed : method.WellFormed) :
    runAll fresh method.generateSource method.start = some (method.prepared fresh) := by
  have capturable : ∀ original ∈ method.declarations, ∀ contexts : List ContextId,
      contexts = method.closureContextDeclarations.reverse →
        Capturable original contexts method.id := by
    intro original member contexts reversed
    refine ⟨wellFormed.captured original member, fun declaration inside => ?_⟩
    obtain ⟨heap, context, sameMethod⟩ := wellFormed.capturing original member declaration inside
    exact ⟨heap, by rw [reversed, List.mem_reverse]; exact context, sameMethod⟩
  rw [Method.generateSource, runAll_append, runAll_contexts, Option.bind_some, runAll_append,
    runAll_parameters wellFormed.parameters, Option.bind_some, runAll_locals wellFormed.locals,
    Method.prepared, Method.declarations, List.foldl_append]
  · simp only [Method.start, List.append_nil]
  · intro original member
    exact capturable original (List.mem_append_right _ member) _
      ((foldl_prepare_contexts _ _).trans (List.append_nil _))
  · intro original member
    exact capturable original (List.mem_append_left _ member) _ (List.append_nil _)

end NovaC.Closures
