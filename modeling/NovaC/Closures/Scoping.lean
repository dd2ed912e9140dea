import NovaC.Closures.Lexical

namespace NovaC.Closures

/-- Where a call has its variable. -/
def Activation.address (activation : Activation) (id : ActivationId)
    (original : VariableDeclaration) : Option Cell :=
  if original.requiresHeapAllocation then do
    let first ← original.closureVariableDeclarations.head?
    let number ← activation.heaps first.capture
    some (.block number)
  else some (.stack id original.name)

def Machine.address (machine : Machine) (id : ActivationId) (original : VariableDeclaration) :
    Option Cell := do
  let activation ← machine.activations id
  activation.address id original

/-- What is in a cell, also in a stack frame that is gone. -/
def Machine.content (machine : Machine) : Cell → Option Int
  | .stack id name => (machine.activations id).map fun activation => activation.stack name
  | .block number => machine.blocks[number]?

/-- The field of a context leads to the variable, or holds the closure. -/
def Root.Fills (machine : Machine) (lexical : Lexical) (field : Part → Option Content) :
    Root → Prop
  | value id original =>
      ∃ cell, machine.address id original = some cell ∧ field .itself = some (.address cell)
  | closure id name =>
      ∃ call, lexical.calls id = some call ∧
        ∀ part, field part = some (.word (call.closures name part))

def Lexical.Has (lexical : Lexical) (id : ActivationId) (original : VariableDeclaration) : Prop :=
  ∃ call, lexical.calls id = some call ∧ original ∈ call.scope.method.declarations

/-- A parameter that the method's prelude does not copy to its place on the heap. -/
def VariableDeclaration.isLost (original : VariableDeclaration) : Bool :=
  original.isParameter && original.requiresHeapAllocation

/-- Whether the variable has what lexical scoping says it has. -/
def Call.keeps (call : Call) (original : VariableDeclaration) : Bool :=
  !original.isLost || call.assigned original.name

/-- What a call says of the content of a variable. -/
def Call.Holds (call : Call) (original : VariableDeclaration) (content : Int) : Prop :=
  call.keeps original = true → ∀ value, call.values original.name = some value → content = value

structure Activation.Executes (activation : Activation) (call : Call) : Prop where
  scope : activation.scope = call.scope
  creator : activation.creator = call.creator
  live : activation.live = call.live

structure Related (machine : Machine) (lexical : Lexical) : Prop where
  count : machine.count = lexical.count
  bounded : ∀ {id activation}, machine.activations id = some activation → id < machine.count
  calls : ∀ {id call}, lexical.calls id = some call →
    id < lexical.count ∧ call.scope.WellFormed ∧
      ∃ activation, machine.activations id = some activation ∧ activation.Executes call
  fields : ∀ {id capture root}, resolve lexical.calls lexical.count id capture = some root →
    ∃ activation, machine.activations id = some activation ∧
      root.Fills machine lexical (activation.fields capture)
  values : ∀ {id call}, lexical.calls id = some call →
    ∀ original ∈ call.scope.method.declarations, ∃ cell content,
      machine.address id original = some cell ∧ machine.content cell = some content ∧
        call.Holds original content
  apart : ∀ {id other original another cell}, lexical.Has id original → lexical.Has other another →
    machine.address id original = some cell → machine.address other another = some cell →
      id = other ∧ original = another

theorem related_start : Related .start .start where
  count := rfl
  bounded activated := by cases activated
  calls found := by cases found
  fields resolved := by cases resolved
  values found := by cases found
  apart has := by
    obtain ⟨call, found, -⟩ := has
    cases found

section Alike

/-! Reading, writing and returning change neither calls nor contexts. -/

variable {machine after : Machine} {lexical next : Lexical} {id : ActivationId}

def Activation.frame (activation : Activation) :=
  (activation.scope, activation.creator, activation.heaps, activation.fields)

def Call.frame (call : Call) :=
  (call.scope, call.creator, call.closures)

structure Machine.Alike (machine after : Machine) : Prop where
  count : after.count = machine.count
  frames : ∀ id, (after.activations id).map Activation.frame =
    (machine.activations id).map Activation.frame

structure Lexical.Alike (lexical next : Lexical) : Prop where
  count : next.count = lexical.count
  frames : ∀ id, (next.calls id).map Call.frame = (lexical.calls id).map Call.frame

theorem exists_of_map_eq {α β : Type} {frame : α → β} {left right : Option α} {value : α}
    (same : left.map frame = right.map frame) (found : right = some value) :
    ∃ other, left = some other ∧ frame other = frame value := by
  rw [found, Option.map_some] at same
  exact Option.map_eq_some_iff.mp same

theorem Machine.Alike.address (alike : machine.Alike after) (id : ActivationId)
    (original : VariableDeclaration) : after.address id original = machine.address id original := by
  have same := alike.frames id
  simp only [Machine.address]
  cases found : machine.activations id with
  | none =>
      rw [found] at same
      rw [Option.map_eq_none_iff.mp same]
  | some activation =>
      obtain ⟨other, foundAfter, sameFrame⟩ := exists_of_map_eq same found
      have sameHeaps : other.heaps = activation.heaps := congrArg (·.2.2.1) sameFrame
      simp only [foundAfter, Option.bind_eq_bind, Option.bind_some, Activation.address, sameHeaps]

theorem Lexical.Alike.resolve (alike : lexical.Alike next) (bound : Nat) (id : ActivationId)
    (capture : Capture) :
    Closures.resolve next.calls bound id capture = Closures.resolve lexical.calls bound id capture := by
  refine resolve_congr fun id _ => ?_
  have same := congrArg (Option.map fun frame : Scope × Option ActivationId × _ =>
    (frame.1, frame.2.1)) (alike.frames id)
  rw [Option.map_map, Option.map_map] at same
  exact same

theorem Lexical.Alike.has (alike : lexical.Alike next) {original : VariableDeclaration}
    (has : next.Has id original) : lexical.Has id original := by
  obtain ⟨call, found, member⟩ := has
  obtain ⟨other, foundBefore, same⟩ := exists_of_map_eq (alike.frames id).symm found
  refine ⟨other, foundBefore, ?_⟩
  have sameScope : other.scope = call.scope := congrArg (·.1) same
  rw [sameScope]
  exact member

theorem Related.of_alike (related : Related machine lexical) (machineAlike : machine.Alike after)
    (lexicalAlike : lexical.Alike next)
    (live : ∀ {id call activation}, next.calls id = some call →
      after.activations id = some activation → activation.live = call.live)
    (values : ∀ {id call}, next.calls id = some call →
      ∀ original ∈ call.scope.method.declarations, ∃ cell content,
        machine.address id original = some cell ∧ after.content cell = some content ∧
          call.Holds original content) : Related after next where
  count := machineAlike.count.trans (related.count.trans lexicalAlike.count.symm)
  bounded {id activation} activated := by
    obtain ⟨before, activatedBefore, -⟩ :=
      exists_of_map_eq (machineAlike.frames id).symm activated
    exact machineAlike.count ▸ related.bounded activatedBefore
  calls {id call} found := by
    obtain ⟨before, foundBefore, same⟩ := exists_of_map_eq (lexicalAlike.frames id).symm found
    obtain ⟨older, wellFormed, activation, activated, executes⟩ := related.calls foundBefore
    obtain ⟨activationAfter, activatedAfter, sameFrame⟩ :=
      exists_of_map_eq (machineAlike.frames id) activated
    have sameScope : before.scope = call.scope := congrArg (·.1) same
    have sameCreator : before.creator = call.creator := congrArg (·.2.1) same
    have scopeAfter : activationAfter.scope = activation.scope := congrArg (·.1) sameFrame
    have creatorAfter : activationAfter.creator = activation.creator := congrArg (·.2.1) sameFrame
    refine ⟨lexicalAlike.count ▸ older, sameScope ▸ wellFormed, activationAfter, activatedAfter,
      ?_, ?_, live found activatedAfter⟩
    · rw [scopeAfter, executes.scope, sameScope]
    · rw [creatorAfter, executes.creator, sameCreator]
  fields {id capture root} resolved := by
    rw [lexicalAlike.resolve, lexicalAlike.count] at resolved
    obtain ⟨activation, activated, fills⟩ := related.fields resolved
    obtain ⟨activationAfter, activatedAfter, sameFrame⟩ :=
      exists_of_map_eq (machineAlike.frames id) activated
    have sameFields : activationAfter.fields = activation.fields := congrArg (·.2.2.2) sameFrame
    refine ⟨activationAfter, activatedAfter, ?_⟩
    rw [sameFields]
    cases root with
    | value owner original =>
        obtain ⟨cell, located, filled⟩ := fills
        exact ⟨cell, (machineAlike.address owner original).trans located, filled⟩
    | closure owner name =>
        obtain ⟨call, found, filled⟩ := fills
        obtain ⟨callAfter, foundAfter, same⟩ := exists_of_map_eq (lexicalAlike.frames owner) found
        have sameClosures : callAfter.closures = call.closures := congrArg (·.2.2) same
        refine ⟨callAfter, foundAfter, ?_⟩
        rw [sameClosures]
        exact filled
  values {id call} found original member := by
    obtain ⟨cell, content, located, holds⟩ := values found original member
    exact ⟨cell, content, (machineAlike.address id original).trans located, holds⟩
  apart {id other original another cell} has hasOther located otherLocated := by
    rw [machineAlike.address] at located otherLocated
    exact related.apart (lexicalAlike.has has) (lexicalAlike.has hasOther) located otherLocated

end Alike

section Accesses

variable {machine : Machine} {lexical next : Lexical} {id owner : ActivationId}
  {original : VariableDeclaration} {cell : Cell} {value : Int}

/-- A method itself uses a parameter that needs the heap under its own name, not through
the address that the closures have. -/
def Accessor.UsesCell : Accessor → Prop
  | body original => ¬(original.isParameter = true ∧ original.requiresHeapAllocation = true)
  | closure _ => True

instance (accessor : Accessor) : Decidable accessor.UsesCell :=
  match accessor with
  | .body _ => inferInstanceAs (Decidable (¬(_ ∧ _)))
  | .closure _ => inferInstanceAs (Decidable True)

/-- A parameter that needs the heap is used through its closures only, and written there before
it is read. -/
def Lexical.uses (lexical : Lexical) : Action → Bool
  | .read id accessor => accessor.UsesCell && (lexical.locate id accessor).all fun found =>
      (lexical.calls found.1).all fun call => call.keeps found.2
  | .write _ accessor _ => accessor.UsesCell
  | _ => true

def Lexical.careful : Lexical → List Action → Bool
  | _, [] => true
  | lexical, action :: actions =>
      lexical.uses action && match lexical.step action with
        | some (_, next) => careful next actions
        | none => true

theorem Related.outer (related : Related machine lexical) {creator : Option ActivationId}
    {capture : Capture} {root : Root} (found : lexical.lookup creator capture = some root) :
    root.Fills machine lexical (machine.outer creator capture) := by
  obtain ⟨creator, rfl, resolved⟩ := Option.bind_eq_some_iff.mp found
  obtain ⟨activation, activated, fills⟩ := related.fields resolved
  have field : machine.outer (some creator) capture = activation.fields capture := by
    funext part
    simp [Machine.outer, activated]
  rw [field]
  exact fills

theorem body_locate (activation : Activation) (blocks : List Int)
    (uses : (Accessor.body original).UsesCell) :
    ((Accessor.body original).locate (activation.state blocks)).map (·.cell id) =
      activation.address id original := by
  simp only [Accessor.locate, Activation.address, Activation.state]
  cases heap : original.requiresHeapAllocation with
  | false => simp [Location.cell]
  | true =>
      have isLocal : original.isParameter = false := by
        simpa [Accessor.UsesCell, heap] using uses
      cases first : original.closureVariableDeclarations.head? with
      | none => simp [isLocal]
      | some declaration =>
          simp only [isLocal, Bool.false_eq_true, if_false, if_true, Option.bind_some,
            Option.bind_eq_bind]
          cases activation.heaps declaration.capture <;> rfl

theorem Related.locate (related : Related machine lexical) {accessor : Accessor}
    (uses : accessor.UsesCell) (located : lexical.locate id accessor = some (owner, original)) :
    ∃ cell, machine.locate id accessor = some cell ∧
      machine.address owner original = some cell ∧ lexical.Has owner original := by
  obtain ⟨call, found, located⟩ := Option.bind_eq_some_iff.mp located
  obtain ⟨-, -, activation, activated, executes⟩ := related.calls found
  split at located
  · next isLive =>
      have live : activation.live = true := executes.live.trans isLive
      cases accessor with
      | body used =>
          simp only [Option.ite_none_right_eq_some, Option.some.injEq, Prod.mk.injEq] at located
          obtain ⟨member, rfl, rfl⟩ := located
          obtain ⟨cell, -, addressed, -⟩ := related.values found _ member
          have memberHere := executes.scope.symm ▸ member
          refine ⟨cell, ?_, addressed, call, found, member⟩
          simp only [Machine.address, activated, Option.bind_eq_bind, Option.bind_some] at addressed
          simp only [Machine.locate, activated, live, memberHere, Option.bind_eq_bind,
            Option.bind_some, if_true, body_locate activation machine.blocks uses, addressed]
      | closure capture =>
          obtain ⟨root, looked, located⟩ := Option.bind_eq_some_iff.mp located
          cases root with
          | value found original =>
              obtain ⟨rfl, rfl⟩ := Prod.mk.inj (Option.some.inj located)
              obtain ⟨cell, addressed, filled⟩ := related.outer looked
              obtain ⟨creator, isCreator, resolved⟩ := Option.bind_eq_some_iff.mp looked
              refine ⟨cell, ?_, addressed, resolve_value resolved⟩
              simp only [Machine.locate, activated, live, executes.creator, filled,
                Option.bind_eq_bind, Option.bind_some, if_true]
          | closure found name => cases located
  · cases located

/-- A variable can be read as long as its place is there. -/
theorem Related.readable (related : Related machine lexical) {call : Call}
    (found : lexical.calls owner = some call)
    (member : original ∈ call.scope.method.declarations)
    (addressed : machine.address owner original = some cell)
    (alive : original.requiresHeapAllocation = true ∨ call.live = true) :
    ∃ content, machine.load cell = some content ∧ call.Holds original content := by
  obtain ⟨-, -, activation, activated, executes⟩ := related.calls found
  obtain ⟨sameCell, content, alsoAddressed, isContent, holds⟩ := related.values found original member
  obtain rfl := Option.some.inj (alsoAddressed.symm.trans addressed)
  refine ⟨content, ?_, holds⟩
  simp only [Machine.address, activated, Option.bind_eq_bind, Option.bind_some,
    Activation.address] at addressed
  split at addressed
  · obtain ⟨first, -, addressed⟩ := Option.bind_eq_some_iff.mp addressed
    obtain ⟨number, -, addressed⟩ := Option.bind_eq_some_iff.mp addressed
    obtain rfl := Option.some.inj addressed
    exact isContent
  · next stack =>
      obtain rfl := Option.some.inj addressed
      have live : activation.live = true := executes.live.trans (alive.resolve_left stack)
      rw [Machine.content, activated, Option.map_some] at isContent
      simp only [Machine.load, activated, live, Option.bind_eq_bind, Option.bind_some, if_true]
      exact isContent

theorem Related.load (related : Related machine lexical) (has : lexical.Has owner original)
    (addressed : machine.address owner original = some cell)
    (keeps : (lexical.calls owner).all (fun call => call.keeps original) = true)
    (loaded : lexical.load owner original = some value) : machine.load cell = some value := by
  obtain ⟨call, found, member⟩ := has
  obtain ⟨call', found', loaded⟩ := Option.bind_eq_some_iff.mp loaded
  obtain rfl := Option.some.inj (found.symm.trans found')
  rw [found, Option.all_some] at keeps
  simp only [Option.ite_none_right_eq_some] at loaded
  obtain ⟨alive, isValue⟩ := loaded
  obtain ⟨content, loads, holds⟩ := related.readable found member addressed alive
  rw [loads, holds keeps value isValue]

theorem Related.words (related : Related machine lexical) {capture : Capture} {values : List Int}
    (called : lexical.words id capture = some values) :
    ∃ word : Part → Int, values = (fieldParts true).map word ∧
      ∀ part, machine.word id capture part = some (word part) := by
  obtain ⟨call, found, called⟩ := Option.bind_eq_some_iff.mp called
  obtain ⟨-, -, activation, activated, executes⟩ := related.calls found
  split at called
  · next isLive =>
      have live : activation.live = true := executes.live.trans isLive
      obtain ⟨root, looked, called⟩ := Option.bind_eq_some_iff.mp called
      cases root with
      | value owner original => cases called
      | closure owner name =>
          obtain ⟨ownerCall, ownerFound, same⟩ := Option.bind_eq_some_iff.mp called
          obtain ⟨fillCall, fillFound, filled⟩ := related.outer looked
          obtain rfl := Option.some.inj (ownerFound.symm.trans fillFound)
          refine ⟨ownerCall.closures name, (Option.some.inj same).symm, fun part => ?_⟩
          simp only [Machine.word, activated, live, executes.creator, filled part,
            Option.bind_eq_bind, Option.bind_some, if_true]
  · cases called

theorem map_update {α β : Type} {frame : α → β} {table : ActivationId → Option α} {before after : α}
    (found : table id = some before) (same : frame after = frame before) (other : ActivationId) :
    (Function.update table id (some after) other).map frame = (table other).map frame := by
  by_cases here : other = id
  · subst here
    rw [Function.update_self, found, Option.map_some, Option.map_some, same]
  · rw [Function.update_of_ne here]

theorem store_of_load {before : Int} (loaded : machine.load cell = some before) (value : Int) :
    ∃ after, machine.store value cell = some after ∧ machine.Alike after ∧
      after.content cell = some value ∧
      (∀ other, other ≠ cell → after.content other = machine.content other) ∧
      ∀ id, (after.activations id).map Activation.live =
        (machine.activations id).map Activation.live := by
  cases cell with
  | stack owner name =>
      obtain ⟨activation, activated, loaded⟩ := Option.bind_eq_some_iff.mp loaded
      simp only [Option.ite_none_right_eq_some] at loaded
      let after : Machine := { machine with
        activations := Function.update machine.activations owner
          (some { activation with stack := Function.update activation.stack name value }) }
      refine ⟨after, ?_, ⟨rfl, fun id => map_update activated (by rfl) id⟩, ?_, ?_,
        fun id => map_update activated (by rfl) id⟩
      · simp only [Machine.store, activated, Option.bind_eq_bind, Option.bind_some]
        exact if_pos loaded.1
      · simp [Machine.content, after]
      · intro other different
        cases other with
        | block number => rfl
        | stack otherOwner otherName =>
            by_cases here : otherOwner = owner
            · subst here
              have otherVariable : otherName ≠ name := fun same => different (congrArg _ same)
              simp [Machine.content, after, activated, otherVariable]
            · simp [Machine.content, after, here]
  | block number =>
      obtain ⟨inside, -⟩ := List.getElem?_eq_some_iff.mp loaded
      refine ⟨_, if_pos inside, ⟨rfl, fun _ => rfl⟩, ?_, ?_, fun _ => rfl⟩
      · simp [Machine.content, inside]
      · intro other different
        cases other with
        | stack otherOwner otherName => rfl
        | block otherNumber =>
            have otherBlock : number ≠ otherNumber := fun same => different (congrArg _ same.symm)
            simp [Machine.content, otherBlock]

theorem Related.live (related : Related machine lexical) {after : Machine} {next : Lexical}
    (machineLive : ∀ id, (after.activations id).map Activation.live =
      (machine.activations id).map Activation.live)
    (lexicalLive : ∀ id, (next.calls id).map Call.live = (lexical.calls id).map Call.live)
    {call : Call} {activation : Activation} (found : next.calls id = some call)
    (activated : after.activations id = some activation) : activation.live = call.live := by
  obtain ⟨before, foundBefore, sameLive⟩ := exists_of_map_eq (lexicalLive id).symm found
  obtain ⟨activationBefore, activatedBefore, sameActivation⟩ :=
    exists_of_map_eq (machineLive id).symm activated
  obtain ⟨-, -, executing, executed, executes⟩ := related.calls foundBefore
  obtain rfl := Option.some.inj (activatedBefore.symm.trans executed)
  rw [← sameActivation, ← sameLive, executes.live]

theorem Related.store (related : Related machine lexical) (has : lexical.Has owner original)
    (addressed : machine.address owner original = some cell)
    (stored : lexical.store owner original value = some next) :
    ∃ after, machine.store value cell = some after ∧ Related after next := by
  have found := has
  obtain ⟨call, found, member⟩ := found
  obtain ⟨call', found', stored⟩ := Option.bind_eq_some_iff.mp stored
  obtain rfl := Option.some.inj (found.symm.trans found')
  simp only [Option.ite_none_right_eq_some, Option.some.injEq] at stored
  obtain ⟨alive, rfl⟩ := stored
  obtain ⟨before, loads, -⟩ := related.readable found member addressed alive
  obtain ⟨after, storedHere, alike, written, others, machineLive⟩ := store_of_load loads value
  refine ⟨after, storedHere, related.of_alike alike ⟨rfl, fun id => map_update found (by rfl) id⟩
    (related.live machineLive fun id => map_update found (by rfl) id) ?_⟩
  have apart : ∀ {id another otherCell}, lexical.Has id another →
      machine.address id another = some otherCell → ¬(id = owner ∧ another = original) →
        after.content otherCell = machine.content otherCell := by
    intro id another otherCell hasOther otherAddressed different
    refine others otherCell fun same => different ?_
    subst same
    exact related.apart hasOther has otherAddressed addressed
  intro id nextCall foundNext another anotherMember
  by_cases here : id = owner
  · subst here
    simp only [Function.update_self, Option.some.injEq] at foundNext
    subst foundNext
    by_cases same : another = original
    · subst same
      refine ⟨cell, value, addressed, written, fun _ current isCurrent => ?_⟩
      simp only [Function.update_self, Option.some.injEq] at isCurrent
      exact isCurrent
    · obtain ⟨otherCell, content, otherAddressed, isContent, holds⟩ :=
        related.values found another anotherMember
      have otherName : another.name ≠ original.name := fun sameName =>
        same (List.inj_on_of_nodup_map (related.calls found).2.1.names anotherMember member sameName)
      refine ⟨otherCell, content, otherAddressed, ?_, ?_⟩
      · rw [apart ⟨call, found, anotherMember⟩ otherAddressed fun both => same both.2, isContent]
      · simp only [Call.Holds, Call.keeps, Function.update_of_ne otherName]
        exact holds
  · simp only [Function.update_of_ne here] at foundNext
    obtain ⟨otherCell, content, otherAddressed, isContent, holds⟩ :=
      related.values foundNext another anotherMember
    refine ⟨otherCell, content, otherAddressed, ?_, holds⟩
    rw [apart ⟨nextCall, foundNext, anotherMember⟩ otherAddressed fun both => here both.1, isContent]

theorem Related.leave (related : Related machine lexical) (left : lexical.leave id = some next) :
    ∃ after, machine.leave id = some after ∧ Related after next := by
  obtain ⟨call, found, left⟩ := Option.bind_eq_some_iff.mp left
  simp only [Option.ite_none_right_eq_some, Option.some.injEq] at left
  obtain ⟨isLive, rfl⟩ := left
  obtain ⟨-, -, activation, activated, executes⟩ := related.calls found
  have live : activation.live = true := executes.live.trans isLive
  let after : Machine := { machine with
    activations := Function.update machine.activations id (some { activation with live := false }) }
  refine ⟨after, ?_, related.of_alike ⟨rfl, fun id => map_update activated (by rfl) id⟩
    ⟨rfl, fun id => map_update found (by rfl) id⟩ ?_ ?_⟩
  · simp only [Machine.leave, activated, live, Option.bind_eq_bind, Option.bind_some, if_true]
    rfl
  · intro other otherCall otherActivation otherFound otherActivated
    by_cases here : other = id
    · subst here
      simp only [after, Function.update_self, Option.some.injEq] at otherFound otherActivated
      rw [← otherFound, ← otherActivated]
    · simp only [after, Function.update_of_ne here] at otherFound otherActivated
      obtain ⟨-, -, executing, executed, otherExecutes⟩ := related.calls otherFound
      obtain rfl := Option.some.inj (otherActivated.symm.trans executed)
      exact otherExecutes.live
  · intro other otherCall otherFound another member
    have unchanged : ∃ before, lexical.calls other = some before ∧
        before.scope = otherCall.scope ∧ before.Holds = otherCall.Holds := by
      by_cases here : other = id
      · subst here
        simp only [Function.update_self, Option.some.injEq] at otherFound
        exact ⟨call, found, otherFound ▸ rfl, otherFound ▸ rfl⟩
      · simp only [Function.update_of_ne here] at otherFound
        exact ⟨otherCall, otherFound, rfl, rfl⟩
    obtain ⟨before, foundBefore, sameScope, sameHolds⟩ := unchanged
    rw [← sameScope] at member
    obtain ⟨cell, content, addressed, isContent, holds⟩ := related.values foundBefore another member
    refine ⟨cell, content, addressed, ?_, sameHolds ▸ holds⟩
    rw [← isContent]
    cases cell with
    | block number => rfl
    | stack owner name => exact map_update activated (by rfl) owner

end Accesses

section Enter

variable {fresh : Nat → Int} {machine : Machine} {lexical next : Lexical} {scope : Scope}
  {creator : Option ActivationId} {closures : VariableId → Part → Int}
  {original another : VariableDeclaration} {id : ActivationId} {cell : Cell}

theorem Related.available (related : Related machine lexical)
    (admitted : lexical.Admits scope creator) : scope.Available (machine.outer creator) := by
  intro declaration member part isPart
  obtain ⟨root, found, sameKind⟩ := Option.map_eq_some_iff.mp (admitted declaration member)
  rw [← sameKind] at isPart
  have fills := related.outer found
  cases root with
  | value owner original =>
      obtain ⟨cell, -, filled⟩ := fills
      obtain rfl := List.mem_singleton.mp isPart
      exact ⟨_, filled⟩
  | closure owner name =>
      obtain ⟨call, -, filled⟩ := fills
      exact ⟨_, filled part⟩

/-- The call with what its prelude leaves. -/
def Scope.activation (fresh : Nat → Int) (machine : Machine) (scope : Scope)
    (creator : Option ActivationId) (closures : VariableId → Part → Int) : Activation where
  scope := scope
  creator := creator
  live := true
  stack := (scope.prepared fresh machine.blocks).stack
  heaps := (scope.prepared fresh machine.blocks).heaps
  fields := scope.fields fresh machine.blocks (machine.outer creator) closures machine.count

def Machine.entered (fresh : Nat → Int) (machine : Machine) (scope : Scope)
    (creator : Option ActivationId) (closures : VariableId → Part → Int) : Machine where
  count := machine.count + 1
  activations := Function.update machine.activations machine.count
    (some (scope.activation fresh machine creator closures))
  blocks := (scope.prepared fresh machine.blocks).blocks

theorem enter_eq (wellFormed : scope.WellFormed)
    (available : scope.Available (machine.outer creator)) :
    machine.enter fresh scope creator closures =
      some (machine.entered fresh scope creator closures) := by
  rw [Machine.enter, Scope.runInstructions_generateSource wellFormed available]
  rfl

theorem Related.older (related : Related machine lexical) {activation : Activation}
    (activated : machine.activations id = some activation) :
    (machine.entered fresh scope creator closures).activations id = some activation := by
  have different := Nat.ne_of_lt (related.bounded activated)
  exact (Function.update_of_ne different _ _).trans activated

theorem Related.older_address (related : Related machine lexical)
    (addressed : machine.address id original = some cell) :
    (machine.entered fresh scope creator closures).address id original = some cell := by
  obtain ⟨activation, activated, addressed⟩ := Option.bind_eq_some_iff.mp addressed
  simp only [Machine.address, related.older activated, Option.bind_eq_bind, Option.bind_some]
  exact addressed

theorem Related.older_content (related : Related machine lexical) {value : Int}
    (content : machine.content cell = some value) :
    (machine.entered fresh scope creator closures).content cell = some value := by
  cases cell with
  | stack owner name =>
      obtain ⟨activation, activated, rfl⟩ := Option.map_eq_some_iff.mp content
      rw [Machine.content, related.older activated, Option.map_some]
  | block number =>
      obtain ⟨inside, -⟩ := List.getElem?_eq_some_iff.mp content
      have before : machine.blocks[number]? = some value := content
      rw [Machine.content, Machine.entered, Scope.prepared_blocks,
        List.getElem?_append_left inside, before]

theorem entered_address (wellFormed : scope.WellFormed)
    (member : original ∈ scope.method.declarations) :
    (machine.entered fresh scope creator closures).address machine.count original =
      some ((original.home (scope.number machine.blocks original)).cell machine.count) := by
  simp only [Machine.address, Machine.entered, Function.update_self, Option.bind_eq_bind,
    Option.bind_some, Activation.address, VariableDeclaration.home]
  cases heap : original.requiresHeapAllocation with
  | false => rfl
  | true =>
      obtain ⟨first, rest, declared⟩ :=
        List.exists_cons_of_ne_nil (wellFormed.method.captured original member heap)
      have captured : first.capture ∈ original.captures := by
        simp [VariableDeclaration.captures, declared]
      have placed := (Scope.prepared_placed fresh machine.blocks wellFormed member first.capture
        captured).2 heap
      simp [declared, Scope.activation, placed, Location.cell]

theorem entered_content (wellFormed : scope.WellFormed)
    (member : original ∈ scope.method.declarations) :
    ∃ content, (machine.entered fresh scope creator closures).content
        ((original.home (scope.number machine.blocks original)).cell machine.count) =
          some content ∧
      (scope.call creator closures).Holds original content := by
  have initial : (scope.call creator closures).values original.name =
      if original.isParameter ∨ ¬original.requiresHeapAllocation then some original.initial
      else none := by
    simp only [Scope.call, Scope.initial, Scope.find?_name wellFormed.names member,
      Option.bind_eq_bind, Option.bind_some]
  simp only [VariableDeclaration.home]
  cases heap : original.requiresHeapAllocation with
  | false =>
      have stacked := Scope.prepared_stack fresh machine.blocks wellFormed member
      refine ⟨original.initial, ?_, fun _ value isValue => ?_⟩
      · simp [Location.cell, Machine.content, Machine.entered, Scope.activation, stacked]
      · rw [initial, heap, if_pos (.inr Bool.false_ne_true)] at isValue
        exact Option.some.inj isValue
  | true =>
      refine ⟨_, Scope.prepared_number fresh machine.blocks member heap,
        fun keeps value isValue => ?_⟩
      -- Neither a parameter that nothing was written to nor a local variable on the heap has
      -- a value that the block could differ from.
      rw [initial, heap] at isValue
      cases parameter : original.isParameter with
      | true => simp [Call.keeps, VariableDeclaration.isLost, Scope.call, heap, parameter] at keeps
      | false => simp [parameter] at isValue

/-- The cells of the new call are new. -/
theorem home_inj (wellFormed : scope.WellFormed) {blocks : List Int}
    (member : original ∈ scope.method.declarations)
    (anotherMember : another ∈ scope.method.declarations)
    (same : (original.home (scope.number blocks original)).cell id =
      (another.home (scope.number blocks another)).cell id) : original = another := by
  simp only [VariableDeclaration.home, Scope.number] at same
  cases heap : original.requiresHeapAllocation <;>
    cases anotherHeap : another.requiresHeapAllocation <;>
    simp only [heap, anotherHeap, Bool.false_eq_true, if_false, if_true, Location.cell,
      Cell.stack.injEq, Cell.block.injEq, true_and, reduceCtorEq] at same
  · exact List.inj_on_of_nodup_map wellFormed.names member anotherMember same
  · exact (List.idxOf_inj (List.mem_filter.mpr ⟨member, heap⟩)).mp (Nat.add_left_cancel same)

theorem Related.content_ne (related : Related machine lexical) {value : Int}
    (content : machine.content cell = some value) :
    cell ≠ (original.home (scope.number machine.blocks original)).cell machine.count := by
  rintro rfl
  simp only [VariableDeclaration.home] at content
  split at content
  · obtain ⟨inside, -⟩ := List.getElem?_eq_some_iff.mp content
    exact absurd inside (Nat.not_lt.mpr (Nat.le_add_right _ _))
  · obtain ⟨activation, activated, -⟩ := Option.map_eq_some_iff.mp content
    exact absurd (related.bounded activated) (Nat.lt_irrefl _)

def Lexical.entered (lexical : Lexical) (scope : Scope) (creator : Option ActivationId)
    (closures : VariableId → Part → Int) : Lexical where
  count := lexical.count + 1
  calls := Function.update lexical.calls lexical.count (some (scope.call creator closures))

theorem Related.older_call (related : Related machine lexical) {call : Call}
    (found : lexical.calls id = some call) :
    (lexical.entered scope creator closures).calls id = some call := by
  have different := Nat.ne_of_lt (related.calls found).1
  exact (Function.update_of_ne different _ _).trans found

theorem entered_call : (lexical.entered scope creator closures).calls lexical.count =
    some (scope.call creator closures) :=
  Function.update_self _ _ _

theorem entered_resolve {capture : Capture} (bound : Nat) (inside : bound ≤ lexical.count) :
    resolve (lexical.entered scope creator closures).calls bound id capture =
      resolve lexical.calls bound id capture := by
  refine resolve_congr fun other before => ?_
  have different : other ≠ lexical.count := Nat.ne_of_lt (Nat.lt_of_lt_of_le before inside)
  exact congrArg _ (Function.update_of_ne different _ _)

theorem Related.older_fills (related : Related machine lexical) {root : Root}
    {field : Part → Option Content} (fills : root.Fills machine lexical field) :
    root.Fills (machine.entered fresh scope creator closures)
      (lexical.entered scope creator closures) field := by
  cases root with
  | value owner original =>
      obtain ⟨cell, addressed, filled⟩ := fills
      exact ⟨cell, related.older_address addressed, filled⟩
  | closure owner name =>
      obtain ⟨call, found, filled⟩ := fills
      exact ⟨call, related.older_call found, filled⟩

/-- What the new call's contexts hold. -/
theorem Related.entered_fills (related : Related machine lexical) (wellFormed : scope.WellFormed)
    (admitted : lexical.Admits scope creator) {capture : Capture} {root : Root}
    (resolved : resolve (lexical.entered scope creator closures).calls (lexical.count + 1)
      lexical.count capture = some root) :
    root.Fills (machine.entered fresh scope creator closures)
      (lexical.entered scope creator closures)
      (scope.fields fresh machine.blocks (machine.outer creator) closures machine.count capture) := by
  obtain ⟨-, distinct, apart⟩ := List.nodup_append.mp wellFormed.fields
  rw [resolve, if_pos rfl] at resolved
  obtain ⟨call, found, resolved⟩ := Option.bind_eq_some_iff.mp resolved
  obtain rfl := Option.some.inj (entered_call.symm.trans found)
  obtain ⟨binding, bound, resolved⟩ := Option.bind_eq_some_iff.mp resolved
  rcases binding_cases bound with ⟨original, member, captured, rfl⟩ |
    ⟨closure, member, captured, rfl⟩ | ⟨declaration, member, rfl, rfl⟩
  · obtain rfl := Option.some.inj resolved
    rw [← related.count]
    exact ⟨_, entered_address wellFormed member,
      Scope.fields_own fresh machine.blocks wellFormed member captured _⟩
  · obtain rfl := Option.some.inj resolved
    refine ⟨_, found, fun part => ?_⟩
    have notOwn : capture ∉ scope.method.declarations.flatMap (·.captures) := fun own =>
      apart _ own _ (List.mem_append_right _ (List.mem_flatMap.mpr ⟨closure, member, captured⟩)) rfl
    rw [Scope.fields_other fresh machine.blocks notOwn]
    exact Scope.copied_closure wellFormed member captured part
  · obtain ⟨creator, rfl, resolved⟩ := Option.bind_eq_some_iff.mp resolved
    rw [entered_resolve lexical.count (Nat.le_refl _)] at resolved
    have looked : lexical.lookup (some creator) declaration.original = some root := resolved
    have sameKind : root.isClosure = declaration.rootIsClosure := by
      have kinds := admitted declaration member
      rw [looked] at kinds
      exact Option.some.inj kinds
    have notOwn : declaration.capture ∉ scope.method.declarations.flatMap (·.captures) := fun own =>
      apart _ own _ (List.mem_append_left _ (List.mem_map_of_mem member)) rfl
    have copied : ∀ part ∈ fieldParts root.isClosure, ∀ content,
        machine.outer (some creator) declaration.original part = some content →
          scope.fields fresh machine.blocks (machine.outer (some creator)) closures machine.count
            declaration.capture part = some content := by
      intro part isPart content given
      rw [Scope.fields_other fresh machine.blocks notOwn]
      exact Scope.copied_inherited wellFormed member (sameKind ▸ isPart) given
    have fills : root.Fills (machine.entered fresh scope (some creator) closures)
        (lexical.entered scope (some creator) closures)
        (machine.outer (some creator) declaration.original) :=
      related.older_fills (related.outer looked)
    cases root with
    | value owner original =>
        obtain ⟨cell, addressed, filled⟩ := fills
        exact ⟨cell, addressed, copied .itself (List.mem_singleton_self _) _ filled⟩
    | closure owner name =>
        obtain ⟨call, foundCall, filled⟩ := fills
        refine ⟨call, foundCall, fun part => copied part ?_ _ (filled part)⟩
        change part ∈ fieldParts true
        cases part <;> decide

/-- The calls are the new one and those that there were. -/
theorem entered_calls {call : Call}
    (found : (lexical.entered scope creator closures).calls id = some call) :
    (id = lexical.count ∧ call = scope.call creator closures) ∨ lexical.calls id = some call := by
  by_cases newest : id = lexical.count
  · subst newest
    exact .inl ⟨rfl, (Option.some.inj (entered_call.symm.trans found)).symm⟩
  · exact .inr ((Function.update_of_ne newest _ _).symm.trans found)

/-- A variable of the new call has a new cell, and one of an earlier call the cell that it had. -/
theorem Related.entered_has (related : Related machine lexical) (wellFormed : scope.WellFormed)
    (has : (lexical.entered scope creator closures).Has id original)
    (addressed : (machine.entered fresh scope creator closures).address id original = some cell) :
    (id = lexical.count ∧ original ∈ scope.method.declarations ∧
        cell = (original.home (scope.number machine.blocks original)).cell machine.count) ∨
      (lexical.Has id original ∧ machine.address id original = some cell ∧
        ∃ value, machine.content cell = some value) := by
  obtain ⟨call, found, member⟩ := has
  rcases entered_calls found with ⟨rfl, rfl⟩ | foundBefore
  · rw [← related.count, entered_address wellFormed member] at addressed
    exact .inl ⟨rfl, member, (Option.some.inj addressed).symm⟩
  · obtain ⟨sameCell, content, addressedBefore, isContent, -⟩ :=
      related.values foundBefore original member
    obtain rfl := Option.some.inj ((related.older_address addressedBefore).symm.trans addressed)
    exact .inr ⟨⟨call, foundBefore, member⟩, addressedBefore, content, isContent⟩

theorem Related.enter (related : Related machine lexical) (wellFormed : scope.WellFormed)
    (entered : lexical.enter scope creator closures = some next) :
    ∃ after, machine.enter fresh scope creator closures = some after ∧ Related after next := by
  simp only [Lexical.enter, Option.ite_none_right_eq_some, Option.some.injEq] at entered
  obtain ⟨admitted, rfl⟩ := entered
  refine ⟨_, enter_eq wellFormed (related.available admitted), ?_⟩
  change Related _ (lexical.entered scope creator closures)
  have newest : (machine.entered fresh scope creator closures).activations lexical.count =
      some (scope.activation fresh machine creator closures) := by
    rw [← related.count]
    exact Function.update_self _ _ _
  refine ⟨congrArg (· + 1) related.count, ?bounded, ?calls, ?fields, ?values, ?apart⟩
  case bounded =>
    intro id activation activated
    by_cases isNew : id = machine.count
    · exact isNew ▸ Nat.lt_succ_self _
    · exact Nat.lt_succ_of_lt
        (related.bounded ((Function.update_of_ne isNew _ _).symm.trans activated))
  case calls =>
    intro id call found
    rcases entered_calls found with ⟨rfl, rfl⟩ | foundBefore
    · exact ⟨Nat.lt_succ_self _, wellFormed, _, newest, rfl, rfl, rfl⟩
    · obtain ⟨before, itsWellFormed, activation, activated, executes⟩ := related.calls foundBefore
      exact ⟨Nat.lt_succ_of_lt before, itsWellFormed, activation, related.older activated, executes⟩
  case fields =>
    intro id capture root resolved
    have before := resolve_lt resolved
    rcases Nat.lt_succ_iff_lt_or_eq.mp before with isOlder | rfl
    · change resolve _ (lexical.count + 1) _ _ = _ at resolved
      rw [resolve_older isOlder, entered_resolve lexical.count (Nat.le_refl _)] at resolved
      obtain ⟨activation, activated, fills⟩ := related.fields resolved
      exact ⟨activation, related.older activated, related.older_fills fills⟩
    · exact ⟨_, newest, related.entered_fills wellFormed admitted resolved⟩
  case values =>
    intro id call found original member
    rcases entered_calls found with ⟨rfl, rfl⟩ | foundBefore
    · obtain ⟨content, isContent, holds⟩ := @entered_content fresh machine _ creator closures _
        wellFormed member
      rw [← related.count]
      exact ⟨_, content, entered_address wellFormed member, isContent, holds⟩
    · obtain ⟨cell, content, addressed, isContent, holds⟩ :=
        related.values foundBefore original member
      exact ⟨cell, content, related.older_address addressed, related.older_content isContent, holds⟩
  case apart =>
    intro id other original another cell has hasOther addressed otherAddressed
    rcases related.entered_has wellFormed has addressed with
      ⟨rfl, member, rfl⟩ | ⟨hasBefore, before, value, content⟩
    · rcases related.entered_has wellFormed hasOther otherAddressed with
        ⟨rfl, anotherMember, same⟩ | ⟨-, -, value, content⟩
      · exact ⟨rfl, home_inj wellFormed member anotherMember same⟩
      · exact absurd rfl (related.content_ne content)
    · rcases related.entered_has wellFormed hasOther otherAddressed with
        ⟨rfl, anotherMember, rfl⟩ | ⟨hasOtherBefore, otherBefore, -⟩
      · exact absurd rfl (related.content_ne content)
      · exact related.apart hasBefore hasOtherBefore before otherBefore

end Enter

section Run

variable {fresh : Nat → Int} {machine : Machine} {lexical next : Lexical} {action : Action}
  {actions : List Action} {values : List Int}

theorem Related.step (related : Related machine lexical) (uses : lexical.uses action = true)
    (stepped : lexical.step action = some (values, next)) :
    ∃ after, machine.step fresh action = some (values, after) ∧ Related after next := by
  cases action with
  | enter scope creator closures =>
      obtain ⟨entered, enters, same⟩ := Option.map_eq_some_iff.mp stepped
      obtain ⟨rfl, rfl⟩ := Prod.mk.inj same
      obtain ⟨after, entersHere, relatedAfter⟩ := related.enter scope.2 enters
      exact ⟨after, by rw [Machine.step, entersHere, Option.map_some], relatedAfter⟩
  | leave id =>
      obtain ⟨left, leaves, same⟩ := Option.map_eq_some_iff.mp stepped
      obtain ⟨rfl, rfl⟩ := Prod.mk.inj same
      obtain ⟨after, leavesHere, relatedAfter⟩ := related.leave leaves
      exact ⟨after, by rw [Machine.step, leavesHere, Option.map_some], relatedAfter⟩
  | read id accessor =>
      obtain ⟨⟨owner, original⟩, located, rest⟩ := Option.bind_eq_some_iff.mp stepped
      obtain ⟨value, loaded, same⟩ := Option.bind_eq_some_iff.mp rest
      obtain ⟨rfl, rfl⟩ := Prod.mk.inj (Option.some.inj same)
      rw [Lexical.uses, located, Option.all_some, Bool.and_eq_true, decide_eq_true_iff] at uses
      obtain ⟨cell, locatedHere, addressed, has⟩ := related.locate uses.1 located
      refine ⟨machine, ?_, related⟩
      simp only [Machine.step, locatedHere, related.load has addressed uses.2 loaded,
        Option.bind_eq_bind, Option.bind_some]
  | write id accessor value =>
      obtain ⟨⟨owner, original⟩, located, rest⟩ := Option.bind_eq_some_iff.mp stepped
      obtain ⟨written, stored, same⟩ := Option.bind_eq_some_iff.mp rest
      obtain ⟨rfl, rfl⟩ := Prod.mk.inj (Option.some.inj same)
      obtain ⟨cell, locatedHere, addressed, has⟩ := related.locate (of_decide_eq_true uses) located
      obtain ⟨after, storedHere, relatedAfter⟩ := related.store has addressed stored
      refine ⟨after, ?_, relatedAfter⟩
      simp only [Machine.step, locatedHere, storedHere, Option.bind_eq_bind, Option.bind_some]
  | call id capture =>
      obtain ⟨words, called, same⟩ := Option.bind_eq_some_iff.mp stepped
      obtain ⟨rfl, rfl⟩ := Prod.mk.inj (Option.some.inj same)
      obtain ⟨word, rfl, held⟩ := related.words called
      refine ⟨machine, ?_, related⟩
      simp only [Machine.step, held, Option.bind_eq_bind, Option.bind_some]
      rfl

theorem Related.run (related : Related machine lexical) (careful : lexical.careful actions = true)
    (ran : lexical.run actions = some values) : machine.run fresh actions = some values := by
  induction actions generalizing machine lexical values with
  | nil => exact ran
  | cons action actions ih =>
      obtain ⟨⟨seen, middle⟩, stepped, rest⟩ := Option.bind_eq_some_iff.mp ran
      obtain ⟨later, ranLater, same⟩ := Option.bind_eq_some_iff.mp rest
      obtain rfl := Option.some.inj same
      rw [Lexical.careful, stepped, Bool.and_eq_true] at careful
      obtain ⟨after, steppedHere, relatedAfter⟩ := @Related.step fresh _ _ _ _ _ related careful.1 stepped
      have laterHere := ih relatedAfter careful.2 ranLater
      simp only [Machine.run, steppedHere, laterHere, Option.bind_eq_bind, Option.bind_some]

/-- Whatever is called, returns, is read and written in whatever order, closures at every
depth read and call what lexical scoping says. -/
theorem run_lexical (fresh : Nat → Int) (careful : Lexical.start.careful actions = true)
    (ran : Lexical.start.run actions = some values) :
    Machine.start.run fresh actions = some values :=
  related_start.run careful ran

end Run

section Sample

/-! A method with a local variable, a parameter and a closure, all captured by a lambda in a
lambda.
-/

def sampleX : VariableDeclaration where
  name := 0
  isParameter := false
  initial := 0
  requiresHeapAllocation := true
  closureVariableDeclarations := [⟨⟨1, 0⟩, true, 0⟩]

def sampleP : VariableDeclaration where
  name := 2
  isParameter := true
  initial := 8
  requiresHeapAllocation := true
  closureVariableDeclarations := [⟨⟨1, 2⟩, true, 0⟩]

def sampleMethod : Callable where
  val :=
    { id := 0
      contexts := [⟨1, []⟩]
      parameters := [.value sampleP, .closure ⟨1, [⟨⟨1, 1⟩, false, 0⟩]⟩]
      locals := [sampleX] }
  property :=
    { method := ⟨by decide, by decide, by decide, by decide, by decide⟩
      names := by decide
      inherited := by decide
      closures := by decide
      fields := by decide }

def outerLambda : Callable where
  val :=
    { id := 1
      contexts := [⟨2, [⟨⟨2, 0⟩, ⟨1, 0⟩, false⟩, ⟨⟨2, 1⟩, ⟨1, 1⟩, true⟩,
        ⟨⟨2, 2⟩, ⟨1, 2⟩, false⟩]⟩]
      parameters := []
      locals := [] }
  property :=
    { method := ⟨by decide, by decide, by decide, by decide, by decide⟩
      names := by decide
      inherited := by decide
      closures := by decide
      fields := by decide }

def innerLambda : Callable where
  val :=
    { id := 2
      contexts := []
      parameters := []
      locals := [] }
  property :=
    { method := ⟨by decide, by decide, by decide, by decide, by decide⟩
      names := by decide
      inherited := by decide
      closures := by decide
      fields := by decide }

/-- The words of the closure that the method is called with. -/
def sampleClosure : VariableId → Part → Int
  | _, .itself => 10
  | _, .reference => 20
  | _, .context => 30

/-- The inner lambda writes to the parameter, and is called again after the method has
returned. -/
def sampleActions : List Action :=
  [.enter sampleMethod none sampleClosure, .write 0 (.body sampleX) 5,
    .enter outerLambda (some 0) sampleClosure, .enter innerLambda (some 1) sampleClosure,
    .read 2 (.closure ⟨2, 0⟩), .write 2 (.closure ⟨2, 0⟩) 7, .write 2 (.closure ⟨2, 2⟩) 9,
    .read 0 (.body sampleX), .call 2 ⟨2, 1⟩, .leave 2, .leave 1, .leave 0,
    .enter innerLambda (some 1) sampleClosure, .read 3 (.closure ⟨2, 0⟩),
    .read 3 (.closure ⟨2, 2⟩)]

theorem run_lexical_sample :
    Machine.start.run (fun _ => 77) sampleActions = some [5, 7, 10, 20, 30, 7, 9] :=
  run_lexical _ (by decide) rfl

/-- Without the assignment the inner lambda does not find the argument, which is 8. -/
example :
    Lexical.start.run [.enter sampleMethod none sampleClosure,
        .enter outerLambda (some 0) sampleClosure, .enter innerLambda (some 1) sampleClosure,
        .read 2 (.closure ⟨2, 2⟩)] = some [8] ∧
      Machine.start.run (fun _ => 77) [.enter sampleMethod none sampleClosure,
        .enter outerLambda (some 0) sampleClosure, .enter innerLambda (some 1) sampleClosure,
        .read 2 (.closure ⟨2, 2⟩)] = some [77] := by
  decide

end Sample

end NovaC.Closures
