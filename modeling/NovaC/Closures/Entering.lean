import NovaC.Closures.Nesting

namespace NovaC.Closures

variable {fresh : Nat → Int} {outer : Capture → Part → Option Content}
  {closures : VariableId → Part → Int} {preparation : Preparation}

theorem eq_of_mem_flatMap {α β : Type} {items : List α} {parts : α → List β}
    (distinct : (items.flatMap parts).Nodup) {item other : α} (member : item ∈ items)
    (otherMember : other ∈ items) {part : β} (inside : part ∈ parts item)
    (alsoInside : part ∈ parts other) : item = other := by
  by_contra different
  have apart := (List.nodup_flatMap.mp distinct).2
  have symmetric : Std.Symm (Function.onFun List.Disjoint parts) :=
    ⟨fun _ _ disjoint => disjoint.symm⟩
  exact apart.forall member otherMember different inside alsoInside

def copyAll (entries : List ((Capture × Part) × Content)) (copied : Capture × Part → Option Content) :
    Capture × Part → Option Content :=
  entries.foldl (fun copied entry => Function.update copied entry.1 (some entry.2)) copied

theorem copyAll_append (first rest : List ((Capture × Part) × Content))
    (copied : Capture × Part → Option Content) :
    copyAll (first ++ rest) copied = copyAll rest (copyAll first copied) :=
  List.foldl_append

/-- A field that all assignments give one content, among them one at least. -/
theorem copyAll_eq {entries : List ((Capture × Part) × Content)} {field : Capture × Part}
    {content : Content} (copied : Capture × Part → Option Content)
    (same : ∀ entry ∈ entries, entry.1 = field → entry.2 = content)
    (set : (field, content) ∈ entries ∨ copied field = some content) :
    copyAll entries copied field = some content := by
  induction entries generalizing copied with
  | nil => exact set.resolve_left List.not_mem_nil
  | cons entry entries ih =>
      refine ih (Function.update copied entry.1 (some entry.2))
        (fun other member => same other (List.mem_cons_of_mem _ member)) ?_
      by_cases here : entry.1 = field
      · right
        rw [← here, Function.update_self, same entry List.mem_cons_self here]
      · rw [Function.update_of_ne (Ne.symm here)]
        refine set.imp_left fun member => ?_
        rcases List.mem_cons.mp member with rfl | later
        · exact absurd rfl here
        · exact later

theorem runInstructions_append (first rest : List Instruction) (preparation : Preparation) :
    runInstructions fresh outer closures (first ++ rest) preparation =
      (runInstructions fresh outer closures first preparation).bind
        (runInstructions fresh outer closures rest) := by
  induction first generalizing preparation with
  | nil => rfl
  | cons instruction first ih =>
      simp only [List.cons_append, runInstructions]
      cases instruction.run fresh outer closures preparation with
      | none => rfl
      | some next => exact ih next

theorem runInstructions_statements (statements : List Statement) (preparation : Preparation) :
    runInstructions fresh outer closures (statements.map .statement) preparation =
      (runAll fresh statements preparation.state).map fun state =>
        { preparation with state := state } := by
  induction statements generalizing preparation with
  | nil => rfl
  | cons statement statements ih =>
      simp only [List.map_cons, runInstructions, Instruction.run, runAll, Option.bind_eq_bind]
      cases statement.run fresh preparation.state with
      | none => rfl
      | some state => exact ih { preparation with state := state }

/-- The instruction can set its field. -/
def Instruction.Ready (outer : Capture → Part → Option Content) (closures : VariableId → Part → Int)
    (contexts : List ContextId) (instruction : Instruction) : Prop :=
  ∃ entry, instruction.entry outer closures = some entry ∧ entry.1.1.context ∈ contexts

theorem run_of_ready {instruction : Instruction} {entry : (Capture × Part) × Content}
    (found : instruction.entry outer closures = some entry)
    (declared : entry.1.1.context ∈ preparation.state.contexts) :
    instruction.run fresh outer closures preparation =
      some { preparation with copied := copyAll [entry] preparation.copied } := by
  cases instruction with
  | statement own => cases found
  | inherit field part original => simp [Instruction.run, found, declared, copyAll]
  | assignClosure field part name => simp [Instruction.run, found, declared, copyAll]

theorem runInstructions_ready {instructions : List Instruction}
    (ready : ∀ instruction ∈ instructions,
      instruction.Ready outer closures preparation.state.contexts) :
    runInstructions fresh outer closures instructions preparation =
      some { preparation with
        copied := copyAll (instructions.filterMap (·.entry outer closures)) preparation.copied } := by
  induction instructions generalizing preparation with
  | nil => rfl
  | cons instruction instructions ih =>
      obtain ⟨entry, found, declared⟩ := ready instruction List.mem_cons_self
      rw [runInstructions, run_of_ready found declared, Option.bind_some, ih]
      · rw [List.filterMap_cons_some found]
        rfl
      · exact fun other member => ready other (List.mem_cons_of_mem _ member)

section Sections

variable {state : State} {copied : Capture × Part → Option Content}

theorem runInstructions_contexts {contexts : List ClosureContextDeclaration}
    (inContext : ∀ declaration ∈ contexts, ∀ field ∈ declaration.inherited,
      field.capture.context = declaration.context)
    (available : ∀ declaration ∈ contexts, ∀ field ∈ declaration.inherited,
      ∀ part ∈ fieldParts field.rootIsClosure, ∃ content, outer field.original part = some content) :
    runInstructions fresh outer closures (contexts.flatMap (·.generateDeclaration))
        { state := state, copied := copied } =
      some
        { state := { state with contexts := (contexts.map (·.context)).reverse ++ state.contexts }
          copied := copyAll ((contexts.flatMap (·.generateDeclaration)).filterMap
            (·.entry outer closures)) copied } := by
  induction contexts generalizing state copied with
  | nil => rfl
  | cons declaration contexts ih =>
      have ready : ∀ instruction ∈ declaration.inherited.flatMap (·.generateAssignment),
          instruction.Ready outer closures (declaration.context :: state.contexts) := by
        intro instruction member
        obtain ⟨field, inside, generated⟩ := List.mem_flatMap.mp member
        obtain ⟨part, isPart, rfl⟩ := List.mem_map.mp generated
        obtain ⟨content, given⟩ := available declaration List.mem_cons_self field inside part isPart
        refine ⟨((field.capture, part), content), by simp [Instruction.entry, given], ?_⟩
        rw [inContext declaration List.mem_cons_self field inside]
        exact List.mem_cons_self
      have declared : (Instruction.statement (.declareContext declaration.context)).run fresh outer
          closures { state := state, copied := copied } = some
            { state := { state with contexts := declaration.context :: state.contexts }
              copied := copied } := rfl
      rw [List.flatMap_cons, runInstructions_append, ClosureContextDeclaration.generateDeclaration,
        runInstructions, declared, Option.bind_some, runInstructions_ready ready, Option.bind_some,
        ih (fun other member => inContext other (List.mem_cons_of_mem _ member))
          (fun other member => available other (List.mem_cons_of_mem _ member))]
      rw [List.filterMap_append, copyAll_append, List.filterMap_cons_none rfl, List.map_cons,
        List.reverse_cons, List.append_assoc, List.singleton_append]

theorem ClosureDeclaration.generateAssignments_eq {closure : ClosureDeclaration} {method : MethodId}
    (sameMethod : ∀ declaration ∈ closure.closureVariableDeclarations,
      declaration.parentMethod = method) :
    closure.generateAssignments = closure.captures.flatMap fun capture =>
      (fieldParts true).map fun part => .assignClosure capture part closure.name := by
  rw [ClosureDeclaration.generateAssignments, ClosureDeclaration.captures, List.flatMap_map]
  cases declared : closure.closureVariableDeclarations with
  | nil => rfl
  | cons first rest =>
      rw [declared] at sameMethod
      have firstMethod := sameMethod first List.mem_cons_self
      change first.generateClosureAssignment closure.name none ++ _ = _
      rw [List.flatMap_cons]
      congr 1
      apply List.flatMap_congr
      intro declaration member
      have itsMethod := sameMethod declaration (List.mem_cons_of_mem _ member)
      simp [ClosureVariableDeclaration.generateClosureAssignment, firstMethod, itsMethod]

theorem runInstructions_parameters {parameters : List Parameter} {method : MethodId}
    (values : ∀ original, .value original ∈ parameters →
      original.isParameter = true ∧ Capturable original state.contexts method)
    (closed : ∀ closure, .closure closure ∈ parameters →
      ∀ declaration ∈ closure.closureVariableDeclarations,
        declaration.capture.context ∈ state.contexts ∧ declaration.parentMethod = method) :
    runInstructions fresh outer closures (parameters.flatMap (·.generateAssignments))
        { state := state, copied := copied } =
      some
        { state := (parameters.filterMap (fun
            | .value original => some original
            | .closure _ => none)).foldl (·.prepare fresh ·) state
          copied := copyAll ((parameters.flatMap (·.generateAssignments)).filterMap
            (·.entry outer closures)) copied } := by
  induction parameters generalizing state copied with
  | nil => rfl
  | cons parameter parameters ih =>
      have closedRest := fun closure member => closed closure (List.mem_cons_of_mem _ member)
      have valuesRest := fun original member => values original (List.mem_cons_of_mem _ member)
      rw [List.flatMap_cons, runInstructions_append, List.filterMap_append, copyAll_append]
      cases parameter with
      | value original =>
          obtain ⟨isParameter, capturable⟩ := values original List.mem_cons_self
          have noEntries : (original.generateAssignments.map Instruction.statement).filterMap
              (·.entry outer closures) = [] := by
            simp [Instruction.entry]
          have prepared : (original.allocate fresh state).attach original.captures
              (original.home state.blocks.length) = state.prepare fresh original := by
            rw [State.prepare, if_pos isParameter]
          rw [Parameter.generateAssignments, runInstructions_statements,
            runAll_generateAssignments capturable, prepared, Option.map_some, Option.bind_some, ih,
            noEntries]
          · rfl
          · intro other member
            rw [prepare_contexts]
            exact valuesRest other member
          · intro closure member
            rw [prepare_contexts]
            exact closedRest closure member
      | closure declaration =>
          have here := closed declaration List.mem_cons_self
          have ready : ∀ instruction ∈ declaration.generateAssignments,
              instruction.Ready outer closures state.contexts := by
            rw [declaration.generateAssignments_eq fun inner member => (here inner member).2]
            intro instruction member
            obtain ⟨capture, inside, generated⟩ := List.mem_flatMap.mp member
            obtain ⟨inner, innerMember, rfl⟩ := List.mem_map.mp inside
            obtain ⟨part, -, rfl⟩ := List.mem_map.mp generated
            exact ⟨_, rfl, (here inner innerMember).1⟩
          rw [Parameter.generateAssignments, runInstructions_ready ready, Option.bind_some,
            ih valuesRest closedRest]
          rfl

end Sections

theorem Method.WellFormed.capturable {method : Method} (wellFormed : method.WellFormed)
    {original : VariableDeclaration} (member : original ∈ method.declarations)
    {contexts : List ContextId} (all : ∀ context ∈ method.closureContextDeclarations,
      context ∈ contexts) :
    Capturable original contexts method.id := by
  refine ⟨wellFormed.captured original member, fun declaration inside => ?_⟩
  obtain ⟨heap, declared, sameMethod⟩ := wellFormed.capturing original member declaration inside
  exact ⟨heap, all _ declared, sameMethod⟩

namespace Scope

variable {scope : Scope}

/-- The variables when the body begins. -/
def prepared (fresh : Nat → Int) (scope : Scope) (blocks : List Int) : State :=
  scope.method.declarations.foldl (·.prepare fresh ·)
    { scope.method.start with
      blocks := blocks
      contexts := scope.method.closureContextDeclarations.reverse }

/-- The fields that come from elsewhere when the body begins. -/
def copied (outer : Capture → Part → Option Content) (closures : VariableId → Part → Int)
    (scope : Scope) : Capture × Part → Option Content :=
  copyAll (scope.generateSource.filterMap (·.entry outer closures)) fun _ => none

/-- Everything that is inherited is there. -/
def Available (outer : Capture → Part → Option Content) (scope : Scope) : Prop :=
  ∀ field ∈ scope.inherited, ∀ part ∈ fieldParts field.rootIsClosure,
    ∃ content, outer field.original part = some content

theorem runInstructions_generateSource (wellFormed : scope.WellFormed)
    (available : scope.Available outer) (blocks : List Int) :
    runInstructions fresh outer closures scope.generateSource
        { state := { scope.method.start with blocks := blocks }
          copied := fun _ => none } =
      some
        { state := scope.prepared fresh blocks
          copied := scope.copied outer closures } := by
  have availableEach : ∀ declaration ∈ scope.contexts, ∀ field ∈ declaration.inherited,
      ∀ part ∈ fieldParts field.rootIsClosure, ∃ content, outer field.original part = some content :=
    fun declaration member field inside =>
      available field (List.mem_flatMap.mpr ⟨declaration, member, inside⟩)
  let declared : State :=
    { scope.method.start with
      blocks := blocks
      contexts := scope.method.closureContextDeclarations.reverse ++ scope.method.start.contexts }
  have all : ∀ context ∈ scope.method.closureContextDeclarations, context ∈ declared.contexts :=
    fun context member => List.mem_append_left _ (List.mem_reverse.mpr member)
  have parametersRun := @runInstructions_parameters fresh outer closures declared
    (copyAll ((scope.contexts.flatMap (·.generateDeclaration)).filterMap
      (·.entry outer closures)) fun _ => none) scope.parameters scope.id ?values ?closed
  case values =>
    intro original member
    have inside : original ∈ scope.values :=
      List.mem_filterMap.mpr ⟨.value original, member, rfl⟩
    exact ⟨wellFormed.method.parameters original inside,
      wellFormed.method.capturable (List.mem_append_left _ inside) all⟩
  case closed =>
    intro closure member declaration inside
    have isClosure : closure ∈ scope.closures :=
      List.mem_filterMap.mpr ⟨.closure closure, member, rfl⟩
    obtain ⟨inContext, sameMethod⟩ := wellFormed.closures closure isClosure declaration inside
    exact ⟨all _ inContext, sameMethod⟩
  have localsRun := @runAll_locals fresh (scope.values.foldl (·.prepare fresh ·) declared) scope.id
    scope.locals wellFormed.method.locals fun original member =>
      wellFormed.method.capturable (List.mem_append_right _ member) (by
        rw [foldl_prepare_contexts]
        exact all)
  have noEntries : ((scope.locals.flatMap (·.generateDeclaration)).map
      Instruction.statement).filterMap (·.entry outer closures) = [] := by
    simp [Instruction.entry]
  have folded : scope.prepared fresh blocks = scope.locals.foldl (·.prepare fresh ·)
      (scope.values.foldl (·.prepare fresh ·) declared) := by
    simp only [prepared, Method.declarations, List.foldl_append, declared, Method.start,
      List.append_nil]
    rfl
  rw [generateSource, runInstructions_append,
    runInstructions_contexts wellFormed.inherited availableEach, Option.bind_some,
    runInstructions_append]
  refine (congrArg (Option.bind · _) parametersRun).trans ?_
  rw [Option.bind_some, runInstructions_statements]
  refine (congrArg (Option.map _) localsRun).trans ?_
  rw [Option.map_some, folded, copied, generateSource, List.filterMap_append,
    List.filterMap_append, noEntries, List.append_nil, copyAll_append]

theorem generateAssignments_eq (wellFormed : scope.WellFormed) {closure : ClosureDeclaration}
    (member : closure ∈ scope.closures) :
    closure.generateAssignments = closure.captures.flatMap fun capture =>
      (fieldParts true).map fun part => .assignClosure capture part closure.name :=
  closure.generateAssignments_eq fun declaration inside =>
    (wellFormed.closures closure member declaration inside).2

theorem mem_entries_iff (wellFormed : scope.WellFormed) {field : Capture × Part}
    {content : Content} :
    (field, content) ∈ scope.generateSource.filterMap (·.entry outer closures) ↔
      (∃ declaration ∈ scope.inherited, declaration.capture = field.1 ∧
          field.2 ∈ fieldParts declaration.rootIsClosure ∧
          outer declaration.original field.2 = some content) ∨
        ∃ closure ∈ scope.closures, field.1 ∈ closure.captures ∧
          content = .word (closures closure.name field.2) := by
  rw [List.mem_filterMap]
  constructor
  · rintro ⟨instruction, member, found⟩
    simp only [generateSource, List.mem_append, List.mem_flatMap, List.mem_map] at member
    rcases member with ⟨declaration, inContexts, generated⟩ |
      ⟨parameter, inParameters, generated⟩ | ⟨statement, -, rfl⟩
    · left
      rcases List.mem_cons.mp generated with rfl | generated
      · cases found
      · obtain ⟨inherited, inside, generated⟩ := List.mem_flatMap.mp generated
        obtain ⟨part, isPart, rfl⟩ := List.mem_map.mp generated
        obtain ⟨given, taken, same⟩ := Option.map_eq_some_iff.mp found
        obtain ⟨rfl, rfl⟩ := Prod.mk.inj same
        exact ⟨inherited, List.mem_flatMap.mpr ⟨declaration, inContexts, inside⟩, rfl, isPart, taken⟩
    · cases parameter with
      | value original =>
          obtain ⟨statement, -, rfl⟩ := List.mem_map.mp generated
          cases found
      | closure declaration =>
          right
          have isClosure : declaration ∈ scope.closures :=
            List.mem_filterMap.mpr ⟨.closure declaration, inParameters, rfl⟩
          rw [Parameter.generateAssignments, generateAssignments_eq wellFormed isClosure] at generated
          obtain ⟨capture, captured, generated⟩ := List.mem_flatMap.mp generated
          obtain ⟨part, -, rfl⟩ := List.mem_map.mp generated
          obtain ⟨rfl, rfl⟩ := Prod.mk.inj (Option.some.inj found)
          exact ⟨declaration, isClosure, captured, rfl⟩
    · cases found
  · obtain ⟨capture, part⟩ := field
    rintro (⟨inherited, member, rfl, isPart, given⟩ | ⟨closure, member, captured, rfl⟩)
    · obtain ⟨declaration, inContexts, inside⟩ := List.mem_flatMap.mp member
      refine ⟨.inherit inherited.capture part inherited.original, ?_, by
        rw [Instruction.entry, given, Option.map_some]⟩
      refine List.mem_append_left _ (List.mem_flatMap.mpr ⟨declaration, inContexts, ?_⟩)
      exact List.mem_cons_of_mem _ (List.mem_flatMap.mpr ⟨inherited, inside,
        List.mem_map.mpr ⟨part, isPart, rfl⟩⟩)
    · refine ⟨.assignClosure capture part closure.name, ?_, rfl⟩
      obtain ⟨parameter, inParameters, isClosure⟩ := List.mem_filterMap.mp member
      cases parameter with
      | value original => cases isClosure
      | closure declaration =>
          obtain rfl := Option.some.inj isClosure
          refine List.mem_append_right _ (List.mem_append_left _
            (List.mem_flatMap.mpr ⟨.closure declaration, inParameters, ?_⟩))
          rw [Parameter.generateAssignments, generateAssignments_eq wellFormed member]
          refine List.mem_flatMap.mpr ⟨capture, captured, List.mem_map.mpr ⟨part, ?_, rfl⟩⟩
          cases part <;> decide

theorem copied_inherited (wellFormed : scope.WellFormed) {declaration : InheritedDeclaration}
    (member : declaration ∈ scope.inherited) {part : Part}
    (isPart : part ∈ fieldParts declaration.rootIsClosure) {content : Content}
    (given : outer declaration.original part = some content) :
    scope.copied outer closures (declaration.capture, part) = some content := by
  obtain ⟨-, distinct, -⟩ := List.nodup_append.mp wellFormed.fields
  obtain ⟨inheritedDistinct, -, apart⟩ := List.nodup_append.mp distinct
  refine copyAll_eq _ (fun entry inside same => ?_)
    (.inl ((mem_entries_iff wellFormed).mpr (.inl ⟨declaration, member, rfl, isPart, given⟩)))
  obtain ⟨field, other⟩ := entry
  obtain rfl : field = (declaration.capture, part) := same
  rcases (mem_entries_iff wellFormed).mp inside with
    ⟨another, anotherMember, sameCapture, -, taken⟩ | ⟨closure, closureMember, captured, -⟩
  · obtain rfl := List.inj_on_of_nodup_map inheritedDistinct anotherMember member sameCapture
    exact Option.some.inj (taken.symm.trans given)
  · exact absurd rfl (apart _ (List.mem_map_of_mem member) _
      (List.mem_flatMap.mpr ⟨closure, closureMember, captured⟩))

theorem copied_closure (wellFormed : scope.WellFormed) {closure : ClosureDeclaration}
    (member : closure ∈ scope.closures) {capture : Capture} (captured : capture ∈ closure.captures)
    (part : Part) :
    scope.copied outer closures (capture, part) = some (.word (closures closure.name part)) := by
  obtain ⟨-, distinct, -⟩ := List.nodup_append.mp wellFormed.fields
  obtain ⟨-, closuresDistinct, apart⟩ := List.nodup_append.mp distinct
  refine copyAll_eq _ (fun entry inside same => ?_)
    (.inl ((mem_entries_iff wellFormed).mpr (.inr ⟨closure, member, captured, rfl⟩)))
  obtain ⟨field, other⟩ := entry
  obtain rfl : field = (capture, part) := same
  rcases (mem_entries_iff wellFormed).mp inside with
    ⟨another, anotherMember, sameCapture, -, -⟩ | ⟨another, anotherMember, alsoCaptured, isWord⟩
  · exact absurd sameCapture (apart _ (List.mem_map_of_mem anotherMember) _
      (List.mem_flatMap.mpr ⟨closure, member, captured⟩))
  · obtain rfl := eq_of_mem_flatMap closuresDistinct anotherMember member alsoCaptured captured
    exact isWord

section Variables

variable (fresh) (blocks : List Int) {original : VariableDeclaration}

/-- The block of a variable that needs one. -/
def number (scope : Scope) (blocks : List Int) (original : VariableDeclaration) : Nat :=
  blocks.length + blockNumber scope.method.declarations original

theorem prepared_placed (wellFormed : scope.WellFormed)
    (member : original ∈ scope.method.declarations) :
    Placed (scope.prepared fresh blocks) original (scope.number blocks original) :=
  foldl_prepare_placed fresh _ wellFormed.method.captures member

theorem prepared_blocks :
    (scope.prepared fresh blocks).blocks = blocks ++
      (List.range (scope.method.declarations.filter (·.requiresHeapAllocation)).length).map
        fun index => fresh (blocks.length + index) :=
  foldl_prepare_blocks _ _

theorem blockNumber_lt (member : original ∈ scope.method.declarations)
    (heap : original.requiresHeapAllocation = true) :
    blockNumber scope.method.declarations original <
      (scope.method.declarations.filter (·.requiresHeapAllocation)).length :=
  List.idxOf_lt_length_of_mem (List.mem_filter.mpr ⟨member, heap⟩)

theorem prepared_number (member : original ∈ scope.method.declarations)
    (heap : original.requiresHeapAllocation = true) :
    (scope.prepared fresh blocks).blocks[scope.number blocks original]? =
      some (fresh (scope.number blocks original)) := by
  rw [prepared_blocks, number, List.getElem?_append_right (Nat.le_add_right _ _),
    Nat.add_sub_cancel_left, List.getElem?_map, List.getElem?_range (blockNumber_lt member heap)]
  rfl

theorem find?_name {originals : List VariableDeclaration}
    (names : (originals.map (·.name)).Nodup) (member : original ∈ originals) :
    originals.find? (fun other => other.name = original.name) = some original := by
  induction originals with
  | nil => cases member
  | cons first originals ih =>
      obtain ⟨apart, distinct⟩ := List.nodup_cons.mp names
      rcases List.mem_cons.mp member with rfl | later
      · simp
      · have different : first.name ≠ original.name :=
          fun same => apart (List.mem_map.mpr ⟨original, later, same.symm⟩)
        rw [List.find?_cons_of_neg (by simpa using different), ih distinct later]

theorem prepare_stack (state : State) (original : VariableDeclaration) :
    (state.prepare fresh original).stack = if original.isParameter then state.stack
      else Function.update state.stack original.name original.initial := by
  simp only [State.prepare, State.attach, VariableDeclaration.allocate]
  cases original.isParameter <;> cases original.requiresHeapAllocation <;> rfl

theorem foldl_prepare_stack_other {originals : List VariableDeclaration} (state : State)
    {name : VariableId} (other : name ∉ originals.map (·.name)) :
    (originals.foldl (·.prepare fresh ·) state).stack name = state.stack name := by
  induction originals generalizing state with
  | nil => rfl
  | cons first originals ih =>
      rw [List.map_cons, List.mem_cons, not_or] at other
      rw [List.foldl_cons, ih _ other.2, prepare_stack]
      split
      · rfl
      · exact Function.update_of_ne other.1 _ _

theorem foldl_prepare_stack {originals : List VariableDeclaration} (state : State)
    (names : (originals.map (·.name)).Nodup) (member : original ∈ originals) :
    (originals.foldl (·.prepare fresh ·) state).stack original.name =
      if original.isParameter then state.stack original.name else original.initial := by
  induction originals generalizing state with
  | nil => cases member
  | cons first originals ih =>
      obtain ⟨apart, distinct⟩ := List.nodup_cons.mp names
      rw [List.foldl_cons]
      rcases List.mem_cons.mp member with rfl | later
      · rw [foldl_prepare_stack_other fresh _ apart, prepare_stack]
        split
        · rfl
        · exact Function.update_self _ _ _
      · have different : original.name ≠ first.name :=
          fun same => apart (List.mem_map.mpr ⟨original, later, same⟩)
        rw [ih _ distinct later, prepare_stack]
        split
        · split
          · rfl
          · exact Function.update_of_ne different _ _
        · rfl

theorem prepared_stack (wellFormed : scope.WellFormed)
    (member : original ∈ scope.method.declarations) :
    (scope.prepared fresh blocks).stack original.name = original.initial := by
  rw [prepared, foldl_prepare_stack fresh _ wellFormed.names member]
  cases isParameter : original.isParameter with
  | false => rfl
  | true =>
      have inValues : original ∈ scope.method.parameters := by
        rcases List.mem_append.mp member with inValues | inLocals
        · exact inValues
        · exact absurd (wellFormed.method.locals original inLocals) (by simp [isParameter])
      have names : (scope.method.parameters.map (·.name)).Nodup := by
        have all := wellFormed.names
        rw [Method.declarations, List.map_append] at all
        exact (List.nodup_append.mp all).1
      simp only [if_true, Method.start]
      rw [find?_name names inValues]
      rfl

end Variables

section Fields

variable (fresh) (blocks : List Int)

/-- The fields when the body begins. -/
def fields (outer : Capture → Part → Option Content) (closures : VariableId → Part → Int)
    (scope : Scope) (id : ActivationId) : Capture → Part → Option Content :=
  Preparation.fields
    { state := scope.prepared fresh blocks
      copied := scope.copied outer closures } id

theorem fields_own (wellFormed : scope.WellFormed) {original : VariableDeclaration}
    (member : original ∈ scope.method.declarations) {capture : Capture}
    (captured : capture ∈ original.captures) (id : ActivationId) :
    fields fresh blocks outer closures scope id capture .itself =
      some (.address ((original.home (scope.number blocks original)).cell id)) := by
  have placed := (prepared_placed fresh blocks wellFormed member capture captured).1
  simp [fields, Preparation.fields, placed]

theorem fields_other {capture : Capture}
    (notOwn : capture ∉ scope.method.declarations.flatMap (·.captures)) (id : ActivationId)
    (part : Part) :
    fields fresh blocks outer closures scope id capture part =
      scope.copied outer closures (capture, part) := by
  have unset : (scope.prepared fresh blocks).fields capture = none :=
    (foldl_prepare_other fresh _ notOwn).2
  cases part with
  | itself => simp [fields, Preparation.fields, unset]
  | reference => rfl
  | context => rfl

end Fields

end Scope

end NovaC.Closures
