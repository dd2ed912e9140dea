import NovaC.Exceptions.Code

namespace NovaC.Exceptions

/-! The stack discipline of `exceptionData`.

`TRY` pushes a context and only the second return of `setjmp` pops one, so the
variable follows the open try bodies exactly as long as every body that is left
is left by a throw.
-/

/-- The next step leaves a try body other than by a throw: its end is reached,
or a jump passes it. -/
def leavesBody (code : List Item) : Bool := (passed code).any Item.isTryEnd

/-- What the handler stack promises about the next step of `state`: `exceptionData` is
again what it was on entry when a construct is over, and already when its body reaches
its end, before the finally block runs; a throw goes to a body that still runs. -/
structure Disciplined (program : Program) (state : State) : Prop where
  restored : ∀ context entered,
    .endTry context entered ∈ passed state.code ∨
      (.tryEnd context ∈ passed state.code ∧ .endTry context entered ∈ state.code) →
    state.exceptionData = entered
  delivered : ∀ exception rest context,
    state.code = .stmt (.THROW exception) :: rest →
    state.handler program exception = some context → .tryEnd context ∈ rest

/-- The innermost try body that has not been left yet. -/
def openContext : List Item → Option ContextId
  | [] => none
  | .tryEnd context :: _ => some context
  | _ :: rest => openContext rest

/-- The context of an open body links to the next open body outwards and
resumes behind its own end. -/
def Linked (contexts : List ExceptionData) : Item → List Item → Prop
  | .tryEnd context, rest =>
      (∃ data, contexts[context]? = some data ∧ data.parent = openContext rest ∧
        data.buf.after = rest) ∧
      .endTry context (openContext rest) ∈ rest
  | .endTry _ entered, rest => entered = openContext rest
  | .thrown _ _, _ => False
  | _, _ => True

def ParentsOlder (contexts : List ExceptionData) : Prop :=
  ∀ (context : ContextId) (data : ExceptionData), contexts[context]? = some data →
    ∀ parent, data.parent = some parent → parent < context

/-- Between the throw and the second return of `setjmp` the handling context is
current although its body has been left. -/
inductive Stack (state : State) : Prop where
  | running (current : state.exceptionData = openContext state.code)
      (linked : Along (Linked state.contexts) state.code)
  | delivered (context : ContextId) (handlers : List (ClassId × List CStmt)) (rest : List Item)
      (data : ExceptionData) (code : state.code = .thrown context handlers :: rest)
      (current : state.exceptionData = some context)
      (found : state.contexts[context]? = some data) (parent : data.parent = openContext rest)
      (linked : Along (Linked state.contexts) rest)

structure StackInv (state : State) : Prop where
  older : ParentsOlder state.contexts
  stack : Stack state

@[simp] theorem openContext_block (statements : List CStmt) (rest : List Item) :
    openContext (block statements ++ rest) = openContext rest := by
  induction statements with
  | nil => rfl
  | cons statement statements ih => exact ih

/-- Without a try body between them, two positions have the same open body. -/
theorem openContext_append {before rest : List Item} (noBody : before.any Item.isTryEnd = false) :
    openContext (before ++ rest) = openContext rest := by
  induction before with
  | nil => rfl
  | cons item before ih =>
      simp only [List.any_cons, Bool.or_eq_false_iff] at noBody
      cases item <;> first
        | exact ih noBody.2
        | exact absurd noBody.1 (by simp [Item.isTryEnd])

theorem openContext_dropWhile {rest : List Item} {keep : Item → Bool}
    (stays : (rest.takeWhile keep).any Item.isTryEnd = false) :
    openContext (rest.dropWhile keep) = openContext rest := by
  have same : openContext (rest.takeWhile keep ++ rest.dropWhile keep) = _ :=
    openContext_append stays
  rw [List.takeWhile_append_dropWhile] at same
  exact same.symm

theorem Linked.keeps {before after : List ExceptionData} (keeps : Keeps before after)
    (item : Item) (rest : List Item) (linked : Linked before item rest) :
    Linked after item rest := by
  cases item with
  | tryEnd context =>
      obtain ⟨⟨data, found, parent, resume⟩, closes⟩ := linked
      obtain ⟨other, foundAfter, sameParent, sameBuf⟩ := keeps context data found
      exact ⟨⟨other, foundAfter, sameParent.trans parent, by rw [sameBuf, resume]⟩, closes⟩
  | _ => exact linked

theorem Linked.block {contexts : List ExceptionData} (statements : List CStmt) {rest : List Item}
    (linked : Along (Linked contexts) rest) : Along (Linked contexts) (block statements ++ rest) :=
  Along.block statements linked fun _ _ => trivial

theorem ParentsOlder.set {contexts : List ExceptionData} (older : ParentsOlder contexts)
    {context : ContextId} {data changed : ExceptionData}
    (found : contexts[context]? = some data) (sameParent : changed.parent = data.parent) :
    ParentsOlder (contexts.set context changed) := by
  intro other old lookup parent linked
  by_cases same : context = other
  · subst same
    have inside := (List.getElem?_eq_some_iff.mp found).1
    rw [List.getElem?_set_self inside] at lookup
    cases lookup
    exact older context data found parent (sameParent ▸ linked)
  · rw [List.getElem?_set_ne same] at lookup
    exact older other old lookup parent linked

theorem ParentsOlder.append {contexts : List ExceptionData} (older : ParentsOlder contexts)
    {data : ExceptionData} (known : ∀ parent, data.parent = some parent → parent < contexts.length) :
    ParentsOlder (contexts ++ [data]) := by
  intro context found lookup parent linked
  rcases Nat.lt_or_ge context contexts.length with inside | outside
  · rw [List.getElem?_append_left inside] at lookup
    exact older context found lookup parent linked
  · rw [List.getElem?_append_right outside] at lookup
    have same : data = found := by
      cases position : context - contexts.length with
      | zero => simpa [position] using lookup
      | succ position => simp [position] at lookup
    subst found
    exact Nat.lt_of_lt_of_le (known parent linked) outside

/-- The walk of `throwException` visits the open bodies from the inside out. -/
theorem nearestHandler_open {program : Program} {contexts : List ExceptionData}
    {exception : ClassId} {fuel : Nat} {code : List Item} {context : ContextId}
    (linked : Along (Linked contexts) code)
    (found : nearestHandler program contexts exception fuel (openContext code) = some context) :
    ∃ before after data, code = before ++ .tryEnd context :: after ∧
      contexts[context]? = some data ∧ data.parent = openContext after ∧
      data.buf.after = after := by
  induction code generalizing fuel with
  | nil => cases fuel <;> simp [openContext, nearestHandler] at found
  | cons item rest ih =>
      cases item with
      | tryEnd here =>
          obtain ⟨⟨data, lookup, parent, resume⟩, _⟩ := linked.1
          cases fuel with
          | zero => simp [nearestHandler] at found
          | succ fuel =>
              simp only [openContext, nearestHandler, lookup] at found
              split at found
              · cases found
                exact ⟨[], rest, data, rfl, lookup, parent, resume⟩
              · rw [parent] at found
                obtain ⟨before, after, outer, split, facts⟩ := ih linked.2 found
                exact ⟨.tryEnd here :: before, after, outer, by rw [split]; rfl, facts⟩
      | thrown context handlers => exact linked.1.elim
      | _ =>
          obtain ⟨before, after, outer, split, facts⟩ := ih linked.2 found
          exact ⟨_ :: before, after, outer, by rw [split]; rfl, facts⟩

theorem openContext_lt {contexts : List ExceptionData} {code : List Item} {context : ContextId}
    (linked : Along (Linked contexts) code) (current : openContext code = some context) :
    context < contexts.length := by
  induction code with
  | nil => simp [openContext] at current
  | cons item rest ih =>
      cases item with
      | tryEnd here =>
          obtain ⟨⟨data, lookup, _⟩, _⟩ := linked.1
          cases current
          exact (List.getElem?_eq_some_iff.mp lookup).1
      | _ => exact ih linked.2 current

theorem StackInv.enterTry {state : State} {rest : List Item} (statements : List CStmt)
    (handlers : List (ClassId × List CStmt)) (finallyBlock : List CStmt)
    (older : ParentsOlder state.contexts) (current : state.exceptionData = openContext rest)
    (linked : Along (Linked state.contexts) rest) :
    StackInv (enterTry statements handlers finallyBlock rest state) := by
  have known : ∀ parent, state.exceptionData = some parent → parent < state.contexts.length :=
    fun parent same => openContext_lt linked (current.symm.trans same)
  refine ⟨older.append known, .running (by simp [Exceptions.enterTry, openContext]) ?_⟩
  apply Linked.block
  refine ⟨⟨⟨_, List.getElem?_concat_length, ?_, rfl⟩, ?_⟩, trivial, ?_⟩
  · simpa [openContext] using current
  · simp [openContext, current]
  · exact Linked.block _ ⟨current, linked.imp (Linked.keeps (keeps_append _ _))⟩

theorem StackInv.throwException {program : Program} {exception : ClassId} {rest : List Item}
    {state after : State} (older : ParentsOlder state.contexts)
    (current : state.exceptionData = openContext rest)
    (linked : Along (Linked state.contexts) rest)
    (thrown : throwException program exception rest state = some after) : StackInv after := by
  obtain ⟨context, data, found, lookup, rfl⟩ := throwException_some thrown
  rw [State.handler, current] at found
  obtain ⟨before, outer, same, split, lookupOpen, parent, resume⟩ :=
    nearestHandler_open linked found
  cases lookup.symm.trans lookupOpen
  rw [split] at linked
  have keeps := keeps_set { data with thrownException := some exception } lookup rfl rfl
  have inside := (List.getElem?_eq_some_iff.mp lookup).1
  exact ⟨older.set lookup rfl, .delivered context data.buf.handlers outer _ (by rw [resume]) rfl
    (List.getElem?_set_self inside) parent (linked.suffix.2.imp (Linked.keeps keeps))⟩

theorem StackInv.stepStmt {program : Program} {choice : Bool} {statement : CStmt}
    {rest : List Item} {state after : State} (older : ParentsOlder state.contexts)
    (current : state.exceptionData = openContext rest)
    (linked : Along (Linked state.contexts) rest)
    (stays : leavesBody (.stmt statement :: rest) = false)
    (stepped : stepStmt program choice state rest statement = some after) : StackInv after := by
  have jump : ∀ keep, jumped (.stmt statement :: rest) = rest.takeWhile keep →
      state.exceptionData = openContext (rest.dropWhile keep) ∧
        Along (Linked state.contexts) (rest.dropWhile keep) := by
    intro keep same
    have within : (rest.takeWhile keep).any Item.isTryEnd = false := by
      simpa [leavesBody, passed, same, Item.isTryEnd] using stays
    exact ⟨current.trans (openContext_dropWhile within).symm, linked.dropWhile⟩
  cases statement with
  | exec =>
      cases stepped
      exact ⟨older, .running current linked⟩
  | THROW exception => exact .throwException older current linked stepped
  | call function =>
      cases stepped
      exact ⟨older, .running (by simpa [openContext] using current)
        (Linked.block _ ⟨trivial, linked⟩)⟩
  | ret =>
      cases stepped
      obtain ⟨same, inner⟩ := jump _ rfl
      exact ⟨older, .running same inner⟩
  | brk =>
      obtain ⟨same, inner⟩ := jump _ rfl
      obtain ⟨statements, outer, found, rfl | rfl⟩ := jump_some (.inl rfl) stepped <;>
        rw [toLoopEnd] at found <;> rw [found] at same inner
      · exact ⟨older, .running same inner.2⟩
      · exact ⟨older, .running same inner⟩
  | cont =>
      obtain ⟨same, inner⟩ := jump _ rfl
      obtain ⟨statements, outer, found, rfl | rfl⟩ := jump_some (.inr rfl) stepped <;>
        rw [toLoopEnd] at found <;> rw [found] at same inner
      · exact ⟨older, .running same inner.2⟩
      · exact ⟨older, .running same inner⟩
  | ifElse thenBlock elseBlock =>
      cases stepped
      exact ⟨older, .running (by simpa using current) (Linked.block _ linked)⟩
  | loop statements =>
      cases stepped
      exact ⟨older, .running current ⟨trivial, linked⟩⟩
  | addCaught type =>
      obtain ⟨context, data, _, lookup, rfl⟩ := addCaught_some stepped
      have keeps := keeps_set { data with caught := data.caught ++ [type] } lookup rfl rfl
      exact ⟨older.set lookup rfl, .running current (linked.imp (Linked.keeps keeps))⟩
  | TRY statements handlers finallyBlock =>
      cases stepped
      exact .enterTry statements handlers finallyBlock older current linked

/-- A step that leaves no try body, except by a throw, keeps the handler stack. -/
theorem StackInv.step {program : Program} {state after : State} (invariant : StackInv state)
    (stays : leavesBody state.code = false) (stepped : Step program state after) :
    StackInv after := by
  obtain ⟨choice, stepped⟩ := stepped
  obtain ⟨older, stack⟩ := invariant
  cases stack with
  | running current linked =>
      unfold Exceptions.step at stepped
      split at stepped <;> rename_i code <;> rw [code] at current linked stays
      · cases stepped
      · rename_i statement rest
        have behind : state.exceptionData = openContext rest := current
        exact StackInv.stepStmt older behind linked.2 stays stepped
      · simp [leavesBody, passed, Item.isTryEnd] at stays
      · cases stepped
        exact ⟨older, .running current linked.2⟩
      · cases stepped
        exact ⟨older, .running current linked.2⟩
      · exact linked.1.elim
      · rename_i statements rest
        cases stepped
        cases choice
        · exact ⟨older, .running current linked.2⟩
        · exact ⟨older, .running (by simpa [openContext] using current) (Linked.block _ linked)⟩
      · cases stepped
        exact ⟨older, .running current linked.2⟩
  | delivered context handlers rest data code current found parent linked =>
      simp only [Exceptions.step, code] at stepped
      obtain ⟨same, other, statements, currentSame, lookup, rfl⟩ := dispatch_some stepped
      cases current.symm.trans currentSame
      cases found.symm.trans lookup
      exact ⟨older, .running (by simpa using parent) (Linked.block _ linked)⟩

theorem StackInv.initial (program : Program) : StackInv program.initial := by
  refine ⟨?_, .running ?_ ?_⟩
  · intro context data found
    simp [Program.initial] at found
  · simp [Program.initial, openContext]
  · exact Linked.block _ ⟨trivial, trivial⟩

theorem innermost_passed {contexts : List ExceptionData} {keep : Item → Bool} {code : List Item}
    (linked : Along (Linked contexts) code)
    (leaves : (code.takeWhile keep).any Item.isTryEnd = true) :
    ∃ context before after, code = before ++ .tryEnd context :: after ∧
      .tryEnd context ∈ code.takeWhile keep ∧ openContext code = some context := by
  induction code with
  | nil => simp at leaves
  | cons item rest ih =>
      have kept : keep item = true := by
        cases kept : keep item with
        | true => rfl
        | false => simp [kept] at leaves
      simp only [List.takeWhile_cons, kept, if_true, List.any_cons, Bool.or_eq_true] at leaves ⊢
      cases item with
      | tryEnd context => exact ⟨context, [], rest, rfl, by simp, rfl⟩
      | thrown context handlers => exact linked.1.elim
      | _ =>
          obtain ⟨context, before, after, split, inside, same⟩ :=
            ih linked.2 (leaves.resolve_left (by simp [Item.isTryEnd]))
          exact ⟨context, _ :: before, after, by rw [split]; rfl, by simp [inside], same⟩

theorem innermost_left {contexts : List ExceptionData} {code : List Item}
    (linked : Along (Linked contexts) code) (leaves : leavesBody code = true) :
    ∃ context before after, code = before ++ .tryEnd context :: after ∧
      .tryEnd context ∈ passed code ∧ openContext code = some context := by
  cases code with
  | nil => simp [leavesBody, passed, jumped] at leaves
  | cons item rest =>
      rcases jumped_cases item rest with none | ⟨statement, keep, rfl, behind⟩
      · cases item with
        | tryEnd context => exact ⟨context, [], rest, rfl, by simp [passed], rfl⟩
        | _ => simp [leavesBody, passed, none, Item.isTryEnd] at leaves
      · simp only [leavesBody, passed, behind, List.take_succ_cons, List.take_zero,
          List.cons_append, List.nil_append, List.any_cons, Bool.or_eq_true] at leaves
        obtain ⟨context, before, after, split, inside, same⟩ :=
          innermost_passed linked.2 (leaves.resolve_left (by simp [Item.isTryEnd]))
        exact ⟨context, .stmt statement :: before, after, by rw [split]; rfl,
          by simp [passed, behind, inside], same⟩

/-- A step that leaves a body in any other way leaves the innermost one, whose
own context is still the current one. -/
theorem StackInv.leaves {state : State} (invariant : StackInv state)
    (leaves : leavesBody state.code = true) :
    ∃ context entered, .tryEnd context ∈ passed state.code ∧
      .endTry context entered ∈ state.code ∧ state.exceptionData ≠ entered := by
  obtain ⟨older, stack⟩ := invariant
  cases stack with
  | running current linked =>
      obtain ⟨context, before, after, split, inside, same⟩ := innermost_left linked leaves
      rw [split] at linked
      obtain ⟨⟨⟨data, lookup, parent, _⟩, closes⟩, _⟩ := linked.suffix
      refine ⟨context, openContext after, inside, by rw [split]; simp [closes], ?_⟩
      rw [current, same]
      intro equal
      exact Nat.lt_irrefl _ (older context data lookup context (parent.trans equal.symm))
  | delivered context handlers rest data code current found parent linked =>
      simp [leavesBody, code, passed, jumped, Item.isTryEnd] at leaves

/-- Up to an `END_TRY` that is passed there is no open body, so the current
context is the one from which that construct was entered. -/
theorem openContext_restored {contexts : List ExceptionData} {keep : Item → Bool}
    {code : List Item} {context : ContextId} {entered : Option ContextId}
    (linked : Along (Linked contexts) code)
    (stays : (code.takeWhile keep).any Item.isTryEnd = false)
    (inside : .endTry context entered ∈ code.takeWhile keep) : openContext code = entered := by
  induction code with
  | nil => simp at inside
  | cons item rest ih =>
      by_cases kept : keep item = true
      · simp only [List.takeWhile_cons, kept, if_true, List.any_cons, Bool.or_eq_false_iff,
          List.mem_cons] at stays inside
        rcases inside with rfl | inside
        · exact linked.1.symm
        · have tail := ih linked.2 stays.2 inside
          cases item <;> first
            | exact tail
            | exact absurd stays.1 (by simp [Item.isTryEnd])
      · simp [kept] at inside

theorem openContext_passed {contexts : List ExceptionData} {code : List Item}
    {context : ContextId} {entered : Option ContextId} (linked : Along (Linked contexts) code)
    (stays : leavesBody code = false) (inside : .endTry context entered ∈ passed code) :
    openContext code = entered := by
  cases code with
  | nil => simp [passed, jumped] at inside
  | cons item rest =>
      rcases jumped_cases item rest with none | ⟨statement, keep, rfl, behind⟩
      · have same : item = .endTry context entered := by
          simpa [passed, none, eq_comm] using inside
        subst item
        exact linked.1.symm
      · have within : (rest.takeWhile keep).any Item.isTryEnd = false := by
          simpa [leavesBody, passed, behind, Item.isTryEnd] using stays
        have closes : .endTry context entered ∈ rest.takeWhile keep := by
          simpa [passed, behind] using inside
        have restored : openContext rest = entered := openContext_restored linked.2 within closes
        exact restored

theorem StackInv.disciplined {state : State} (program : Program) (invariant : StackInv state)
    (stays : leavesBody state.code = false) : Disciplined program state := by
  obtain ⟨older, stack⟩ := invariant
  cases stack with
  | running current linked =>
      constructor
      · rintro context entered (inside | ⟨inside, _⟩)
        · exact current.trans (openContext_passed linked stays inside)
        · have leaves : leavesBody state.code = true :=
            List.any_eq_true.mpr ⟨.tryEnd context, inside, rfl⟩
          rw [leaves] at stays
          cases stays
      · intro exception rest context code found
        rw [code] at current linked
        rw [State.handler, current] at found
        have linkedRest : Along _ rest := linked.2
        obtain ⟨before, after, data, split, _⟩ := nearestHandler_open linkedRest found
        simp [split]
  | delivered context handlers rest data code current found parent linked =>
      constructor
      · intro other entered inside
        simp [code, passed, jumped] at inside
      · intro exception other handler head
        simp [code] at head

/-- A step keeps the discipline exactly when it leaves no try body other than
by a throw. -/
theorem StackInv.disciplined_iff {state : State} (program : Program) (invariant : StackInv state) :
    Disciplined program state ↔ leavesBody state.code = false := by
  constructor
  · intro disciplined
    cases leaves : leavesBody state.code with
    | false => rfl
    | true =>
        obtain ⟨context, entered, body, closes, differs⟩ := invariant.leaves leaves
        exact absurd (disciplined.restored context entered (.inr ⟨body, closes⟩)) differs
  · exact invariant.disciplined program

theorem disciplined_run_from {program : Program} {state : State} {states : List State}
    (invariant : StackInv state) (run : List.IsChain (Step program) (state :: states)) :
    (∀ visited ∈ state :: states, Disciplined program visited) ↔
      ∀ visited ∈ state :: states, leavesBody visited.code = false := by
  induction states generalizing state with
  | nil => simpa using invariant.disciplined_iff program
  | cons next states ih =>
      obtain ⟨stepped, tail⟩ := List.isChain_cons_cons.mp run
      rw [List.forall_mem_cons, List.forall_mem_cons (l := next :: states),
        invariant.disciplined_iff program]
      constructor
      · rintro ⟨stays, rest⟩
        exact ⟨stays, (ih (invariant.step stays stepped) tail).mp rest⟩
      · rintro ⟨stays, rest⟩
        exact ⟨stays, (ih (invariant.step stays stepped) tail).mpr rest⟩

/-- Every step of a run keeps the handler stack discipline exactly when no step
of the run leaves a try body other than by a throw. -/
theorem handler_stack_discipline (program : Program) (states : List State)
    (run : List.IsChain (Step program) (program.initial :: states)) :
    (∀ visited ∈ program.initial :: states, Disciplined program visited) ↔
      ∀ visited ∈ program.initial :: states, leavesBody visited.code = false :=
  disciplined_run_from (.initial program) run

/-- `try { throw 0 } catch (0) { }` -/
def throwingBody : Program where
  isOfType thrown type := thrown == type
  methods _ := []
  main := [.tryCatch [0] [.throw 0] [(0, [.statement])] []]

theorem handler_stack_discipline_throwingBody :
    List.Forall (Disciplined throwingBody)
      (throwingBody.initial :: visited throwingBody (.replicate 8 true) throwingBody.initial) :=
  List.forall_iff_forall_mem.mpr
    ((handler_stack_discipline throwingBody _ (visited_isChain _ _ _)).mpr (by decide))

/-- `try { } catch (0) { }` followed by `throw 0` -/
def throwAfterTry : Program where
  isOfType thrown type := thrown == type
  methods _ := []
  main := [.tryCatch [0] [] [(0, [])] [], .throw 0]

/-- The body has ended normally, `END_TRY` has been passed, and the exception
that is thrown next is still delivered to the finished construct. -/
theorem finished_try_catches_throw :
    ¬ ∀ states, List.IsChain (Step throwAfterTry) (throwAfterTry.initial :: states) →
      ∀ state ∈ throwAfterTry.initial :: states, Disciplined throwAfterTry state := by
  intro disciplined
  have run := visited_isChain throwAfterTry (.replicate 5 true) throwAfterTry.initial
  have last := disciplined _ run _ (List.mem_of_getElem? (i := 5) rfl)
  have body := last.delivered 0 [.frameEnd 0] 0 rfl rfl
  simp at body

end NovaC.Exceptions
