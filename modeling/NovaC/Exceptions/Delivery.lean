import NovaC.Exceptions.Discipline
import NovaC.Links.Walk
import Mathlib.Data.List.TakeWhile

namespace NovaC.Exceptions

/-! Where throws go in any run, whether or not it leaves try bodies without a throw.

A context that is left behind stays on the parent links, but it does not hide the open ones:
they stay on the links as well, from the inside out.
-/

/-- The context whose body ends here. -/
def Item.opened : Item → Option ContextId
  | .tryEnd context => some context
  | _ => none

/-- The try bodies that control is in, from the inside out. -/
def openContexts (code : List Item) : List ContextId := code.filterMap Item.opened

def parentOf (contexts : List ExceptionData) (context : ContextId) : Option ContextId :=
  contexts[context]?.bind ExceptionData.parent

/-- The context has registered a class that the exception is of. -/
def catches (program : Program) (contexts : List ExceptionData) (exception : ClassId)
    (context : ContextId) : Bool :=
  contexts[context]?.any fun data => data.caught.any (program.isOfType exception)

/-- The throw ends the body of this construct, which control is in, and goes on in front of
its `CATCH` chain. -/
def DeliveredTo (program : Program) (state : State) (rest : List Item) (context : ContextId) : Prop :=
  ∃ body after data next, rest = body ++ .tryEnd context :: after ∧
    state.contexts[context]? = some data ∧ Step program state next ∧
    next.code = .thrown context data.buf.handlers :: after ∧ next.exceptionData = some context

/-- The end of a try body is where its context resumes, in the frame it has saved. -/
def Awaits (contexts : List ExceptionData) : Item → List Item → Prop
  | .tryEnd context, rest => ∃ data, contexts[context]? = some data ∧ data.buf.after = rest ∧
      data.buf.frame = currentFrame rest
  | .thrown _ _, _ => False
  | _, _ => True

/-- Control can be at `code` while this context is the current one. -/
structure Ready (contexts : List ExceptionData) (current : Option ContextId)
    (code : List Item) : Prop where
  known : ∀ context, current = some context → context < contexts.length
  chained : Links.Through (parentOf contexts) current (openContexts code)
  awaits : Along (Awaits contexts) code
  returns : code.getLast? = some (.frameEnd 0)

/-- Between a throw and the second return of `setjmp` the handling context is current. -/
inductive Control (state : State) : Prop where
  | running (ready : Ready state.contexts state.exceptionData state.code)
  | delivered (context : ContextId) (handlers : List (ClassId × List CStmt)) (data : ExceptionData)
      (code : state.code = .thrown context handlers :: data.buf.after)
      (current : state.exceptionData = some context)
      (found : state.contexts[context]? = some data)
  | finished (code : state.code = [])

/-- Every context can be jumped to, those of finished constructs included. -/
def Saved (contexts : List ExceptionData) : Prop :=
  ∀ (context : ContextId) (data : ExceptionData), contexts[context]? = some data →
    Ready contexts data.parent data.buf.after

structure ChainInv (state : State) : Prop where
  older : ParentsOlder state.contexts
  saved : Saved state.contexts
  control : Control state

section Links

variable {contexts after : List ExceptionData}

theorem parentOf_older (older : ParentsOlder contexts) : Links.Older (parentOf contexts) := by
  intro context above link
  obtain ⟨data, found, parent⟩ := Option.bind_eq_some_iff.mp link
  exact older context data found above parent

theorem parentOf_keeps (keeps : Keeps contexts after) {context : ContextId}
    (inside : context < contexts.length) : parentOf after context = parentOf contexts context := by
  have found := List.getElem?_eq_getElem inside
  obtain ⟨other, foundAfter, sameParent, -⟩ := keeps context _ found
  rw [parentOf, parentOf, found, foundAfter]
  exact sameParent

theorem nearestHandler_eq (program : Program) (contexts : List ExceptionData) (exception : ClassId)
    (fuel : Nat) (start : Option ContextId) :
    nearestHandler program contexts exception fuel start =
      Links.nearest (parentOf contexts) (catches program contexts exception) fuel start := by
  induction fuel generalizing start with
  | zero => rfl
  | succ fuel ih =>
      cases start with
      | none => rfl
      | some context =>
          rw [nearestHandler, Links.nearest, parentOf, catches]
          cases contexts[context]? with
          | none =>
              cases fuel <;> rfl
          | some data =>
              simp only [Option.any_some, Option.bind_some]
              split
              · rfl
              · exact ih data.parent

end Links

section Code

variable {contexts : List ExceptionData} {rest : List Item}

@[simp] theorem openContexts_block (statements : List CStmt) (rest : List Item) :
    openContexts (block statements ++ rest) = openContexts rest := by
  induction statements with
  | nil => rfl
  | cons statement statements ih => exact ih

@[simp] theorem currentFrame_block (statements : List CStmt) (rest : List Item) :
    currentFrame (block statements ++ rest) = currentFrame rest := by
  induction statements with
  | nil => rfl
  | cons statement statements ih => exact ih

theorem frameLive_currentFrame {code : List Item}
    (returns : code.getLast? = some (.frameEnd 0)) : frameLive (currentFrame code) code = true := by
  induction code with
  | nil => cases returns
  | cons item rest ih =>
      cases item with
      | frameEnd frame => simp [frameLive, currentFrame]
      | _ =>
          cases rest with
          | nil => cases returns
          | cons next rest =>
              rw [List.getLast?_cons_cons] at returns
              have live := ih returns
              rw [frameLive] at live ⊢
              rw [List.any_cons]
              exact Bool.or_eq_true_iff.mpr (.inr live)

theorem mem_openContexts {code : List Item} {context : ContextId}
    (member : context ∈ openContexts code) :
    ∃ before after, code = before ++ .tryEnd context :: after := by
  obtain ⟨item, inside, opens⟩ := List.mem_filterMap.mp member
  cases item with
  | tryEnd other =>
      cases opens
      exact List.append_of_mem inside
  | _ => cases opens

end Code

section Ready

variable {contexts : List ExceptionData} {current : Option ContextId} {rest : List Item}

theorem Ready.suffix {before : List Item} (ready : Ready contexts current (before ++ rest))
    (more : rest ≠ []) : Ready contexts current rest := by
  obtain ⟨known, chained, awaits, returns⟩ := ready
  rw [openContexts, List.filterMap_append] at chained
  rw [List.getLast?_append_of_ne_nil _ more] at returns
  exact ⟨known, chained.suffix, awaits.suffix, returns⟩

/-- Only the end of the first frame has nothing behind it. -/
theorem Ready.behind {item : Item} (ready : Ready contexts current (item :: rest))
    (inner : item ≠ .frameEnd 0) : Ready contexts current rest := by
  refine @Ready.suffix contexts current rest [item] ready fun none => ?_
  have last := ready.returns
  rw [none] at last
  exact inner (Option.some.inj last)

theorem Ready.dropWhile {keep : Item → Bool} (ready : Ready contexts current rest)
    (stops : keep (.frameEnd 0) = false) : Ready contexts current (rest.dropWhile keep) := by
  have split : Ready contexts current (rest.takeWhile keep ++ rest.dropWhile keep) := by
    rwa [List.takeWhile_append_dropWhile]
  refine split.suffix fun all => ?_
  have last := List.mem_of_getLast? ready.returns
  have kept := List.dropWhile_eq_nil_iff.mp all _ last
  rw [stops] at kept
  cases kept

theorem Ready.block (statements : List CStmt) (ready : Ready contexts current rest) :
    Ready contexts current (block statements ++ rest) := by
  have more : rest ≠ [] := by
    rintro rfl
    cases ready.returns
  refine ⟨ready.known, ?_, Along.block statements ready.awaits fun _ _ => trivial, ?_⟩
  · rw [openContexts_block]
    exact ready.chained
  · rw [List.getLast?_append_of_ne_nil _ more]
    exact ready.returns

/-- An item that neither opens a body nor delivers a throw. -/
theorem Ready.cons {item : Item} (ready : Ready contexts current rest)
    (closed : item.opened = none) (awaits : Awaits contexts item rest) :
    Ready contexts current (item :: rest) := by
  refine ⟨ready.known, ?_, ⟨awaits, ready.awaits⟩, ?_⟩
  · rw [openContexts, List.filterMap_cons, closed]
    exact ready.chained
  · rw [List.getLast?_cons, ready.returns]
    rfl

theorem Awaits.keeps {after : List ExceptionData} (keeps : Keeps contexts after) (item : Item)
    (rest : List Item) (awaits : Awaits contexts item rest) : Awaits after item rest := by
  cases item with
  | tryEnd context =>
      obtain ⟨data, found, resume, frame⟩ := awaits
      obtain ⟨other, foundAfter, -, sameBuf⟩ := keeps context data found
      exact ⟨other, foundAfter, by rw [sameBuf, resume], by rw [sameBuf, frame]⟩
  | _ => exact awaits

theorem Ready.keeps {after : List ExceptionData} (ready : Ready contexts current rest)
    (older : ParentsOlder contexts) (keeps : Keeps contexts after)
    (grows : contexts.length ≤ after.length) : Ready after current rest := by
  refine ⟨fun context same => Nat.lt_of_lt_of_le (ready.known context same) grows, ?_,
    ready.awaits.imp (Awaits.keeps keeps), ready.returns⟩
  exact ready.chained.congr (parentOf_older older) (fun _ inside => parentOf_keeps keeps inside)
    ready.known

end Ready

section Contexts

variable {contexts : List ExceptionData}

theorem Saved.set (saved : Saved contexts) (older : ParentsOlder contexts) {context : ContextId}
    {data changed : ExceptionData} (found : contexts[context]? = some data)
    (sameParent : changed.parent = data.parent) (sameBuf : changed.buf = data.buf) :
    Saved (contexts.set context changed) := by
  have keeps := keeps_set changed found sameParent sameBuf
  have grows : contexts.length ≤ (contexts.set context changed).length :=
    Nat.le_of_eq List.length_set.symm
  intro other old lookup
  by_cases same : context = other
  · subst same
    rw [List.getElem?_set_self (List.getElem?_eq_some_iff.mp found).1] at lookup
    cases lookup
    rw [sameParent, sameBuf]
    exact (saved context data found).keeps older keeps grows
  · rw [List.getElem?_set_ne same] at lookup
    exact (saved other old lookup).keeps older keeps grows

theorem Saved.append (saved : Saved contexts) (older : ParentsOlder contexts)
    {data : ExceptionData} (ready : Ready contexts data.parent data.buf.after) :
    Saved (contexts ++ [data]) := by
  have keeps := keeps_append contexts [data]
  have grows : contexts.length ≤ (contexts ++ [data]).length := by simp
  intro context found lookup
  rcases Nat.lt_or_ge context contexts.length with inside | outside
  · rw [List.getElem?_append_left inside] at lookup
    exact (saved context found lookup).keeps older keeps grows
  · rw [List.getElem?_append_right outside] at lookup
    obtain ⟨-, rfl⟩ := List.getElem?_eq_some_iff.mp lookup
    rw [List.getElem_singleton]
    exact ready.keeps older keeps grows

end Contexts

section Run

variable {program : Program} {state after : State} {rest : List Item}

theorem ChainInv.enterTry (statements : List CStmt) (handlers : List (ClassId × List CStmt))
    (finallyBlock : List CStmt) (older : ParentsOlder state.contexts)
    (saved : Saved state.contexts) (ready : Ready state.contexts state.exceptionData rest) :
    ChainInv (enterTry statements handlers finallyBlock rest state) := by
  have behind : Ready state.contexts state.exceptionData (.finallyStart state.contexts.length ::
      (block finallyBlock ++ .endTry state.contexts.length state.exceptionData :: rest)) :=
    .cons (.block _ (.cons ready rfl trivial)) rfl trivial
  refine ⟨older.append ready.known, saved.append older behind, .running (.block statements ?_)⟩
  have inside : state.contexts.length <
      (Exceptions.enterTry statements handlers finallyBlock rest state).contexts.length := by
    simp [Exceptions.enterTry]
  have link : parentOf (Exceptions.enterTry statements handlers finallyBlock rest state).contexts
      state.contexts.length = state.exceptionData := by
    simp [parentOf, Exceptions.enterTry]
  obtain ⟨-, chained, awaits, returns⟩ := behind.keeps older
    (keeps_append state.contexts _) (Nat.le_of_lt inside)
  refine ⟨?_, .visit _ (link.symm ▸ chained),
    ⟨⟨_, List.getElem?_concat_length, rfl, ?_⟩, awaits⟩, ?_⟩
  · intro context same
    cases same
    exact inside
  · simp [currentFrame]
  · rw [List.getLast?_cons, returns]
    rfl

theorem ChainInv.throwException {exception : ClassId} (older : ParentsOlder state.contexts)
    (saved : Saved state.contexts)
    (thrown : throwException program exception rest state = some after) : ChainInv after := by
  obtain ⟨context, data, -, lookup, rfl⟩ := throwException_some thrown
  have inside := (List.getElem?_eq_some_iff.mp lookup).1
  exact ⟨older.set lookup rfl, saved.set older lookup rfl rfl,
    .delivered context data.buf.handlers { data with thrownException := some exception } rfl rfl
      (List.getElem?_set_self inside)⟩

theorem ChainInv.stepStmt {choice : Bool} {statement : CStmt} (older : ParentsOlder state.contexts)
    (saved : Saved state.contexts) (ready : Ready state.contexts state.exceptionData rest)
    (stepped : stepStmt program choice state rest statement = some after) : ChainInv after := by
  have jump : Ready state.contexts state.exceptionData (toLoopEnd rest) := ready.dropWhile rfl
  cases statement with
  | exec =>
      cases stepped
      exact ⟨older, saved, .running ready⟩
  | THROW exception => exact .throwException older saved stepped
  | call function =>
      cases stepped
      exact ⟨older, saved, .running (.block _ (.cons ready rfl trivial))⟩
  | ret =>
      cases stepped
      exact ⟨older, saved, .running (ready.dropWhile rfl)⟩
  | brk =>
      obtain ⟨statements, outer, found, rfl | rfl⟩ := jump_some (.inl rfl) stepped <;>
        rw [found] at jump
      · exact ⟨older, saved, .running (jump.behind (by simp))⟩
      · exact ⟨older, saved, .running jump⟩
  | cont =>
      obtain ⟨statements, outer, found, rfl | rfl⟩ := jump_some (.inr rfl) stepped <;>
        rw [found] at jump
      · exact ⟨older, saved, .running (jump.behind (by simp))⟩
      · exact ⟨older, saved, .running jump⟩
  | ifElse thenBlock elseBlock =>
      cases stepped
      exact ⟨older, saved, .running (.block _ ready)⟩
  | loop statements =>
      cases stepped
      exact ⟨older, saved, .running (.cons ready rfl trivial)⟩
  | addCaught type =>
      obtain ⟨context, data, -, lookup, rfl⟩ := addCaught_some stepped
      have keeps := keeps_set { data with caught := data.caught ++ [type] } lookup rfl rfl
      exact ⟨older.set lookup rfl, saved.set older lookup rfl rfl,
        .running (ready.keeps older keeps (Nat.le_of_eq List.length_set.symm))⟩
  | TRY statements handlers finallyBlock =>
      cases stepped
      exact .enterTry statements handlers finallyBlock older saved ready

/-- Every step keeps the open contexts on the links, also one that leaves a body. -/
theorem ChainInv.step (invariant : ChainInv state) (stepped : Step program state after) :
    ChainInv after := by
  obtain ⟨choice, stepped⟩ := stepped
  obtain ⟨older, saved, control⟩ := invariant
  cases control with
  | running ready =>
      unfold Exceptions.step at stepped
      split at stepped <;> rename_i code <;> rw [code] at ready
      · cases stepped
      · exact .stepStmt older saved (ready.behind (by simp)) stepped
      · cases stepped
        exact ⟨older, saved, .running (ready.behind (by simp))⟩
      · cases stepped
        exact ⟨older, saved, .running (ready.behind (by simp))⟩
      · cases stepped
        exact ⟨older, saved, .running (ready.behind (by simp))⟩
      · exact ready.awaits.1.elim
      · cases stepped
        cases choice
        · exact ⟨older, saved, .running (ready.behind (by simp))⟩
        · exact ⟨older, saved, .running (.block _ ready)⟩
      · rename_i frame rest
        cases stepped
        by_cases more : rest = []
        · exact ⟨older, saved, .finished more⟩
        · exact ⟨older, saved, .running (@Ready.suffix _ _ rest [.frameEnd frame] ready more)⟩
  | delivered context handlers data code current found =>
      simp only [Exceptions.step, code] at stepped
      obtain ⟨other, same, statements, currentSame, lookup, rfl⟩ := dispatch_some stepped
      cases current.symm.trans currentSame
      cases found.symm.trans lookup
      exact ⟨older, saved, .running (.block _ (saved context data found))⟩
  | finished code =>
      rw [Exceptions.step, code] at stepped
      cases stepped

theorem ChainInv.initial (program : Program) : ChainInv program.initial := by
  refine ⟨?_, ?_, .running (.block _ ⟨?_, .nil none, ⟨trivial, trivial⟩, rfl⟩)⟩
  · intro context data found
    cases found
  · intro context data found
    cases found
  · intro context same
    cases same

theorem chain_run_from {states : List State} (invariant : ChainInv state)
    (run : List.IsChain (Step program) (state :: states)) :
    ∀ visited ∈ state :: states, ChainInv visited := by
  induction states generalizing state with
  | nil => simpa using invariant
  | cons next states ih =>
      obtain ⟨stepped, tail⟩ := List.isChain_cons_cons.mp run
      rw [List.forall_mem_cons]
      exact ⟨invariant, ih (invariant.step stepped) tail⟩

/-- A throw to an open body is no jump into a function that has returned. -/
theorem deliveredTo_open {exception : ClassId} {context : ContextId}
    (code : state.code = .stmt (.THROW exception) :: rest)
    (ready : Ready state.contexts state.exceptionData rest)
    (found : state.handler program exception = some context) (opened : context ∈ openContexts rest) :
    DeliveredTo program state rest context := by
  obtain ⟨body, after, split⟩ := mem_openContexts opened
  have awaits := ready.awaits
  rw [split] at awaits
  obtain ⟨data, lookup, resume, frame⟩ := awaits.suffix.1
  have returns : after.getLast? = some (.frameEnd 0) := by
    have inner : Ready state.contexts state.exceptionData (.tryEnd context :: after) :=
      @Ready.suffix _ _ _ body (split ▸ ready) (List.cons_ne_nil _ _)
    exact (inner.behind (by simp)).returns
  have live : frameLive data.buf.frame rest = true := by
    have inside := frameLive_currentFrame returns
    rw [frameLive, List.any_eq_true] at inside ⊢
    obtain ⟨item, member, ends⟩ := inside
    rw [frame, split]
    exact ⟨item, by simp [member], ends⟩
  have stepped : Step program state { state with
      exceptionData := some context
      contexts := state.contexts.set context { data with thrownException := some exception }
      code := .thrown context data.buf.handlers :: after } := by
    refine ⟨true, ?_⟩
    rw [step, code]
    simp only [stepStmt, throwException, found, lookup, live, if_true, resume]
  exact ⟨body, after, data, _, split, lookup, stepped, rfl, rfl⟩

/-- Where an open body has registered a class of the exception, the throw is handled.  It is
delivered to the innermost such body, unless a construct that was entered later and has been
left since catches the exception as well. -/
theorem throw_delivered (program : Program) (states : List State)
    (run : List.IsChain (Step program) (program.initial :: states)) (state : State)
    (reached : state ∈ program.initial :: states) (exception : ClassId) (rest : List Item)
    (code : state.code = .stmt (.THROW exception) :: rest) (wanted : ContextId)
    (innermost : (openContexts rest).find? (catches program state.contexts exception) = some wanted) :
    ∃ handler, state.handler program exception = some handler ∧
      catches program state.contexts exception handler = true ∧
      (handler = wanted ∧ DeliveredTo program state rest wanted ∨
        handler ∉ openContexts rest ∧ wanted < handler) := by
  obtain ⟨older, saved, control⟩ := chain_run_from (.initial program) run state reached
  cases control with
  | running ready =>
      rw [code] at ready
      have behind := ready.behind (by simp)
      obtain ⟨handler, found, accepted, which⟩ := behind.chained.nearest (parentOf_older older)
        behind.known innermost
      rw [← nearestHandler_eq] at found
      refine ⟨handler, found, accepted, which.imp_left ?_⟩
      rintro rfl
      have opened := List.mem_of_find?_eq_some innermost
      exact ⟨rfl, deliveredTo_open code behind found opened⟩
  | delivered context handlers data head =>
      rw [code] at head
      cases head
  | finished head =>
      rw [code] at head
      cases head

end Run

/-- `try { try { } catch (1) { }; throw 0 } catch (0) { }` -/
def throwAfterInnerTry : Program where
  isOfType thrown type := thrown == type
  methods _ := []
  main := [.tryCatch [0] [.tryCatch [1] [] [(1, [])] [], .throw 0] [(0, [])] []]

/-- The inner construct is still on the links, and the throw goes to the outer body. -/
theorem throw_delivered_throwAfterInnerTry :
    ∃ state rest, state.code = .stmt (.THROW 0) :: rest ∧ state.exceptionData = some 1 ∧
      ∃ handler, state.handler throwAfterInnerTry 0 = some handler ∧
        catches throwAfterInnerTry state.contexts 0 handler = true ∧
        (handler = 0 ∧ DeliveredTo throwAfterInnerTry state rest 0 ∨
          handler ∉ openContexts rest ∧ 0 < handler) := by
  have run := visited_isChain throwAfterInnerTry (.replicate 7 true) throwAfterInnerTry.initial
  refine ⟨_, _, ?_, ?_, throw_delivered throwAfterInnerTry _ run _
    (List.mem_of_getElem? (i := 7) rfl) 0 _ rfl 0 rfl⟩
  · rfl
  · rfl

end NovaC.Exceptions
