import NovaC.Exceptions.Code

namespace NovaC.Exceptions

/-! When the finally blocks run.

`FINALLY` is an empty macro, so a finally block runs only when control falls
through to it.  Whatever jumps over it, a throw included, skips it for good.
-/

/-- The constructs whose finally block lies ahead, from the inside out. -/
@[simp] def pendingFinally : List Item → List ContextId
  | [] => []
  | .finallyStart context :: rest => context :: pendingFinally rest
  | _ :: rest => pendingFinally rest

/-- The finally block of an entered construct has not been started while
control is in the body or in a catch block, and exactly once afterwards. -/
def FinallyOnce (state : State) : Prop :=
  ∀ context < state.contexts.length,
    state.finallyRuns.count context = if context ∈ pendingFinally state.code then 0 else 1

/-- The nearest end of a try body or start of a finally block. -/
def innermostConstruct (rest : List Item) : Option Item :=
  rest.find? fun item => item.isTryEnd || item.isFinallyStart

/-- The throw is delivered to the innermost construct in progress, and it is
the body of that construct that is running. -/
def deliveredInside (context : ContextId) (rest : List Item) : Bool :=
  match innermostConstruct rest with
  | some (.tryEnd innermost) => innermost == context
  | _ => false

/-- The next step takes control past a finally block, or back in front of one:
a return, `break` or `continue` out of a construct, or a throw that is not
delivered to the construct whose body is running. Every construct has a finally
block, since only `FinallyWriter` ends one; the block may be empty. -/
def skipsFinally (program : Program) (state : State) : Bool :=
  match state.code with
  | .stmt (.THROW exception) :: rest =>
      match state.handler program exception with
      | some context => !deliveredInside context rest
      | none => false
  | code => (jumped code).any Item.isFinallyStart

/-- A context resumes behind the end of its body. -/
def Resumes (contexts : List ExceptionData) : Item → List Item → Prop
  | .tryEnd context, rest => ∃ data, contexts[context]? = some data ∧ data.buf.after = rest
  | _, _ => True

/-- Every construct entered so far is accounted for once, as a finally block
that has run or as one that lies ahead. -/
structure FinallyInv (state : State) : Prop where
  accounted : (state.finallyRuns ++ pendingFinally state.code).Perm
    (List.range state.contexts.length)
  resumes : Along (Resumes state.contexts) state.code

theorem pendingFinally_append (before rest : List Item) :
    pendingFinally (before ++ rest) = pendingFinally before ++ pendingFinally rest := by
  induction before with
  | nil => rfl
  | cons item before ih => cases item <;> simp [ih]

@[simp] theorem pendingFinally_block (statements : List CStmt) (rest : List Item) :
    pendingFinally (block statements ++ rest) = pendingFinally rest := by
  induction statements with
  | nil => rfl
  | cons statement statements ih => exact ih

theorem pendingFinally_eq_nil {items : List Item} (none : items.any Item.isFinallyStart = false) :
    pendingFinally items = [] := by
  induction items with
  | nil => rfl
  | cons item rest ih =>
      simp only [List.any_cons, Bool.or_eq_false_iff] at none
      cases item <;> first
        | exact ih none.2
        | exact absurd none.1 (by simp [Item.isFinallyStart])

theorem pendingFinally_dropWhile {rest : List Item} {keep : Item → Bool}
    (stays : (rest.takeWhile keep).any Item.isFinallyStart = false) :
    pendingFinally (rest.dropWhile keep) = pendingFinally rest := by
  calc
    _ = pendingFinally (rest.takeWhile keep) ++ pendingFinally (rest.dropWhile keep) := by
      rw [pendingFinally_eq_nil stays, List.nil_append]
    _ = pendingFinally rest := by
      rw [← pendingFinally_append, List.takeWhile_append_dropWhile]

theorem Resumes.keeps {before after : List ExceptionData} (keeps : Keeps before after)
    (item : Item) (rest : List Item) (resumes : Resumes before item rest) :
    Resumes after item rest := by
  cases item with
  | tryEnd context =>
      obtain ⟨data, found, resume⟩ := resumes
      obtain ⟨other, foundAfter, _, sameBuf⟩ := keeps context data found
      exact ⟨other, foundAfter, by rw [sameBuf, resume]⟩
  | _ => exact resumes

theorem Resumes.block {contexts : List ExceptionData} (statements : List CStmt) {rest : List Item}
    (resumes : Along (Resumes contexts) rest) : Along (Resumes contexts) (block statements ++ rest) :=
  Along.block statements resumes fun _ _ => trivial

theorem deliveredInside_split {context : ContextId} {rest : List Item}
    (inside : deliveredInside context rest = true) :
    ∃ before after, rest = before ++ .tryEnd context :: after ∧ pendingFinally before = [] := by
  unfold deliveredInside at inside
  split at inside
  · rename_i innermost found
    rw [beq_iff_eq] at inside
    subst innermost
    obtain ⟨_, before, after, split, none⟩ := List.find?_eq_some_iff_append.mp found
    refine ⟨before, after, split, pendingFinally_eq_nil ?_⟩
    rw [List.any_eq_false]
    intro item member
    have outside := none item member
    simp only [Bool.not_eq_eq_eq_not, Bool.not_true, Bool.or_eq_false_iff] at outside
    simp [outside.2]
  · cases inside

theorem FinallyInv.throwException {program : Program} {exception : ClassId} {rest : List Item}
    {state after : State} (invariant : FinallyInv { state with code := rest })
    (inside : ∀ context, state.handler program exception = some context →
      deliveredInside context rest = true)
    (thrown : throwException program exception rest state = some after) : FinallyInv after := by
  obtain ⟨context, data, found, lookup, rfl⟩ := throwException_some thrown
  obtain ⟨before, outer, split, none⟩ := deliveredInside_split (inside context found)
  obtain ⟨accounted, resumes⟩ := invariant
  simp only [split] at accounted resumes
  obtain ⟨⟨same, lookupOpen, resume⟩, outerResumes⟩ := resumes.suffix
  cases lookup.symm.trans lookupOpen
  have keeps := keeps_set { data with thrownException := some exception } lookup rfl rfl
  constructor
  · rw [pendingFinally_append, none] at accounted
    simpa [resume] using accounted
  · exact ⟨trivial, resume ▸ outerResumes.imp (Resumes.keeps keeps)⟩

theorem FinallyInv.enterTry {state : State} {rest : List Item} (statements : List CStmt)
    (handlers : List (ClassId × List CStmt)) (finallyBlock : List CStmt)
    (invariant : FinallyInv { state with code := rest }) :
    FinallyInv (enterTry statements handlers finallyBlock rest state) := by
  obtain ⟨accounted, resumes⟩ := invariant
  constructor
  · have pending : pendingFinally (Exceptions.enterTry statements handlers finallyBlock rest state).code =
        state.contexts.length :: pendingFinally rest := by simp [Exceptions.enterTry]
    rw [pending]
    simp only [Exceptions.enterTry, List.length_append, List.length_singleton, List.range_succ]
    exact List.perm_middle.trans ((accounted.cons _).trans (List.perm_append_singleton _ _).symm)
  · apply Resumes.block
    refine ⟨⟨_, List.getElem?_concat_length, rfl⟩, trivial, ?_⟩
    exact Resumes.block _ ⟨trivial, resumes.imp (Resumes.keeps (keeps_append _ _))⟩

theorem FinallyInv.stepStmt {program : Program} {choice : Bool} {statement : CStmt}
    {rest : List Item} {state after : State} (invariant : FinallyInv { state with code := rest })
    (stays : skipsFinally program { state with code := .stmt statement :: rest } = false)
    (stepped : stepStmt program choice state rest statement = some after) : FinallyInv after := by
  have jump : ∀ keep, jumped (.stmt statement :: rest) = rest.takeWhile keep →
      (∀ exception, statement ≠ .THROW exception) →
      FinallyInv { state with code := rest.dropWhile keep } := by
    intro keep same noThrow
    have within : (rest.takeWhile keep).any Item.isFinallyStart = false := by
      cases statement <;> first
        | exact absurd rfl (noThrow _)
        | simpa only [skipsFinally, same] using stays
    refine ⟨?_, invariant.resumes.dropWhile⟩
    simpa only [pendingFinally_dropWhile within] using invariant.accounted
  obtain ⟨accounted, resumes⟩ := invariant
  cases statement with
  | exec =>
      cases stepped
      exact ⟨accounted, resumes⟩
  | THROW exception =>
      refine .throwException ⟨accounted, resumes⟩ ?_ stepped
      intro context found
      change state.handler program exception = some context at found
      have handled : (State.handler program { state with code := .stmt (.THROW exception) :: rest }
        exception) = some context := found
      simpa [skipsFinally, handled] using stays
  | call function =>
      cases stepped
      exact ⟨by simpa using accounted, Resumes.block _ ⟨trivial, resumes⟩⟩
  | ret =>
      cases stepped
      exact jump _ rfl (by simp)
  | brk =>
      have inner := jump _ rfl (by simp)
      obtain ⟨statements, outer, found, rfl | rfl⟩ := jump_some (.inl rfl) stepped <;>
        rw [toLoopEnd] at found <;> rw [found] at inner
      · exact ⟨inner.accounted, inner.resumes.2⟩
      · exact inner
  | cont =>
      have inner := jump _ rfl (by simp)
      obtain ⟨statements, outer, found, rfl | rfl⟩ := jump_some (.inr rfl) stepped <;>
        rw [toLoopEnd] at found <;> rw [found] at inner
      · exact ⟨inner.accounted, inner.resumes.2⟩
      · exact inner
  | ifElse thenBlock elseBlock =>
      cases stepped
      exact ⟨by simpa using accounted, Resumes.block _ resumes⟩
  | loop statements =>
      cases stepped
      exact ⟨accounted, trivial, resumes⟩
  | addCaught type =>
      obtain ⟨context, data, _, lookup, rfl⟩ := addCaught_some stepped
      have keeps := keeps_set { data with caught := data.caught ++ [type] } lookup rfl rfl
      exact ⟨by simpa using accounted, resumes.imp (Resumes.keeps keeps)⟩
  | TRY statements handlers finallyBlock =>
      cases stepped
      exact .enterTry statements handlers finallyBlock ⟨accounted, resumes⟩

/-- A step that does not jump over a finally block keeps every construct
accounted for. -/
theorem FinallyInv.step {program : Program} {state after : State} (invariant : FinallyInv state)
    (stays : skipsFinally program state = false) (stepped : Step program state after) :
    FinallyInv after := by
  obtain ⟨choice, stepped⟩ := stepped
  obtain ⟨exceptionData, contexts, frames, finallyRuns, code⟩ := state
  obtain ⟨accounted, resumes⟩ := invariant
  cases code with
  | nil => cases stepped
  | cons item rest =>
      cases item with
      | stmt statement => exact .stepStmt ⟨accounted, resumes.2⟩ stays stepped
      | finallyStart context =>
          cases stepped
          exact ⟨by simpa using accounted, resumes.2⟩
      | thrown context handlers =>
          obtain ⟨same, data, statements, _, _, rfl⟩ := dispatch_some stepped
          exact ⟨by simpa using accounted, Resumes.block _ resumes.2⟩
      | loopEnd statements =>
          cases stepped
          cases choice
          · exact ⟨accounted, resumes.2⟩
          · exact ⟨by simpa using accounted, Resumes.block _ resumes⟩
      | tryEnd context =>
          cases stepped
          exact ⟨accounted, resumes.2⟩
      | endTry context entered =>
          cases stepped
          exact ⟨accounted, resumes.2⟩
      | frameEnd frame =>
          cases stepped
          exact ⟨accounted, resumes.2⟩

theorem FinallyInv.initial (program : Program) : FinallyInv program.initial := by
  constructor
  · simp [Program.initial]
  · exact Resumes.block _ ⟨trivial, trivial⟩

theorem FinallyInv.once {state : State} (invariant : FinallyInv state) : FinallyOnce state := by
  intro context entered
  have total : state.finallyRuns.count context + (pendingFinally state.code).count context = 1 := by
    rw [← List.count_append, invariant.accounted.count_eq, List.count_range, if_pos entered]
  split
  · rename_i pending
    have positive := List.count_pos_iff.mpr pending
    omega
  · rename_i absent
    have zero := List.count_eq_zero.mpr absent
    omega

theorem finallyOnce_run_from {program : Program} {state : State} {states : List State}
    (invariant : FinallyInv state) (run : List.IsChain (Step program) (state :: states))
    (inside : List.IsChain (fun before _ => skipsFinally program before = false) (state :: states)) :
    ∀ visited ∈ state :: states, FinallyOnce visited := by
  induction states generalizing state with
  | nil => simpa using invariant.once
  | cons next states ih =>
      obtain ⟨stepped, tail⟩ := List.isChain_cons_cons.mp run
      obtain ⟨stays, tailInside⟩ := List.isChain_cons_cons.mp inside
      rw [List.forall_mem_cons]
      exact ⟨invariant.once, ih (invariant.step stays stepped) tail tailInside⟩

/-- In a run whose steps never take control past a finally block, every finally
block is started exactly once before control is outside its construct. -/
theorem finally_runs_once (program : Program) (states : List State)
    (run : List.IsChain (Step program) (program.initial :: states))
    (inside : List.IsChain (fun before _ => skipsFinally program before = false)
      (program.initial :: states)) :
    ∀ visited ∈ program.initial :: states, FinallyOnce visited :=
  finallyOnce_run_from (.initial program) run inside

/-- `try { throw 0 } catch (0) { } finally { }`, followed by a statement -/
def caughtThrow : Program where
  isOfType thrown type := thrown == type
  methods _ := []
  main := [.tryCatch [0] [.throw 0] [(0, [.statement])] [.statement], .statement]

theorem finally_runs_once_caughtThrow :
    List.Forall FinallyOnce
      (caughtThrow.initial :: visited caughtThrow (.replicate 10 true) caughtThrow.initial) :=
  List.forall_iff_forall_mem.mpr
    (finally_runs_once caughtThrow _ (visited_isChain _ _ _) (by decide))

/-- `try { return } finally { }` -/
def returnFromTry : Program where
  isOfType thrown type := thrown == type
  methods _ := []
  main := [.tryCatch [] [.ret] [] [.statement]]

/-- The return leaves the construct without running its finally block. -/
theorem return_skips_finally :
    ¬ ∀ states, List.IsChain (Step returnFromTry) (returnFromTry.initial :: states) →
      ∀ state ∈ returnFromTry.initial :: states, FinallyOnce state := by
  intro once
  have run := visited_isChain returnFromTry (.replicate 2 true) returnFromTry.initial
  have last := once _ run _ (List.mem_of_getElem? (i := 2) rfl)
  have count := last 0 (by decide)
  exact absurd count (by decide)

end NovaC.Exceptions
