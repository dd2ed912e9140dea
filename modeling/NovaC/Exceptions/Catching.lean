import NovaC.Exceptions.Delivery

namespace NovaC.Exceptions

/-! What becomes of a throw that has been delivered.

`throwException` looks at the classes that the try body has registered, the `CATCH` chain at
those of the catch blocks.
-/

mutual

/-- Every class that a construct registers has a catch block. -/
def Node.Matched : Node → Prop
  | .ifElse thenScope elseScope => ScopeMatched thenScope ∧ ScopeMatched elseScope
  | .loop scope => ScopeMatched scope
  | .tryCatch exceptions tryScope catches finallyScope =>
      (∀ type ∈ exceptions, type ∈ catches.map Prod.fst) ∧ ScopeMatched tryScope ∧
        CatchesMatched catches ∧ ScopeMatched finallyScope
  | _ => True

def ScopeMatched : List Node → Prop
  | [] => True
  | child :: rest => child.Matched ∧ ScopeMatched rest

def CatchesMatched : List (ClassId × List Node) → Prop
  | [] => True
  | (_, scope) :: rest => ScopeMatched scope ∧ CatchesMatched rest

end

structure Program.Matched (program : Program) : Prop where
  main : ScopeMatched program.main
  methods : ∀ method, ScopeMatched (program.methods method)

/-- What the writers make of a node, which is never a call of `addCaught`. -/
def Emitted (statement : CStmt) : Prop :=
  ∃ node : Node, node.Matched ∧ NodeWriter.generateSource node = statement

def Item.Emitted : Item → Prop
  | .stmt statement => Exceptions.Emitted statement
  | .loopEnd statements => ∀ statement ∈ statements, Exceptions.Emitted statement
  | .thrown _ _ => False
  | _ => True

/-- The classes of the `CATCH` chain behind the body of this context. -/
def ExceptionData.catchTypes (data : ExceptionData) : List ClassId := data.buf.handlers.map Prod.fst

structure ExceptionData.Matched (data : ExceptionData) : Prop where
  caught : ∀ type ∈ data.caught, type ∈ data.catchTypes
  after : ∀ item ∈ data.buf.after, item.Emitted
  handlers : ∀ handler ∈ data.buf.handlers, ∀ statement ∈ handler.2, Emitted statement

def AllMatched (contexts : List ExceptionData) : Prop :=
  ∀ (context : ContextId) (data : ExceptionData), contexts[context]? = some data → data.Matched

/-- Nothing is left to register but what the front of a try body still has to add to its own
context. -/
inductive Catching (program : Program) (state : State) : Prop where
  | running (types : List ClassId) (rest : List Item)
      (code : state.code = block (types.map .addCaught) ++ rest)
      (emitted : ∀ item ∈ rest, item.Emitted)
      (registers : ∀ type ∈ types, ∃ context data, state.exceptionData = some context ∧
        state.contexts[context]? = some data ∧ type ∈ data.catchTypes)
  | delivered (context : ContextId) (data : ExceptionData) (exception : ClassId)
      (code : state.code = .thrown context data.buf.handlers :: data.buf.after)
      (current : state.exceptionData = some context)
      (found : state.contexts[context]? = some data)
      (thrown : data.thrownException = some exception)
      (caught : data.caught.any (program.isOfType exception) = true)

structure CatchInv (program : Program) (state : State) : Prop where
  saved : AllMatched state.contexts
  catching : Catching program state

section Emitted

theorem emitted_scope {scope : List Node} (matched : ScopeMatched scope) :
    ∀ statement ∈ ScopeWriter.generateSource scope, Emitted statement := by
  induction scope with
  | nil => simp [ScopeWriter.generateSource]
  | cons child rest ih =>
      rw [ScopeMatched] at matched
      rw [ScopeWriter.generateSource, List.forall_mem_cons]
      exact ⟨⟨child, matched.1, rfl⟩, ih matched.2⟩

theorem emitted_catches {catches : List (ClassId × List Node)} (matched : CatchesMatched catches) :
    ∀ handler ∈ CatchWriter.generateSource catches, ∀ statement ∈ handler.2, Emitted statement := by
  induction catches with
  | nil => simp [CatchWriter.generateSource]
  | cons first rest ih =>
      obtain ⟨type, scope⟩ := first
      rw [CatchesMatched] at matched
      rw [CatchWriter.generateSource, List.forall_mem_cons]
      exact ⟨emitted_scope matched.1, ih matched.2⟩

theorem catchTypes_generateSource (catches : List (ClassId × List Node)) :
    (CatchWriter.generateSource catches).map Prod.fst = catches.map Prod.fst := by
  induction catches with
  | nil => rfl
  | cons first rest ih =>
      obtain ⟨type, scope⟩ := first
      rw [CatchWriter.generateSource, List.map_cons, List.map_cons, ih]

theorem emitted_block {statements : List CStmt} {rest : List Item}
    (emitted : ∀ statement ∈ statements, Emitted statement) (behind : ∀ item ∈ rest, item.Emitted) :
    ∀ item ∈ block statements ++ rest, item.Emitted := by
  intro item member
  rcases List.mem_append.mp member with inside | outside
  · obtain ⟨statement, inStatements, rfl⟩ := List.mem_map.mp inside
    exact emitted statement inStatements
  · exact behind item outside

theorem emitted_ifElse {thenBlock elseBlock : List CStmt}
    (emitted : Emitted (.ifElse thenBlock elseBlock)) (choice : Bool) :
    ∀ statement ∈ if choice then thenBlock else elseBlock, Emitted statement := by
  obtain ⟨node, matched, same⟩ := emitted
  cases node with
  | ifElse thenScope elseScope =>
      rw [NodeWriter.generateSource] at same
      rw [Node.Matched] at matched
      cases same
      cases choice
      · exact emitted_scope matched.2
      · exact emitted_scope matched.1
  | _ =>
      rw [NodeWriter.generateSource] at same
      cases same

theorem emitted_loop {statements : List CStmt} (emitted : Emitted (.loop statements)) :
    ∀ statement ∈ statements, Emitted statement := by
  obtain ⟨node, matched, same⟩ := emitted
  cases node with
  | loop scope =>
      rw [NodeWriter.generateSource] at same
      rw [Node.Matched] at matched
      cases same
      exact emitted_scope matched
  | _ =>
      rw [NodeWriter.generateSource] at same
      cases same

theorem emitted_try {statements : List CStmt} {handlers : List (ClassId × List CStmt)}
    {finallyBlock : List CStmt} (emitted : Emitted (.TRY statements handlers finallyBlock)) :
    ∃ (types : List ClassId) (body : List CStmt), statements = types.map .addCaught ++ body ∧
      (∀ type ∈ types, type ∈ handlers.map Prod.fst) ∧
      (∀ statement ∈ body, Emitted statement) ∧
      (∀ handler ∈ handlers, ∀ statement ∈ handler.2, Emitted statement) ∧
      ∀ statement ∈ finallyBlock, Emitted statement := by
  obtain ⟨node, matched, same⟩ := emitted
  cases node with
  | tryCatch exceptions tryScope catches finallyScope =>
      rw [NodeWriter.generateSource] at same
      rw [Node.Matched] at matched
      cases same
      obtain ⟨registered, inTry, inCatches, inFinally⟩ := matched
      refine ⟨exceptions, _, rfl, ?_, emitted_scope inTry, emitted_catches inCatches,
        emitted_scope inFinally⟩
      rwa [catchTypes_generateSource]
  | _ =>
      rw [NodeWriter.generateSource] at same
      cases same

theorem emitted_addCaught {type : ClassId} : ¬ Emitted (.addCaught type) := by
  rintro ⟨node, -, same⟩
  cases node <;> rw [NodeWriter.generateSource] at same <;> cases same

end Emitted

theorem emitted_dropWhile {keep : Item → Bool} {rest : List Item}
    (emitted : ∀ item ∈ rest, item.Emitted) : ∀ item ∈ rest.dropWhile keep, item.Emitted :=
  fun item member => emitted item ((List.dropWhile_suffix keep).subset member)

section Contexts

variable {contexts : List ExceptionData}

theorem matched_set {context : ContextId} {changed : ExceptionData}
    (saved : AllMatched contexts) (matched : changed.Matched) :
    AllMatched (contexts.set context changed) := by
  intro other data lookup
  by_cases same : context = other
  · subst same
    have inside := (List.getElem?_eq_some_iff.mp lookup).1
    rw [List.length_set] at inside
    rw [List.getElem?_set_self inside] at lookup
    cases lookup
    exact matched
  · rw [List.getElem?_set_ne same] at lookup
    exact saved other data lookup

theorem matched_append {added : ExceptionData}
    (saved : AllMatched contexts) (matched : added.Matched) :
    AllMatched (contexts ++ [added]) := by
  intro context data lookup
  rcases List.mem_append.mp (List.mem_of_getElem? lookup) with before | last
  · obtain ⟨other, found⟩ := List.mem_iff_getElem?.mp before
    exact saved other data found
  · rw [List.mem_singleton] at last
    exact last ▸ matched

end Contexts

section Run

variable {program : Program} {state after : State} {rest : List Item}

/-- The `CATCH` chain has a block for what the context has registered and been thrown. -/
theorem dispatch_catches {context : ContextId} {data : ExceptionData} {exception : ClassId}
    (matched : data.Matched) (current : state.exceptionData = some context)
    (found : state.contexts[context]? = some data)
    (thrown : data.thrownException = some exception)
    (caught : data.caught.any (program.isOfType exception) = true) :
    ∃ handler ∈ data.buf.handlers, program.isOfType exception handler.1 = true ∧
      dispatch program data.buf.handlers data.buf.after state = some { state with
        exceptionData := data.parent
        code := block handler.2 ++ data.buf.after } := by
  obtain ⟨type, registered, ofType⟩ := List.any_eq_true.mp caught
  obtain ⟨first, inChain, same⟩ := List.mem_map.mp (matched.caught type registered)
  have taken : (data.buf.handlers.find? fun handler =>
      data.thrownException.any fun exception => program.isOfType exception handler.1).isSome := by
    rw [List.find?_isSome, thrown]
    exact ⟨first, inChain, by rw [same]; exact ofType⟩
  obtain ⟨handler, chosen⟩ := Option.isSome_iff_exists.mp taken
  have fits := List.find?_some chosen
  rw [thrown] at fits
  refine ⟨handler, List.mem_of_find?_eq_some chosen, fits, ?_⟩
  simp only [dispatch, current, found, chosen, Option.map_some, Option.getD_some]

theorem CatchInv.enterTry {statements : List CStmt} {handlers : List (ClassId × List CStmt)}
    {finallyBlock : List CStmt} (saved : AllMatched state.contexts)
    (statement : Emitted (.TRY statements handlers finallyBlock))
    (emitted : ∀ item ∈ rest, item.Emitted) :
    CatchInv program (enterTry statements handlers finallyBlock rest state) := by
  obtain ⟨types, body, rfl, registered, inBody, inCatches, inFinally⟩ := emitted_try statement
  have behind : ∀ item ∈ Item.finallyStart state.contexts.length ::
      (block finallyBlock ++ .endTry state.contexts.length state.exceptionData :: rest),
      item.Emitted := by
    rw [List.forall_mem_cons]
    exact ⟨trivial, emitted_block inFinally (List.forall_mem_cons.mpr ⟨trivial, emitted⟩)⟩
  refine ⟨matched_append saved ⟨?_, behind, inCatches⟩, .running types
    (block body ++ .tryEnd state.contexts.length :: .finallyStart state.contexts.length ::
      (block finallyBlock ++ .endTry state.contexts.length state.exceptionData :: rest)) ?_
    (emitted_block inBody (List.forall_mem_cons.mpr ⟨trivial, behind⟩)) ?_⟩
  · simp
  · simp [Exceptions.enterTry, block]
  · intro type member
    exact ⟨_, _, rfl, List.getElem?_concat_length, registered type member⟩

theorem CatchInv.throwException {exception : ClassId}
    (saved : AllMatched state.contexts)
    (thrown : throwException program exception rest state = some after) : CatchInv program after := by
  obtain ⟨context, data, found, lookup, rfl⟩ := throwException_some thrown
  have matched := saved context data lookup
  rw [State.handler, nearestHandler_eq] at found
  have accepted := Links.nearest_accepts found
  rw [catches, lookup] at accepted
  exact ⟨matched_set saved ⟨matched.caught, matched.after, matched.handlers⟩,
    .delivered context { data with thrownException := some exception } exception rfl rfl
      (List.getElem?_set_self (List.getElem?_eq_some_iff.mp lookup).1) rfl accepted⟩

theorem CatchInv.addCaught {type : ClassId} {types : List ClassId}
    (saved : AllMatched state.contexts)
    (emitted : ∀ item ∈ rest, item.Emitted)
    (registers : ∀ other ∈ type :: types, ∃ context data, state.exceptionData = some context ∧
      state.contexts[context]? = some data ∧ other ∈ data.catchTypes)
    (added : addCaught type { state with code := block (types.map .addCaught) ++ rest } =
      some after) : CatchInv program after := by
  obtain ⟨context, data, current, lookup, rfl⟩ := addCaught_some added
  change state.exceptionData = some context at current
  change state.contexts[context]? = some data at lookup
  have own : ∀ other ∈ type :: types, other ∈ data.catchTypes := by
    intro other member
    obtain ⟨context', data', current', lookup', inside⟩ := registers other member
    cases current.symm.trans current'
    cases lookup.symm.trans lookup'
    exact inside
  have matched := saved context data lookup
  refine ⟨matched_set saved ⟨?_, matched.after, matched.handlers⟩, .running types rest rfl emitted ?_⟩
  · intro other member
    rcases List.mem_append.mp member with before | last
    · exact matched.caught other before
    · rw [List.mem_singleton.mp last]
      exact own type List.mem_cons_self
  · intro other member
    exact ⟨context, _, current, List.getElem?_set_self (List.getElem?_eq_some_iff.mp lookup).1,
      own other (List.mem_cons_of_mem _ member)⟩

theorem Catching.of_emitted (emitted : ∀ item ∈ state.code, item.Emitted) :
    Catching program state :=
  .running [] state.code rfl emitted fun _ member => absurd member List.not_mem_nil

theorem CatchInv.stepStmt {choice : Bool} {statement : CStmt} (matched : program.Matched)
    (saved : AllMatched state.contexts)
    (inner : Emitted statement) (emitted : ∀ item ∈ rest, item.Emitted)
    (stepped : stepStmt program choice state rest statement = some after) :
    CatchInv program after := by
  have jump : ∀ item ∈ toLoopEnd rest, item.Emitted := emitted_dropWhile emitted
  cases statement with
  | exec =>
      cases stepped
      exact ⟨saved, .of_emitted emitted⟩
  | THROW exception => exact .throwException saved stepped
  | call function =>
      cases stepped
      exact ⟨saved, .of_emitted (emitted_block (emitted_scope (matched.methods function))
        (List.forall_mem_cons.mpr ⟨trivial, emitted⟩))⟩
  | ret =>
      cases stepped
      exact ⟨saved, .of_emitted (emitted_dropWhile emitted)⟩
  | brk =>
      obtain ⟨statements, outer, found, rfl | rfl⟩ := jump_some (.inl rfl) stepped <;>
        rw [found] at jump
      · exact ⟨saved, .of_emitted (List.forall_mem_cons.mp jump).2⟩
      · exact ⟨saved, .of_emitted jump⟩
  | cont =>
      obtain ⟨statements, outer, found, rfl | rfl⟩ := jump_some (.inr rfl) stepped <;>
        rw [found] at jump
      · exact ⟨saved, .of_emitted (List.forall_mem_cons.mp jump).2⟩
      · exact ⟨saved, .of_emitted jump⟩
  | ifElse thenBlock elseBlock =>
      cases stepped
      exact ⟨saved, .of_emitted (emitted_block (emitted_ifElse inner choice) emitted)⟩
  | loop statements =>
      cases stepped
      exact ⟨saved, .of_emitted (List.forall_mem_cons.mpr ⟨emitted_loop inner, emitted⟩)⟩
  | addCaught type => exact absurd inner emitted_addCaught
  | TRY statements handlers finallyBlock =>
      cases stepped
      exact .enterTry saved inner emitted

theorem CatchInv.step (matched : program.Matched) (invariant : CatchInv program state)
    (stepped : Step program state after) : CatchInv program after := by
  obtain ⟨choice, stepped⟩ := stepped
  obtain ⟨saved, catching⟩ := invariant
  cases catching with
  | running types rest code emitted registers =>
      rw [Exceptions.step, code] at stepped
      cases types with
      | cons type types => exact .addCaught saved emitted registers stepped
      | nil =>
          cases rest with
          | nil => cases stepped
          | cons item rest =>
              obtain ⟨inner, others⟩ := List.forall_mem_cons.mp emitted
              cases item with
              | stmt statement => exact .stepStmt matched saved inner others stepped
              | thrown context handlers => exact inner.elim
              | loopEnd statements =>
                  cases stepped
                  cases choice
                  · exact ⟨saved, .of_emitted others⟩
                  · exact ⟨saved, .of_emitted (emitted_block inner emitted)⟩
              | _ =>
                  cases stepped
                  exact ⟨saved, .of_emitted others⟩
  | delivered context data exception code current found thrown caught =>
      have own := saved context data found
      obtain ⟨handler, member, -, ran⟩ := dispatch_catches own current found thrown caught
      rw [Exceptions.step, code] at stepped
      cases ran.symm.trans stepped
      exact ⟨saved, .of_emitted (emitted_block (own.handlers handler member) own.after)⟩

theorem CatchInv.initial (matched : program.Matched) : CatchInv program program.initial := by
  refine ⟨?_, .of_emitted (emitted_block (emitted_scope matched.main) ?_)⟩
  · intro context data found
    cases found
  · rw [List.forall_mem_singleton]
    trivial

theorem catching_run_from {states : List State} (matched : program.Matched)
    (invariant : CatchInv program state) (run : List.IsChain (Step program) (state :: states)) :
    ∀ visited ∈ state :: states, CatchInv program visited := by
  induction states generalizing state with
  | nil => simpa using invariant
  | cons next states ih =>
      obtain ⟨stepped, tail⟩ := List.isChain_cons_cons.mp run
      rw [List.forall_mem_cons]
      exact ⟨invariant, ih (invariant.step matched stepped) tail⟩

/-- A throw that has been delivered runs a catch block for a class of its exception: none is
swallowed by the `CATCH` chain, in whatever construct it arrives. -/
theorem thrown_caught (program : Program) (matched : program.Matched) (states : List State)
    (run : List.IsChain (Step program) (program.initial :: states)) (state : State)
    (reached : state ∈ program.initial :: states) (context : ContextId)
    (handlers : List (ClassId × List CStmt)) (rest : List Item)
    (code : state.code = .thrown context handlers :: rest) :
    ∃ data exception handler next, state.contexts[context]? = some data ∧
      data.thrownException = some exception ∧ handler ∈ handlers ∧
      program.isOfType exception handler.1 = true ∧ Step program state next ∧
      next.exceptionData = data.parent ∧ next.code = block handler.2 ++ rest := by
  obtain ⟨saved, catching⟩ := catching_run_from matched (.initial matched) run state reached
  cases catching with
  | running types others head emitted registers =>
      rw [code] at head
      cases types with
      | cons type types => cases head
      | nil =>
          have inner : (Item.thrown context handlers).Emitted := by
            apply emitted
            rw [← show .thrown context handlers :: rest = others from head]
            exact List.mem_cons_self
          exact inner.elim
  | delivered other data exception head current found thrown caught =>
      rw [code] at head
      cases head
      obtain ⟨handler, member, ofType, ran⟩ :=
        dispatch_catches (saved context data found) current found thrown caught
      have stepped : Step program state { state with
          exceptionData := data.parent
          code := block handler.2 ++ data.buf.after } := by
        refine ⟨true, ?_⟩
        rw [step, code]
        exact ran
      exact ⟨data, exception, handler, _, found, thrown, member, ofType, stepped, rfl, rfl⟩

end Run

/-- `try { throw 1 } catch (0) { } catch (1) { }`, where only the second class matches -/
def throwToSecondCatch : Program where
  isOfType thrown type := thrown == type
  methods _ := []
  main := [.tryCatch [0, 1] [.throw 1] [(0, []), (1, [.statement])] []]

theorem throwToSecondCatch_matched : throwToSecondCatch.Matched := by
  refine ⟨?_, fun _ => trivial⟩
  simp [throwToSecondCatch, ScopeMatched, CatchesMatched, Node.Matched]

theorem thrown_caught_second :
    ∃ state handlers rest, state.code = .thrown 0 handlers :: rest ∧
      ∃ data exception handler next, state.contexts[0]? = some data ∧
        data.thrownException = some exception ∧ handler ∈ handlers ∧
        throwToSecondCatch.isOfType exception handler.1 = true ∧
        Step throwToSecondCatch state next ∧
        next.exceptionData = data.parent ∧ next.code = block handler.2 ++ rest := by
  have run := visited_isChain throwToSecondCatch (.replicate 4 true) throwToSecondCatch.initial
  exact ⟨_, _, _, rfl, thrown_caught throwToSecondCatch throwToSecondCatch_matched _ run _
    (List.mem_of_getElem? (i := 4) rfl) 0 _ _ rfl⟩

end NovaC.Exceptions
