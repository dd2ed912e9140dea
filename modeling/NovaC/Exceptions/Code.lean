import NovaC.Exceptions.Machine

namespace NovaC.Exceptions

/-- What a return, `break` or `continue` jumps over. -/
def jumped : List Item → List Item
  | .stmt .ret :: rest => rest.takeWhile fun item => !item.isFrameEnd
  | .stmt .brk :: rest => rest.takeWhile fun item => !item.isLoopOrFrameEnd
  | .stmt .cont :: rest => rest.takeWhile fun item => !item.isLoopOrFrameEnd
  | _ => []

/-- The items that the next step passes. -/
def passed (code : List Item) : List Item := code.take 1 ++ jumped code

theorem jumped_cases (item : Item) (rest : List Item) :
    jumped (item :: rest) = [] ∨
      ∃ statement keep, item = .stmt statement ∧ jumped (item :: rest) = rest.takeWhile keep := by
  cases item with
  | stmt statement =>
      cases statement <;> first
        | exact .inl rfl
        | exact .inr ⟨_, _, rfl, rfl⟩
  | _ => exact .inl rfl

/-- Every item satisfies `holds` together with the code behind it. -/
def Along (holds : Item → List Item → Prop) : List Item → Prop
  | [] => True
  | item :: rest => holds item rest ∧ Along holds rest

section Along

variable {holds : Item → List Item → Prop} {rest : List Item}

theorem Along.suffix {before : List Item} (along : Along holds (before ++ rest)) :
    Along holds rest := by
  induction before with
  | nil => exact along
  | cons item before ih => exact ih along.2

theorem Along.imp {other : Item → List Item → Prop} (along : Along holds rest)
    (implies : ∀ item rest, holds item rest → other item rest) : Along other rest := by
  induction rest with
  | nil => trivial
  | cons item rest ih => exact ⟨implies item rest along.1, ih along.2⟩

theorem Along.block (statements : List CStmt) (along : Along holds rest)
    (trivially : ∀ statement rest, holds (.stmt statement) rest) :
    Along holds (block statements ++ rest) := by
  induction statements with
  | nil => exact along
  | cons statement statements ih => exact ⟨trivially statement _, ih⟩

theorem Along.dropWhile {keep : Item → Bool} (along : Along holds rest) :
    Along holds (rest.dropWhile keep) := by
  have split : Along holds (rest.takeWhile keep ++ rest.dropWhile keep) := by
    rw [List.takeWhile_append_dropWhile]
    exact along
  exact split.suffix

end Along

/-- Later heaps keep the parent and the buffer of every context. -/
def Keeps (before after : List ExceptionData) : Prop :=
  ∀ (context : ContextId) (data : ExceptionData), before[context]? = some data →
    ∃ other, after[context]? = some other ∧ other.parent = data.parent ∧ other.buf = data.buf

theorem keeps_append (contexts extra : List ExceptionData) : Keeps contexts (contexts ++ extra) := by
  intro context data found
  have inside := (List.getElem?_eq_some_iff.mp found).1
  exact ⟨data, by rw [List.getElem?_append_left inside, found], rfl, rfl⟩

theorem keeps_set {contexts : List ExceptionData} {context : ContextId} {data : ExceptionData}
    (changed : ExceptionData) (found : contexts[context]? = some data) (sameParent : changed.parent = data.parent)
    (sameBuf : changed.buf = data.buf) : Keeps contexts (contexts.set context changed) := by
  intro other old lookup
  have inside := (List.getElem?_eq_some_iff.mp lookup).1
  by_cases same : context = other
  · subst same
    cases found.symm.trans lookup
    exact ⟨changed, List.getElem?_set_self inside, sameParent, sameBuf⟩
  · exact ⟨old, by rw [List.getElem?_set_ne same, lookup], rfl, rfl⟩

/-! Each primitive that touches the heap either fails or has one outcome. -/

theorem throwException_some {program : Program} {exception : ClassId} {rest : List Item}
    {state after : State} (thrown : throwException program exception rest state = some after) :
    ∃ context data, state.handler program exception = some context ∧
      state.contexts[context]? = some data ∧
      after = { state with
        exceptionData := some context
        contexts := state.contexts.set context { data with thrownException := some exception }
        code := .thrown context data.buf.handlers :: data.buf.after } := by
  unfold throwException at thrown
  split at thrown
  · cases thrown
  · rename_i context found
    split at thrown
    · cases thrown
    · rename_i data lookup
      split at thrown
      · cases thrown
        exact ⟨context, data, found, lookup, rfl⟩
      · cases thrown

theorem addCaught_some {type : ClassId} {state after : State}
    (added : addCaught type state = some after) :
    ∃ context data, state.exceptionData = some context ∧ state.contexts[context]? = some data ∧
      after = { state with
        contexts := state.contexts.set context { data with caught := data.caught ++ [type] } } := by
  unfold addCaught at added
  split at added
  · cases added
  · rename_i context current
    split at added
    · cases added
    · rename_i data lookup
      cases added
      exact ⟨context, data, current, lookup, rfl⟩

theorem dispatch_some {program : Program} {handlers : List (ClassId × List CStmt)}
    {rest : List Item} {state after : State}
    (dispatched : dispatch program handlers rest state = some after) :
    ∃ context data statements, state.exceptionData = some context ∧
      state.contexts[context]? = some data ∧
      after = { state with exceptionData := data.parent, code := block statements ++ rest } := by
  unfold dispatch at dispatched
  split at dispatched
  · cases dispatched
  · rename_i context current
    split at dispatched
    · cases dispatched
    · rename_i data lookup
      cases dispatched
      exact ⟨context, data, _, current, lookup, rfl⟩

/-- A jump to the end of the loop or of the function keeps everything but the
code, which loses what the jump passes. -/
theorem jump_some {program : Program} {choice : Bool} {state after : State} {statement : CStmt}
    {rest : List Item} (jump : statement = .brk ∨ statement = .cont)
    (stepped : stepStmt program choice state rest statement = some after) :
    ∃ statements outer, toLoopEnd rest = .loopEnd statements :: outer ∧
      (after = { state with code := outer } ∨
        after = { state with code := .loopEnd statements :: outer }) := by
  rcases jump with rfl | rfl <;> simp only [stepStmt] at stepped <;> split at stepped
  · rename_i statements outer found
    cases stepped
    exact ⟨statements, outer, found, .inl rfl⟩
  · cases stepped
  · rename_i statements outer found
    cases stepped
    exact ⟨statements, outer, found, .inr rfl⟩
  · cases stepped

end NovaC.Exceptions
