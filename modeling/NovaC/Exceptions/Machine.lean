import Mathlib.Data.List.Chain

namespace NovaC.Exceptions

/-! The exception handling that `ExceptionHandler.h` implements with setjmp and
longjmp, together with the writers that emit its macros.

The nodes are translated to C statements by the writers; the machine then runs
the C statements one at a time.  Everything the thread shares between its
frames (the variable `exceptionData` and the heap of contexts) is in `State`,
and the rest of the program is the list of items still to be executed.
-/

abbrev ClassId := Nat
abbrev MethodId := Nat
abbrev ContextId := Nat
abbrev FrameId := Nat

/-- The nodes of a method body.  Conditions are left to the environment, so
`ifElse` and `loop` carry none. -/
inductive Node where
  | statement
  | throw (exception : ClassId)
  | call (method : MethodId)
  | ret
  | brk
  | cont
  | ifElse (thenScope elseScope : List Node)
  | loop (scope : List Node)
  | tryCatch (exceptions : List ClassId) (tryScope : List Node)
      (catches : List (ClassId × List Node)) (finallyScope : List Node)

/-- The emitted C, with `TRY ... CATCH ... FINALLY ... END_TRY` kept as one
statement whose macros the machine expands when it reaches them. -/
inductive CStmt where
  | exec
  | THROW (exception : ClassId)
  | call (function : MethodId)
  | ret
  | brk
  | cont
  | ifElse (thenBlock elseBlock : List CStmt)
  | loop (block : List CStmt)
  | addCaught (type : ClassId)
  | TRY (block : List CStmt) (handlers : List (ClassId × List CStmt))
      (finallyBlock : List CStmt)

/-- The `addCaught` calls that register the caught classes with the context. -/
def TryWriter.generateExceptionCodes (exceptions : List ClassId) : List CStmt :=
  exceptions.map .addCaught

mutual

def NodeWriter.generateSource : Node → CStmt
  | .statement => .exec
  | .throw exception => .THROW exception
  | .call method => .call method
  | .ret => .ret
  | .brk => .brk
  | .cont => .cont
  | .ifElse thenScope elseScope =>
      .ifElse (ScopeWriter.generateSource thenScope) (ScopeWriter.generateSource elseScope)
  | .loop scope => .loop (ScopeWriter.generateSource scope)
  | .tryCatch exceptions tryScope catches finallyScope =>
      .TRY (TryWriter.generateExceptionCodes exceptions ++ ScopeWriter.generateSource tryScope)
        (CatchWriter.generateSource catches) (ScopeWriter.generateSource finallyScope)

def ScopeWriter.generateSource : List Node → List CStmt
  | [] => []
  | child :: rest => NodeWriter.generateSource child :: ScopeWriter.generateSource rest

def CatchWriter.generateSource : List (ClassId × List Node) → List (ClassId × List CStmt)
  | [] => []
  | (type, scope) :: rest =>
      (type, ScopeWriter.generateSource scope) :: CatchWriter.generateSource rest

end

structure Program where
  isOfType : ClassId → ClassId → Bool
  methods : MethodId → List Node
  main : List Node

def Program.function (program : Program) (method : MethodId) : List CStmt :=
  ScopeWriter.generateSource (program.methods method)

/-- What is left to execute.  Besides statements there are the closing braces
at which control passes from one part of a construct to the next. -/
inductive Item where
  | stmt (statement : CStmt)
  /-- The end of the block under `if (exception_code == 0)`. -/
  | tryEnd (context : ContextId)
  /-- `FINALLY`, an empty macro in front of the finally block. -/
  | finallyStart (context : ContextId)
  /-- `END_TRY`, with the value `exceptionData` had in front of `TRY`. -/
  | endTry (context : ContextId) (entered : Option ContextId)
  /-- `setjmp` returning a second time, in front of the `CATCH` chain. -/
  | thrown (context : ContextId) (handlers : List (ClassId × List CStmt))
  | loopEnd (block : List CStmt)
  | frameEnd (frame : FrameId)

namespace Item

def isTryEnd : Item → Bool
  | .tryEnd _ => true
  | _ => false

def isFinallyStart : Item → Bool
  | .finallyStart _ => true
  | _ => false

def isFrameEnd : Item → Bool
  | .frameEnd _ => true
  | _ => false

def isLoopOrFrameEnd : Item → Bool
  | .loopEnd _ => true
  | .frameEnd _ => true
  | _ => false

end Item

/-- What `setjmp` saves: the catch chain behind the `TRY`, the items from
`FINALLY` on, and the frame that called it. -/
structure JumpBuffer where
  handlers : List (ClassId × List CStmt)
  after : List Item
  frame : FrameId

structure ExceptionData where
  parent : Option ContextId
  caught : List ClassId
  thrownException : Option ClassId
  buf : JumpBuffer

/-- `finallyRuns` records which finally blocks have been started; no statement
reads it. -/
structure State where
  exceptionData : Option ContextId
  contexts : List ExceptionData
  frames : Nat
  finallyRuns : List ContextId
  code : List Item

def block (statements : List CStmt) : List Item := statements.map .stmt

/-- The frame whose statements are running. -/
def currentFrame : List Item → FrameId
  | [] => 0
  | .frameEnd frame :: _ => frame
  | _ :: rest => currentFrame rest

def frameLive (frame : FrameId) (code : List Item) : Bool :=
  code.any fun
    | .frameEnd other => other == frame
    | _ => false

/-- The walk over the parent links, from `exceptionData` to the nearest context
with a matching class.  A parent is always older than its child, so the number
of contexts bounds the walk. -/
def nearestHandler (program : Program) (contexts : List ExceptionData) (exception : ClassId) :
    Nat → Option ContextId → Option ContextId
  | 0, _ => none
  | _ + 1, none => none
  | fuel + 1, some context =>
      match contexts[context]? with
      | none => none
      | some data =>
          if data.caught.any (program.isOfType exception) then some context
          else nearestHandler program contexts exception fuel data.parent

def State.handler (program : Program) (state : State) (exception : ClassId) : Option ContextId :=
  nearestHandler program state.contexts exception state.contexts.length state.exceptionData

/-- `throwException`: store the handling context and jump to its buffer.  The
program ends when no context matches, and the jump is undefined when the
function that called `setjmp` has returned. -/
def throwException (program : Program) (exception : ClassId) (rest : List Item) (state : State) :
    Option State :=
  match state.handler program exception with
  | none => none
  | some context =>
      match state.contexts[context]? with
      | none => none
      | some data =>
          if frameLive data.buf.frame rest then
            some { state with
              exceptionData := some context
              contexts := state.contexts.set context { data with thrownException := some exception }
              code := .thrown context data.buf.handlers :: data.buf.after }
          else none

/-- `TRY`: construct a context, link it to the current one, make it current
and call `setjmp`, which returns 0 here. -/
def enterTry (statements : List CStmt) (handlers : List (ClassId × List CStmt))
    (finallyBlock : List CStmt) (rest : List Item) (state : State) : State :=
  let tryContextData := state.contexts.length
  let after := .finallyStart tryContextData ::
    (block finallyBlock ++ .endTry tryContextData state.exceptionData :: rest)
  { state with
    exceptionData := some tryContextData
    contexts := state.contexts ++ [{
      parent := state.exceptionData
      caught := []
      thrownException := none
      buf := { handlers, after, frame := currentFrame rest } }]
    code := block statements ++ .tryEnd tryContextData :: after }

/-- `addCaught(exceptionData, type, soft)` on the current context. -/
def addCaught (type : ClassId) (state : State) : Option State :=
  match state.exceptionData with
  | none => none
  | some context =>
      match state.contexts[context]? with
      | none => none
      | some data =>
          some { state with
            contexts := state.contexts.set context { data with caught := data.caught ++ [type] } }

/-- The second return of `setjmp`: leave the context, then test the `CATCH`
conditions in order. -/
def dispatch (program : Program) (handlers : List (ClassId × List CStmt)) (rest : List Item)
    (state : State) : Option State :=
  match state.exceptionData with
  | none => none
  | some thrownData =>
      match state.contexts[thrownData]? with
      | none => none
      | some data =>
          let handler := handlers.find? fun handler =>
            data.thrownException.any fun exception => program.isOfType exception handler.1
          some { state with
            exceptionData := data.parent
            code := block ((handler.map Prod.snd).getD []) ++ rest }

/-- What `break` and `continue` jump over, up to the closing brace they stop at. -/
def toLoopEnd (code : List Item) : List Item := code.dropWhile fun item => !item.isLoopOrFrameEnd

def stepStmt (program : Program) (choice : Bool) (state : State) (rest : List Item) :
    CStmt → Option State
  | .exec => some { state with code := rest }
  | .THROW exception => throwException program exception rest state
  | .call function =>
      some { state with
        frames := state.frames + 1
        code := block (program.function function) ++ .frameEnd state.frames :: rest }
  | .ret => some { state with code := rest.dropWhile fun item => !item.isFrameEnd }
  | .brk =>
      match toLoopEnd rest with
      | .loopEnd _ :: after => some { state with code := after }
      | _ => none
  | .cont =>
      match toLoopEnd rest with
      | .loopEnd statements :: after => some { state with code := .loopEnd statements :: after }
      | _ => none
  | .ifElse thenBlock elseBlock =>
      some { state with code := block (if choice then thenBlock else elseBlock) ++ rest }
  | .loop statements => some { state with code := .loopEnd statements :: rest }
  | .addCaught type => addCaught type { state with code := rest }
  | .TRY statements handlers finallyBlock =>
      some (enterTry statements handlers finallyBlock rest state)

/-- One step.  `choice` is the outcome of the condition when the step tests one. -/
def step (program : Program) (choice : Bool) (state : State) : Option State :=
  match state.code with
  | [] => none
  | .stmt statement :: rest => stepStmt program choice state rest statement
  | .tryEnd _ :: rest => some { state with code := rest }
  | .finallyStart context :: rest =>
      some { state with finallyRuns := state.finallyRuns ++ [context], code := rest }
  | .endTry _ _ :: rest => some { state with code := rest }
  | .thrown _ handlers :: rest => dispatch program handlers rest state
  | .loopEnd statements :: rest =>
      some { state with code := if choice then block statements ++ .loopEnd statements :: rest
        else rest }
  | .frameEnd _ :: rest => some { state with code := rest }

def Program.initial (program : Program) : State where
  exceptionData := none
  contexts := []
  frames := 1
  finallyRuns := []
  code := block (ScopeWriter.generateSource program.main) ++ [.frameEnd 0]

def Step (program : Program) (before after : State) : Prop :=
  ∃ choice, step program choice before = some after

/-- The states that a sequence of choices visits behind `state`, one a step. -/
def visited (program : Program) : List Bool → State → List State
  | [], _ => []
  | choice :: rest, state =>
      match step program choice state with
      | none => []
      | some next => next :: visited program rest next

theorem visited_isChain (program : Program) (choices : List Bool) (state : State) :
    List.IsChain (Step program) (state :: visited program choices state) := by
  induction choices generalizing state with
  | nil => exact .singleton state
  | cons choice rest ih =>
      unfold visited
      split
      · exact .singleton state
      · rename_i next stepped
        exact .cons_cons ⟨choice, stepped⟩ (ih next)

end NovaC.Exceptions
