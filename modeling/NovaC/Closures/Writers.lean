import Mathlib

namespace NovaC.Closures

/-! `ClosureVariableDeclarationWriter`, `VariableDeclarationListWriter` and
`VariableWriter`: the statements at the start of a method that captures variables, and
how its body and its closures reach them.

Captured closures (`ClosureDeclaration`) and variables captured again by a closure in a
closure have no part in this.
-/

abbrev VariableId := Nat
abbrev ContextId := Nat
abbrev MethodId := Nat

/-- The context that has the variable and its place there; `heap1_0` is the heap
variable of the first one in context 1. -/
structure Capture where
  context : ContextId
  index : Nat
deriving DecidableEq

structure ClosureVariableDeclaration where
  capture : Capture
  requiresHeapAllocation : Bool
  /-- the method that declares the context -/
  parentMethod : MethodId
deriving DecidableEq

structure VariableDeclaration where
  name : VariableId
  isParameter : Bool
  /-- the argument of a parameter, `generateDefaultValue` of a local variable -/
  initial : Int
  requiresHeapAllocation : Bool
  closureVariableDeclarations : List ClosureVariableDeclaration
deriving DecidableEq

inductive Statement where
  /-- `context1* c1 = NOVA_MALLOC(sizeof(context1));` -/
  | declareContext (context : ContextId)
  /-- `T x = 0;` -/
  | declareLocal (name : VariableId) (value : Int)
  /-- `T* heap1_0 = (T*)NOVA_MALLOC(sizeof(T));` -/
  | allocateHeap (heap : Capture)
  /-- `T* heap2_0 = heap1_0;` -/
  | aliasHeap (heap reference : Capture)
  /-- `c1->x = heap1_0;` -/
  | assignHeap (field heap : Capture)
  /-- `c1->x = &x;` -/
  | assignAddress (field : Capture) (name : VariableId)
deriving DecidableEq

section Writers

/-- `ClosureVariableDeclarationWriter.generateAssignment` -/
def ClosureVariableDeclaration.generateAssignment (declaration : ClosureVariableDeclaration)
    (name : VariableId) (reference : Option ClosureVariableDeclaration) : List Statement :=
  if reference.any fun first => first.parentMethod ≠ declaration.parentMethod then []
  else if declaration.requiresHeapAllocation then
    match reference with
    | some first =>
        [.aliasHeap declaration.capture first.capture, .assignHeap declaration.capture first.capture]
    | none =>
        [.allocateHeap declaration.capture, .assignHeap declaration.capture declaration.capture]
  else [.assignAddress declaration.capture name]

/-- The loops over `closureVariableDeclarations` in `VariableDeclarationListWriter`. -/
def VariableDeclaration.generateAssignments (original : VariableDeclaration) : List Statement :=
  match original.closureVariableDeclarations with
  | [] => []
  | first :: rest =>
      first.generateAssignment original.name none ++
        rest.flatMap fun declaration => declaration.generateAssignment original.name (some first)

/-- `VariableDeclarationListWriter.generateDeclaration` of a local variable -/
def VariableDeclaration.generateDeclaration (original : VariableDeclaration) : List Statement :=
  .declareLocal original.name original.initial :: original.generateAssignments

/-- A method, and the parameters that its declaration list goes through: those of the
constructor for an `InitializationMethod`, none for a `Constructor`. -/
structure Method where
  id : MethodId
  closureContextDeclarations : List ContextId
  parameters : List VariableDeclaration
  locals : List VariableDeclaration

/-- `VariableDeclarationListWriter.generateSource` -/
def Method.generateSource (method : Method) : List Statement :=
  method.closureContextDeclarations.map .declareContext ++
    (method.parameters.flatMap (·.generateAssignments) ++
      method.locals.flatMap (·.generateDeclaration))

end Writers

/-- A variable of the stack frame, or a block that `NOVA_MALLOC` gave. -/
inductive Location where
  | stack (name : VariableId)
  | block (number : Nat)
deriving DecidableEq

structure State where
  stack : VariableId → Int
  blocks : List Int
  contexts : List ContextId
  /-- the heap variables -/
  heaps : Capture → Option Nat
  /-- the fields of the contexts -/
  fields : Capture → Option Location

section Meaning

-- `fresh` is what is in a block before it is written, by its number.
variable (fresh : Nat → Int)

def Statement.run : Statement → State → Option State
  | declareContext context, state => some { state with contexts := context :: state.contexts }
  | declareLocal name value, state =>
      some { state with stack := Function.update state.stack name value }
  | allocateHeap heap, state =>
      some { state with
        blocks := state.blocks ++ [fresh state.blocks.length]
        heaps := Function.update state.heaps heap (some state.blocks.length) }
  | aliasHeap heap reference, state => do
      let number ← state.heaps reference
      some { state with heaps := Function.update state.heaps heap (some number) }
  | assignHeap field heap, state => do
      let number ← state.heaps heap
      if field.context ∈ state.contexts then
        some { state with fields := Function.update state.fields field (some (.block number)) }
      else none
  | assignAddress field name, state =>
      if field.context ∈ state.contexts then
        some { state with fields := Function.update state.fields field (some (.stack name)) }
      else none

def runAll : List Statement → State → Option State
  | [], state => some state
  | statement :: rest, state => (statement.run fresh state).bind (runAll rest)

/-- The stack holds the arguments. -/
def Method.start (method : Method) : State where
  stack name := ((method.parameters.find? (·.name = name)).map (·.initial)).getD 0
  blocks := []
  contexts := []
  heaps _ := none
  fields _ := none

end Meaning

/-- Who reads or writes: the body of the method, or a closure through its context. -/
inductive Accessor where
  | body (original : VariableDeclaration)
  | closure (capture : Capture)
deriving DecidableEq

/-- `VariableWriter.generateSourceName` and `generateSourceClosureVariableName` in the
body, `*context->x` in a closure. -/
def Accessor.locate (state : State) : Accessor → Option Location
  | body original =>
      if original.isParameter then some (.stack original.name)
      else if original.requiresHeapAllocation then
        original.closureVariableDeclarations.head?.bind fun first =>
          (state.heaps first.capture).map .block
      else some (.stack original.name)
  | closure capture => state.fields capture

inductive Event where
  | read (accessor : Accessor)
  | write (accessor : Accessor) (value : Int)
deriving DecidableEq

def Event.accessor : Event → Accessor
  | read accessor => accessor
  | write accessor _ => accessor

def State.load (state : State) : Location → Option Int
  | .stack name => some (state.stack name)
  | .block number => state.blocks[number]?

def State.store (state : State) (value : Int) : Location → State
  | .stack name => { state with stack := Function.update state.stack name value }
  | .block number => { state with blocks := state.blocks.set number value }

/-- The values that the given accessors read. -/
def observe (mine : Accessor → Bool) : State → List Event → Option (List Int)
  | _, [] => some []
  | state, .read accessor :: events => do
      let location ← accessor.locate state
      let value ← state.load location
      let rest ← observe mine state events
      some (if mine accessor then value :: rest else rest)
  | state, .write accessor value :: events => do
      let location ← accessor.locate state
      observe mine (state.store value location) events

/-- What they read of one variable that keeps the value last written by any of them. -/
def register (mine : Accessor → Bool) : Int → List Event → List Int
  | _, [] => []
  | value, .read accessor :: events =>
      if mine accessor then value :: register mine value events else register mine value events
  | value, .write accessor written :: events =>
      register mine (if mine accessor then written else value) events

end NovaC.Closures
