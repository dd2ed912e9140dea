import NovaC.Closures.Prelude

namespace NovaC.Closures

/-! Closures in closures: the fields that a new context takes over from the context that
the method was called with (`generateInheritedContext`), and captured closures. Every call
of a method has variables and contexts of its own.
-/

section Writers

/-- A captured closure is three fields: `f`, `ref_f` and `context_f`. -/
inductive Part where
  | itself
  | reference
  | context
deriving DecidableEq

/-- The fields that `ClosureContextWriter` gives to a `ClosureVariableDeclaration`, by
whether its root declaration is a closure. -/
def fieldParts (isClosure : Bool) : List Part :=
  if isClosure then [.itself, .reference, .context] else [.itself]

inductive Instruction where
  | statement (statement : Statement)
  /-- `c2->x = context->x;` -/
  | inherit (field : Capture) (part : Part) (original : Capture)
  /-- `c1->f = f;` -/
  | assignClosure (field : Capture) (part : Part) (name : VariableId)
deriving DecidableEq

/-- A `ClosureVariableDeclaration` whose original declaration is one as well. -/
structure InheritedDeclaration where
  capture : Capture
  original : Capture
  rootIsClosure : Bool
deriving DecidableEq

def InheritedDeclaration.generateAssignment (declaration : InheritedDeclaration) :
    List Instruction :=
  (fieldParts declaration.rootIsClosure).map fun part =>
    .inherit declaration.capture part declaration.original

structure ClosureContextDeclaration where
  context : ContextId
  inherited : List InheritedDeclaration
deriving DecidableEq

/-- `generateDeclaration` of a context, with its `generateInheritedContext` -/
def ClosureContextDeclaration.generateDeclaration (declaration : ClosureContextDeclaration) :
    List Instruction :=
  .statement (.declareContext declaration.context) ::
    declaration.inherited.flatMap (·.generateAssignment)

/-- A parameter that is a closure. -/
structure ClosureDeclaration where
  name : VariableId
  closureVariableDeclarations : List ClosureVariableDeclaration
deriving DecidableEq

/-- `ClosureVariableDeclarationWriter.generateAssignment`, with its
`generateClosureContextAssignments`, for a root declaration that is a closure -/
def ClosureVariableDeclaration.generateClosureAssignment (declaration : ClosureVariableDeclaration)
    (name : VariableId) (reference : Option ClosureVariableDeclaration) : List Instruction :=
  if reference.any fun first => first.parentMethod ≠ declaration.parentMethod then []
  else (fieldParts true).map fun part => .assignClosure declaration.capture part name

def ClosureDeclaration.generateAssignments (closure : ClosureDeclaration) : List Instruction :=
  match closure.closureVariableDeclarations with
  | [] => []
  | first :: rest =>
      first.generateClosureAssignment closure.name none ++
        rest.flatMap fun declaration =>
          declaration.generateClosureAssignment closure.name (some first)

inductive Parameter where
  | value (original : VariableDeclaration)
  | closure (declaration : ClosureDeclaration)
deriving DecidableEq

def Parameter.generateAssignments : Parameter → List Instruction
  | value original => original.generateAssignments.map .statement
  | closure declaration => declaration.generateAssignments

/-- A method or a lambda, with the arguments of a call as the initial values. -/
structure Scope where
  id : MethodId
  contexts : List ClosureContextDeclaration
  parameters : List Parameter
  locals : List VariableDeclaration
deriving DecidableEq

/-- `VariableDeclarationListWriter.generateSource` -/
def Scope.generateSource (scope : Scope) : List Instruction :=
  scope.contexts.flatMap (·.generateDeclaration) ++
    (scope.parameters.flatMap (·.generateAssignments) ++
      (scope.locals.flatMap (·.generateDeclaration)).map .statement)

end Writers

def ClosureDeclaration.captures (closure : ClosureDeclaration) : List Capture :=
  closure.closureVariableDeclarations.map (·.capture)

namespace Scope

variable (scope : Scope)

def values : List VariableDeclaration :=
  scope.parameters.filterMap fun
    | .value original => some original
    | .closure _ => none

def closures : List ClosureDeclaration :=
  scope.parameters.filterMap fun
    | .value _ => none
    | .closure declaration => some declaration

def inherited : List InheritedDeclaration :=
  scope.contexts.flatMap (·.inherited)

/-- The method without what it inherits, and without its closures. -/
def method : Method where
  id := scope.id
  closureContextDeclarations := scope.contexts.map (·.context)
  parameters := scope.values
  locals := scope.locals

/-- What the frontend makes sure of. -/
structure WellFormed : Prop where
  method : scope.method.WellFormed
  names : (scope.method.declarations.map (·.name)).Nodup
  inherited : ∀ declaration ∈ scope.contexts, ∀ field ∈ declaration.inherited,
    field.capture.context = declaration.context
  closures : ∀ closure ∈ scope.closures, ∀ declaration ∈ closure.closureVariableDeclarations,
    declaration.capture.context ∈ scope.method.closureContextDeclarations ∧
      declaration.parentMethod = scope.id
  fields : (scope.method.declarations.flatMap (·.captures) ++
    (scope.inherited.map (·.capture) ++ scope.closures.flatMap (·.captures))).Nodup

end Scope

abbrev Callable :=
  { scope : Scope // scope.WellFormed }

abbrev ActivationId := Nat

/-- A variable of an activation's stack frame, or a block that `NOVA_MALLOC` gave. -/
inductive Cell where
  | stack (id : ActivationId) (name : VariableId)
  | block (number : Nat)
deriving DecidableEq

def Location.cell (id : ActivationId) : Location → Cell
  | stack name => .stack id name
  | block number => .block number

/-- What a field of a context holds: the address of a variable, or a part of a closure. -/
inductive Content where
  | address (cell : Cell)
  | word (value : Int)
deriving DecidableEq

section Meaning

variable (fresh : Nat → Int)

/-- A method at its start: what its own variables have, and the fields set otherwise. -/
structure Preparation where
  state : State
  copied : Capture × Part → Option Content

/-- The field that an instruction sets from elsewhere, and what it gets. -/
def Instruction.entry (outer : Capture → Part → Option Content)
    (closures : VariableId → Part → Int) : Instruction → Option ((Capture × Part) × Content)
  | statement _ => none
  | inherit field part original => (outer original part).map fun content => ((field, part), content)
  | assignClosure field part name => some ((field, part), .word (closures name part))

def Instruction.run (outer : Capture → Part → Option Content)
    (closures : VariableId → Part → Int) (instruction : Instruction) (preparation : Preparation) :
    Option Preparation :=
  match instruction with
  | .statement own => do
      let state ← own.run fresh preparation.state
      some { preparation with state := state }
  | instruction => do
      let (field, content) ← instruction.entry outer closures
      if field.1.context ∈ preparation.state.contexts then
        some { preparation with
          copied := Function.update preparation.copied field (some content) }
      else none

def runInstructions (outer : Capture → Part → Option Content)
    (closures : VariableId → Part → Int) : List Instruction → Preparation → Option Preparation
  | [], preparation => some preparation
  | instruction :: rest, preparation =>
      (instruction.run fresh outer closures preparation).bind
        (runInstructions outer closures rest)

/-- A call of a method. -/
structure Activation where
  scope : Scope
  /-- the call that created the `context` that it was called with -/
  creator : Option ActivationId
  live : Bool
  stack : VariableId → Int
  /-- its heap variables -/
  heaps : Capture → Option Nat
  /-- the fields of the contexts that it created -/
  fields : Capture → Part → Option Content

/-- The fields of the contexts, the addresses being those of the activation. -/
def Preparation.fields (preparation : Preparation) (id : ActivationId) (capture : Capture)
    (part : Part) : Option Content :=
  match part with
  | .itself =>
      ((preparation.state.fields capture).map fun location => .address (location.cell id)).or
        (preparation.copied (capture, .itself))
  | part => preparation.copied (capture, part)

/-- What the writers of `Method` know about the call. -/
def Activation.state (activation : Activation) (blocks : List Int) : State where
  stack := activation.stack
  blocks := blocks
  contexts := activation.scope.method.closureContextDeclarations
  heaps := activation.heaps
  fields _ := none

structure Machine where
  count : Nat
  activations : ActivationId → Option Activation
  blocks : List Int

namespace Machine

def start : Machine where
  count := 0
  activations _ := none
  blocks := []

variable (machine : Machine)

/-- `context->x` -/
def outer (creator : Option ActivationId) (capture : Capture) (part : Part) : Option Content := do
  let creator ← creator
  let activation ← machine.activations creator
  activation.fields capture part

def enter (scope : Scope) (creator : Option ActivationId) (closures : VariableId → Part → Int) :
    Option Machine := do
  let prepared ← runInstructions fresh (machine.outer creator) closures scope.generateSource
    { state := { scope.method.start with blocks := machine.blocks }
      copied := fun _ => none }
  some
    { count := machine.count + 1
      activations := Function.update machine.activations machine.count (some
        { scope := scope
          creator := creator
          live := true
          stack := prepared.state.stack
          heaps := prepared.state.heaps
          fields := prepared.fields machine.count })
      blocks := prepared.state.blocks }

/-- The stack frame of a call that has returned is gone. -/
def leave (id : ActivationId) : Option Machine := do
  let activation ← machine.activations id
  if activation.live then
    some { machine with
      activations :=
        Function.update machine.activations id (some { activation with live := false }) }
  else none

/-- `VariableWriter` in the method itself, `*context->x` in a closure -/
def locate (id : ActivationId) (accessor : Accessor) : Option Cell := do
  let activation ← machine.activations id
  if activation.live then
    match accessor with
    | .body original =>
        if original ∈ activation.scope.method.declarations then
          ((Accessor.body original).locate (activation.state machine.blocks)).map (·.cell id)
        else none
    | .closure capture => do
        match ← machine.outer activation.creator capture .itself with
        | .address cell => some cell
        | .word _ => none
  else none

def load : Cell → Option Int
  | .stack id name => do
      let activation ← machine.activations id
      if activation.live then some (activation.stack name) else none
  | .block number => machine.blocks[number]?

def store (value : Int) : Cell → Option Machine
  | .stack id name => do
      let activation ← machine.activations id
      if activation.live then
        some { machine with
          activations := Function.update machine.activations id
            (some { activation with stack := Function.update activation.stack name value }) }
      else none
  | .block number =>
      if number < machine.blocks.length then
        some { machine with blocks := machine.blocks.set number value }
      else none

/-- `context->f`, `context->ref_f` or `context->context_f` -/
def word (id : ActivationId) (capture : Capture) (part : Part) : Option Int := do
  let activation ← machine.activations id
  if activation.live then
    match ← machine.outer activation.creator capture part with
    | .address _ => none
    | .word value => some value
  else none

end Machine

/-- What calls can do, in any order. -/
inductive Action where
  /-- a call through a `context` of the creator, with the parameters that are closures -/
  | enter (scope : Callable) (creator : Option ActivationId) (closures : VariableId → Part → Int)
  | leave (id : ActivationId)
  | read (id : ActivationId) (accessor : Accessor)
  | write (id : ActivationId) (accessor : Accessor) (value : Int)
  /-- a call of a captured closure -/
  | call (id : ActivationId) (capture : Capture)

/-- With what it reads, or what it calls. -/
def Machine.step (machine : Machine) : Action → Option (List Int × Machine)
  | .enter scope creator closures =>
      (machine.enter fresh scope creator closures).map fun next => ([], next)
  | .leave id => (machine.leave id).map fun next => ([], next)
  | .read id accessor => do
      let cell ← machine.locate id accessor
      let value ← machine.load cell
      some ([value], machine)
  | .write id accessor value => do
      let cell ← machine.locate id accessor
      let next ← machine.store value cell
      some ([], next)
  | .call id capture => do
      let function ← machine.word id capture .itself
      let reference ← machine.word id capture .reference
      let context ← machine.word id capture .context
      some ([function, reference, context], machine)

def Machine.run : Machine → List Action → Option (List Int)
  | _, [] => some []
  | machine, action :: actions => do
      let (values, next) ← machine.step fresh action
      let rest ← run next actions
      some (values ++ rest)

end Meaning

end NovaC.Closures
