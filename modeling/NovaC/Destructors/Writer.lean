import Mathlib.Data.List.Nodup
import Mathlib.Logic.Function.Basic

namespace NovaC.Destructors

/-! The functions that `DestructorWriter` emits, for destructors whose own body does not
change the memory, and the defaults that `AssignmentMethodWriter` gives to fields.
-/

/-- What the writers tell the types of fields apart by. -/
inductive FieldType (Class : Type) where
  /-- `isPrimitiveType()` -/
  | primitive
  /-- `isExternalType()` -/
  | external
  /-- `isGenericType()` -/
  | generic
  /-- `isPrimitiveArray() || getTypeObject() instanceof FunctionType` -/
  | array
  | object (typeClass : Class)

structure FieldDeclaration (Class : Type) where
  name : String
  type : FieldType Class

structure Program (Class : Type) where
  privateFields : Class → List (FieldDeclaration Class)
  publicFields : Class → List (FieldDeclaration Class)
  containsNonStaticPrivateData : Class → Bool
  /-- `getDestructor() != null` -/
  hasDestructor : Class → Bool
  privateData : ∀ clazz, privateFields clazz ≠ [] → containsNonStaticPrivateData clazz = true

/-- What is released, or handed to the destructor of its class. -/
inductive Place where
  /-- `(*this)->prv->name` -/
  | privateField (name : String)
  /-- `(*this)->name` -/
  | publicField (name : String)
  /-- `(*this)->prv` -/
  | prv
  /-- `*this` -/
  | this
deriving DecidableEq

inductive Statement (Class : Type) where
  /-- `NOVA_FREE(place);` -/
  | free (place : Place)
  /-- `nova_del_X(&place);` -/
  | delete (place : Place) (clazz : Class)

variable {Class : Type}

namespace Program

variable (program : Program Class)

def generateFreeFieldSource (place : Place) : FieldType Class → List (Statement Class)
  | .primitive => []
  | .external => []
  | .generic => []
  | .array => [.free place]
  | .object typeClass => if program.hasDestructor typeClass then [.delete place typeClass] else []

def deleteData (node : Class) : List (Statement Class) :=
  (program.privateFields node).flatMap
      (fun field => program.generateFreeFieldSource (.privateField field.name) field.type) ++
    ((if program.containsNonStaticPrivateData node then [.free .prv] else []) ++
      (program.publicFields node).flatMap
        fun field => program.generateFreeFieldSource (.publicField field.name) field.type)

/-- What comes behind the null check. -/
def generateSource (node : Class) : List (Statement Class) :=
  program.deleteData node ++ [.free .this]

end Program

/-- NULL is `none`. -/
abbrev Pointer := Option Nat

/-- An object, or the `struct Private_X` of one -/
structure Block where
  prv : Pointer
  fields : String → Option Pointer

/-- The live blocks. -/
abbrev Memory := Nat → Option Block

inductive Stop where
  /-- the calls go deeper than their bound -/
  | deep
  | undefined
deriving DecidableEq

def Place.read (memory : Memory) (this : Pointer) : Place → Option Pointer
  | .privateField name => do
      let object ← this.bind memory
      let data ← object.prv.bind memory
      data.fields name
  | .publicField name => do
      let object ← this.bind memory
      object.fields name
  | .prv => do
      let object ← this.bind memory
      some object.prv
  | .this => some this

/-- `NOVA_FREE`, which does nothing with NULL -/
def release (memory : Memory) : Pointer → Except Stop Memory
  | none => .ok memory
  | some block =>
      if (memory block).isSome then .ok (Function.update memory block none)
      else .error .undefined

def exec (destroy : Class → Pointer → Memory → Except Stop Memory) (this : Pointer)
    (memory : Memory) : Statement Class → Except Stop Memory
  | .free place =>
      match place.read memory this with
      | some pointer => release memory pointer
      | none => .error .undefined
  | .delete place clazz =>
      match place.read memory this with
      | some pointer => destroy clazz pointer memory
      | none => .error .undefined

def execAll (destroy : Class → Pointer → Memory → Except Stop Memory) (this : Pointer) :
    List (Statement Class) → Memory → Except Stop Memory
  | [], memory => .ok memory
  | statement :: rest, memory => do
      let memory ← exec destroy this memory statement
      execAll destroy this rest memory

/-- A call of the destructor of a class. -/
def destroy (program : Program Class) : Nat → Class → Pointer → Memory → Except Stop Memory
  | 0, _, _, _ => .error .deep
  | _ + 1, _, none, memory => .ok memory
  | depth + 1, clazz, some object, memory =>
      execAll (destroy program depth) (some object) (program.generateSource clazz) memory

/-- The field of an object or of its private data, if that is there. -/
def fieldOf (data : Option Block) (name : String) : Except Stop Pointer :=
  match data.bind (·.fields name) with
  | some pointer => .ok pointer
  | none => .error .undefined

section

variable (program : Program Class) (owned : Class → Pointer → Memory → Except Stop (List Nat))
  (memory : Memory) (data : Option Block)

/-- What a field owns: its array or function, or what the object owns that it points to if
its class has a destructor. What an array has in it is not owned. -/
def ownedByField (field : FieldDeclaration Class) : Except Stop (List Nat) :=
  match field.type with
  | .array => do
      let pointer ← fieldOf data field.name
      .ok pointer.toList
  | .object typeClass =>
      if program.hasDestructor typeClass then do
        let pointer ← fieldOf data field.name
        owned typeClass pointer memory
      else .ok []
  | _ => .ok []

def ownedByFields : List (FieldDeclaration Class) → Except Stop (List Nat)
  | [] => .ok []
  | field :: fields => do
      let first ← ownedByField program owned memory data field
      let others ← ownedByFields fields
      .ok (first ++ others)

/-- The private data itself. -/
def ownedPrv (clazz : Class) : Except Stop (List Nat) :=
  if program.containsNonStaticPrivateData clazz then
    match data with
    | some block => .ok block.prv.toList
    | none => .error .undefined
  else .ok []

end

/-- What an object owns: itself, its private data, and what the fields of its class own. -/
def owned (program : Program Class) : Nat → Class → Pointer → Memory → Except Stop (List Nat)
  | 0, _, _, _ => .error .deep
  | _ + 1, _, none, _ => .ok []
  | depth + 1, clazz, some object, memory => do
      let data := memory object
      let prv ← ownedPrv program data clazz
      let privates ← ownedByFields program (owned program depth) memory
        (data.bind fun block => block.prv.bind memory) (program.privateFields clazz)
      let publics ← ownedByFields program (owned program depth) memory data
        (program.publicFields clazz)
      .ok (object :: (prv ++ (privates ++ publics)))

end NovaC.Destructors
