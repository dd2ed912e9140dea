import NovaC.C.Pool
import Mathlib.Data.List.Nodup
import Mathlib.Logic.Function.Basic

namespace NovaC.Startup

/-! `novaInitProgramData`: an object of class `Class` for every class of the program.

The constructors that it calls are compiled from Nova classes that are not here: they may do
anything as long as they give the object they are named for and leave alone what was there.
-/

inductive Map where
  | FunctionMap
  | PropertyMap
deriving DecidableEq

structure Program (Class : Type) where
  files : List (List Class)
  getClassLocation : Class → String
  /-- `instanceof Trait` -/
  isTrait : Class → Bool
  getExtendedClassDeclaration : Class → Option Class
  getImplementedInterfaces : Class → List Class
  /-- `isPropertyTrue("functionMap")` -/
  functionMap : Class → Bool
  /-- `getFileDeclaration().getClassDeclaration(getName() + type)` -/
  mapClass : Class → Map → Option Class

/-- The variables that arrays are filled through. -/
inductive Pointer where
  | nova_class_interfaces
  | nova_all_classes
deriving DecidableEq

/-- One line of the function. -/
inductive Statement (Class : Type) where
  /-- `vtable.classInstance = Class(location, isInterface);` -/
  | classInstance (clazz : Class) (location : String) (isInterface : Bool)
  /-- `vtable.classInstance->functionMap = XFunctionMap();` -/
  | map (clazz : Class) (type : Map) (value : Class)
  /-- `vtable.classInstance->extension = value;` -/
  | extension (clazz : Class) (value : Option Class)
  /-- `name = NOVA_MALLOC(sizeof(...) * count);` -/
  | malloc (name : Pointer) (count : Nat)
  /-- `name[index] = vtable.classInstance;` -/
  | element (name : Pointer) (index : Nat) (value : Class)
  /-- `vtable.classInstance->interfaces = ImmutableArray(nova_class_interfaces, count);` -/
  | interfaces (clazz : Class) (count : Nat)
  /-- `ALL = ImmutableArray(nova_all_classes, count);` -/
  | ALL (count : Nat)

variable {Class : Type}

def elements (name : Pointer) : Nat → List Class → List (Statement Class)
  | _, [] => []
  | i, value :: values => .element name i value :: elements name (i + 1) values

namespace Program

variable (program : Program Class)

def getAllClasses : List Class := program.files.flatten

def generateMap (type : Map) (node : Class) : List (Statement Class) :=
  match program.mapClass node type with
  | some value => [.map node type value]
  | none => []

def generateVTableClassInstanceAssignment (node : Class) : List (Statement Class) :=
  .classInstance node (program.getClassLocation node) (program.isTrait node) ::
    if program.functionMap node then []
    else program.generateMap .FunctionMap node ++ program.generateMap .PropertyMap node

def generateVTableExtensionAssignment (node : Class) : List (Statement Class) :=
  [.extension node (program.getExtendedClassDeclaration node)]

def generateVTableInterfaceAssignments (node : Class) : List (Statement Class) :=
  let interfaceList := program.getImplementedInterfaces node
  .malloc .nova_class_interfaces interfaceList.length ::
    (elements .nova_class_interfaces 0 interfaceList ++ [.interfaces node interfaceList.length])

def generateVTableClassPropertyAssignments (node : Class) : List (Statement Class) :=
  program.generateVTableExtensionAssignment node ++ program.generateVTableInterfaceAssignments node

def generateVTableClassInstanceAssignments : List (Statement Class) :=
  program.getAllClasses.flatMap program.generateVTableClassInstanceAssignment

def generateVTableClassInstancePropertyAssignments : List (Statement Class) :=
  program.getAllClasses.flatMap program.generateVTableClassPropertyAssignments

def generateVTableClassArray : List (Statement Class) :=
  let classes := program.getAllClasses
  .malloc .nova_all_classes classes.length ::
    (elements .nova_all_classes 0 classes ++ [.ALL classes.length])

def novaInitProgramData : List (Statement Class) :=
  program.generateVTableClassInstanceAssignments ++
    program.generateVTableClassInstancePropertyAssignments ++ program.generateVTableClassArray

end Program

inductive Reference where
  | null
  | nova_null
  | object (id : Nat)
deriving DecidableEq

/-- An object of class `Class`; `none` in a field is what its constructor leaves there. -/
structure ClassObject where
  location : String
  isInterface : Bool
  maps : Map → Option Nat
  extension : Option Reference
  interfaces : Option Nat

/-- An object of class `ImmutableArray`. -/
structure ImmutableArray where
  data : Nat
  count : Nat
deriving DecidableEq

/-- The objects and the blocks; of a map only its class is known. -/
structure Heap (Class : Type) where
  classes : List ClassObject
  arrays : List ImmutableArray
  maps : List Class
  blocks : C.Pool Reference

/-- The constructors, each with the object that it returns. -/
structure Library (Class : Type) where
  newClass : String → Bool → Heap Class → Nat × Heap Class
  newMap : Class → Heap Class → Nat × Heap Class
  newImmutableArray : Nat → Nat → Heap Class → Nat × Heap Class

def Kept {Object : Type} (before after : List Object) : Prop :=
  ∀ (id : Nat) (object : Object), before[id]? = some object → after[id]? = some object

/-- Only an object of class `Class` may have changed. -/
structure Heap.Extends (before after : Heap Class) : Prop where
  arrays : Kept before.arrays after.arrays
  maps : Kept before.maps after.maps
  blocks : Kept before.blocks after.blocks

structure Heap.Keeps (before after : Heap Class) : Prop extends before.Extends after where
  classes : Kept before.classes after.classes

/-- What the constructors are relied on for. -/
structure Library.Lawful (library : Library Class) : Prop where
  newClass_fresh : ∀ location isInterface (heap : Heap Class),
    heap.classes[(library.newClass location isInterface heap).1]? = none
  newClass_fields : ∀ location isInterface (heap : Heap Class), ∃ data,
    (library.newClass location isInterface heap).2.classes[
        (library.newClass location isInterface heap).1]? = some data ∧
      data.location = location ∧ data.isInterface = isInterface
  newClass_keeps : ∀ location isInterface (heap : Heap Class),
    heap.Keeps (library.newClass location isInterface heap).2
  newMap_class : ∀ clazz (heap : Heap Class),
    (library.newMap clazz heap).2.maps[(library.newMap clazz heap).1]? = some clazz
  newMap_keeps : ∀ clazz (heap : Heap Class), heap.Keeps (library.newMap clazz heap).2
  newImmutableArray_fields : ∀ data count (heap : Heap Class),
    (library.newImmutableArray data count heap).2.arrays[
        (library.newImmutableArray data count heap).1]? = some ⟨data, count⟩
  newImmutableArray_keeps : ∀ data count (heap : Heap Class),
    heap.Keeps (library.newImmutableArray data count heap).2

structure State (Class : Type) where
  /-- The member of each vtable. -/
  classInstance : Class → Reference
  heap : Heap Class
  pointers : Pointer → Option Nat
  ALL : Option Nat

/-- The start of the program, with whatever is there by then. -/
def State.initial (heap : Heap Class) : State Class := ⟨fun _ => .null, heap, fun _ => none, none⟩

def Heap.assign (heap : Heap Class) (id : Nat) (data : ClassObject) : Heap Class :=
  { heap with classes := heap.classes.set id data }

/-- An assignment through `vtable.classInstance->`. -/
def State.assign (state : State Class) (clazz : Class) (change : ClassObject → ClassObject) :
    Option (State Class) :=
  match state.classInstance clazz with
  | .object id => do
      let data ← state.heap.classes[id]?
      some { state with heap := state.heap.assign id (change data) }
  | _ => none

section

variable [DecidableEq Class] (library : Library Class)

def exec : Statement Class → State Class → Option (State Class)
  | .classInstance clazz location isInterface, state =>
      let (id, heap) := library.newClass location isInterface state.heap
      some { state with
        heap, classInstance := Function.update state.classInstance clazz (.object id) }
  | .map clazz type value, state =>
      let (id, heap) := library.newMap value state.heap
      State.assign { state with heap } clazz fun data =>
        { data with maps := Function.update data.maps type (some id) }
  | .extension clazz value, state =>
      state.assign clazz fun data =>
        { data with extension := some ((value.map state.classInstance).getD .nova_null) }
  | .malloc name count, state =>
      let (blocks, block) := state.heap.blocks.malloc count
      some { state with
        heap := { state.heap with blocks }
        pointers := Function.update state.pointers name (some block) }
  | .element name index value, state => do
      let block ← state.pointers name
      let blocks ← state.heap.blocks.store block index (state.classInstance value)
      some { state with heap := { state.heap with blocks } }
  | .interfaces clazz count, state => do
      let block ← state.pointers .nova_class_interfaces
      let (id, heap) := library.newImmutableArray block count state.heap
      State.assign { state with heap } clazz fun data => { data with interfaces := some id }
  | .ALL count, state => do
      let block ← state.pointers .nova_all_classes
      let (id, heap) := library.newImmutableArray block count state.heap
      some { state with heap, ALL := some id }

def execAll : List (Statement Class) → State Class → Option (State Class)
  | [], state => some state
  | statement :: rest, state => (exec library statement state).bind (execAll rest)

end

/-- The array has these references and nothing else. -/
def Heap.Holds (heap : Heap Class) (array : Nat) (values : List Reference) : Prop :=
  ∃ contents, heap.arrays[array]? = some contents ∧
    heap.blocks[contents.data]? = some (some (values.map some)) ∧ contents.count = values.length

/-- What does not refer to other classes is as the class says. -/
structure Constructs (program : Program Class) (heap : Heap Class) (clazz : Class)
    (data : ClassObject) : Prop where
  location : data.location = program.getClassLocation clazz
  isInterface : data.isInterface = program.isTrait clazz
  maps : ∀ type value, program.functionMap clazz = false →
    program.mapClass clazz type = some value →
      ∃ id, data.maps type = some id ∧ heap.maps[id]? = some value

/-- The object says about the class what its declaration says. -/
structure Describes (program : Program Class) (instances : Class → Reference)
    (heap : Heap Class) (clazz : Class) (data : ClassObject) : Prop
    extends Constructs program heap clazz data where
  extension : data.extension = some
    (((program.getExtendedClassDeclaration clazz).map instances).getD .nova_null)
  interfaces : ∃ array, data.interfaces = some array ∧
    heap.Holds array ((program.getImplementedInterfaces clazz).map instances)

/-- Every class has an object of its own that describes it, and `ALL` lists them. -/
structure Established (program : Program Class) (state : State Class) : Prop where
  described : ∀ clazz ∈ program.getAllClasses, ∃ id data,
    state.classInstance clazz = .object id ∧ state.heap.classes[id]? = some data ∧
      Describes program state.classInstance state.heap clazz data
  distinct : ∀ clazz ∈ program.getAllClasses, ∀ other ∈ program.getAllClasses,
    state.classInstance clazz = state.classInstance other → clazz = other
  all : ∃ array, state.ALL = some array ∧
    state.heap.Holds array (program.getAllClasses.map state.classInstance)

end NovaC.Startup
