import NovaC.Startup.ClassObjects

namespace NovaC.Startup

variable {Class Object : Type}

section Keeping

variable {base middle after : List Object}

theorem Kept.refl (objects : List Object) : Kept objects objects := fun _ _ => id

theorem Kept.trans (first : Kept base middle) (second : Kept middle after) : Kept base after :=
  fun id object found => second id object (first id object found)

theorem Kept.append (objects more : List Object) : Kept objects (objects ++ more) :=
  fun _ _ found => (List.getElem?_append_left (List.getElem?_eq_some_iff.mp found).1).trans found

theorem Kept.set {id : Nat} (kept : Kept base after) (fresh : base[id]? = none) (object : Object) :
    Kept base (after.set id object) := by
  intro other value found
  have different : id ≠ other := by
    rintro rfl
    rw [fresh] at found
    cases found
  rw [List.getElem?_set_ne different]
  exact kept other value found

variable {first second third : Heap Class}

theorem Heap.Extends.refl (heap : Heap Class) : heap.Extends heap :=
  ⟨.refl _, .refl _, .refl _⟩

theorem Heap.Extends.append (heap : Heap Class) (more : C.Pool Reference) :
    heap.Extends { heap with blocks := heap.blocks ++ more } :=
  ⟨.refl _, .refl _, .append _ _⟩

theorem Heap.Extends.trans (earlier : first.Extends second) (later : second.Extends third) :
    first.Extends third :=
  ⟨earlier.arrays.trans later.arrays, earlier.maps.trans later.maps,
    earlier.blocks.trans later.blocks⟩

theorem Heap.Extends.assign (extends' : first.Extends second) (id : Nat) (data : ClassObject) :
    first.Extends (second.assign id data) :=
  ⟨extends'.arrays, extends'.maps, extends'.blocks⟩

theorem Heap.Keeps.trans (earlier : first.Keeps second) (later : second.Keeps third) :
    first.Keeps third :=
  ⟨earlier.toExtends.trans later.toExtends, earlier.classes.trans later.classes⟩

/-- What is assigned to a new object changes nothing of before. -/
theorem Heap.Keeps.assign {id : Nat} (keeps : first.Keeps second)
    (fresh : first.classes[id]? = none) (data : ClassObject) :
    first.Keeps (second.assign id data) :=
  ⟨keeps.toExtends.assign id data, keeps.classes.set fresh data⟩

theorem Heap.Holds.extend {array : Nat} {values : List Reference} (holds : first.Holds array values)
    (extends' : first.Extends second) : second.Holds array values := by
  obtain ⟨contents, found, filled, count⟩ := holds
  exact ⟨contents, extends'.arrays _ _ found, extends'.blocks _ _ filled, count⟩

variable {program : Program Class} {instances : Class → Reference} {clazz : Class}
  {data : ClassObject}

theorem Constructs.extend (constructs : Constructs program first clazz data)
    (extends' : first.Extends second) : Constructs program second clazz data where
  location := constructs.location
  isInterface := constructs.isInterface
  maps type value notMap isClass := by
    obtain ⟨id, assigned, found⟩ := constructs.maps type value notMap isClass
    exact ⟨id, assigned, extends'.maps _ _ found⟩

theorem Describes.extend (describes : Describes program instances first clazz data)
    (extends' : first.Extends second) : Describes program instances second clazz data where
  toConstructs := describes.toConstructs.extend extends'
  extension := describes.extension
  interfaces := by
    obtain ⟨array, assigned, holds⟩ := describes.interfaces
    exact ⟨array, assigned, holds.extend extends'⟩

end Keeping

theorem assign_object {state : State Class} {clazz : Class} {id : Nat} {data : ClassObject}
    (instanceOf : state.classInstance clazz = .object id)
    (found : state.heap.classes[id]? = some data) (change : ClassObject → ClassObject) :
    state.assign clazz change =
      some { state with heap := state.heap.assign id (change data) } := by
  rw [State.assign, instanceOf]
  simp only [found, Option.bind_eq_bind, Option.bind_some]

/-- Each of the first classes has an object of its own. -/
structure Constructed (program : Program Class) (done rest : List Class)
    (state : State Class) : Prop where
  nodup : (done ++ rest).Nodup
  constructed : ∀ clazz ∈ done, ∃ id data, state.classInstance clazz = .object id ∧
    state.heap.classes[id]? = some data ∧ Constructs program state.heap clazz data
  distinct : ∀ clazz ∈ done, ∀ other ∈ done,
    state.classInstance clazz = state.classInstance other → clazz = other

/-- The objects of the first classes describe them, those of the others are as constructed. -/
structure Linked (program : Program Class) (instances : Class → Reference)
    (done rest : List Class) (state : State Class) : Prop where
  nodup : (done ++ rest).Nodup
  same : state.classInstance = instances
  distinct : ∀ clazz ∈ done ++ rest, ∀ other ∈ done ++ rest,
    instances clazz = instances other → clazz = other
  described : ∀ clazz ∈ done, ∃ id data, instances clazz = .object id ∧
    state.heap.classes[id]? = some data ∧ Describes program instances state.heap clazz data
  constructed : ∀ clazz ∈ rest, ∃ id data, instances clazz = .object id ∧
    state.heap.classes[id]? = some data ∧ Constructs program state.heap clazz data

theorem Constructed.linked {program : Program Class} {classes : List Class} {state : State Class}
    (before : Constructed program classes [] state) :
    Linked program state.classInstance [] classes state where
  nodup := List.append_nil classes ▸ before.nodup
  same := rfl
  distinct := before.distinct
  described _ member := absurd member List.not_mem_nil
  constructed := before.constructed

variable [DecidableEq Class] {program : Program Class} {library : Library Class}
  {state : State Class}

@[simp] theorem execAll_singleton (statement : Statement Class) (state : State Class) :
    execAll library [statement] state = exec library statement state := by
  rw [execAll]
  cases exec library statement state <;> rfl

theorem execAll_append (first rest : List (Statement Class)) (state : State Class) :
    execAll library (first ++ rest) state =
      (execAll library first state).bind (execAll library rest) := by
  induction first generalizing state with
  | nil => rfl
  | cons statement first ih =>
      rw [List.cons_append, execAll, execAll, Option.bind_assoc]
      exact congrArg _ (funext ih)

/-- A loop over the classes that emits some lines for each: what the lines of one class
establish for it, after the classes before it, holds of all of them at the end. -/
theorem execAll_flatMap {emit : Class → List (Statement Class)}
    {Inv : List Class → List Class → State Class → Prop}
    (one : ∀ done clazz rest state, Inv done (clazz :: rest) state →
      ∃ after, execAll library (emit clazz) state = some after ∧ Inv (done ++ [clazz]) rest after)
    {done rest : List Class} {state : State Class} (before : Inv done rest state) :
    ∃ after, execAll library (rest.flatMap emit) state = some after ∧
      Inv (done ++ rest) [] after := by
  induction rest generalizing done state with
  | nil => exact ⟨state, rfl, by rwa [List.append_nil]⟩
  | cons clazz rest ih =>
      obtain ⟨middle, ranOne, kept⟩ := one done clazz rest state before
      obtain ⟨after, ranRest, whole⟩ := ih kept
      refine ⟨after, ?_, ?_⟩
      · rw [List.flatMap_cons, execAll_append, ranOne, Option.bind_some, ranRest]
      · rwa [List.append_assoc] at whole

section Arrays

variable {name : Pointer} {block : Nat} {values : List Class}

theorem elements_fill {written : List (Option Reference)}
    (pointer : state.pointers name = some block)
    (found : state.heap.blocks[block]? =
      some (some (written ++ List.replicate values.length none))) :
    execAll library (elements name written.length values) state = some { state with
      heap := { state.heap with
        blocks := state.heap.blocks.set block
          (some (written ++ (values.map state.classInstance).map some)) } } := by
  induction values generalizing state written with
  | nil =>
      rw [elements, execAll]
      have same : state.heap.blocks.set block (some (written ++ [])) = state.heap.blocks := by
        obtain ⟨inside, here⟩ := List.getElem?_eq_some_iff.mp found
        rw [List.length_nil, List.replicate_zero] at here
        rw [← here]
        exact List.set_getElem_self inside
      rw [List.map_nil, List.map_nil, same]
  | cons value values ih =>
      have inside := C.Pool.lt_length found
      have room : written.length <
          (written ++ List.replicate (value :: values).length none).length := by
        simp
      have stored := C.Pool.store_inside found room (state.classInstance value)
      rw [List.set_append_right _ _ (Nat.le_refl _), Nat.sub_self, List.length_cons,
        List.replicate_succ, List.set_cons_zero] at stored
      have ran : exec library (.element name written.length value) state = some { state with
          heap := { state.heap with
            blocks := state.heap.blocks.set block (some (written ++
              some (state.classInstance value) :: List.replicate values.length none)) } } := by
        simp only [exec, pointer, Option.bind_eq_bind, Option.bind_some, stored]
      have rest := @ih { state with
          heap := { state.heap with
            blocks := state.heap.blocks.set block (some (written ++
              some (state.classInstance value) :: List.replicate values.length none)) } }
        (written ++ [some (state.classInstance value)]) pointer (by
          rw [List.getElem?_set_self inside, List.append_assoc, List.singleton_append])
      rw [List.length_append, List.length_singleton] at rest
      rw [elements, execAll, ran, Option.bind_some, rest]
      simp only [List.set_set, List.append_assoc, List.singleton_append, List.map_cons]

/-- The variable is left pointing to a new block with the objects of these classes. -/
theorem malloc_elements (name : Pointer) (values : List Class) (state : State Class) :
    execAll library (.malloc name values.length :: elements name 0 values) state = some { state with
      heap := { state.heap with
        blocks := state.heap.blocks ++ [some ((values.map state.classInstance).map some)] }
      pointers := Function.update state.pointers name (some state.heap.blocks.length) } := by
  have filled := @elements_fill Class _ library { state with
      heap := { state.heap with
        blocks := state.heap.blocks ++ [some (List.replicate values.length none)] }
      pointers := Function.update state.pointers name (some state.heap.blocks.length) }
    name state.heap.blocks.length values [] (Function.update_self ..)
    (by rw [List.nil_append, List.getElem?_concat_length])
  rw [execAll, exec]
  simp only [C.Pool.malloc, Option.bind_some]
  rw [List.length_nil] at filled
  rw [filled]
  simp only [List.nil_append]
  rw [List.set_append_right _ _ (Nat.le_refl _), Nat.sub_self, List.set_cons_zero]

end Arrays

section Objects

variable {clazz : Class} {id : Nat} {data : ClassObject}

/-- A map is a new object of its class, in its field and in no other one. -/
theorem generateMap_assign (lawful : library.Lawful) (type : Map)
    (instanceOf : state.classInstance clazz = .object id)
    (found : state.heap.classes[id]? = some data) {base : Heap Class}
    (fresh : base.classes[id]? = none) (keeps : base.Keeps state.heap) :
    ∃ heap maps, execAll library (program.generateMap type clazz) state =
        some { state with heap } ∧
      base.Keeps heap ∧ state.heap.Extends heap ∧
      heap.classes[id]? = some { data with maps } ∧
      (∀ other, other ≠ type → maps other = data.maps other) ∧
      ∀ value, program.mapClass clazz type = some value →
        ∃ map, maps type = some map ∧ heap.maps[map]? = some value := by
  rw [Program.generateMap]
  cases program.mapClass clazz type with
  | none => exact ⟨state.heap, data.maps, rfl, keeps, .refl _, found, fun _ _ => rfl, nofun⟩
  | some value =>
      have made := lawful.newMap_keeps value state.heap
      have kept := made.classes _ _ found
      refine ⟨_, Function.update data.maps type (some (library.newMap value state.heap).1), ?_,
        (keeps.trans made).assign fresh _, made.toExtends.assign id _,
        List.getElem?_set_self (List.getElem?_eq_some_iff.mp kept).1,
        fun other different => Function.update_of_ne different .., fun _ same => ?_⟩
      · rw [execAll_singleton, exec]
        exact @assign_object _ { state with heap := (library.newMap value state.heap).2 } _ _ _
          instanceOf kept _
      · cases same
        exact ⟨_, Function.update_self .., lawful.newMap_class value state.heap⟩

theorem generateVTableClassInstanceAssignment_constructs (lawful : library.Lawful)
    (program : Program Class) (state : State Class) (clazz : Class) :
    ∃ id heap data,
      execAll library (program.generateVTableClassInstanceAssignment clazz) state =
          some { state with
            heap, classInstance := Function.update state.classInstance clazz (.object id) } ∧
        state.heap.classes[id]? = none ∧ state.heap.Keeps heap ∧
        heap.classes[id]? = some data ∧ Constructs program heap clazz data := by
  have fresh := lawful.newClass_fresh (program.getClassLocation clazz) (program.isTrait clazz)
    state.heap
  have made := lawful.newClass_keeps (program.getClassLocation clazz) (program.isTrait clazz)
    state.heap
  obtain ⟨data, found, location, isInterface⟩ := lawful.newClass_fields
    (program.getClassLocation clazz) (program.isTrait clazz) state.heap
  have ran (rest : List (Statement Class)) : execAll library (.classInstance clazz
      (program.getClassLocation clazz) (program.isTrait clazz) :: rest) state =
        execAll library rest { state with
          heap := (library.newClass (program.getClassLocation clazz) (program.isTrait clazz)
            state.heap).2
          classInstance := Function.update state.classInstance clazz (.object
            (library.newClass (program.getClassLocation clazz) (program.isTrait clazz)
              state.heap).1) } := rfl
  rw [Program.generateVTableClassInstanceAssignment, ran]
  generalize library.newClass (program.getClassLocation clazz) (program.isTrait clazz) state.heap =
    result at *
  obtain ⟨id, heap⟩ := result
  cases isMap : program.functionMap clazz with
  | true =>
      refine ⟨id, heap, data, rfl, fresh, made, found, location, isInterface, fun _ _ notMap => ?_⟩
      rw [isMap] at notMap
      cases notMap
  | false =>
      have instanceOf : (Function.update state.classInstance clazz (.object id)) clazz = .object id :=
        Function.update_self ..
      obtain ⟨first, functionMaps, ranFirst, keepsFirst, -, foundFirst, -, functionMap⟩ :=
        @generateMap_assign _ _ program _ { state with
          heap, classInstance := Function.update state.classInstance clazz (.object id) } _ _ _
          lawful .FunctionMap instanceOf found _ fresh made
      obtain ⟨second, maps, ranSecond, keepsSecond, extends', foundSecond, others, propertyMap⟩ :=
        @generateMap_assign _ _ program _ { state with
          heap := first, classInstance := Function.update state.classInstance clazz (.object id) }
          _ _ _ lawful .PropertyMap instanceOf foundFirst _ fresh keepsFirst
      refine ⟨id, second, _, ?_, fresh, keepsSecond, foundSecond, location, isInterface, ?_⟩
      · simp only [Bool.false_eq_true, if_false]
        rw [execAll_append, ranFirst, Option.bind_some, ranSecond]
      · intro type value _ isClass
        cases type with
        | FunctionMap =>
            obtain ⟨map, assigned, isMap⟩ := functionMap value isClass
            exact ⟨map, (others .FunctionMap (by decide)).trans assigned,
              extends'.maps _ _ isMap⟩
        | PropertyMap => exact propertyMap value isClass

/-- The superclass and the interfaces are assigned to the object of the class and to no other. -/
theorem generateVTableClassPropertyAssignments_describes (lawful : library.Lawful)
    (instanceOf : state.classInstance clazz = .object id)
    (found : state.heap.classes[id]? = some data)
    (constructs : Constructs program state.heap clazz data) :
    ∃ heap pointers data,
      execAll library (program.generateVTableClassPropertyAssignments clazz) state =
          some { state with heap, pointers } ∧
        state.heap.Extends heap ∧
        (∀ other object, id ≠ other → state.heap.classes[other]? = some object →
          heap.classes[other]? = some object) ∧
        heap.classes[id]? = some data ∧
        Describes program state.classInstance heap clazz data := by
  have inside := (List.getElem?_eq_some_iff.mp found).1
  let extended : ClassObject := { data with
    extension := some
      (((program.getExtendedClassDeclaration clazz).map state.classInstance).getD .nova_null) }
  let values := (program.getImplementedInterfaces clazz).map state.classInstance
  let filled : Heap Class := { state.heap.assign id extended with
    blocks := state.heap.blocks ++ [some (values.map some)] }
  have extendsFilled : state.heap.Extends filled :=
    ((Heap.Extends.refl state.heap).assign id extended).trans (.append _ _)
  let made := library.newImmutableArray state.heap.blocks.length values.length filled
  have keeps : filled.Keeps made.2 := lawful.newImmutableArray_keeps _ _ filled
  have fields : made.2.arrays[made.1]? = some ⟨state.heap.blocks.length, values.length⟩ :=
    lawful.newImmutableArray_fields _ _ filled
  have foundMade : made.2.classes[id]? = some extended :=
    keeps.classes _ _ (List.getElem?_set_self inside)
  have insideMade := (List.getElem?_eq_some_iff.mp foundMade).1
  have extendsMade := extendsFilled.trans keeps.toExtends
  refine ⟨made.2.assign id { extended with interfaces := some made.1 },
    Function.update state.pointers .nova_class_interfaces (some state.heap.blocks.length),
    { extended with interfaces := some made.1 }, ?_, extendsMade.assign _ _, ?_,
    List.getElem?_set_self insideMade, ?_, rfl, made.1, rfl, _, fields, ?_, ?_⟩
  · rw [Program.generateVTableClassPropertyAssignments, Program.generateVTableExtensionAssignment,
      Program.generateVTableInterfaceAssignments, List.singleton_append, execAll, exec,
      assign_object instanceOf found, Option.bind_some, ← List.cons_append, execAll_append,
      malloc_elements, Option.bind_some, execAll_singleton, exec]
    simp only [Function.update_self, Option.bind_eq_bind, Option.bind_some]
    have length : (program.getImplementedInterfaces clazz).length = values.length :=
      (List.length_map _).symm
    rw [length]
    exact @assign_object _ { state with
      heap := made.2
      pointers := Function.update state.pointers .nova_class_interfaces
        (some state.heap.blocks.length) } _ _ _ instanceOf foundMade _
  · intro other object different earlier
    have still := keeps.classes other object ((List.getElem?_set_ne different).trans earlier)
    exact (List.getElem?_set_ne different).trans still
  · exact ⟨constructs.location, constructs.isInterface, (constructs.extend extendsMade).maps⟩
  · exact keeps.blocks _ _ List.getElem?_concat_length
  · rfl

end Objects

theorem Constructed.step (lawful : library.Lawful) {done rest : List Class} {clazz : Class}
    (before : Constructed program done (clazz :: rest) state) :
    ∃ after, execAll library (program.generateVTableClassInstanceAssignment clazz) state =
      some after ∧ Constructed program (done ++ [clazz]) rest after := by
  obtain ⟨nodup, constructed, distinct⟩ := before
  have notDone : clazz ∉ done := fun member =>
    (List.nodup_append.mp nodup).2.2 clazz member clazz List.mem_cons_self rfl
  obtain ⟨id, heap, data, ran, fresh, keeps, found, constructs⟩ :=
    generateVTableClassInstanceAssignment_constructs lawful program state clazz
  have here : Function.update state.classInstance clazz (.object id) clazz = .object id :=
    Function.update_self ..
  have earlier {other : Class} (member : other ∈ done) :
      Function.update state.classInstance clazz (.object id) other =
        state.classInstance other := by
    have different : other ≠ clazz := fun same => notDone (same ▸ member)
    exact Function.update_of_ne different ..
  have apart {other : Class} (member : other ∈ done) : state.classInstance other ≠ .object id := by
    obtain ⟨place, object, instanceOther, lookup, -⟩ := constructed other member
    intro same
    obtain rfl := Reference.object.inj (instanceOther.symm.trans same)
    rw [fresh] at lookup
    cases lookup
  refine ⟨_, ran, by rwa [List.append_assoc], ?_, ?_⟩
  · intro other member
    rcases List.mem_append.mp member with isDone | last
    · obtain ⟨place, object, instanceOther, lookup, isConstructed⟩ := constructed other isDone
      exact ⟨place, object, (earlier isDone).trans instanceOther, keeps.classes _ _ lookup,
        isConstructed.extend keeps.toExtends⟩
    · rw [List.mem_singleton.mp last]
      exact ⟨id, data, here, found, constructs⟩
  · intro first firstMember second secondMember same
    dsimp only at same
    rcases List.mem_append.mp firstMember with firstDone | firstLast <;>
      rcases List.mem_append.mp secondMember with secondDone | secondLast
    · rw [earlier firstDone, earlier secondDone] at same
      exact distinct first firstDone second secondDone same
    · rw [List.mem_singleton.mp secondLast, earlier firstDone, here] at same
      exact absurd same (apart firstDone)
    · rw [List.mem_singleton.mp firstLast, earlier secondDone, here] at same
      exact absurd same.symm (apart secondDone)
    · exact (List.mem_singleton.mp firstLast).trans (List.mem_singleton.mp secondLast).symm

theorem Linked.step (lawful : library.Lawful) {instances : Class → Reference}
    {done rest : List Class} {clazz : Class}
    (before : Linked program instances done (clazz :: rest) state) :
    ∃ after, execAll library (program.generateVTableClassPropertyAssignments clazz) state =
      some after ∧ Linked program instances (done ++ [clazz]) rest after := by
  obtain ⟨nodup, rfl, distinct, described, constructed⟩ := before
  obtain ⟨id, data, instanceOf, found, constructs⟩ := constructed clazz List.mem_cons_self
  have here : clazz ∈ done ++ clazz :: rest := List.mem_append_right _ List.mem_cons_self
  have apart : ∀ other ∈ done ++ clazz :: rest, other ≠ clazz →
      ∀ place, state.classInstance other = .object place → id ≠ place := by
    rintro other member different place instanceOther rfl
    exact different (distinct other member clazz here (instanceOther.trans instanceOf.symm))
  have disjoint := (List.nodup_append.mp nodup).2.2
  obtain ⟨heap, pointers, after, ran, extends', others, assigned, describes⟩ :=
    generateVTableClassPropertyAssignments_describes lawful instanceOf found constructs
  refine ⟨_, ran, by rwa [List.append_assoc], rfl, by rwa [List.append_assoc], ?_, ?_⟩
  · intro other member
    rcases List.mem_append.mp member with earlier | last
    · obtain ⟨place, object, instanceOther, lookup, isDescribed⟩ := described other earlier
      have different := apart other (List.mem_append_left _ earlier)
        (disjoint other earlier clazz List.mem_cons_self) place instanceOther
      exact ⟨place, object, instanceOther, others place object different lookup,
        isDescribed.extend extends'⟩
    · rw [List.mem_singleton.mp last]
      exact ⟨id, after, instanceOf, assigned, describes⟩
  · intro other member
    obtain ⟨place, object, instanceOther, lookup, isConstructed⟩ :=
      constructed other (List.mem_cons_of_mem _ member)
    have notClazz : other ≠ clazz := fun same =>
      (List.nodup_cons.mp (List.nodup_append.mp nodup).2.1).1 (same ▸ member)
    have different := apart other (List.mem_append_right _ (List.mem_cons_of_mem _ member))
      notClazz place instanceOther
    exact ⟨place, object, instanceOther, others place object different lookup,
      isConstructed.extend extends'⟩

theorem Linked.established (lawful : library.Lawful)
    (linked : Linked program state.classInstance program.getAllClasses [] state) :
    ∃ after, execAll library program.generateVTableClassArray state = some after ∧
      Established program after := by
  obtain ⟨-, -, distinct, described, -⟩ := linked
  rw [List.append_nil] at distinct
  let values := program.getAllClasses.map state.classInstance
  let filled : Heap Class := { state.heap with
    blocks := state.heap.blocks ++ [some (values.map some)] }
  let made := library.newImmutableArray state.heap.blocks.length values.length filled
  have keeps : filled.Keeps made.2 := lawful.newImmutableArray_keeps _ _ filled
  have fields : made.2.arrays[made.1]? = some ⟨state.heap.blocks.length, values.length⟩ :=
    lawful.newImmutableArray_fields _ _ filled
  refine ⟨{ state with
      heap := made.2
      pointers := Function.update state.pointers .nova_all_classes (some state.heap.blocks.length)
      ALL := some made.1 }, ?_, ?_, distinct, made.1, rfl, _, fields, ?_, rfl⟩
  · rw [Program.generateVTableClassArray, ← List.cons_append, execAll_append, malloc_elements,
      Option.bind_some, execAll_singleton, exec]
    simp only [Function.update_self, Option.bind_eq_bind, Option.bind_some]
    have length : program.getAllClasses.length = values.length := (List.length_map _).symm
    rw [length]
  · intro clazz member
    obtain ⟨id, data, instanceOf, found, describes⟩ := described clazz member
    exact ⟨id, data, instanceOf, keeps.classes _ _ found,
      describes.extend ((Heap.Extends.append _ _).trans keeps.toExtends)⟩
  · exact keeps.blocks _ _ List.getElem?_concat_length

/-- After the start of the program every class has an object of its own, with the location and
the maps of the class, the object of its superclass and an array of the objects of its
interfaces, none of which a later class changes; `ALL` has all of them in order. -/
theorem novaInitProgramData_established (lawful : library.Lawful) (program : Program Class)
    (distinct : program.getAllClasses.Nodup) (heap : Heap Class) :
    ∃ state, execAll library program.novaInitProgramData (.initial heap) = some state ∧
      Established program state := by
  have start : Constructed program [] program.getAllClasses (.initial heap) :=
    ⟨distinct, fun _ member => absurd member List.not_mem_nil,
      fun _ member => absurd member List.not_mem_nil⟩
  obtain ⟨first, constructs, constructed⟩ :=
    execAll_flatMap (fun _ _ _ _ => Constructed.step lawful) start
  rw [List.nil_append] at constructed
  obtain ⟨second, links, linked⟩ :=
    execAll_flatMap (fun _ _ _ _ => Linked.step lawful) constructed.linked
  rw [← linked.same] at linked
  obtain ⟨third, lists, established⟩ := linked.established lawful
  refine ⟨third, ?_, established⟩
  rw [Program.novaInitProgramData, execAll_append, execAll_append,
    Program.generateVTableClassInstanceAssignments, constructs, Option.bind_some,
    Program.generateVTableClassInstancePropertyAssignments, links, Option.bind_some, lists]

/-- `String` has a superclass and an interface in other files, and a map of its functions. -/
def fourClasses : Program Nat where
  files := [[0], [1], [2, 3]]
  getClassLocation clazz :=
    ["nova/Object", "nova/Show", "nova/String", "nova/StringFunctionMap"].getD clazz ""
  isTrait clazz := clazz == 1
  getExtendedClassDeclaration clazz := if clazz = 2 then some 0 else none
  getImplementedInterfaces clazz := if clazz = 2 then [1] else []
  functionMap clazz := clazz == 3
  mapClass clazz type := if clazz = 2 ∧ type = .FunctionMap then some 3 else none

/-- Each constructor puts its object behind those that are there; that of `Class` starts out
without a superclass and with an array of no interfaces. -/
def appending : Library Nat where
  newClass location isInterface heap := (heap.classes.length,
    { heap with
      classes := heap.classes ++ [⟨location, isInterface, fun _ => none, some .nova_null,
        some heap.arrays.length⟩]
      arrays := heap.arrays ++ [⟨heap.blocks.length, 0⟩]
      blocks := heap.blocks ++ [some []] })
  newMap clazz heap := (heap.maps.length, { heap with maps := heap.maps ++ [clazz] })
  newImmutableArray data count heap :=
    (heap.arrays.length, { heap with arrays := heap.arrays ++ [⟨data, count⟩] })

theorem appending_lawful : appending.Lawful where
  newClass_fresh _ _ _ := List.getElem?_eq_none (Nat.le_refl _)
  newClass_fields _ _ _ := ⟨_, List.getElem?_concat_length, rfl, rfl⟩
  newClass_keeps _ _ _ := ⟨⟨.append _ _, .refl _, .append _ _⟩, .append _ _⟩
  newMap_class _ _ := List.getElem?_concat_length
  newMap_keeps _ _ := ⟨⟨.refl _, .append _ _, .refl _⟩, .refl _⟩
  newImmutableArray_fields _ _ _ := List.getElem?_concat_length
  newImmutableArray_keeps _ _ _ := ⟨⟨.append _ _, .refl _, .refl _⟩, .refl _⟩

theorem novaInitProgramData_established_fourClasses :
    ∃ state, execAll appending fourClasses.novaInitProgramData (.initial ⟨[], [], [], []⟩) =
        some state ∧
      Established fourClasses state :=
  novaInitProgramData_established appending_lawful fourClasses (by decide) ⟨[], [], [], []⟩

end NovaC.Startup
