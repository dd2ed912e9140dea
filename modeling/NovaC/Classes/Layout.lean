import NovaC.Names.Clashes

namespace NovaC.Classes

open NovaC.Names

structure FieldDeclaration where
  /-- what `generateModifiersSource` gives -/
  type : Text
  name : Text
  isInstance : Bool
  /-- set when `doesForceOriginalName()` -/
  externalName : Option Text
deriving DecidableEq

structure ClosureVariable where
  name : Text
  isInstance : Bool
  /-- set when `doesForceOriginalName()` -/
  externalName : Option Text
deriving DecidableEq

structure Declarations where
  /-- `generateSourceName()` of the class -/
  className : Text
  isTrait : Bool
  publicFields : List FieldDeclaration
  privateFields : List FieldDeclaration
  publicClosureVariables : List ClosureVariable
  privateClosureVariables : List ClosureVariable

/-- What a class declares itself, and what the classes declare that
`getExtendedClassDeclaration()` leads to, the nearest first. -/
structure ClassDeclaration where
  declared : Declarations
  superclasses : List Declarations

/-- One data member in the text of a struct. -/
inductive Member where
  | vtable (className : Text)
  /-- `struct Private_X*`, or `void*` where there is no such struct. -/
  | prv (privateStruct : Option Text)
  | data (type name : Text)
deriving DecidableEq

/-- `VariableDeclarationWriter.generateSource` of a field -/
def FieldDeclaration.generateSource (className : Text) (field : FieldDeclaration) : Member :=
  .data field.type
    (generateIdentifierSourceName className field.name field.isInstance field.externalName none)

def ClosureVariable.generateDeclaration (className : Text) (closure : ClosureVariable) : Member :=
  .data "nova_funcStruct*".toList
    (generateIdentifierSourceName className closure.name closure.isInstance closure.externalName
      none)

/-- `generateDeclaration` of each. -/
def generateDeclarations (className : Text) (closures : List ClosureVariable) : List Member :=
  closures.map (·.generateDeclaration className)

/-- The public list of `InstanceFieldListWriter.generateHeader`: the one of the
superclass first. -/
def InstanceFieldListWriter.generateHeader (declared : Declarations) :
    List Declarations → List Member
  | [] => declared.publicFields.map (·.generateSource declared.className)
  | extended :: superclasses =>
      InstanceFieldListWriter.generateHeader extended superclasses ++
        declared.publicFields.map (·.generateSource declared.className)

def InstanceFieldListWriter.generateSource (className : Text) (fields : List FieldDeclaration) :
    List Member :=
  fields.map (·.generateSource className)

/-- The members of `CCLASS_CLASS`. -/
def ClassDeclarationWriter.generateHeader
    (containsNonStaticPrivateData : ClassDeclaration → Bool) (node : ClassDeclaration) :
    List Member :=
  .vtable node.declared.className ::
    .prv (if containsNonStaticPrivateData node then some node.declared.className else none) ::
    ((if node.declared.isTrait then []
      else InstanceFieldListWriter.generateHeader node.declared node.superclasses) ++
      generateDeclarations node.declared.className node.declared.publicClosureVariables)

/-- The members of `CCLASS_PRIVATE`. -/
def ClassDeclarationWriter.generatePrivateFieldsSource (declared : Declarations) :
    List Declarations → List Member
  | [] =>
      generateDeclarations declared.className declared.privateClosureVariables ++
        InstanceFieldListWriter.generateSource declared.className declared.privateFields
  | extended :: superclasses =>
      ClassDeclarationWriter.generatePrivateFieldsSource extended superclasses ++
        (generateDeclarations declared.className declared.privateClosureVariables ++
          InstanceFieldListWriter.generateSource declared.className declared.privateFields)

/-- The place of a member in its struct: the first two members of every object
are pointers, to structs that each class has its own of. -/
def Member.slot : Member → Member
  | .vtable _ => .vtable []
  | .prv _ => .prv none
  | other => other

/-- A pointer to the subclass can be used as a pointer to the superclass. -/
def LayoutCompatible (containsNonStaticPrivateData : ClassDeclaration → Bool)
    (superclass subclass : ClassDeclaration) : Prop :=
  (ClassDeclarationWriter.generateHeader containsNonStaticPrivateData superclass).map Member.slot <+:
      (ClassDeclarationWriter.generateHeader containsNonStaticPrivateData subclass).map
        Member.slot ∧
    ClassDeclarationWriter.generatePrivateFieldsSource superclass.declared
        superclass.superclasses <+:
      ClassDeclarationWriter.generatePrivateFieldsSource subclass.declared subclass.superclasses

/-- A field or a closure variable, and the class that declares it. -/
structure Variable where
  type : Text
  className : Text
  name : Text
  isInstance : Bool
  externalName : Option Text

namespace Variable

def ofField (className : Text) (field : FieldDeclaration) : Variable :=
  ⟨field.type, className, field.name, field.isInstance, field.externalName⟩

def ofClosure (className : Text) (closure : ClosureVariable) : Variable :=
  ⟨"nova_funcStruct*".toList, className, closure.name, closure.isInstance, closure.externalName⟩

variable (first second : Variable)

/-- The words in front of the last `Nova`. -/
def front : List Word :=
  words first.className ++ if first.isInstance then [] else ["static".toList]

/-- They have the same type, and their classes and names do not tell them apart. -/
def Alike : Prop :=
  first.type = second.type ∧
    match first.externalName, second.externalName with
    | none, none => Confusable first.front first.name second.front second.name
    | some external, none => words external = second.front ++ LANGUAGE_NAME :: words second.name
    | none, some external => words external = first.front ++ LANGUAGE_NAME :: words first.name
    | some external, some other => external = other

def member : Member :=
  .data first.type (generateIdentifierSourceName first.className first.name first.isInstance
    first.externalName none)

variable {first second}

theorem words_sourceName (unforced : first.externalName = none) :
    words (generateIdentifierSourceName first.className first.name first.isInstance
      first.externalName none) = first.front ++ LANGUAGE_NAME :: words first.name := by
  rw [unforced, words_generateIdentifierSourceName, front, List.append_assoc]
  rfl

theorem member_eq_iff : first.member = second.member ↔ first.Alike second := by
  rw [member, member, Member.data.injEq, Alike, and_congr_right_iff]
  intro _
  cases forced : first.externalName with
  | none =>
      have spelled := words_sourceName forced
      rw [forced] at spelled
      rw [← words_injective, spelled]
      cases otherForced : second.externalName with
      | none =>
          have otherSpelled := words_sourceName otherForced
          rw [otherForced] at otherSpelled
          rw [otherSpelled, confusable_iff]
      | some other => exact eq_comm
  | some external =>
      cases otherForced : second.externalName with
      | none =>
          have otherSpelled := words_sourceName otherForced
          rw [otherForced] at otherSpelled
          rw [← words_injective, otherSpelled]
          rfl
      | some other => rfl

end Variable

theorem map_prefix_map_iff {α β : Type} {map : α → β} {front whole : List α} :
    front.map map <+: whole.map map ↔
      ∃ taken rest, whole = taken ++ rest ∧
        List.Forall₂ (fun element other => map element = map other) front taken := by
  induction front generalizing whole with
  | nil => exact iff_of_true List.nil_prefix ⟨[], whole, rfl, .nil⟩
  | cons element front ih =>
      cases whole with
      | nil => simp
      | cons other whole =>
          rw [List.map_cons, List.map_cons, List.cons_prefix_cons, ih]
          constructor
          · rintro ⟨same, taken, rest, rfl, others⟩
            exact ⟨other :: taken, rest, rfl, .cons same others⟩
          · rintro ⟨taken, rest, whole, alike⟩
            cases alike with
            | cons same others =>
                obtain ⟨rfl, rfl⟩ := List.cons.inj whole
                exact ⟨same, _, rest, rfl, others⟩

section Below

variable (superclass : ClassDeclaration) (declared : Declarations) (between : List Declarations)

/-- The class with these declarations, with `between` the classes between it and
its superclass, the nearest to it first. -/
def subclassOf : ClassDeclaration where
  declared := declared
  superclasses := between ++ superclass.declared :: superclass.superclasses

def Declarations.fieldVariables (declared : Declarations) : List Variable :=
  declared.publicFields.map (.ofField declared.className)

def Declarations.closureVariables (declared : Declarations) : List Variable :=
  declared.publicClosureVariables.map (.ofClosure declared.className)

/-- The public fields declared below the superclass, in the order of the struct. -/
def fieldsBelow : List Variable :=
  between.reverse.flatMap Declarations.fieldVariables ++ declared.fieldVariables

theorem generateHeader_below :
    InstanceFieldListWriter.generateHeader declared
        (between ++ superclass.declared :: superclass.superclasses) =
      InstanceFieldListWriter.generateHeader superclass.declared superclass.superclasses ++
        (fieldsBelow declared between).map Variable.member := by
  induction between generalizing declared with
  | nil =>
      rw [List.nil_append, InstanceFieldListWriter.generateHeader, fieldsBelow, List.reverse_nil,
        List.flatMap_nil, List.nil_append, Declarations.fieldVariables, List.map_map]
      rfl
  | cons middle between ih =>
      have fields : declared.publicFields.map (·.generateSource declared.className) =
          declared.fieldVariables.map Variable.member := by
        rw [Declarations.fieldVariables, List.map_map]
        rfl
      rw [List.cons_append, InstanceFieldListWriter.generateHeader, ih, List.append_assoc, fields]
      simp [fieldsBelow]

theorem generatePrivateFieldsSource_below :
    ClassDeclarationWriter.generatePrivateFieldsSource superclass.declared
        superclass.superclasses <+:
      ClassDeclarationWriter.generatePrivateFieldsSource declared
        (between ++ superclass.declared :: superclass.superclasses) := by
  induction between generalizing declared with
  | nil => exact List.prefix_append _ _
  | cons middle between ih =>
      rw [List.cons_append, ClassDeclarationWriter.generatePrivateFieldsSource]
      exact (ih middle).trans (List.prefix_append _ _)

theorem generateDeclarations_eq :
    generateDeclarations declared.className declared.publicClosureVariables =
      declared.closureVariables.map Variable.member := by
  rw [Declarations.closureVariables, List.map_map]
  rfl

theorem map_slot_data {members : List Member}
    (data : ∀ member ∈ members, ∃ type name, member = .data type name) :
    members.map Member.slot = members := by
  refine (List.map_congr_left fun member inside => ?_).trans (List.map_id' members)
  obtain ⟨type, name, rfl⟩ := data member inside
  rfl

theorem generateHeader_data :
    ∀ member ∈ InstanceFieldListWriter.generateHeader declared between,
      ∃ type name, member = .data type name := by
  induction between generalizing declared with
  | nil =>
      intro member inside
      obtain ⟨field, _, rfl⟩ := List.mem_map.mp inside
      exact ⟨_, _, rfl⟩
  | cons middle between ih =>
      intro member inside
      rcases List.mem_append.mp inside with inside | inside
      · exact ih middle member inside
      · obtain ⟨field, _, rfl⟩ := List.mem_map.mp inside
        exact ⟨_, _, rfl⟩

theorem members_data (closures : List Variable) :
    ∀ member ∈ InstanceFieldListWriter.generateHeader declared between ++
        closures.map Variable.member, ∃ type name, member = .data type name := by
  intro member inside
  rcases List.mem_append.mp inside with inside | inside
  · exact generateHeader_data declared between member inside
  · obtain ⟨closure, _, rfl⟩ := List.mem_map.mp inside
    exact ⟨_, _, rfl⟩

end Below

/-- The layout of a class is compatible with that of a superclass exactly when the superclass
declares no public closure variable, or its closure variables cannot be told apart from what is
declared below it: C names have the class in them, so that to declare a closure variable again
does not bring it about. -/
theorem layoutCompatible_iff (containsNonStaticPrivateData : ClassDeclaration → Bool)
    (superclass : ClassDeclaration) (declared : Declarations) (between : List Declarations)
    (superclass_class : superclass.declared.isTrait = false)
    (subclass_class : declared.isTrait = false) :
    LayoutCompatible containsNonStaticPrivateData superclass
        (subclassOf superclass declared between) ↔
      superclass.declared.publicClosureVariables = [] ∨
        ∃ taken rest, fieldsBelow declared between ++ declared.closureVariables = taken ++ rest ∧
          List.Forall₂ Variable.Alike superclass.declared.closureVariables taken := by
  have privateHalf := generatePrivateFieldsSource_below superclass declared between
  have closures : LayoutCompatible containsNonStaticPrivateData superclass
        (subclassOf superclass declared between) ↔
      superclass.declared.closureVariables.map Variable.member <+:
        (fieldsBelow declared between ++ declared.closureVariables).map Variable.member := by
    simp only [LayoutCompatible, ClassDeclarationWriter.generateHeader, subclassOf,
      superclass_class, subclass_class, List.map_cons, Member.slot, List.cons_prefix_cons, true_and,
      and_true, privateHalf, Bool.false_eq_true, if_false, generateDeclarations_eq]
    rw [map_slot_data (members_data _ _ _), map_slot_data (members_data _ _ _),
      generateHeader_below, List.append_assoc, List.prefix_append_right_inj, List.map_append]
  simp only [closures, map_prefix_map_iff, Variable.member_eq_iff]
  refine ⟨.inr, fun condition => condition.elim (fun none => ?_) id⟩
  refine ⟨[], _, rfl, ?_⟩
  rw [Declarations.closureVariables, none]
  exact .nil

/-- A class with the public closure variable `then`. -/
def promise : Declarations where
  className := "nova_Nova_Promise".toList
  isTrait := false
  publicFields := [⟨"int".toList, "count".toList, true, none⟩]
  privateFields := [⟨"int".toList, "seed".toList, true, none⟩]
  publicClosureVariables := [⟨"then".toList, true, none⟩]
  privateClosureVariables := [⟨"onChange".toList, true, none⟩]

/-- The subclass declares `then` again. -/
theorem layoutCompatible_again :
    LayoutCompatible (fun _ => true) ⟨promise, []⟩
        (subclassOf ⟨promise, []⟩
          { promise with className := "nova_Nova_Task".toList, publicFields := [] } []) ↔
      promise.publicClosureVariables = [] ∨
        ∃ taken rest,
          fieldsBelow { promise with className := "nova_Nova_Task".toList, publicFields := [] } [] ++
              { promise with className := "nova_Nova_Task".toList }.closureVariables =
            taken ++ rest ∧
          List.Forall₂ Variable.Alike promise.closureVariables taken :=
  layoutCompatible_iff (fun _ => true) ⟨promise, []⟩
    { promise with className := "nova_Nova_Task".toList, publicFields := [] } [] rfl rfl

/-- The superclass has the public closure variable `then`, its subclass the public field
`count`: the field stands where the closure variable was. -/
theorem closure_displaced_by_field :
    ¬ LayoutCompatible (fun _ => true) ⟨{ promise with publicFields := [] }, []⟩
      (subclassOf ⟨{ promise with publicFields := [] }, []⟩
        { promise with
          className := "nova_Nova_Task".toList
          publicClosureVariables := [] } []) := by
  unfold LayoutCompatible
  decide

end NovaC.Classes
