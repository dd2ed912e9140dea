import NovaC.Inheritance.Hierarchy

namespace NovaC.Conditionals

open NovaC.Inheritance

/-- A hierarchy with the compiler's `getCommonAncestor`, where `none` is `null`. -/
structure ClassDeclarations (Class : Type) extends Hierarchy Class where
  getCommonAncestor : Class → Class → Option Class
  nearest : ∀ {left right common}, getCommonAncestor left right = some common →
    toHierarchy.Nearest left right common
  unrelated : ∀ {left right}, getCommonAncestor left right = none →
    ∀ other, toHierarchy.Ancestor other left → ¬toHierarchy.Ancestor other right

/-- What `getTypeClass` and `generateTypeCast` give for a value. -/
structure Value (Class : Type) where
  typeClass : Class
  typeCast : String
deriving DecidableEq

/-- The returned node of an arm, with what a method call calls. -/
inductive Returned (Class : Type) where
  | methodCall (call callableMethodBase : Value Class)
  | value (value : Value Class)
deriving DecidableEq

structure Arm (Class : Type) where
  fragment : String
  isCast : Bool
  returned : Returned Class
deriving DecidableEq

structure TernaryOperation (Class : Type) where
  typeCast : String
  condition : String
  trueArm : Arm Class
  falseArm : Arm Class
deriving DecidableEq

variable {Class : Type}

def Arm.node (arm : Arm Class) : Value Class :=
  match arm.returned with
  | .methodCall _ callableMethodBase => callableMethodBase
  | .value value => value

def Arm.type (arm : Arm Class) : Class :=
  arm.node.typeClass

namespace TernaryOperation

def swap (operation : TernaryOperation Class) : TernaryOperation Class :=
  { operation with trueArm := operation.falseArm, falseArm := operation.trueArm }

section Writer

variable [DecidableEq Class] (classes : ClassDeclarations Class) (operation : TernaryOperation Class)

/-- The value whose type both arms are cast to, if they are. -/
def castNode : Option (Value Class) :=
  let trueNode := operation.trueArm.node
  let falseNode := operation.falseArm.node
  let trueType := trueNode.typeClass
  let falseType := falseNode.typeClass
  if trueType ≠ falseType ∨ operation.trueArm.isCast = true ∨ operation.falseArm.isCast = true then
    let commonClass := classes.getCommonAncestor trueType falseNode.typeClass
    if some trueType ≠ commonClass then some falseNode else some trueNode
  else none

def generateSourceFragment : String :=
  let cast := (operation.castNode classes).elim "" Value.typeCast
  let trueValue := cast ++ operation.trueArm.fragment
  let falseValue := cast ++ operation.falseArm.fragment
  operation.typeCast ++ "(" ++ operation.condition ++ " ? " ++ trueValue ++ " : " ++ falseValue ++ ")"

/-- The arm is cast to a type that its value does not have. -/
def Narrows (arm : Arm Class) : Prop :=
  ∃ node, operation.castNode classes = some node ∧ ¬classes.Ancestor node.typeClass arm.type

structure CastInCommon : Prop where
  common : ∃ node, operation.castNode classes = some node ∧
    classes.Ancestor node.typeClass operation.trueArm.type ∧
    classes.Ancestor node.typeClass operation.falseArm.type
  swapped : ∀ arm, arm = operation.trueArm ∨ arm = operation.falseArm →
    (operation.Narrows classes arm ↔ operation.swap.Narrows classes arm)

end Writer

section Casts

variable [DecidableEq Class] {classes : ClassDeclarations Class} {operation : TernaryOperation Class}

/-- Both arms get the false arm's type, unless the true arm's is above it. -/
theorem castNode_eq (different : operation.trueArm.type ≠ operation.falseArm.type) :
    operation.castNode classes =
      if classes.Ancestor operation.trueArm.type operation.falseArm.type then
        some operation.trueArm.node
      else some operation.falseArm.node := by
  have casts : operation.trueArm.node.typeClass ≠ operation.falseArm.node.typeClass ∨
      operation.trueArm.isCast = true ∨ operation.falseArm.isCast = true := .inl different
  rw [castNode, if_pos casts]
  by_cases above : classes.Ancestor operation.trueArm.type operation.falseArm.type
  · rw [if_pos above, if_neg]
    rw [not_not]
    cases found : classes.getCommonAncestor operation.trueArm.type operation.falseArm.type with
    | none => exact absurd above (classes.unrelated found _ (.refl _ _))
    | some common =>
        have same := (classes.nearest found).eq_left above
        rw [same] at found
        exact found.symm
  · rw [if_neg above, if_pos]
    intro found
    exact above (classes.nearest found.symm).ofRight

theorem castNode_of_related (different : operation.trueArm.type ≠ operation.falseArm.type)
    (related : classes.Ancestor operation.trueArm.type operation.falseArm.type ∨
      classes.Ancestor operation.falseArm.type operation.trueArm.type) :
    ∃ node, operation.castNode classes = some node ∧
      classes.Ancestor node.typeClass operation.trueArm.type ∧
      classes.Ancestor node.typeClass operation.falseArm.type := by
  rw [castNode_eq different]
  by_cases above : classes.Ancestor operation.trueArm.type operation.falseArm.type
  · exact ⟨_, if_pos above, .refl _ _, above⟩
  · exact ⟨_, if_neg above, related.resolve_left above, .refl _ _⟩

theorem not_narrows_of_related (different : operation.trueArm.type ≠ operation.falseArm.type)
    (related : classes.Ancestor operation.trueArm.type operation.falseArm.type ∨
      classes.Ancestor operation.falseArm.type operation.trueArm.type)
    {arm : Arm Class} (isArm : arm = operation.trueArm ∨ arm = operation.falseArm) :
    ¬operation.Narrows classes arm := by
  intro narrows
  obtain ⟨node, isCast, narrowed⟩ := narrows
  obtain ⟨common, isCommon, ofTrue, ofFalse⟩ := castNode_of_related different related
  cases isCast.symm.trans isCommon
  rcases isArm with rfl | rfl
  · exact narrowed ofTrue
  · exact narrowed ofFalse

end Casts

/-- Both arms keep their values exactly when the type of one is an ancestor of the other's. -/
theorem cast_in_common_iff [DecidableEq Class] (classes : ClassDeclarations Class)
    (operation : TernaryOperation Class)
    (different : operation.trueArm.type ≠ operation.falseArm.type) :
    operation.CastInCommon classes ↔
      classes.Ancestor operation.trueArm.type operation.falseArm.type ∨
        classes.Ancestor operation.falseArm.type operation.trueArm.type := by
  constructor
  · intro inCommon
    obtain ⟨node, isCast, ofTrue, ofFalse⟩ := inCommon.common
    rw [castNode_eq different] at isCast
    split at isCast
    · rename_i above
      exact .inl above
    · cases isCast
      exact .inr ofTrue
  · intro related
    refine ⟨castNode_of_related different related, ?_⟩
    intro arm isArm
    have unswapped := not_narrows_of_related different related isArm
    have swapped : ¬operation.swap.Narrows classes arm :=
      not_narrows_of_related different.symm related.symm isArm.symm
    exact iff_of_false unswapped swapped

section Numbers

inductive NumberClass where
  | object
  | number
  | int
  | double
deriving DecidableEq

def numbers : Hierarchy NumberClass where
  parent
    | .object => none
    | .number => some .object
    | .int => some .number
    | .double => some .number
  depth
    | .object => 0
    | .number => 1
    | .int => 2
    | .double => 2
  below := by
    intro descendant ancestor extended
    cases descendant <;> cases ancestor <;> simp at extended ⊢

def numberClasses : ClassDeclarations NumberClass :=
  { numbers with
    getCommonAncestor := numbers.commonAncestor
    nearest := Hierarchy.commonAncestor_nearest
    unrelated := Hierarchy.commonAncestor_none }

def choice (trueType falseType : NumberClass) : TernaryOperation NumberClass :=
  { typeCast := "(nova_Nova_Number*)"
    condition := "c"
    trueArm := ⟨"a", false, .value ⟨trueType, "(A)"⟩⟩
    falseArm := ⟨"b", false, .value ⟨falseType, "(B)"⟩⟩ }

theorem cast_in_common_iff_int :
    (choice .number .int).CastInCommon numberClasses ↔
      numberClasses.Ancestor .number .int ∨ numberClasses.Ancestor .int .number :=
  cast_in_common_iff numberClasses (choice .number .int) (by decide)

/-- An `Int` and a `Double` are both cast to the `Double`, and never to a `Number`. -/
theorem siblings_narrowed : ¬(choice .int .double).CastInCommon numberClasses := by
  intro inCommon
  obtain ⟨node, isCast, ofTrue, -⟩ := inCommon.common
  have isDouble : (choice .int .double).castNode numberClasses = some ⟨.double, "(B)"⟩ := by decide
  cases isCast.symm.trans isDouble
  exact absurd ofTrue (by decide)

end Numbers

end TernaryOperation

end NovaC.Conditionals
