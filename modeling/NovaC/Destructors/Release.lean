import NovaC.Destructors.Writer

namespace NovaC.Destructors

variable {Class : Type} {program : Program Class} {memory : Memory} {this : Pointer}
  {gone blocks : List Nat}

def Memory.without (memory : Memory) (gone : List Nat) : Memory :=
  fun block => if block ∈ gone then none else memory block

/-- The blocks can be released one after the other when those of `gone` have been. -/
def Releasable (memory : Memory) (gone blocks : List Nat) : Prop :=
  blocks.Nodup ∧ ∀ block ∈ blocks, block ∉ gone ∧ (memory block).isSome

instance (memory : Memory) (gone blocks : List Nat) : Decidable (Releasable memory gone blocks) :=
  inferInstanceAs (Decidable (_ ∧ _))

/-- The memory with the blocks released behind those of `gone`, if they can be. -/
def released (memory : Memory) (gone blocks : List Nat) : Except Stop Memory :=
  if Releasable memory gone blocks then .ok (memory.without (gone ++ blocks))
  else .error .undefined

/-- The pointers that are followed to get to a place. -/
def Place.through : Place → List Place
  | .privateField _ => [.this, .prv]
  | .publicField _ => [.this]
  | .prv => [.this]
  | .this => []

def Statement.place : Statement Class → Place
  | .free place => place
  | .delete place _ => place

def plannedBy (planned : Class → Pointer → Memory → Except Stop (List Nat)) (this : Pointer)
    (memory : Memory) : Statement Class → Except Stop (List Nat)
  | .free place =>
      match place.read memory this with
      | some pointer => .ok pointer.toList
      | none => .error .undefined
  | .delete place clazz =>
      match place.read memory this with
      | some pointer => planned clazz pointer memory
      | none => .error .undefined

def plannedByAll (planned : Class → Pointer → Memory → Except Stop (List Nat)) (this : Pointer) :
    List (Statement Class) → Memory → Except Stop (List Nat)
  | [], _ => .ok []
  | statement :: rest, memory => do
      let first ← plannedBy planned this memory statement
      let others ← plannedByAll planned this rest memory
      .ok (first ++ others)

/-- The blocks that a destructor comes to in a memory that stays as it is, in its order. -/
def planned (program : Program Class) : Nat → Class → Pointer → Memory → Except Stop (List Nat)
  | 0, _, _, _ => .error .deep
  | _ + 1, _, none, _ => .ok []
  | depth + 1, clazz, some object, memory =>
      plannedByAll (planned program depth) (some object) (program.generateSource clazz) memory

section Run

variable {owns : Class → Pointer → Memory → Except Stop (List Nat)}
  {deletes : Class → Pointer → Memory → Except Stop Memory}

end Run

section Guarded

end Guarded

section Plan

variable {owns plans : Class → Pointer → Memory → Except Stop (List Nat)} {data : Option Block}

end Plan

/-- A class with a private array, a public field of its own type and an external one. -/
def linked : Program Unit where
  privateFields _ := [⟨"data", .array⟩]
  publicFields _ := [⟨"length", .primitive⟩, ⟨"next", .object ()⟩, ⟨"handle", .external⟩]
  containsNonStaticPrivateData _ := true
  hasDestructor _ := true
  privateData _ _ := rfl

end NovaC.Destructors
