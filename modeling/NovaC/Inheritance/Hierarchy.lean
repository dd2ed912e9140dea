import Mathlib.Logic.Relation
import Mathlib.Data.List.Basic

namespace NovaC.Inheritance

/-! Hierarchies in which a class extends at most one other, and their nearest common
ancestors.

Every class is its own ancestor. The depth of a class bounds the number of classes above
it, so that no class is above itself.
-/

structure Hierarchy (Class : Type) where
  parent : Class → Option Class
  depth : Class → Nat
  below : ∀ descendant ancestor, parent descendant = some ancestor →
    depth ancestor < depth descendant

namespace Hierarchy

variable {Class : Type} {hierarchy : Hierarchy Class}
  {ancestor other descendant left right common : Class}

def Extends (hierarchy : Hierarchy Class) (descendant ancestor : Class) : Prop :=
  hierarchy.parent descendant = some ancestor

def Ancestor (hierarchy : Hierarchy Class) (ancestor descendant : Class) : Prop :=
  Relation.ReflTransGen hierarchy.Extends descendant ancestor

/-- A common ancestor that is below all others. -/
structure Nearest (hierarchy : Hierarchy Class) (left right common : Class) : Prop where
  ofLeft : hierarchy.Ancestor common left
  ofRight : hierarchy.Ancestor common right
  nearest : ∀ other, hierarchy.Ancestor other left → hierarchy.Ancestor other right →
    hierarchy.Ancestor other common

theorem Ancestor.refl (hierarchy : Hierarchy Class) (ancestor : Class) :
    hierarchy.Ancestor ancestor ancestor :=
  Relation.ReflTransGen.refl

theorem Ancestor.eq_or_depth_lt (above : hierarchy.Ancestor ancestor descendant) :
    ancestor = descendant ∨ hierarchy.depth ancestor < hierarchy.depth descendant := by
  induction above with
  | refl => exact .inl rfl
  | tail _ step ih =>
      have less := hierarchy.below _ _ step
      rcases ih with rfl | lower
      · exact .inr less
      · exact .inr (Nat.lt_trans less lower)

theorem Ancestor.antisymm (above : hierarchy.Ancestor ancestor descendant)
    (below : hierarchy.Ancestor descendant ancestor) : ancestor = descendant := by
  rcases above.eq_or_depth_lt with same | less
  · exact same
  · rcases below.eq_or_depth_lt with same | greater
    · exact same.symm
    · exact absurd less (Nat.lt_asymm greater)

/-- A class that is above the other is the nearest common ancestor itself. -/
theorem Nearest.eq_left (found : hierarchy.Nearest left right common)
    (above : hierarchy.Ancestor left right) : common = left :=
  found.ofLeft.antisymm (found.nearest left (.refl hierarchy left) above)

/-- The class and those above it, of which there are not more than `count`. -/
def ancestorsWithin (hierarchy : Hierarchy Class) : Nat → Class → List Class
  | 0, descendant => [descendant]
  | count + 1, descendant =>
      descendant :: (hierarchy.parent descendant).elim [] (hierarchy.ancestorsWithin count)

def ancestors (hierarchy : Hierarchy Class) (descendant : Class) : List Class :=
  hierarchy.ancestorsWithin (hierarchy.depth descendant) descendant

theorem mem_ancestorsWithin {count : Nat} (enough : hierarchy.depth descendant ≤ count) :
    ancestor ∈ hierarchy.ancestorsWithin count descendant ↔
      hierarchy.Ancestor ancestor descendant := by
  induction count generalizing descendant with
  | zero =>
      rw [ancestorsWithin, List.mem_singleton]
      constructor
      · rintro rfl
        exact .refl hierarchy ancestor
      · intro above
        rcases above.eq_or_depth_lt with same | less
        · exact same
        · omega
  | succ count ih =>
      rw [ancestorsWithin, List.mem_cons]
      have split := Relation.ReflTransGen.cases_head_iff (r := hierarchy.Extends)
        (a := descendant) (b := ancestor)
      rw [Ancestor, split, eq_comm]
      refine or_congr Iff.rfl ?_
      cases extended : hierarchy.parent descendant with
      | none => simp [Extends, extended]
      | some next =>
          have less := hierarchy.below _ _ extended
          rw [Option.elim_some, ih (by omega)]
          simp [Extends, extended, Ancestor]

theorem mem_ancestors :
    ancestor ∈ hierarchy.ancestors descendant ↔ hierarchy.Ancestor ancestor descendant :=
  mem_ancestorsWithin (Nat.le_refl _)

theorem ancestorsWithin_pairwise (hierarchy : Hierarchy Class) {count : Nat} {descendant : Class}
    (enough : hierarchy.depth descendant ≤ count) :
    (hierarchy.ancestorsWithin count descendant).Pairwise fun lower upper =>
      hierarchy.Ancestor upper lower := by
  induction count generalizing descendant with
  | zero => exact List.pairwise_singleton _ _
  | succ count ih =>
      refine List.pairwise_cons.mpr ⟨?_, ?_⟩
      · intro upper member
        exact (mem_ancestorsWithin enough).mp (List.mem_cons_of_mem _ member)
      · cases extended : hierarchy.parent descendant with
        | none => exact .nil
        | some next =>
            have less := hierarchy.below _ _ extended
            exact ih (by omega)

section Search

variable [DecidableEq Class]

instance (ancestor descendant : Class) : Decidable (hierarchy.Ancestor ancestor descendant) :=
  decidable_of_iff _ mem_ancestors

/-- The first of the ancestors of the one that is an ancestor of the other. -/
def commonAncestor (hierarchy : Hierarchy Class) (left right : Class) : Option Class :=
  (hierarchy.ancestors left).find? (· ∈ hierarchy.ancestors right)

theorem commonAncestor_nearest (found : hierarchy.commonAncestor left right = some common) :
    hierarchy.Nearest left right common := by
  obtain ⟨inRight, before, after, chain, notBefore⟩ := List.find?_eq_some_iff_append.mp found
  have ordered := hierarchy.ancestorsWithin_pairwise (Nat.le_refl (hierarchy.depth left))
  change (hierarchy.ancestors left).Pairwise _ at ordered
  rw [chain] at ordered
  refine ⟨?_, mem_ancestors.mp (of_decide_eq_true inRight), ?_⟩
  · rw [← mem_ancestors, chain]
    exact List.mem_append_right _ List.mem_cons_self
  · intro other ofLeft ofRight
    rw [← mem_ancestors, chain, List.mem_append, List.mem_cons] at ofLeft
    rcases ofLeft with earlier | rfl | later
    · have excluded := notBefore other earlier
      rw [decide_eq_true (mem_ancestors.mpr ofRight)] at excluded
      cases excluded
    · exact .refl hierarchy other
    · exact (List.pairwise_cons.mp (List.pairwise_append.mp ordered).2.1).1 other later

theorem commonAncestor_none (unrelated : hierarchy.commonAncestor left right = none)
    (other : Class) (ofLeft : hierarchy.Ancestor other left) :
    ¬hierarchy.Ancestor other right := by
  intro ofRight
  have excluded := List.find?_eq_none.mp unrelated other (mem_ancestors.mpr ofLeft)
  exact excluded (decide_eq_true (mem_ancestors.mpr ofRight))

end Search

end Hierarchy

end NovaC.Inheritance
