import Mathlib.Data.List.Basic

namespace NovaC.Links

/-- The first accepted node that at most so many links lead to. -/
def nearest (parent : Nat → Option Nat) (accepts : Nat → Bool) : Nat → Option Nat → Option Nat
  | 0, _ => none
  | _ + 1, none => none
  | fuel + 1, some node =>
      if accepts node then some node else nearest parent accepts fuel (parent node)

/-- The walk comes to these nodes in this order, and may come to others in between. -/
inductive Through (parent : Nat → Option Nat) : Option Nat → List Nat → Prop
  | nil (start : Option Nat) : Through parent start []
  | visit (node : Nat) {nodes : List Nat} (rest : Through parent (parent node) nodes) :
      Through parent (some node) (node :: nodes)
  | pass (node : Nat) {nodes : List Nat} (rest : Through parent (parent node) nodes) :
      Through parent (some node) nodes

/-- Every link leads to an older node. -/
def Older (parent : Nat → Option Nat) : Prop :=
  ∀ node above, parent node = some above → above < node

theorem nearest_accepts {parent : Nat → Option Nat} {accepts : Nat → Bool} {fuel node : Nat}
    {start : Option Nat} (found : nearest parent accepts fuel start = some node) :
    accepts node = true := by
  induction fuel generalizing start with
  | zero => cases found
  | succ fuel ih =>
      cases start with
      | none => cases found
      | some here =>
          rw [nearest] at found
          split at found
          · rename_i accepted
            cases found
            exact accepted
          · exact ih found

section Walk

variable {parent : Nat → Option Nat} {start : Option Nat} {nodes : List Nat}

theorem Through.le (through : Through parent start nodes) (older : Older parent) {node : Nat}
    (member : node ∈ nodes) : ∃ first, start = some first ∧ node ≤ first := by
  induction through with
  | nil start => cases member
  | visit here rest ih =>
      rcases List.mem_cons.mp member with rfl | behind
      · exact ⟨node, rfl, Nat.le_refl node⟩
      · obtain ⟨first, link, below⟩ := ih behind
        exact ⟨here, rfl, Nat.le_of_lt (Nat.lt_of_le_of_lt below (older here first link))⟩
  | pass here rest ih =>
      obtain ⟨first, link, below⟩ := ih member
      exact ⟨here, rfl, Nat.le_of_lt (Nat.lt_of_le_of_lt below (older here first link))⟩

/-- What the links lead to does not come back to its start. -/
theorem Through.not_mem (older : Older parent) {node : Nat}
    (through : Through parent (parent node) nodes) : node ∉ nodes := by
  intro member
  obtain ⟨first, link, below⟩ := through.le older member
  exact Nat.lt_irrefl first (Nat.lt_of_lt_of_le (older node first link) below)

theorem Through.suffix {before : List Nat} (through : Through parent start (before ++ nodes)) :
    Through parent start nodes := by
  generalize whole : before ++ nodes = all at through
  induction through generalizing before with
  | nil start =>
      obtain ⟨rfl, rfl⟩ := List.append_eq_nil_iff.mp whole
      exact .nil start
  | visit node rest ih =>
      cases before with
      | nil =>
          rw [List.nil_append] at whole
          exact whole ▸ .visit node rest
      | cons head before =>
          obtain ⟨-, behind⟩ := List.cons.inj whole
          exact .pass node (ih behind)
  | pass node rest ih => exact .pass node (ih whole)

/-- A walk that starts below `bound` sees only the links below it. -/
theorem Through.congr {other : Nat → Option Nat} {bound : Nat}
    (through : Through parent start nodes) (older : Older parent)
    (same : ∀ node < bound, other node = parent node)
    (below : ∀ node, start = some node → node < bound) : Through other start nodes := by
  induction through with
  | nil start => exact .nil start
  | visit node rest ih =>
      have inside := below node rfl
      refine .visit node ?_
      rw [same node inside]
      exact ih fun above link => Nat.lt_trans (older node above link) inside
  | pass node rest ih =>
      have inside := below node rfl
      refine .pass node ?_
      rw [same node inside]
      exact ih fun above link => Nat.lt_trans (older node above link) inside

/-- The walk stops at the first of the nodes that is accepted, unless it has stopped before
at a younger node that is none of them. -/
theorem Through.nearest {accepts : Nat → Bool} {fuel wanted : Nat}
    (through : Through parent start nodes) (older : Older parent)
    (enough : ∀ node, start = some node → node < fuel)
    (first : nodes.find? accepts = some wanted) :
    ∃ node, Links.nearest parent accepts fuel start = some node ∧ accepts node = true ∧
      (node = wanted ∨ (node ∉ nodes ∧ wanted < node)) := by
  induction through generalizing fuel with
  | nil start => cases first
  | visit here rest ih =>
      cases fuel with
      | zero => exact absurd (enough here rfl) (Nat.not_lt_zero here)
      | succ fuel =>
          have fewer : ∀ above, parent here = some above → above < fuel := fun above link =>
            Nat.lt_of_lt_of_le (older here above link) (Nat.lt_succ_iff.mp (enough here rfl))
          rw [List.find?_cons] at first
          rw [Links.nearest]
          cases taken : accepts here with
          | true =>
              rw [taken] at first
              cases first
              exact ⟨_, rfl, taken, .inl rfl⟩
          | false =>
              rw [taken] at first
              obtain ⟨node, found, accepted, which⟩ := ih fewer first
              refine ⟨node, found, accepted, which.imp_right fun ⟨outside, above⟩ => ⟨?_, above⟩⟩
              rw [List.mem_cons, not_or]
              refine ⟨fun same => ?_, outside⟩
              rw [same, taken] at accepted
              cases accepted
  | pass here rest ih =>
      cases fuel with
      | zero => exact absurd (enough here rfl) (Nat.not_lt_zero here)
      | succ fuel =>
          have fewer : ∀ above, parent here = some above → above < fuel := fun above link =>
            Nat.lt_of_lt_of_le (older here above link) (Nat.lt_succ_iff.mp (enough here rfl))
          rw [Links.nearest]
          cases taken : accepts here with
          | true =>
              have behind := List.mem_of_find?_eq_some first
              obtain ⟨above, link, below⟩ := rest.le older behind
              exact ⟨here, rfl, taken, .inr ⟨rest.not_mem older,
                Nat.lt_of_le_of_lt below (older here above link)⟩⟩
          | false => exact ih fewer first

end Walk

end NovaC.Links
