import NovaC.Closures.Entering

namespace NovaC.Closures

/-- What a field of a context stands for in the method that declares the context. -/
inductive Binding where
  | own (original : VariableDeclaration)
  | closure (name : VariableId)
  | inherited (original : Capture)

def Scope.binding (scope : Scope) (capture : Capture) : Option Binding :=
  ((scope.method.declarations.find? fun original => capture ∈ original.captures).map .own).or
    (((scope.closures.find? fun closure => capture ∈ closure.captures).map fun closure =>
        .closure closure.name).or
      ((scope.inherited.find? fun declaration => declaration.capture = capture).map
        fun declaration => .inherited declaration.original))

structure Call where
  scope : Scope
  creator : Option ActivationId
  live : Bool
  closures : VariableId → Part → Int
  /-- `none` when nothing was written to the variable -/
  values : VariableId → Option Int
  /-- what was written to since the call began -/
  assigned : VariableId → Bool

structure Lexical where
  count : Nat
  calls : ActivationId → Option Call

/-- A variable, or a parameter that is a closure, of one call. -/
inductive Root where
  | value (id : ActivationId) (original : VariableDeclaration)
  | closure (id : ActivationId) (name : VariableId)

def Root.isClosure : Root → Bool
  | value _ _ => false
  | closure _ _ => true

/-- The search from the creator of a context outwards, among the first `bound` calls. -/
def resolve (calls : ActivationId → Option Call) : Nat → ActivationId → Capture → Option Root
  | 0, _, _ => none
  | bound + 1, id, capture =>
      if id = bound then do
        let call ← calls id
        match ← call.scope.binding capture with
        | .own original => some (.value id original)
        | .closure name => some (.closure id name)
        | .inherited original => do
            let creator ← call.creator
            resolve calls bound creator original
      else resolve calls bound id capture

/-- A parameter begins with its argument, a local variable on the stack with its default
value, and one on the heap without a value. -/
def Scope.initial (scope : Scope) (name : VariableId) : Option Int := do
  let original ← scope.method.declarations.find? fun original => original.name = name
  if original.isParameter ∨ ¬original.requiresHeapAllocation then some original.initial else none

/-- A call that begins, before anything is written. -/
def Scope.call (scope : Scope) (creator : Option ActivationId)
    (closures : VariableId → Part → Int) : Call where
  scope := scope
  creator := creator
  live := true
  closures := closures
  values := scope.initial
  assigned _ := false

namespace Lexical

def start : Lexical where
  count := 0
  calls _ := none

variable (lexical : Lexical)

def lookup (creator : Option ActivationId) (capture : Capture) : Option Root := do
  let creator ← creator
  resolve lexical.calls lexical.count creator capture

/-- What is inherited is there, closures as closures. -/
def Admits (scope : Scope) (creator : Option ActivationId) : Prop :=
  ∀ declaration ∈ scope.inherited,
    (lexical.lookup creator declaration.original).map Root.isClosure =
      some declaration.rootIsClosure

instance (scope : Scope) (creator : Option ActivationId) :
    Decidable (lexical.Admits scope creator) :=
  inferInstanceAs (Decidable (∀ declaration ∈ scope.inherited, _))

def enter (scope : Scope) (creator : Option ActivationId) (closures : VariableId → Part → Int) :
    Option Lexical :=
  if lexical.Admits scope creator then
    some
      { count := lexical.count + 1
        calls := Function.update lexical.calls lexical.count
          (some (scope.call creator closures)) }
  else none

def leave (id : ActivationId) : Option Lexical := do
  let call ← lexical.calls id
  if call.live then
    some { lexical with calls := Function.update lexical.calls id (some { call with live := false }) }
  else none

def locate (id : ActivationId) (accessor : Accessor) :
    Option (ActivationId × VariableDeclaration) := do
  let call ← lexical.calls id
  if call.live then
    match accessor with
    | .body original =>
        if original ∈ call.scope.method.declarations then some (id, original) else none
    | .closure capture => do
        match ← lexical.lookup call.creator capture with
        | .value owner original => some (owner, original)
        | .closure _ _ => none
  else none

/-- Only the heap outlives the call. -/
def load (owner : ActivationId) (original : VariableDeclaration) : Option Int := do
  let call ← lexical.calls owner
  if original.requiresHeapAllocation ∨ call.live then call.values original.name else none

def store (owner : ActivationId) (original : VariableDeclaration) (value : Int) :
    Option Lexical := do
  let call ← lexical.calls owner
  if original.requiresHeapAllocation ∨ call.live then
    some { lexical with
      calls := Function.update lexical.calls owner
        (some { call with
          values := Function.update call.values original.name (some value)
          assigned := Function.update call.assigned original.name true }) }
  else none

def words (id : ActivationId) (capture : Capture) : Option (List Int) := do
  let call ← lexical.calls id
  if call.live then
    match ← lexical.lookup call.creator capture with
    | .value _ _ => none
    | .closure owner name => do
        let owner ← lexical.calls owner
        some ((fieldParts true).map (owner.closures name))
  else none

def step : Action → Option (List Int × Lexical)
  | .enter scope creator closures =>
      (lexical.enter scope creator closures).map fun next => ([], next)
  | .leave id => (lexical.leave id).map fun next => ([], next)
  | .read id accessor => do
      let (owner, original) ← lexical.locate id accessor
      let value ← lexical.load owner original
      some ([value], lexical)
  | .write id accessor value => do
      let (owner, original) ← lexical.locate id accessor
      let next ← lexical.store owner original value
      some ([], next)
  | .call id capture => do
      let words ← lexical.words id capture
      some (words, lexical)

def run : Lexical → List Action → Option (List Int)
  | _, [] => some []
  | lexical, action :: actions => do
      let (values, next) ← lexical.step action
      let rest ← run next actions
      some (values ++ rest)

end Lexical

section Resolve

variable {calls other : ActivationId → Option Call} {bound : Nat} {id : ActivationId}
  {capture : Capture} {root : Root}

theorem binding_cases {scope : Scope} {binding : Binding}
    (found : scope.binding capture = some binding) :
    (∃ original ∈ scope.method.declarations, capture ∈ original.captures ∧
        binding = .own original) ∨
      (∃ closure ∈ scope.closures, capture ∈ closure.captures ∧ binding = .closure closure.name) ∨
      ∃ declaration ∈ scope.inherited, declaration.capture = capture ∧
        binding = .inherited declaration.original := by
  rcases Option.or_eq_some_iff.mp found with own | ⟨-, found⟩
  · left
    obtain ⟨original, isFirst, rfl⟩ := Option.map_eq_some_iff.mp own
    exact ⟨original, List.mem_of_find?_eq_some isFirst, by simpa using List.find?_some isFirst, rfl⟩
  · rcases Option.or_eq_some_iff.mp found with isClosure | ⟨-, found⟩
    · right; left
      obtain ⟨closure, isFirst, rfl⟩ := Option.map_eq_some_iff.mp isClosure
      exact ⟨closure, List.mem_of_find?_eq_some isFirst, by simpa using List.find?_some isFirst, rfl⟩
    · right; right
      obtain ⟨declaration, isFirst, rfl⟩ := Option.map_eq_some_iff.mp found
      exact ⟨declaration, List.mem_of_find?_eq_some isFirst, by simpa using List.find?_some isFirst,
        rfl⟩

theorem resolve_lt (resolved : resolve calls bound id capture = some root) : id < bound := by
  induction bound with
  | zero => cases resolved
  | succ bound ih =>
      rw [resolve] at resolved
      split at resolved
      · next newest => exact Nat.lt_succ_of_le (Nat.le_of_eq newest)
      · exact Nat.lt_succ_of_lt (ih resolved)

theorem resolve_older (older : id < bound) :
    resolve calls (bound + 1) id capture = resolve calls bound id capture := by
  rw [resolve, if_neg (Nat.ne_of_lt older)]

/-- The search only sees scopes and creators. -/
theorem resolve_congr (alike : ∀ id < bound,
    (calls id).map (fun call => (call.scope, call.creator)) =
      (other id).map fun call => (call.scope, call.creator)) :
    resolve calls bound id capture = resolve other bound id capture := by
  induction bound generalizing id capture with
  | zero => rfl
  | succ bound ih =>
      have olderAlike := fun id before => alike id (Nat.lt_succ_of_lt before)
      rw [resolve, resolve]
      split
      · next newest =>
          subst newest
          have here := alike id (Nat.lt_succ_self id)
          cases found : calls id with
          | none =>
              rw [found, Option.map_none] at here
              rw [Option.map_eq_none_iff.mp here.symm]
              rfl
          | some call =>
              rw [found, Option.map_some] at here
              obtain ⟨call', found', same⟩ := Option.map_eq_some_iff.mp here.symm
              obtain ⟨sameScope, sameCreator⟩ := Prod.mk.inj same
              simp only [found', Option.bind_eq_bind, Option.bind_some, sameScope, sameCreator,
                ih olderAlike]
      · exact ih olderAlike

theorem resolve_value {owner : ActivationId} {original : VariableDeclaration}
    (resolved : resolve calls bound id capture = some (.value owner original)) :
    ∃ call, calls owner = some call ∧ original ∈ call.scope.method.declarations := by
  induction bound generalizing id capture with
  | zero => cases resolved
  | succ bound ih =>
      rw [resolve] at resolved
      split at resolved
      · obtain ⟨call, found, resolved⟩ := Option.bind_eq_some_iff.mp resolved
        obtain ⟨binding, bound, resolved⟩ := Option.bind_eq_some_iff.mp resolved
        rcases binding_cases bound with ⟨own, member, -, rfl⟩ | ⟨closure, -, -, rfl⟩ |
          ⟨declaration, -, -, rfl⟩
        · cases resolved
          exact ⟨call, found, member⟩
        · cases resolved
        · obtain ⟨creator, -, resolved⟩ := Option.bind_eq_some_iff.mp resolved
          exact ih resolved
      · exact ih resolved

end Resolve

end NovaC.Closures
