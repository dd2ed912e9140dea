import Mathlib.Data.List.Basic
import Mathlib.Logic.Function.Basic
import Mathlib.Logic.Relation

namespace NovaC.Statics

/-! The functions that run the static blocks of a program, and their calls.

A class is known by its C name. The code of a static block is opaque: running it
is one entry in the record of what ran.
-/

structure StaticBlock (Class Code : Type) where
  /-- `getScope().getDependencies()` -/
  dependencies : List Class
  scope : Code
  deriving Repr, DecidableEq

structure Program (Class Code : Type) where
  files : List (List Class)
  staticBlockList : Class → List (StaticBlock Class Code)

inductive Statement (Class Code : Type) where
  | call (clazz : Class)
  | scope (clazz : Class) (block : StaticBlock Class Code)
  deriving Repr, DecidableEq

namespace Program

variable {Class Code : Type} (program : Program Class Code)

def classes : List Class :=
  program.files.flatten

/-- `getStaticBlockList().getNumVisibleChildren() > 0` -/
def HasStaticBlocks (clazz : Class) : Prop :=
  0 < (program.staticBlockList clazz).length

instance (clazz : Class) : Decidable (program.HasStaticBlocks clazz) :=
  inferInstanceAs (Decidable (_ < _))

/-- `StaticBlockWriter.generateSource` -/
def staticBlockSource (clazz : Class) (block : StaticBlock Class Code) :
    List (Statement Class Code) :=
  (block.dependencies.filter (program.HasStaticBlocks ·)).map .call ++ [.scope clazz block]

/-- `ClassDeclarationWriter.generateStaticBlocksSource`, what stands inside
`if (!_inited) { _inited = 1; ... }`. -/
def generateStaticBlocksSource (clazz : Class) : Option (List (Statement Class Code)) :=
  if program.HasStaticBlocks clazz then
    some ((program.staticBlockList clazz).flatMap (program.staticBlockSource clazz))
  else none

/-- `CCodeGeneratorEngine.generateStaticBlockCalls` -/
def generateStaticBlockCalls : List (Statement Class Code) :=
  program.files.flatMap fun file => file.map .call

end Program

structure State (Class Code : Type) where
  inited : Class → Bool
  ran : List (Class × StaticBlock Class Code)

variable {Class Code : Type}

def runStatements (call : Class → State Class Code → Option (State Class Code)) :
    List (Statement Class Code) → State Class Code → Option (State Class Code)
  | [], state => some state
  | .call clazz :: rest, state => (call clazz state).bind (runStatements call rest)
  | .scope clazz block :: rest, state =>
      runStatements call rest { state with ran := state.ran ++ [(clazz, block)] }

theorem runStatements_append (call : Class → State Class Code → Option (State Class Code))
    (first rest : List (Statement Class Code)) (state : State Class Code) :
    runStatements call (first ++ rest) state =
      (runStatements call first state).bind (runStatements call rest) := by
  induction first generalizing state with
  | nil => rfl
  | cons statement first ih =>
      cases statement with
      | call clazz =>
          rw [List.cons_append, runStatements, runStatements, Option.bind_assoc]
          exact congrArg _ (funext fun state => ih state)
      | scope clazz block => exact ih _

theorem runStatements_mono {call call' : Class → State Class Code → Option (State Class Code)}
    (agrees : ∀ clazz state after, call clazz state = some after → call' clazz state = some after)
    {statements : List (Statement Class Code)} {state after : State Class Code}
    (ran : runStatements call statements state = some after) :
    runStatements call' statements state = some after := by
  induction statements generalizing state with
  | nil => exact ran
  | cons statement rest ih =>
      cases statement with
      | call clazz =>
          obtain ⟨middle, called, ran⟩ := Option.bind_eq_some_iff.mp ran
          rw [runStatements, agrees clazz state middle called, Option.bind_some]
          exact ih ran
      | scope clazz block => exact ih ran

variable [DecidableEq Class] (program : Program Class Code)

/-- A call of the function of a class, with a bound on the depth of the calls;
a class without static blocks has none. -/
def callStaticBlocks : Nat → Class → State Class Code → Option (State Class Code)
  | 0, _, _ => none
  | depth + 1, clazz, state => do
      let body ← program.generateStaticBlocksSource clazz
      if state.inited clazz then
        some state
      else
        runStatements (callStaticBlocks depth) body
          { state with inited := Function.update state.inited clazz true }

def State.initial : State Class Code := ⟨fun _ => false, []⟩

def novaCallStaticBlocks (depth : Nat) : Option (List (Class × StaticBlock Class Code)) :=
  (runStatements (callStaticBlocks program depth) program.generateStaticBlockCalls .initial).map
    State.ran

variable {program}

theorem callStaticBlocks_inited {depth : Nat} {clazz : Class} {state : State Class Code}
    (hasBlocks : program.HasStaticBlocks clazz) (inited : state.inited clazz = true) :
    callStaticBlocks program (depth + 1) clazz state = some state := by
  simp [callStaticBlocks, Program.generateStaticBlocksSource, hasBlocks, inited]

theorem callStaticBlocks_first {depth : Nat} {clazz : Class} {state : State Class Code}
    (hasBlocks : program.HasStaticBlocks clazz) (fresh : state.inited clazz = false) :
    callStaticBlocks program (depth + 1) clazz state =
      runStatements (callStaticBlocks program depth)
        ((program.staticBlockList clazz).flatMap (program.staticBlockSource clazz))
        { state with inited := Function.update state.inited clazz true } := by
  simp [callStaticBlocks, Program.generateStaticBlocksSource, hasBlocks, fresh]

theorem callStaticBlocks_succ {depth : Nat} {clazz : Class} {state after : State Class Code}
    (ran : callStaticBlocks program depth clazz state = some after) :
    callStaticBlocks program (depth + 1) clazz state = some after := by
  induction depth generalizing clazz state after with
  | zero => cases ran
  | succ depth ih =>
      obtain ⟨body, emitted, ran⟩ := Option.bind_eq_some_iff.mp ran
      rw [callStaticBlocks, emitted, Option.bind_eq_bind, Option.bind_some]
      split at ran
      · rename_i inited
        rwa [if_pos inited]
      · rename_i fresh
        rw [if_neg fresh]
        exact runStatements_mono (fun _ _ _ => ih) ran

theorem novaCallStaticBlocks_mono {depth deeper : Nat} (deeper_le : depth ≤ deeper)
    {ran : List (Class × StaticBlock Class Code)}
    (result : novaCallStaticBlocks program depth = some ran) :
    novaCallStaticBlocks program deeper = some ran := by
  obtain ⟨after, run, rfl⟩ := Option.map_eq_some_iff.mp result
  have agrees : ∀ clazz state after, callStaticBlocks program depth clazz state = some after →
      callStaticBlocks program deeper clazz state = some after := by
    intro clazz state after called
    induction deeper_le with
    | refl => exact called
    | step _ ih => exact callStaticBlocks_succ ih
  rw [novaCallStaticBlocks, runStatements_mono agrees run, Option.map_some]

end NovaC.Statics
