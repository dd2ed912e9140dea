import Mathlib.Data.List.Basic

namespace NovaC.C

/-! C statement text, as a code generator appends it, and what the text does.

A generator that writes `else` apart from the `if` it belongs to produces text
whose meaning depends on what stands in front.  The text is therefore kept as a
list of fragments, and the interpreter tracks the `if` chain that an `else` may
continue.
-/

abbrev Action := Nat
abbrev Condition := Nat
abbrev Control := Nat

/-- What the simple statements, conditions and control expressions do to a
store of type `σ`. -/
structure Interp (σ : Type) where
  act : Action → σ → σ
  test : Condition → σ → Bool
  value : Control → σ → Int

structure State (σ : Type) where
  store : σ
  trace : List Action

variable {σ : Type}

def State.act (interp : Interp σ) (action : Action) (state : State σ) : State σ where
  store := interp.act action state.store
  trace := state.trace ++ [action]

def State.update (interp : Interp σ) (action : Option Action) (state : State σ) : State σ :=
  action.elim state fun action => state.act interp action

/-- A condition in the text: one of the program's own, or the comparison of a
control expression with a constant, behind a test of the local flag or not. -/
inductive Guard where
  | test (condition : Condition)
  | equals (flagOr : Bool) (control : Control) (constant : Int)

def Guard.holds (interp : Interp σ) (flag : Bool) (state : State σ) : Guard → Bool
  | .test condition => interp.test condition state.store
  | .equals flagOr control constant =>
      (flagOr && flag) || interp.value control state.store == constant

inductive Fragment where
  | action (action : Action)
  | setFlag
  | brk
  | cont
  | ifPart (afterElse : Bool) (guard : Guard) (block : List Fragment)
  | elsePart (block : List Fragment)
  | loop (condition : Option Condition) (update : Option Action) (block : List Fragment)
  | doWhileZero (block : List Fragment)
  | switch (control : Control) (block : List Fragment)
  | caseLabel (constant : Int)
  | defaultLabel
  /-- A block that declares the local flag with the value 0. -/
  | withFlag (block : List Fragment)

/-- How control leaves a statement.  `timeout` cuts a loop that has run for as
many rounds as the interpreter was given; `undefined` is the outcome of text
that no C parser accepts, and of every statement without one meaning. -/
inductive Outcome where
  | normal
  | brk
  | cont
  | timeout
  | undefined
deriving DecidableEq, Repr

/-- Go on with `next` after a statement that ends normally. -/
def andThen {α : Type} (result : Outcome × α) (next : α → Outcome × α) : Outcome × α :=
  match result with
  | (.normal, after) => next after
  | other => other

@[simp] theorem andThen_normal {α : Type} (after : α) (next : α → Outcome × α) :
    andThen (.normal, after) next = next after := rfl

@[simp] theorem andThen_other {α : Type} {outcome : Outcome} (ended : outcome ≠ .normal) (after : α)
    (next : α → Outcome × α) : andThen (outcome, after) next = (outcome, after) := by
  cases outcome <;> first | rfl | exact absurd rfl ended

theorem andThen_defined {α : Type} {result : Outcome × α} {next : α → Outcome × α}
    (defined : (andThen result next).1 ≠ .undefined) : result.1 ≠ .undefined := by
  rcases result with ⟨outcome, after⟩
  rintro rfl
  exact defined rfl

/-- At most `fuel` rounds of a loop. -/
def rounds {α : Type} (holds : α → Bool) (update : α → α) (body : α → Outcome × α) :
    Nat → α → Outcome × α
  | 0, state => (.timeout, state)
  | fuel + 1, state =>
      if holds state then
        match body state with
        | (.normal, after) | (.cont, after) => rounds holds update body fuel (update after)
        | (.brk, after) => (.normal, after)
        | other => other
      else (.normal, state)

/-- Loops whose bodies correspond, wherever they have a meaning, run the same
rounds. -/
theorem rounds_map {α β : Type} {holds : α → Bool} {update : α → α} {body : α → Outcome × α}
    {holds' : β → Bool} {update' : β → β} {body' : β → Outcome × β} (image : α → β)
    (sameHolds : ∀ state, holds' (image state) = holds state)
    (sameUpdate : ∀ state, update' (image state) = image (update state))
    (sameBody : ∀ state, (body state).1 ≠ .undefined →
      body' (image state) = ((body state).1, image (body state).2))
    (fuel : Nat) (state : α) (defined : (rounds holds update body fuel state).1 ≠ .undefined) :
    rounds holds' update' body' fuel (image state) =
      ((rounds holds update body fuel state).1, image (rounds holds update body fuel state).2) := by
  induction fuel generalizing state with
  | zero => rfl
  | succ fuel ih =>
      simp only [rounds, sameHolds] at defined ⊢
      split
      · rename_i holding
        rw [if_pos holding] at defined
        have bodyDefined : (body state).1 ≠ .undefined := by
          intro undefined
          apply defined
          split <;> simp_all
        rw [sameBody state bodyDefined]
        rcases ran : body state with ⟨outcome, after⟩
        rw [ran] at defined
        cases outcome <;> first
          | rfl
          | exact (congrArg _ (sameUpdate after)).trans (ih (update after) defined)
      · rfl

/-- `break` ends a `switch`, `continue` goes on to the loop around it. -/
def Outcome.exitsSwitch : Outcome → Outcome
  | .brk => .normal
  | other => other

/-- Both jumps out of the body of `do { } while (0)` end it. -/
def Outcome.exitsFacade : Outcome → Outcome
  | .brk => .normal
  | .cont => .normal
  | other => other

def isCaseLabel (constant : Int) : Fragment → Bool
  | .caseLabel other => other == constant
  | _ => false

def isDefaultLabel : Fragment → Bool
  | .defaultLabel => true
  | _ => false

section Run

variable (interp : Interp σ) (fuel : Nat)

/-! `chain` is `none` unless the text in front is an `if` chain, and then says
whether one of its branches has been taken.  The last component of a result is
the local flag. -/

mutual

def runList (chain : Option Bool) (flag : Bool) (state : State σ) :
    List Fragment → Outcome × State σ × Bool
  | [] => (.normal, state, flag)
  | .ifPart afterElse guard block :: rest =>
      if afterElse && chain.isNone then (.undefined, state, flag)
      else if afterElse && chain == some true then runList (some true) flag state rest
      else if guard.holds interp flag state then
        andThen (runList none flag state block) fun after =>
          runList (some true) after.2 after.1 rest
      else runList (some false) flag state rest
  | .elsePart block :: rest =>
      match chain with
      | none => (.undefined, state, flag)
      | some true => runList none flag state rest
      | some false =>
          andThen (runList none flag state block) fun after => runList none after.2 after.1 rest
  | fragment :: rest =>
      andThen (runFragment flag state fragment) fun after => runList none after.2 after.1 rest

def runFragment (flag : Bool) (state : State σ) : Fragment → Outcome × State σ × Bool
  | .action action => (.normal, state.act interp action, flag)
  | .setFlag => (.normal, state, true)
  | .brk => (.brk, state, flag)
  | .cont => (.cont, state, flag)
  | .loop condition update block =>
      rounds (fun before => condition.all fun condition => interp.test condition before.1.store)
        (fun before => (before.1.update interp update, before.2))
        (fun before => runList none before.2 before.1 block) fuel (state, flag)
  | .doWhileZero block =>
      let (outcome, after, flagAfter) := runList none flag state block
      (outcome.exitsFacade, after, flagAfter)
  | .switch control block =>
      let constant := interp.value control state.store
      let label := if block.any (isCaseLabel constant) then isCaseLabel constant else isDefaultLabel
      let (outcome, after, flagAfter) := runFrom label flag state block
      (outcome.exitsSwitch, after, flagAfter)
  | .withFlag block =>
      let (outcome, after, _) := runList none false state block
      (outcome, after, flag)
  | .ifPart _ _ _ | .elsePart _ | .caseLabel _ | .defaultLabel => (.normal, state, flag)

/-- The statements behind the first fragment that `label` accepts. -/
def runFrom (label : Fragment → Bool) (flag : Bool) (state : State σ) :
    List Fragment → Outcome × State σ × Bool
  | [] => (.normal, state, flag)
  | fragment :: rest =>
      if label fragment then runList none flag state rest else runFrom label flag state rest

end

end Run

end NovaC.C
