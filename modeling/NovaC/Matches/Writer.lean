import NovaC.C.Fragment

namespace NovaC.Matches

open NovaC.C

abbrev MatchId := Nat

/-- What `MatchWriter` picks: `isConventionalSwitch()`, and otherwise
`requiresLoopFacade()`. -/
inductive Lowering where
  | conventionalSwitch
  | ifChain
  | facade
deriving DecidableEq

inductive LoopHead where
  | whileLoop (condition : Condition)
  | forLoop (initialization : Option Action) (condition : Option Condition) (update : Option Action)
  | forEach (hasNextCheck : Condition)
  | repeatTimes (start : Action) (below : Condition) (increment : Action)
  | repeatForever

namespace LoopHead

def initialization : LoopHead → Option Action
  | .forLoop initialization _ _ => initialization
  | .repeatTimes start _ _ => some start
  | _ => none

def condition : LoopHead → Option Condition
  | .whileLoop condition => some condition
  | .forLoop _ condition _ => condition
  | .forEach hasNextCheck => some hasNextCheck
  | .repeatTimes _ below _ => some below
  | .repeatForever => none

def update : LoopHead → Option Action
  | .forLoop _ _ update => update
  | .repeatTimes _ _ increment => some increment
  | _ => none

end LoopHead

/-- A case is its constant, its scope without the `fallthrough` that may end
it, and whether one does. -/
inductive Node where
  | action (action : Action)
  | brk
  | cont
  | ifElse (condition : Condition) (thenScope elseScope : List Node)
  | loop (head : LoopHead) (scope : List Node)
  | matchOn (id : MatchId) (control : Control) (cases : List (Int × List Node × Bool))
      (default : Option (List Node))

/-- `fallthrough`: the local flag exists only where the match is no switch. -/
def FallthroughWriter.generateSource (lowering : Lowering) : List Fragment :=
  if lowering = .conventionalSwitch then [] else [.setFlag]

/-- How the statement of a match is left when its scope is. -/
def Lowering.exits : Lowering → Outcome → Outcome
  | .conventionalSwitch => Outcome.exitsSwitch
  | .ifChain => id
  | .facade => Outcome.exitsFacade

/-- What goes around the text of the scope of a match. -/
def MatchWriter.generateSource (mode : Lowering) (control : Control) (scope : List Fragment) :
    List Fragment :=
  match mode with
  | .conventionalSwitch => [.switch control scope]
  | .ifChain => scope
  | .facade => [.withFlag [.doWhileZero scope]]

section Writers

variable (lowering : MatchId → Lowering)

mutual

def NodeWriter.generateSource : Node → List Fragment
  | .action action => [.action action]
  | .brk => [.brk]
  | .cont => [.cont]
  | .ifElse condition thenScope elseScope =>
      [.ifPart false (.test condition) (ScopeWriter.generateSource thenScope),
        .elsePart (ScopeWriter.generateSource elseScope)]
  | .loop head scope =>
      (head.initialization.map .action).toList ++
        [.loop head.condition head.update (ScopeWriter.generateSource scope)]
  | .matchOn id control cases default =>
      MatchWriter.generateSource (lowering id) control
        (CaseWriter.generateSource (lowering id) control none cases ++
          DefaultWriter.generateSource (lowering id) default)

def ScopeWriter.generateSource : List Node → List Fragment
  | [] => []
  | child :: rest => NodeWriter.generateSource child ++ ScopeWriter.generateSource rest

/-- `before` says whether the case in front, if there is one, contains a
`fallthrough`. -/
def CaseWriter.generateSource (mode : Lowering) (control : Control) (before : Option Bool) :
    List (Int × List Node × Bool) → List Fragment
  | [] => []
  | (constant, scope, containsFallthrough) :: rest =>
      let requiresBreak := !containsFallthrough
      let body := ScopeWriter.generateSource scope ++
        (if containsFallthrough then FallthroughWriter.generateSource mode else [])
      match mode with
      | .conventionalSwitch =>
          .caseLabel constant :: (body ++ ((if requiresBreak then [.brk] else []) ++
            CaseWriter.generateSource mode control (some containsFallthrough) rest))
      | _ =>
          .ifPart (before == some false) (.equals (before == some true) control constant)
              (body ++ if mode = .facade && requiresBreak then [.brk] else []) ::
            CaseWriter.generateSource mode control (some containsFallthrough) rest

def DefaultWriter.generateSource (mode : Lowering) : Option (List Node) → List Fragment
  | none => []
  | some scope =>
      match mode with
      | .conventionalSwitch => .defaultLabel :: ScopeWriter.generateSource scope
      | _ => [.elsePart (ScopeWriter.generateSource scope)]

end

end Writers

/-- What the match API guarantees, and an `if` in front of the `else` of a
default. -/
def WellLowered (mode : Lowering) (cases : List (Int × List Node × Bool))
    (default : Option (List Node)) : Prop :=
  (mode = .ifChain → ∀ case ∈ cases, case.2.2 = false) ∧
    (mode ≠ .conventionalSwitch → cases = [] → default = none)

section Everywhere

variable (holds : Node → Prop)

mutual

/-- `holds` is true of a node and of everything inside. -/
def Node.All : Node → Prop
  | .ifElse condition thenScope elseScope =>
      holds (.ifElse condition thenScope elseScope) ∧ scopeAll thenScope ∧ scopeAll elseScope
  | .loop head scope => holds (.loop head scope) ∧ scopeAll scope
  | .matchOn id control cases default =>
      holds (.matchOn id control cases default) ∧ casesAll cases ∧ defaultAll default
  | .action action => holds (.action action)
  | .brk => holds .brk
  | .cont => holds .cont

def scopeAll : List Node → Prop
  | [] => True
  | child :: rest => child.All ∧ scopeAll rest

def casesAll : List (Int × List Node × Bool) → Prop
  | [] => True
  | (_, scope, _) :: rest => scopeAll scope ∧ casesAll rest

def defaultAll : Option (List Node) → Prop
  | none => True
  | some scope => scopeAll scope

end

end Everywhere

def Node.jumpFree : Node → Prop
  | .brk => False
  | .cont => False
  | _ => True

def Node.wellLowered (lowering : MatchId → Lowering) : Node → Prop
  | .matchOn id _ cases default => WellLowered (lowering id) cases default
  | _ => True

section Meaning

variable {σ β : Type}

/-- The first case with the value of the control, then the next body as long
as the body just run ends in `fallthrough`.  `falling` is set once a body has
been run, and `atEnd` is what follows the last case. -/
def casesRun (run : State σ → β → Outcome × State σ) (value : Int)
    (atEnd : Bool → State σ → Outcome × State σ) (falling : Bool) (state : State σ) :
    List (Int × β × Bool) → Outcome × State σ
  | [] => atEnd falling state
  | (constant, body, containsFallthrough) :: rest =>
      if falling || value == constant then
        andThen (run state body) fun after =>
          if containsFallthrough then casesRun run value atEnd true after rest
          else (.normal, after)
      else casesRun run value atEnd falling state rest

/-- The case of the control and every later one end in `fallthrough`; a case is
here its constant and whether it does. -/
def fallsToEnd (value : Int) : Bool → List (Int × Bool) → Bool
  | falling, [] => falling
  | falling, (constant, containsFallthrough) :: rest =>
      if falling || value == constant then containsFallthrough && fallsToEnd value true rest
      else fallsToEnd value falling rest

/-- The end of a match under every one of its lowerings.  A `break` ends the
match or the loop around it, and has no meaning where lowerings differ in that;
a `continue` goes on with the loop around the match, unless a lowering of the
match is a loop of its own. -/
def leaveMatch (modes : List Lowering) : Outcome × State σ → Outcome × State σ
  | (.brk, state) =>
      (if modes.all (· == .ifChain) then .brk
        else if modes.all (· != .ifChain) then .normal
        else .undefined, state)
  | (.cont, state) => (if modes.contains .facade then .undefined else .cont, state)
  | other => other

/-- What follows the last case under every one of the lowerings: an `else` is
not reached from the case in front of it. -/
def leaveCases (modes : List Lowering) (otherwise : State σ → Outcome × State σ)
    (falling : Bool) (state : State σ) : Outcome × State σ :=
  if falling then
    if modes.all (· == .conventionalSwitch) then otherwise state
    else if modes.all (· != .conventionalSwitch) then (.normal, state)
    else (.undefined, state)
  else otherwise state

variable (interp : Interp σ) (fuel : Nat) (lowerings : List (MatchId → Lowering))

mutual

def nodeMeaning (state : State σ) : Node → Outcome × State σ
  | .action action => (.normal, state.act interp action)
  | .brk => (.brk, state)
  | .cont => (.cont, state)
  | .ifElse condition thenScope elseScope =>
      if interp.test condition state.store then scopeMeaning state thenScope
      else scopeMeaning state elseScope
  | .loop head scope =>
      rounds (fun before => head.condition.all fun condition => interp.test condition before.store)
        (fun before => before.update interp head.update) (fun before => scopeMeaning before scope)
        fuel (state.update interp head.initialization)
  | .matchOn id control cases default =>
      leaveMatch (lowerings.map (· id))
        (casesMeaning (interp.value control state.store)
          (leaveCases (lowerings.map (· id)) fun after => defaultMeaning after default) false state
          cases)

def scopeMeaning (state : State σ) : List Node → Outcome × State σ
  | [] => (.normal, state)
  | child :: rest =>
      andThen (nodeMeaning state child) fun after => scopeMeaning after rest

def casesMeaning (value : Int) (atEnd : Bool → State σ → Outcome × State σ) (falling : Bool)
    (state : State σ) : List (Int × List Node × Bool) → Outcome × State σ
  | [] => atEnd falling state
  | (constant, scope, containsFallthrough) :: rest =>
      if falling || value == constant then
        andThen (scopeMeaning state scope) fun after =>
          if containsFallthrough then casesMeaning value atEnd true after rest
          else (.normal, after)
      else casesMeaning value atEnd falling state rest

def defaultMeaning (state : State σ) : Option (List Node) → Outcome × State σ
  | none => (.normal, state)
  | some scope => scopeMeaning state scope

end

theorem casesMeaning_eq (value : Int) (atEnd : Bool → State σ → Outcome × State σ)
    (falling : Bool) (state : State σ) (cases : List (Int × List Node × Bool)) :
    casesMeaning interp fuel lowerings value atEnd falling state cases =
      casesRun (scopeMeaning interp fuel lowerings) value atEnd falling state cases := by
  induction cases generalizing falling state with
  | nil => rfl
  | cons first rest ih =>
      obtain ⟨constant, scope, containsFallthrough⟩ := first
      simp only [casesMeaning, casesRun, ih]

end Meaning

end NovaC.Matches
