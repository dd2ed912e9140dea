import NovaC.Matches.Lowering

namespace NovaC.Matches

open NovaC.C

variable {σ : Type} {interp : Interp σ} {fuel : Nat} {lowering : MatchId → Lowering}
  {lowerings : List (MatchId → Lowering)}

theorem RunsLike.congr {source : List Fragment} {means means' : State σ → Outcome × State σ}
    (runs : RunsLike interp fuel source means)
    (same : ∀ state, (means' state).1 ≠ .undefined → means' state = means state) :
    RunsLike interp fuel source means' := by
  intro chain flag state tail next defined goesOn
  have meaning := same state defined
  rw [meaning] at defined goesOn ⊢
  exact runs chain flag state tail next defined goesOn

theorem RunsLike.fragment {fragment : Fragment} {means : State σ → Outcome × State σ}
    (plain : ∀ chain flag state tail, runList interp fuel chain flag state (fragment :: tail) =
      andThen (runFragment interp fuel flag state fragment) fun after =>
        runList interp fuel none after.2 after.1 tail)
    (runs : ∀ flag state, (means state).1 ≠ .undefined →
      runFragment interp fuel flag state fragment = ((means state).1, (means state).2, flag)) :
    RunsLike interp fuel [fragment] means := by
  intro chain flag state tail next defined goesOn
  rw [List.singleton_append, plain, runs flag state defined, followedBy]
  rcases meaning : means state with ⟨outcome, after⟩
  rw [meaning] at goesOn
  cases outcome <;> try rfl
  exact goesOn after rfl none

theorem RunsLike.append {first second : List Fragment} {means next : State σ → Outcome × State σ}
    (front : RunsLike interp fuel first means) (back : RunsLike interp fuel second next) :
    RunsLike interp fuel (first ++ second) fun state => andThen (means state) next := by
  intro chain flag state tail afterwards defined goesOn
  simp only at defined goesOn ⊢
  have frontDefined := andThen_defined defined
  rw [List.append_assoc, front chain flag state (second ++ tail)
    (fun after => followedBy (next after) flag afterwards) frontDefined]
  · rcases means state with ⟨outcome, after⟩
    cases outcome <;> rfl
  · intro after ended chain
    rw [ended, andThen_normal] at defined goesOn
    exact back chain flag after tail afterwards defined goesOn

theorem RunsLike.ifElse {condition : Condition} {thenText elseText : List Fragment}
    {means otherwise : State σ → Outcome × State σ} (thenRuns : RunsLike interp fuel thenText means)
    (elseRuns : RunsLike interp fuel elseText otherwise) :
    RunsLike interp fuel [.ifPart false (.test condition) thenText, .elsePart elseText]
      fun state => if interp.test condition state.store then means state else otherwise state := by
  intro chain flag state tail next defined goesOn
  simp only at defined goesOn ⊢
  rw [List.cons_append, runList_ifPart fun isElse => absurd isElse Bool.false_ne_true, Guard.holds]
  simp only [List.singleton_append, runList]
  split
  · rename_i holds
    rw [if_pos holds] at defined goesOn
    rw [thenRuns.block none flag state defined, followedBy]
    rcases meaning : means state with ⟨outcome, after⟩
    rw [meaning] at goesOn
    cases outcome <;> try rfl
    exact goesOn after rfl none
  · rename_i fails
    rw [if_neg fails] at defined goesOn
    rw [elseRuns.block none flag state defined, followedBy]
    rcases meaning : otherwise state with ⟨outcome, after⟩
    rw [meaning] at goesOn
    cases outcome <;> try rfl
    exact goesOn after rfl none

theorem RunsLike.initialization (initialization : Option Action) :
    RunsLike interp fuel (initialization.map .action).toList
      fun state => (.normal, state.update interp initialization) := by
  intro chain flag state tail next defined goesOn
  cases initialization with
  | none => exact goesOn state rfl chain
  | some action =>
      simp only [Option.map_some, Option.toList_some, List.singleton_append, runList, runFragment]
      exact goesOn _ rfl none

theorem RunsLike.loop {condition : Option Condition} {update : Option Action}
    {source : List Fragment} {means : State σ → Outcome × State σ}
    (runs : RunsLike interp fuel source means) :
    RunsLike interp fuel [.loop condition update source] fun state =>
      rounds (fun before => condition.all fun condition => interp.test condition before.store)
        (fun before => before.update interp update) means fuel state := by
  apply RunsLike.fragment
  · intro chain flag state tail
    simp only [runList]
  · intro flag state defined
    exact rounds_map (fun before => (before, flag)) (fun _ => rfl) (fun _ => rfl)
      (fun before bodyDefined => runs.block none flag before bodyDefined) fuel state defined

theorem leaveMatch_defined {modes : List Lowering} {result : Outcome × State σ}
    (defined : (leaveMatch modes result).1 ≠ .undefined) : result.1 ≠ .undefined := by
  rcases result with ⟨outcome, after⟩
  rintro rfl
  exact defined rfl

theorem leaveMatch_eq {modes : List Lowering} {mode : Lowering} (picked : mode ∈ modes)
    {result : Outcome × State σ} (defined : (leaveMatch modes result).1 ≠ .undefined) :
    leaveMatch modes result = (mode.exits result.1, result.2) := by
  rcases result with ⟨outcome, after⟩
  cases outcome with
  | normal | timeout | undefined => cases mode <;> rfl
  | brk =>
      simp only [leaveMatch] at defined ⊢
      by_cases bare : modes.all (· == .ifChain) = true
      · have same := List.all_eq_true.mp bare mode picked
        rw [if_pos bare, beq_iff_eq.mp same]
        rfl
      · rw [if_neg bare] at defined ⊢
        by_cases closed : modes.all (· != .ifChain) = true
        · have other := List.all_eq_true.mp closed mode picked
          rw [if_pos closed]
          cases mode with
          | conventionalSwitch | facade => rfl
          | ifChain => cases other
        · rw [if_neg closed] at defined
          exact absurd rfl defined
  | cont =>
      simp only [leaveMatch] at defined ⊢
      by_cases facade : modes.contains .facade = true
      · rw [if_pos facade] at defined
        exact absurd rfl defined
      · rw [if_neg facade]
        cases mode with
        | conventionalSwitch | ifChain => rfl
        | facade => exact absurd (List.contains_iff_mem.mpr picked) facade

theorem leaveCases_eq {modes : List Lowering} {mode : Lowering} (picked : mode ∈ modes)
    {otherwise : State σ → Outcome × State σ} (falling : Bool) (state : State σ)
    (defined : (leaveCases modes otherwise falling state).1 ≠ .undefined) :
    matchEnd mode otherwise falling state = leaveCases modes otherwise falling state := by
  cases falling with
  | false => cases mode <;> rfl
  | true =>
      simp only [leaveCases, if_true] at defined ⊢
      by_cases switch : modes.all (· == .conventionalSwitch) = true
      · have same := List.all_eq_true.mp switch mode picked
        rw [if_pos switch, beq_iff_eq.mp same, matchEnd]
      · rw [if_neg switch] at defined ⊢
        by_cases chain : modes.all (· != .conventionalSwitch) = true
        · have other := List.all_eq_true.mp chain mode picked
          rw [if_pos chain]
          cases mode with
          | conventionalSwitch => cases other
          | ifChain | facade => rfl
        · rw [if_neg chain] at defined
          exact absurd rfl defined

theorem nodeMeaning_matchOn {id : MatchId} {control : Control}
    {cases : List (Int × List Node × Bool)} {default : Option (List Node)} {state : State σ}
    (picked : lowering ∈ lowerings)
    (defined : (nodeMeaning interp fuel lowerings state (.matchOn id control cases default)).1 ≠
      .undefined) :
    nodeMeaning interp fuel lowerings state (.matchOn id control cases default) =
      let meant := casesRun (scopeMeaning interp fuel lowerings)
        (interp.value control state.store)
        (matchEnd (lowering id) fun after => defaultMeaning interp fuel lowerings after default)
        false state cases
      ((lowering id).exits meant.1, meant.2) := by
  rw [nodeMeaning, casesMeaning_eq] at defined ⊢
  have mode : lowering id ∈ lowerings.map (· id) := List.mem_map_of_mem picked
  have caseDefined := leaveMatch_defined defined
  rw [leaveMatch_eq mode defined, casesRun_atEnd (leaveCases_eq mode) false state cases caseDefined]

mutual

theorem NodeWriter.runsLike (picked : lowering ∈ lowerings) (node : Node)
    (wellLowered : node.All (Node.wellLowered lowering)) :
    RunsLike interp fuel (NodeWriter.generateSource lowering node)
      fun state => nodeMeaning interp fuel lowerings state node := by
  match node with
  | .action action =>
      refine .fragment (fun chain flag state tail => ?_) fun flag state defined => rfl
      simp only [runList]
  | .brk =>
      refine .fragment (fun chain flag state tail => ?_) fun flag state defined => rfl
      simp only [runList]
  | .cont =>
      refine .fragment (fun chain flag state tail => ?_) fun flag state defined => rfl
      simp only [runList]
  | .ifElse condition thenScope elseScope =>
      exact .ifElse (ScopeWriter.runsLike picked thenScope wellLowered.2.1)
        (ScopeWriter.runsLike picked elseScope wellLowered.2.2)
  | .loop head scope =>
      exact (RunsLike.initialization head.initialization).append
        (.loop (ScopeWriter.runsLike picked scope wellLowered.2))
  | .matchOn id control cases default =>
      have whole := RunsLike.matchOn control
        (CaseWriter.runsLike picked cases wellLowered.2.1)
        (DefaultWriter.runsLike picked default wellLowered.2.2)
        (by rintro rfl state; rfl) wellLowered.1
      exact whole.congr fun state defined => nodeMeaning_matchOn picked defined

theorem ScopeWriter.runsLike (picked : lowering ∈ lowerings) (scope : List Node)
    (wellLowered : scopeAll (Node.wellLowered lowering) scope) :
    RunsLike interp fuel (ScopeWriter.generateSource lowering scope)
      fun state => scopeMeaning interp fuel lowerings state scope := by
  match scope with
  | [] =>
      intro chain flag state tail next defined goesOn
      exact goesOn state rfl chain
  | child :: rest =>
      exact (NodeWriter.runsLike picked child wellLowered.1).append
        (ScopeWriter.runsLike picked rest wellLowered.2)

theorem CaseWriter.runsLike (picked : lowering ∈ lowerings)
    (cases : List (Int × List Node × Bool))
    (wellLowered : casesAll (Node.wellLowered lowering) cases) :
    ∀ case ∈ cases, RunsLike interp fuel (ScopeWriter.generateSource lowering case.2.1)
      fun state => scopeMeaning interp fuel lowerings state case.2.1 := by
  match cases with
  | [] => simp
  | (constant, scope, containsFallthrough) :: rest =>
      intro case member
      rcases List.mem_cons.mp member with rfl | member
      · exact ScopeWriter.runsLike picked scope wellLowered.1
      · exact CaseWriter.runsLike picked rest wellLowered.2 case member

theorem DefaultWriter.runsLike (picked : lowering ∈ lowerings) (default : Option (List Node))
    (wellLowered : defaultAll (Node.wellLowered lowering) default) :
    ∀ scope, default = some scope →
      RunsLike interp fuel (ScopeWriter.generateSource lowering scope)
        fun state => defaultMeaning interp fuel lowerings state default := by
  match default with
  | none => simp
  | some scope =>
      rintro _ ⟨⟩
      exact ScopeWriter.runsLike picked scope wellLowered

end

/-- Two lowerings of a program run the same statements, as long as no jump of the
run leaves a match in different ways under the two. -/
theorem jumps_independent_of_lowering (interp : Interp σ) (fuel : Nat)
    (first second : MatchId → Lowering) (program : List Node) (state : State σ)
    (firstLowered : scopeAll (Node.wellLowered first) program)
    (secondLowered : scopeAll (Node.wellLowered second) program)
    (sharedTargets : (scopeMeaning interp fuel [first, second] state program).1 ≠ .undefined) :
    let meant := scopeMeaning interp fuel [first, second] state program
    runList interp fuel none false state (ScopeWriter.generateSource first program) =
        (meant.1, meant.2, false) ∧
      runList interp fuel none false state (ScopeWriter.generateSource second program) =
        (meant.1, meant.2, false) := by
  constructor
  · exact (ScopeWriter.runsLike (List.mem_cons_self) program firstLowered).block none false state
      sharedTargets
  · exact (ScopeWriter.runsLike (by simp) program secondLowered).block none false state
      sharedTargets

/-- `while (store < 2) { match (1) { 1 => jump }; 0 }`, where action 0 adds 1. -/
def loopedJump (jump : Node) : List Node :=
  [.loop (.whileLoop 0) [.matchOn 0 0 [(1, [jump], false)] none, .action 0]]

def countTo2 : Interp Nat := ⟨fun _ store => store + 1, fun _ store => store < 2, fun _ _ => 1⟩

/-- A `break` directly in a match ends the `switch`, but the loop around a bare
`if` chain. -/
theorem break_depends_on_lowering :
    let traceOf := fun mode => (runList countTo2 3 none false ⟨0, []⟩
      (ScopeWriter.generateSource (fun _ => mode) (loopedJump .brk))).2.1.trace
    traceOf .conventionalSwitch = [0, 0] ∧ traceOf .ifChain = [] :=
  ⟨rfl, rfl⟩

theorem jumps_independent_of_lowering_continue :
    let meant := scopeMeaning countTo2 3 [fun _ => .conventionalSwitch, fun _ => .ifChain] ⟨0, []⟩
      (loopedJump .cont)
    runList countTo2 3 none false ⟨0, []⟩
        (ScopeWriter.generateSource (fun _ => .conventionalSwitch) (loopedJump .cont)) =
        (meant.1, meant.2, false) ∧
      runList countTo2 3 none false ⟨0, []⟩
        (ScopeWriter.generateSource (fun _ => .ifChain) (loopedJump .cont)) =
        (meant.1, meant.2, false) := by
  have lowered : ∀ mode, mode ≠ .facade →
      scopeAll (Node.wellLowered fun _ => mode) (loopedJump .cont) := by
    intro mode _
    simp [loopedJump, scopeAll, Node.All, casesAll, defaultAll, Node.wellLowered, WellLowered]
  exact jumps_independent_of_lowering countTo2 3 _ _ (loopedJump .cont) ⟨0, []⟩
    (lowered _ (by simp)) (lowered _ (by simp)) (by decide)

end NovaC.Matches
