import NovaC.C.Contained
import NovaC.Matches.Lowering

namespace NovaC.Matches

open NovaC.C

/-! Both texts of a match run the bodies that the match selects.

A body is here whatever jump-free scope the program has: it does what its own
text does, and the text of the match has to run it where the match says.
-/

variable {σ : Type} {interp : Interp σ} {fuel : Nat} {lowering : MatchId → Lowering}

/-- The bodies that a match runs, in order. -/
def selectedBodies {β : Type} (value : Int) (default : Option β) :
    Bool → List (Int × β × Bool) → List β
  | _, [] => default.toList
  | falling, (constant, body, containsFallthrough) :: rest =>
      if falling || value == constant then
        body :: if containsFallthrough then selectedBodies value default true rest else []
      else selectedBodies value default falling rest

def runBodies {β : Type} (run : State σ → β → Outcome × State σ) (state : State σ) :
    List β → Outcome × State σ
  | [] => (.normal, state)
  | body :: rest => andThen (run state body) fun after => runBodies run after rest

/-- What the text of a scope does on its own. -/
def scopeRun (interp : Interp σ) (fuel : Nat) (lowering : MatchId → Lowering) (state : State σ)
    (scope : List Node) : Outcome × State σ :=
  let (outcome, after, _) :=
    runList interp fuel none false state (ScopeWriter.generateSource lowering scope)
  (outcome, after)

/-- `requiresLoopFacade()`: some case contains a `fallthrough`. -/
def requiresLoopFacade (cases : List (Int × List Node × Bool)) : Bool :=
  cases.any fun case => case.2.2

def ifMode (cases : List (Int × List Node × Bool)) : Lowering :=
  if requiresLoopFacade cases then .facade else .ifChain

/-- Jump-free, and lowered the way the match API guarantees. -/
def Body (lowering : MatchId → Lowering) (scope : List Node) : Prop :=
  scopeAll (fun node => node.jumpFree ∧ node.wellLowered lowering) scope

/-! The text of a jump-free scope is contained. -/

mutual

theorem NodeWriter.contained (around : Around) (node : Node)
    (body : node.All fun node => node.jumpFree ∧ node.wellLowered lowering) :
    listContained around false (NodeWriter.generateSource lowering node) = true := by
  match node with
  | .action action => rfl
  | .brk => exact absurd body.1 id
  | .cont => exact absurd body.1 id
  | .ifElse condition thenScope elseScope =>
      simp [NodeWriter.generateSource, listContained, guardContained,
        ScopeWriter.contained around thenScope body.2.1,
        ScopeWriter.contained around elseScope body.2.2]
  | .loop head scope =>
      rw [NodeWriter.generateSource]
      apply listContained_append
      · cases head.initialization <;> rfl
      · simp [listContained, fragmentContained, ScopeWriter.contained _ scope body.2]
  | .matchOn id control cases default =>
      obtain ⟨⟨_, noFallthrough, attached⟩, casesBody, defaultBody⟩ := body
      have texts : ∀ around, (lowering id = .facade → around.flag = true) →
          (lowering id ≠ .ifChain → around.breakTarget = true) →
          listContained around false
            (CaseWriter.generateSource lowering (lowering id) control none cases ++
              DefaultWriter.generateSource lowering (lowering id) default) = true := by
        intro around flagged breaks
        apply CaseWriter.contained around (lowering id) control none cases flagged breaks casesBody
          (fun chain => ⟨by simp, noFallthrough chain⟩) false (by simp)
          (DefaultWriter.contained around (lowering id) default defaultBody)
        intro ends
        rw [Bool.and_eq_true, bne_iff_ne] at ends
        refine ⟨ends.1, fun none => ?_⟩
        rw [attached ends.1 none] at ends
        exact ends.2
      rw [NodeWriter.generateSource]
      cases picked : lowering id with
      | conventionalSwitch =>
          have inside := texts { around with breakTarget := true } (by simp [picked]) (by simp)
          simpa [MatchWriter.generateSource, listContained, fragmentContained, picked] using inside
      | ifChain =>
          have inside := texts around (by simp [picked]) (by simp [picked])
          simpa [MatchWriter.generateSource, picked] using inside
      | facade =>
          have inside := texts ⟨true, true, true⟩ (by simp) (by simp)
          simpa [MatchWriter.generateSource, listContained, fragmentContained, picked] using inside

theorem ScopeWriter.contained (around : Around) (scope : List Node)
    (body : scopeAll (fun node => node.jumpFree ∧ node.wellLowered lowering) scope) :
    listContained around false (ScopeWriter.generateSource lowering scope) = true := by
  match scope with
  | [] => rfl
  | child :: rest =>
      exact listContained_append (NodeWriter.contained around child body.1)
        (ScopeWriter.contained around rest body.2)

theorem CaseWriter.contained (around : Around) (mode : Lowering) (control : Control)
    (before : Option Bool) (cases : List (Int × List Node × Bool))
    (flagged : mode = .facade → around.flag = true)
    (breaks : mode ≠ .ifChain → around.breakTarget = true)
    (body : casesAll (fun node => node.jumpFree ∧ node.wellLowered lowering) cases)
    (noFallthrough : mode = .ifChain → before ≠ some true ∧ ∀ case ∈ cases, case.2.2 = false)
    (afterIf : Bool) (follows : before = some false → mode ≠ .conventionalSwitch → afterIf = true)
    {tail : List Fragment} {atEnd : Bool} (tailContained : listContained around atEnd tail = true)
    (ends : atEnd = true → mode ≠ .conventionalSwitch ∧ (cases = [] → afterIf = true)) :
    listContained around afterIf
      (CaseWriter.generateSource lowering mode control before cases ++ tail) = true := by
  match cases with
  | [] =>
      cases atEnd with
      | true =>
          rw [(ends rfl).2 rfl]
          exact tailContained
      | false => exact listContained_append rfl tailContained
  | (constant, scope, containsFallthrough) :: rest =>
      have scopeContained := ScopeWriter.contained around scope body.1
      have restContained : ∀ afterIf, (mode ≠ .conventionalSwitch → afterIf = true) →
          listContained around afterIf (CaseWriter.generateSource lowering mode control
            (some containsFallthrough) rest ++ tail) = true := by
        intro afterIf isIf
        refine CaseWriter.contained around mode control (some containsFallthrough) rest flagged
          breaks body.2 (fun chain => ?_) afterIf (fun _ => isIf) tailContained
          (fun end_ => ⟨(ends end_).1, fun _ => isIf (ends end_).1⟩)
        have noFall := (noFallthrough chain).2
        refine ⟨?_, fun case member => noFall case (List.mem_cons_of_mem _ member)⟩
        rintro ⟨⟩
        cases noFall _ List.mem_cons_self
      have attached : mode ≠ .conventionalSwitch →
          (!(before == some false) || afterIf) = true := by
        intro chain
        by_cases noFall : before = some false
        · simp [follows noFall chain]
        · simp [noFall]
      cases mode with
      | conventionalSwitch =>
          have continued := restContained false (fun other => absurd rfl other)
          have jump : listContained around false
              (if containsFallthrough then [] else [.brk]) = true := by
            cases containsFallthrough with
            | true => rfl
            | false => simpa [listContained, fragmentContained] using breaks (by simp)
          rw [CaseWriter.switch_cons, List.cons_append, List.append_assoc, List.append_assoc]
          have statements := listContained_append scopeContained
            (listContained_append jump continued)
          cases afterIf <;> simpa [listContained, fragmentContained] using statements
      | ifChain =>
          have noFall := noFallthrough rfl
          have falls : containsFallthrough = false := noFall.2 _ List.mem_cons_self
          subst containsFallthrough
          rw [CaseWriter.ifChain_cons, List.cons_append]
          simp only [listContained, Bool.and_eq_true]
          refine ⟨⟨⟨attached (by simp), ?_⟩, scopeContained⟩, restContained true fun _ => rfl⟩
          simp [guardContained, noFall.1]
      | facade =>
          rw [CaseWriter.facade_cons, List.cons_append]
          simp only [listContained, Bool.and_eq_true]
          refine ⟨⟨⟨attached (by simp), ?_⟩, ?_⟩, restContained true fun _ => rfl⟩
          · simp [guardContained, flagged rfl]
          · apply listContained_append scopeContained
            cases containsFallthrough <;>
              simp [listContained, fragmentContained, flagged rfl, breaks (by simp)]

theorem DefaultWriter.contained (around : Around) (mode : Lowering) (default : Option (List Node))
    (body : defaultAll (fun node => node.jumpFree ∧ node.wellLowered lowering) default) :
    listContained around (mode != .conventionalSwitch && default.isSome)
      (DefaultWriter.generateSource lowering mode default) = true := by
  match default with
  | none => rfl
  | some scope =>
      have scopeContained := ScopeWriter.contained around scope body
      cases mode <;> simpa [DefaultWriter.generateSource, listContained, fragmentContained]
        using scopeContained

end

theorem Body.stays (interp : Interp σ) (fuel : Nat) {scope : List Node}
    (body : Body lowering scope) (state : State σ) :
    Stays ⟨false, false, false⟩ false fun flag =>
      runList interp fuel none flag state (ScopeWriter.generateSource lowering scope) :=
  runList_stays _ (ScopeWriter.contained _ scope body) none (by simp) false state

theorem Body.ends {scope : List Node} (body : Body lowering scope) (state : State σ) :
    (scopeRun interp fuel lowering state scope).1 = .normal ∨
      (scopeRun interp fuel lowering state scope).1 = .timeout := by
  obtain ⟨defined, breaks, continues, _⟩ := body.stays interp fuel state
  rw [scopeRun]
  rcases ran : runList interp fuel none false state (ScopeWriter.generateSource lowering scope) with
    ⟨outcome, after, flagAfter⟩
  rw [ran] at defined breaks continues
  cases outcome with
  | normal => exact .inl rfl
  | timeout => exact .inr rfl
  | brk => cases breaks rfl
  | cont => cases continues rfl
  | undefined => exact absurd rfl defined

/-- A body does what its own text does wherever the text of the match puts it. -/
theorem Body.runsLike {scope : List Node} (body : Body lowering scope) :
    RunsLike interp fuel (ScopeWriter.generateSource lowering scope)
      fun state => scopeRun interp fuel lowering state scope := by
  intro chain flag state tail next defined goesOn
  obtain ⟨chainAfter, ran⟩ := runList_append interp fuel
    (ScopeWriter.generateSource lowering scope) tail chain flag state
  rw [ran, runList_chain (ScopeWriter.contained ⟨false, false, false⟩ scope body),
    (body.stays interp fuel state).flagKept rfl flag, followedBy]
  simp only [scopeRun] at goesOn ⊢
  rcases alone : runList interp fuel none false state
    (ScopeWriter.generateSource lowering scope) with ⟨outcome, after, flagAfter⟩
  rw [alone] at goesOn
  cases outcome <;> try rfl
  exact goesOn after rfl chainAfter

section Reference

variable {β : Type} {run : State σ → β → Outcome × State σ}

theorem casesRun_eq_runBodies (value : Int) (default : Option β) (falling : Bool) (state : State σ)
    (cases : List (Int × β × Bool)) :
    casesRun run value (fun _ state => runBodies run state default.toList) falling state cases =
      runBodies run state (selectedBodies value default falling cases) := by
  induction cases generalizing falling state with
  | nil => rfl
  | cons first rest ih =>
      obtain ⟨constant, body, containsFallthrough⟩ := first
      simp only [casesRun, selectedBodies]
      split
      · rw [runBodies]
        congr 1
        funext after
        cases containsFallthrough with
        | true => exact ih true after
        | false => rfl
      · exact ih falling state

theorem runBodies_ends (state : State σ) (bodies : List β)
    (ends : ∀ body ∈ bodies, ∀ state, (run state body).1 = .normal ∨
      (run state body).1 = .timeout) :
    (runBodies run state bodies).1 = .normal ∨ (runBodies run state bodies).1 = .timeout := by
  induction bodies generalizing state with
  | nil => exact .inl rfl
  | cons body rest ih =>
      have bodyEnds := ends body List.mem_cons_self state
      rw [runBodies]
      rcases ran : run state body with ⟨outcome, after⟩
      rw [ran] at bodyEnds
      rcases bodyEnds with rfl | rfl
      · exact ih after fun other member => ends other (List.mem_cons_of_mem _ member)
      · exact .inr rfl

theorem selectedBodies_mem {value : Int} {default : Option β} {body : β} (falling : Bool)
    (cases : List (Int × β × Bool)) (selected : body ∈ selectedBodies value default falling cases) :
    (∃ case ∈ cases, case.2.1 = body) ∨ default = some body := by
  induction cases generalizing falling with
  | nil => exact .inr (by simpa [selectedBodies] using selected)
  | cons first rest ih =>
      obtain ⟨constant, scope, containsFallthrough⟩ := first
      have later : ∀ falling, body ∈ selectedBodies value default falling rest →
          (∃ case ∈ (constant, scope, containsFallthrough) :: rest, case.2.1 = body) ∨
            default = some body := by
        intro falling member
        rcases ih falling member with ⟨case, member, same⟩ | same
        · exact .inl ⟨case, List.mem_cons_of_mem _ member, same⟩
        · exact .inr same
      rw [selectedBodies] at selected
      split at selected
      · rcases List.mem_cons.mp selected with rfl | selected
        · exact .inl ⟨_, List.mem_cons_self, rfl⟩
        · cases containsFallthrough with
          | true => exact later true selected
          | false => cases selected
      · exact later falling selected

/-- Where every case from the control's on falls through, the end is reached
with the store that the bodies leave. -/
theorem casesRun_fallsToEnd {value : Int} (falling : Bool) (state : State σ)
    (cases : List (Int × β × Bool))
    (normal : ∀ case ∈ cases, ∀ state, (run state case.2.1).1 = .normal)
    (falls : fallsToEnd value falling (cases.map fun case => (case.1, case.2.2)) = true) :
    ∃ after, ∀ atEnd, casesRun run value atEnd falling state cases = atEnd true after := by
  induction cases generalizing falling state with
  | nil => 
      simp only [List.map_nil, fallsToEnd] at falls
      subst falling
      exact ⟨state, fun _ => rfl⟩
  | cons first rest ih =>
      obtain ⟨constant, body, containsFallthrough⟩ := first
      have restNormal := fun case member => normal case (List.mem_cons_of_mem _ member)
      simp only [casesRun, List.map_cons, fallsToEnd] at falls ⊢
      split
      · rename_i taken
        rw [if_pos taken, Bool.and_eq_true] at falls
        obtain ⟨rfl, falls⟩ := falls
        have bodyNormal := normal _ List.mem_cons_self state
        rcases ran : run state body with ⟨outcome, after⟩
        rw [ran] at bodyNormal
        cases bodyNormal
        exact ih true after restNormal falls
      · rename_i skipped
        rw [if_neg skipped] at falls
        exact ih falling state restNormal falls

end Reference

def shape (cases : List (Int × List Node × Bool)) : List (Int × Bool) :=
  cases.map fun case => (case.1, case.2.2)

def matchText (lowering : MatchId → Lowering) (mode : Lowering) (control : Control)
    (cases : List (Int × List Node × Bool)) (default : Option (List Node)) : List Fragment :=
  MatchWriter.generateSource mode control (CaseWriter.generateSource lowering mode control none cases ++
    DefaultWriter.generateSource lowering mode default)

/-- Both texts of every match with these constants and fallthroughs, with a
default or without, run the selected bodies, whatever the bodies are. -/
def RunsSelected (interp : Interp σ) (fuel : Nat) (lowering : MatchId → Lowering)
    (control : Control) (state : State σ) (constants : List (Int × Bool)) (hasDefault : Bool) :
    Prop :=
  ∀ cases default, shape cases = constants → default.isSome = hasDefault →
    (∀ case ∈ cases, Body lowering case.2.1) → (∀ scope, default = some scope → Body lowering scope) →
    ∀ mode ∈ [.conventionalSwitch, ifMode cases], ∀ chain flag,
      runList interp fuel chain flag state (matchText lowering mode control cases default) =
        let meant := runBodies (scopeRun interp fuel lowering) state
          (selectedBodies (interp.value control state.store) default false cases)
        (meant.1, meant.2, flag)

theorem runBodies_single (run : State σ → List Node → Outcome × State σ) (state : State σ)
    (body : List Node) : runBodies run state [body] = run state body := by
  rw [runBodies]
  rcases run state body with ⟨outcome, after⟩
  cases outcome <;> rfl

theorem ifMode_wellLowered {cases : List (Int × List Node × Bool)} {default : Option (List Node)}
    (attached : cases = [] → default = none) : WellLowered (ifMode cases) cases default := by
  refine ⟨fun chain case member => ?_, fun _ => attached⟩
  cases facade : requiresLoopFacade cases with
  | true => simp [ifMode, facade] at chain
  | false =>
      rw [requiresLoopFacade, List.any_eq_false] at facade
      simpa using facade case member

/-- What the `else` leaves out is nothing, unless the last case falls into a
default. -/
theorem casesRun_matchEnd {run : State σ → List Node → Outcome × State σ} {value : Int}
    {default : Option (List Node)} (mode : Lowering) (state : State σ)
    (cases : List (Int × List Node × Bool))
    (stops : default.isSome = true → fallsToEnd value false (shape cases) = false) :
    casesRun run value (matchEnd mode fun state => runBodies run state default.toList) false state
        cases =
      runBodies run state (selectedBodies value default false cases) := by
  rw [← casesRun_eq_runBodies]
  cases default with
  | none =>
      congr 1
      funext falling state
      cases mode <;> cases falling <;> rfl
  | some scope =>
      apply casesRun_stops _ false state cases (stops rfl)
      intro state
      cases mode <;> rfl

theorem matchText_run {mode : Lowering} {control : Control}
    {cases : List (Int × List Node × Bool)} {default : Option (List Node)} {state : State σ}
    (wellLowered : WellLowered mode cases default)
    (casesBody : ∀ case ∈ cases, Body lowering case.2.1)
    (defaultBody : ∀ scope, default = some scope → Body lowering scope) {meant : Outcome × State σ}
    (meaning : casesRun (scopeRun interp fuel lowering) (interp.value control state.store)
      (matchEnd mode fun state => runBodies (scopeRun interp fuel lowering) state default.toList)
      false state cases = meant)
    (ends : meant.1 = .normal ∨ meant.1 = .timeout) (chain : Option Bool) (flag : Bool) :
    runList interp fuel chain flag state (matchText lowering mode control cases default) =
      (meant.1, meant.2, flag) := by
  have last : ∀ scope, default = some scope →
      RunsLike interp fuel (ScopeWriter.generateSource lowering scope)
        fun state => runBodies (scopeRun interp fuel lowering) state default.toList := by
    rintro scope rfl
    simp only [Option.toList_some, runBodies_single]
    exact (defaultBody scope rfl).runsLike
  have nothing : default = none → ∀ state,
      runBodies (scopeRun interp fuel lowering) state default.toList = (.normal, state) := by
    rintro rfl state
    rfl
  have exits : mode.exits meant.1 = meant.1 := by
    rcases ends with ended | ended <;> rw [ended] <;> cases mode <;> rfl
  have ran := (RunsLike.matchOn control (fun case member => (casesBody case member).runsLike) last
    nothing wellLowered).block chain flag state
  simp only [meaning, exits] at ran
  apply ran
  rcases ends with normal | timeout
  · simp [normal]
  · simp [timeout]

theorem runsSelected_of_reached {control : Control} {state : State σ}
    {constants : List (Int × Bool)} {hasDefault : Bool}
    (reached : ¬ (hasDefault = true ∧ (constants = [] ∨
      fallsToEnd (interp.value control state.store) false constants = true))) :
    RunsSelected interp fuel lowering control state constants hasDefault := by
  rintro cases default rfl rfl casesBody defaultBody mode picked chain flag
  have attached : cases = [] → default = none := by
    rintro rfl
    cases default with
    | none => rfl
    | some scope => exact absurd ⟨rfl, .inl rfl⟩ reached
  have stops : default.isSome = true →
      fallsToEnd (interp.value control state.store) false (shape cases) = false := by
    intro some
    rw [Bool.eq_false_iff]
    exact fun falls => reached ⟨some, .inr falls⟩
  have wellLowered : WellLowered mode cases default := by
    rcases List.mem_cons.mp picked with rfl | picked
    · exact ⟨by simp, fun other => absurd rfl other⟩
    · rw [List.mem_singleton.mp picked]
      exact ifMode_wellLowered attached
  have ends : ∀ body ∈ selectedBodies (interp.value control state.store) default false cases,
      ∀ state, (scopeRun interp fuel lowering state body).1 = .normal ∨
        (scopeRun interp fuel lowering state body).1 = .timeout := by
    intro body selected state
    rcases selectedBodies_mem false cases selected with ⟨case, member, rfl⟩ | same
    · exact (casesBody case member).ends state
    · exact (defaultBody body same).ends state
  exact matchText_run wellLowered casesBody defaultBody
    (casesRun_matchEnd mode state cases stops) (runBodies_ends state _ ends) chain flag

/-- Bodies that can be told from nothing. -/
def markedCases (constants : List (Int × Bool)) : List (Int × List Node × Bool) :=
  constants.map fun constant => (constant.1, [.action 0], constant.2)

theorem reached_of_runsSelected {control : Control} {state : State σ}
    {constants : List (Int × Bool)} {hasDefault : Bool}
    (runs : RunsSelected interp fuel lowering control state constants hasDefault) :
    ¬ (hasDefault = true ∧ (constants = [] ∨
      fallsToEnd (interp.value control state.store) false constants = true)) := by
  rintro ⟨rfl, unreached⟩
  have marked : Body lowering [.action 0] := ⟨⟨trivial, trivial⟩, trivial⟩
  have markedBody : ∀ case ∈ markedCases constants, case.2.1 = [.action 0] := by
    intro case member
    obtain ⟨constant, _, rfl⟩ := List.mem_map.mp member
    rfl
  have casesBody : ∀ case ∈ markedCases constants, Body lowering case.2.1 := by
    intro case member
    rw [markedBody case member]
    exact marked
  have defaultBody : ∀ scope, some [Node.action 0] = some scope → Body lowering scope := by
    rintro scope ⟨⟩
    exact marked
  have sameShape : shape (markedCases constants) = constants := by
    simp [shape, markedCases, Function.comp_def]
  have ran := runs (markedCases constants) (some [.action 0]) sameShape rfl casesBody defaultBody
    (ifMode (markedCases constants)) (by simp) none false
  rcases unreached with rfl | falls
  · -- an `else` without an `if`
    cases ran
  · have wellLowered : WellLowered (ifMode (markedCases constants)) (markedCases constants)
        (some [.action 0]) := by
      apply ifMode_wellLowered
      intro none
      rw [← sameShape, none] at falls
      cases falls
    have normal : ∀ case ∈ markedCases constants, ∀ state,
        (scopeRun interp fuel lowering state case.2.1).1 = .normal := by
      intro case member state
      rw [markedBody case member]
      rfl
    rw [← sameShape] at falls
    obtain ⟨after, ended⟩ := casesRun_fallsToEnd false state (markedCases constants) normal falls
    have skips : matchEnd (ifMode (markedCases constants))
        (fun state => runBodies (scopeRun interp fuel lowering) state [[.action 0]]) true after =
        (.normal, after) := by
      rw [ifMode]
      split <;> rfl
    have skipped := matchText_run wellLowered casesBody defaultBody ((ended _).trans skips) (.inl rfl)
      none false
    simp only [skipped, ← casesRun_eq_runBodies, ended] at ran
    have traces : after.trace = after.trace ++ [0] := congrArg (fun result => result.2.1.trace) ran
    simp at traces

theorem match_runs_selected (interp : Interp σ) (fuel : Nat) (lowering : MatchId → Lowering)
    (control : Control) (state : State σ) (constants : List (Int × Bool)) (hasDefault : Bool) :
    RunsSelected interp fuel lowering control state constants hasDefault ↔
      ¬ (hasDefault = true ∧ (constants = [] ∨
        fallsToEnd (interp.value control state.store) false constants = true)) :=
  ⟨reached_of_runsSelected, runsSelected_of_reached⟩

/-- The control is 1, `case 1` ends in `fallthrough`, and the default behind it
is not run. -/
theorem lastFallthrough_skips_default :
    let interp : Interp Unit := ⟨fun _ store => store, fun _ _ => true, fun _ _ => 1⟩
    let cases : List (Int × List Node × Bool) := [(1, [.action 0], true)]
    let text := matchText (fun _ => .ifChain) (ifMode cases) 0 cases (some [.action 1])
    let bodies := selectedBodies 1 (some [.action 1]) false cases
    (runList interp 0 none false ⟨(), []⟩ text).2.1.trace = [0] ∧
      (runBodies (scopeRun interp 0 fun _ => .ifChain) ⟨(), []⟩ bodies).2.trace = [0, 1] :=
  ⟨rfl, rfl⟩

end NovaC.Matches
