import NovaC.Matches.Writer

namespace NovaC.Matches

open NovaC.C

/-! Each lowering of a match does what the match means.

The scopes are run in front of an arbitrary tail, because the text of a scope
is spliced into the text around it: `runsLike` says that the text of a scope
does what the scope means and then goes on with whatever follows.
-/

variable {σ : Type} {interp : Interp σ} {fuel : Nat} {lowering : MatchId → Lowering}
  {means : State σ → List Node → Outcome × State σ}

/-! What a case adds to the text. -/

theorem CaseWriter.switch_cons (control : Control) (before : Option Bool) (constant : Int)
    (scope : List Node) (falls : Bool) (rest : List (Int × List Node × Bool)) :
    CaseWriter.generateSource lowering .conventionalSwitch control before
        ((constant, scope, falls) :: rest) =
      .caseLabel constant :: (ScopeWriter.generateSource lowering scope ++
        ((if falls then [] else [.brk]) ++
          CaseWriter.generateSource lowering .conventionalSwitch control (some falls) rest)) := by
  cases falls <;> simp [CaseWriter.generateSource, FallthroughWriter.generateSource]

theorem CaseWriter.ifChain_cons (control : Control) (before : Option Bool) (constant : Int)
    (scope : List Node) (rest : List (Int × List Node × Bool)) :
    CaseWriter.generateSource lowering .ifChain control before ((constant, scope, false) :: rest) =
      .ifPart (before == some false) (.equals (before == some true) control constant)
          (ScopeWriter.generateSource lowering scope) ::
        CaseWriter.generateSource lowering .ifChain control (some false) rest := by
  simp [CaseWriter.generateSource]

theorem CaseWriter.facade_cons (control : Control) (before : Option Bool) (constant : Int)
    (scope : List Node) (falls : Bool) (rest : List (Int × List Node × Bool)) :
    CaseWriter.generateSource lowering .facade control before ((constant, scope, falls) :: rest) =
      .ifPart (before == some false) (.equals (before == some true) control constant)
          (ScopeWriter.generateSource lowering scope ++ if falls then [.setFlag] else [.brk]) ::
        CaseWriter.generateSource lowering .facade control (some falls) rest := by
  cases falls <;> simp [CaseWriter.generateSource, FallthroughWriter.generateSource]

/-- A statement with this result, in front of text that does what `next` says;
the flag is not the statement's. -/
def followedBy (result : Outcome × State σ) (flag : Bool)
    (next : State σ → Outcome × State σ × Bool) : Outcome × State σ × Bool :=
  andThen (result.1, result.2, flag) fun after => next after.1

/-- The text `source` has the meaning `means` in front of every tail whose
behaviour does not depend on the `if` chain in front of it. -/
def RunsLike (interp : Interp σ) (fuel : Nat) (source : List Fragment)
    (means : State σ → Outcome × State σ) : Prop :=
  ∀ chain flag state tail next, (means state).1 ≠ .undefined →
    (∀ after, means state = (.normal, after) →
      ∀ chain, runList interp fuel chain flag after tail = next after) →
    runList interp fuel chain flag state (source ++ tail) = followedBy (means state) flag next

theorem followedBy_nothing (result : Outcome × State σ) (flag : Bool) :
    followedBy result flag (fun after => (.normal, after, flag)) = (result.1, result.2, flag) := by
  rcases result with ⟨outcome, after⟩
  cases outcome <;> rfl

theorem RunsLike.block {source : List Fragment} {means : State σ → Outcome × State σ}
    (runs : RunsLike interp fuel source means) (chain : Option Bool) (flag : Bool) (state : State σ)
    (defined : (means state).1 ≠ .undefined) :
    runList interp fuel chain flag state source = ((means state).1, (means state).2, flag) := by
  have ran := runs chain flag state [] (fun after => (.normal, after, flag)) defined
    (fun _ _ _ => rfl)
  rwa [List.append_nil, followedBy_nothing] at ran

/-- An `if`, or an `else if` behind branches that were not taken. -/
theorem runList_ifPart {afterElse : Bool} {chain : Option Bool}
    (inChain : afterElse = true → chain = some false) (flag : Bool) (state : State σ)
    (guard : Guard) (block rest : List Fragment) :
    runList interp fuel chain flag state (.ifPart afterElse guard block :: rest) =
      if guard.holds interp flag state then
        andThen (runList interp fuel none flag state block) fun after =>
          runList interp fuel (some true) after.2 after.1 rest
      else runList interp fuel (some false) flag state rest := by
  cases afterElse with
  | false =>
      simp only [runList, Bool.false_and, Bool.false_eq_true, if_false]
  | true =>
      simp [runList, inChain rfl]

/-- What follows the last case of an `if` chain: the `else` of the default is
reached only when no case has been run. -/
def chainEnd (otherwise : State σ → Outcome × State σ) (falling : Bool) (state : State σ) :
    Outcome × State σ :=
  if falling then (.normal, state) else otherwise state

section Cases

variable {β : Type} {run : State σ → β → Outcome × State σ} {value : Int}

/-- What follows the last case matters where it is reached and defined. -/
theorem casesRun_atEnd {atEnd atEnd' : Bool → State σ → Outcome × State σ}
    (same : ∀ falling state, (atEnd falling state).1 ≠ .undefined →
      atEnd' falling state = atEnd falling state)
    (falling : Bool) (state : State σ) (cases : List (Int × β × Bool))
    (defined : (casesRun run value atEnd falling state cases).1 ≠ .undefined) :
    casesRun run value atEnd' falling state cases =
      casesRun run value atEnd falling state cases := by
  induction cases generalizing falling state with
  | nil => exact same falling state defined
  | cons first rest ih =>
      obtain ⟨constant, body, containsFallthrough⟩ := first
      simp only [casesRun] at defined ⊢
      split
      · rename_i taken
        rw [if_pos taken] at defined
        rcases ran : run state body with ⟨outcome, after⟩
        rw [ran] at defined
        cases outcome <;> try rfl
        cases containsFallthrough with
        | false => rfl
        | true => exact ih true after defined
      · rename_i skipped
        rw [if_neg skipped] at defined
        exact ih falling state defined

/-- Where some case from the control's on does not fall through, the end is
reached only by a control that no case matches. -/
theorem casesRun_stops {atEnd atEnd' : Bool → State σ → Outcome × State σ}
    (same : ∀ state, atEnd' false state = atEnd false state)
    (falling : Bool) (state : State σ) (cases : List (Int × β × Bool))
    (stops : fallsToEnd value falling (cases.map fun case => (case.1, case.2.2)) = false) :
    casesRun run value atEnd' falling state cases =
      casesRun run value atEnd falling state cases := by
  induction cases generalizing falling state with
  | nil =>
      simp only [List.map_nil, fallsToEnd] at stops
      subst falling
      exact same state
  | cons first rest ih =>
      obtain ⟨constant, body, containsFallthrough⟩ := first
      simp only [casesRun, List.map_cons, fallsToEnd] at stops ⊢
      split
      · rename_i taken
        rw [if_pos taken] at stops
        rcases run state body with ⟨outcome, after⟩
        cases outcome <;> try rfl
        cases containsFallthrough with
        | false => rfl
        | true => exact ih true after (by simpa using stops)
      · rename_i skipped
        rw [if_neg skipped] at stops
        exact ih falling state stops

end Cases

section IfChain

variable {value : Int} {control : Control} {default : Option (List Node)}
  {otherwise : State σ → Outcome × State σ}

/-- The `else` behind the facade's last case runs exactly where no case was. -/
theorem run_facade_default
    (last : ∀ scope, default = some scope →
      RunsLike interp fuel (ScopeWriter.generateSource lowering scope) otherwise)
    (nothing : default = none → ∀ state, otherwise state = (.normal, state))
    (chain : Option Bool) (flag falling : Bool) (state : State σ)
    (fell : falling = true → chain = some true)
    (searching : falling = false → default.isSome → chain = some false)
    (defined : (chainEnd otherwise falling state).1 ≠ .undefined) :
    let ran := runList interp fuel chain flag state
      (DefaultWriter.generateSource lowering .facade default)
    let meant := chainEnd otherwise falling state
    (ran.1.exitsFacade, ran.2.1) = (meant.1.exitsFacade, meant.2) := by
  cases default with
  | none =>
      cases falling <;> simp [DefaultWriter.generateSource, runList, chainEnd, nothing rfl,
        Outcome.exitsFacade]
  | some scope =>
      cases falling with
      | true =>
          have skipped := fell rfl
          subst chain
          simp [DefaultWriter.generateSource, runList, chainEnd, Outcome.exitsFacade]
      | false =>
          have inChain := searching rfl rfl
          subst chain
          simp only [chainEnd, Bool.false_eq_true, if_false] at defined ⊢
          have ran := (last scope rfl).block none flag state defined
          simp only [DefaultWriter.generateSource, runList, ran]
          rcases otherwise state with ⟨outcome, after⟩
          cases outcome <;> rfl

/-- Inside the facade, where a `break` ends the whole match.  Before a case has
been run the local flag is 0 and every condition so far was false; afterwards
the case in front fell through and set the flag. -/
theorem run_facade (cases : List (Int × List Node × Bool))
    (scopes : ∀ case ∈ cases, RunsLike interp fuel (ScopeWriter.generateSource lowering case.2.1)
      fun state => means state case.2.1)
    (last : ∀ scope, default = some scope →
      RunsLike interp fuel (ScopeWriter.generateSource lowering scope) otherwise)
    (nothing : default = none → ∀ state, otherwise state = (.normal, state))
    (before chain : Option Bool) (flag falling : Bool) (state : State σ)
    (fell : falling = true → before = some true ∧ flag = true ∧ chain = some true)
    (searching : falling = false → flag = false ∧ (before.isSome → chain = some false) ∧
      interp.value control state.store = value)
    (attached : before = none → cases = [] → default = none)
    (defined : (casesRun means value (chainEnd otherwise) falling state cases).1 ≠ .undefined) :
    let ran := runList interp fuel chain flag state
      (CaseWriter.generateSource lowering .facade control before cases ++
        DefaultWriter.generateSource lowering .facade default)
    let meant := casesRun means value (chainEnd otherwise) falling state cases
    (ran.1.exitsFacade, ran.2.1) = (meant.1.exitsFacade, meant.2) := by
  induction cases generalizing before chain flag falling state with
  | nil =>
      simp only [CaseWriter.generateSource, List.nil_append, casesRun] at defined ⊢
      refine run_facade_default last nothing chain flag falling state
        (fun isFalling => (fell isFalling).2.2)
        (fun isSearching hasDefault => (searching isSearching).2.1 ?_) defined
      cases before with
      | none =>
          rw [attached rfl rfl] at hasDefault
          cases hasDefault
      | some _ => rfl
  | cons first rest ih =>
      obtain ⟨constant, scope, containsFallthrough⟩ := first
      have inChain : (before == some false) = true → chain = some false := by
        intro noFall
        rw [beq_iff_eq] at noFall
        subst before
        cases falling with
        | true => cases (fell rfl).1
        | false => exact (searching rfl).2.1 rfl
      have chosen : Guard.holds interp flag state (.equals (before == some true) control constant) =
          (falling || value == constant) := by
        cases falling with
        | true =>
            obtain ⟨rfl, rfl, _⟩ := fell rfl
            rfl
        | false =>
            obtain ⟨rfl, _, rfl⟩ := searching rfl
            simp [Guard.holds]
      simp only [CaseWriter.facade_cons, List.cons_append, runList_ifPart inChain, chosen]
      simp only [casesRun] at defined ⊢
      cases taken : (falling || value == constant) with
      | false =>
          rw [taken] at defined
          simp only [Bool.false_eq_true, if_false] at defined ⊢
          have stillSearching : falling = false := by
            cases falling <;> simp_all
          subst falling
          obtain ⟨rfl, _, same⟩ := searching rfl
          exact ih (fun case member => scopes case (by simp [member])) _ _ _ _ _ (by simp)
            (fun _ => ⟨rfl, fun _ => rfl, same⟩) (by simp) defined
      | true =>
          rw [taken] at defined
          simp only [if_true] at defined ⊢
          have scopeDefined := andThen_defined defined
          have body := scopes (constant, scope, containsFallthrough) (by simp) none flag state
            (if containsFallthrough then [.setFlag] else [.brk])
            (fun after => if containsFallthrough then (.normal, after, true)
              else (.brk, after, flag)) scopeDefined
            (by intro after _ chain; cases containsFallthrough <;> simp [runList, runFragment])
          rw [body]
          rcases meaning : means state scope with ⟨outcome, after⟩
          simp only [meaning, andThen, followedBy] at defined ⊢
          cases outcome with
          | normal =>
              cases containsFallthrough with
              | false => simp [Outcome.exitsFacade]
              | true =>
                  exact ih (fun case member => scopes case (by simp [member])) _ _ _ _ _
                    (fun _ => ⟨rfl, rfl, rfl⟩) (by simp) (by simp) defined
          | timeout | brk | cont => rfl
          | undefined => exact absurd rfl defined

theorem run_ifChain_taken (cases : List (Int × List Node × Bool))
    (noFallthrough : ∀ case ∈ cases, case.2.2 = false) (flag : Bool) (after : State σ)
    {tail : List Fragment} {next : State σ → Outcome × State σ × Bool}
    (goesOn : ∀ chain, runList interp fuel chain flag after tail = next after) :
    runList interp fuel (some true) flag after
      (CaseWriter.generateSource lowering .ifChain control (some false) cases ++
        (DefaultWriter.generateSource lowering .ifChain default ++ tail)) = next after := by
  induction cases with
  | nil =>
      cases default with
      | none => exact goesOn _
      | some scope =>
          simp only [CaseWriter.generateSource, DefaultWriter.generateSource, List.nil_append,
            List.cons_append, runList]
          exact goesOn _
  | cons first rest ih =>
      obtain ⟨constant, scope, containsFallthrough⟩ := first
      have falls : containsFallthrough = false := noFallthrough (constant, scope, containsFallthrough) List.mem_cons_self
      subst containsFallthrough
      rw [CaseWriter.ifChain_cons, List.cons_append, runList]
      exact ih fun case member => noFallthrough case (by simp [member])

theorem run_ifChain (cases : List (Int × List Node × Bool))
    (noFallthrough : ∀ case ∈ cases, case.2.2 = false)
    (scopes : ∀ case ∈ cases, RunsLike interp fuel (ScopeWriter.generateSource lowering case.2.1)
      fun state => means state case.2.1)
    (last : ∀ scope, default = some scope →
      RunsLike interp fuel (ScopeWriter.generateSource lowering scope) otherwise)
    (nothing : default = none → ∀ state, otherwise state = (.normal, state))
    (before chain : Option Bool) (flag : Bool) (state : State σ)
    (searching : before = none ∨ before = some false ∧ chain = some false)
    (same : interp.value control state.store = value)
    (attached : before = none → cases = [] → default = none)
    {tail : List Fragment} {next : State σ → Outcome × State σ × Bool}
    (defined : (casesRun means value (chainEnd otherwise) false state cases).1 ≠ .undefined)
    (goesOn : ∀ after, casesRun means value (chainEnd otherwise) false state cases =
        (.normal, after) → ∀ chain, runList interp fuel chain flag after tail = next after) :
    runList interp fuel chain flag state
      (CaseWriter.generateSource lowering .ifChain control before cases ++
        (DefaultWriter.generateSource lowering .ifChain default ++ tail)) =
      followedBy (casesRun means value (chainEnd otherwise) false state cases) flag next := by
  induction cases generalizing before chain with
  | nil =>
      simp only [casesRun, chainEnd, Bool.false_eq_true, if_false] at defined goesOn ⊢
      cases default with
      | none =>
          rw [nothing rfl] at goesOn ⊢
          exact goesOn state rfl chain
      | some scope =>
          rcases searching with rfl | ⟨rfl, rfl⟩
          · cases attached rfl rfl
          · simp only [CaseWriter.generateSource, DefaultWriter.generateSource, List.nil_append,
              List.cons_append, runList, (last scope rfl).block none flag state defined]
            rcases meaning : otherwise state with ⟨outcome, after⟩
            cases outcome <;> try rfl
            exact goesOn after meaning none
  | cons first rest ih =>
      obtain ⟨constant, scope, containsFallthrough⟩ := first
      have falls : containsFallthrough = false := noFallthrough (constant, scope, containsFallthrough) List.mem_cons_self
      subst containsFallthrough
      have inChain : (before == some false) = true → chain = some false := by
        rcases searching with rfl | ⟨rfl, rfl⟩
        · simp
        · exact fun _ => rfl
      have chosen : Guard.holds interp flag state (.equals (before == some true) control constant) =
          (value == constant) := by
        rcases searching with rfl | ⟨rfl, _⟩ <;> simp [Guard.holds, same]
      rw [CaseWriter.ifChain_cons, List.cons_append, runList_ifPart inChain, chosen]
      simp only [casesRun, Bool.false_or, Bool.false_eq_true, if_false] at defined goesOn ⊢
      split
      · rename_i taken
        rw [if_pos taken] at defined goesOn
        have scopeDefined := andThen_defined defined
        rw [(scopes (constant, scope, false) (by simp)).block none flag state scopeDefined]
        rcases meaning : means state scope with ⟨outcome, after⟩
        rw [meaning] at goesOn
        cases outcome <;> try rfl
        exact run_ifChain_taken rest (fun case member => noFallthrough case (by simp [member])) flag
          after (goesOn after rfl)
      · rename_i skipped
        rw [if_neg skipped] at defined goesOn
        exact ih (fun case member => noFallthrough case (by simp [member]))
          (fun case member => scopes case (by simp [member])) _ _ (.inr ⟨rfl, rfl⟩) (by simp)
          defined goesOn

end IfChain

section Switch

variable {value : Int} {control : Control} {default : Option (List Node)}
  {otherwise : State σ → Outcome × State σ}

theorem runList_label {label : Fragment} (isLabel : isDefaultLabel label ∨ ∃ c, isCaseLabel c label)
    (chain : Option Bool) (flag : Bool) (state : State σ) (rest : List Fragment) :
    runList interp fuel chain flag state (label :: rest) =
      runList interp fuel none flag state rest := by
  cases label <;> simp_all [isDefaultLabel, isCaseLabel, runList, runFragment]

/-- The text `source` of a `switch` body behaves as `means`, up to the jump that
ends it. -/
def EndsLike (interp : Interp σ) (fuel : Nat) (flag : Bool) (state : State σ)
    (source : List Fragment) (means : Outcome × State σ) : Prop :=
  ∃ outcome, outcome.exitsSwitch = means.1.exitsSwitch ∧
    ∀ chain, runList interp fuel chain flag state source = (outcome, means.2, flag)

/-- The statements of one case: its body, and then the `break` or the next
body. -/
theorem EndsLike.case {source rest : List Fragment} {means further : State σ → Outcome × State σ}
    (body : RunsLike interp fuel source means) (containsFallthrough : Bool) (flag : Bool)
    (state : State σ) {meant : Outcome × State σ}
    (meant_eq : meant = andThen (means state) fun after =>
      if containsFallthrough then further after else (.normal, after))
    (defined : meant.1 ≠ .undefined)
    (fell : containsFallthrough = true → ∀ after, means state = (.normal, after) →
      EndsLike interp fuel flag after rest (further after)) :
    EndsLike interp fuel flag state
      (source ++ ((if containsFallthrough then [] else [.brk]) ++ rest)) meant := by
  rcases meaning : means state with ⟨outcome, after⟩
  rw [meaning] at meant_eq
  have reached : ∀ next, outcome ≠ .undefined → (outcome = .normal → ∀ chain,
      runList interp fuel chain flag after
        ((if containsFallthrough then [] else [.brk]) ++ rest) = next) →
      ∀ chain, runList interp fuel chain flag state
        (source ++ ((if containsFallthrough then [] else [.brk]) ++ rest)) =
          followedBy (outcome, after) flag fun _ => next := by
    intro next scopeDefined goesOn chain
    rw [← meaning]
    apply body chain flag state _ (fun _ => next) (by rwa [meaning])
    intro ended same
    rw [meaning, Prod.mk.injEq] at same
    obtain ⟨normal, rfl⟩ := same
    exact goesOn normal
  cases outcome with
  | normal =>
      cases containsFallthrough with
      | false =>
          subst meant
          exact ⟨.brk, rfl, reached _ (by simp) fun _ chain => by simp [runList, runFragment]⟩
      | true =>
          subst meant
          obtain ⟨outcome, exits, ran⟩ := fell rfl after meaning
          exact ⟨outcome, exits, reached _ (by simp) fun _ => ran⟩
  | brk | cont | timeout =>
      subst meant
      exact ⟨_, rfl, reached (.normal, after, flag) (by simp) (by simp)⟩
  | undefined =>
      subst meant
      exact absurd rfl defined

theorem EndsLike.defaultScope
    (last : ∀ scope, default = some scope →
      RunsLike interp fuel (ScopeWriter.generateSource lowering scope) otherwise)
    (nothing : default = none → ∀ state, otherwise state = (.normal, state))
    (flag : Bool) (state : State σ)
    (defined : (otherwise state).1 ≠ .undefined) :
    EndsLike interp fuel flag state
      (DefaultWriter.generateSource lowering .conventionalSwitch default) (otherwise state) := by
  refine ⟨(otherwise state).1, rfl, fun chain => ?_⟩
  cases default with
  | none =>
      rw [nothing rfl]
      rfl
  | some scope =>
      rw [DefaultWriter.generateSource, runList_label (.inl rfl),
        (last scope rfl).block none flag state defined]

/-- Control in front of the next body, whatever its label. -/
theorem run_switch_falling (control : Control) (cases : List (Int × List Node × Bool))
    (scopes : ∀ case ∈ cases, RunsLike interp fuel (ScopeWriter.generateSource lowering case.2.1)
      fun state => means state case.2.1)
    (last : ∀ scope, default = some scope →
      RunsLike interp fuel (ScopeWriter.generateSource lowering scope) otherwise)
    (nothing : default = none → ∀ state, otherwise state = (.normal, state))
    (before : Option Bool) (flag : Bool) (state : State σ)
    (defined : (casesRun means value (fun _ => otherwise) true state cases).1 ≠ .undefined) :
    EndsLike interp fuel flag state
      (CaseWriter.generateSource lowering .conventionalSwitch control before cases ++
        DefaultWriter.generateSource lowering .conventionalSwitch default)
      (casesRun means value (fun _ => otherwise) true state cases) := by
  induction cases generalizing before state with
  | nil => exact EndsLike.defaultScope last nothing flag state defined
  | cons first rest ih =>
      obtain ⟨constant, scope, containsFallthrough⟩ := first
      have body := EndsLike.case (scopes (constant, scope, containsFallthrough) List.mem_cons_self)
        containsFallthrough flag state (by simp only [casesRun, Bool.true_or, if_true]; rfl)
        defined fun falls after normal => by
          simp only [casesRun, Bool.true_or, if_true, normal, falls] at defined
          exact ih (fun case member => scopes case (by simp [member])) (some containsFallthrough)
            after defined
      obtain ⟨outcome, exits, ran⟩ := body
      refine ⟨outcome, exits, fun chain => ?_⟩
      rw [CaseWriter.switch_cons, List.cons_append,
        runList_label (.inr ⟨constant, by simp [isCaseLabel]⟩), List.append_assoc,
        List.append_assoc]
      exact ran none

theorem runFrom_append {label : Fragment → Bool} {front : List Fragment}
    (noLabel : ∀ fragment ∈ front, label fragment = false) (flag : Bool) (state : State σ)
    (rest : List Fragment) :
    runFrom interp fuel label flag state (front ++ rest) =
      runFrom interp fuel label flag state rest := by
  induction front with
  | nil => rfl
  | cons fragment front ih =>
      rw [List.cons_append, runFrom, noLabel fragment List.mem_cons_self]
      exact ih fun other member => noLabel other (by simp [member])

/-- The labels of the text around a scope are not the ones inside. -/
def Unlabelled (source : List Fragment) : Prop :=
  ∀ fragment ∈ source, isDefaultLabel fragment = false ∧
    ∀ constant, isCaseLabel constant fragment = false

theorem Unlabelled.append {first second : List Fragment} (front : Unlabelled first)
    (back : Unlabelled second) : Unlabelled (first ++ second) := by
  intro fragment member
  rcases List.mem_append.mp member with member | member
  · exact front fragment member
  · exact back fragment member

theorem NodeWriter.unlabelled (node : Node) :
    Unlabelled (NodeWriter.generateSource lowering node) := by
  have chained : ∀ control before cases default,
      Unlabelled (CaseWriter.generateSource lowering .ifChain control before cases ++
        DefaultWriter.generateSource lowering .ifChain default) := by
    intro control before cases default
    induction cases generalizing before with
    | nil =>
        cases default <;> simp [CaseWriter.generateSource, DefaultWriter.generateSource, Unlabelled,
          isDefaultLabel, isCaseLabel]
    | cons first rest ih =>
        intro fragment member
        simp only [CaseWriter.generateSource, List.cons_append, List.mem_cons] at member
        rcases member with rfl | member
        · exact ⟨rfl, fun _ => rfl⟩
        · exact ih _ fragment member
  cases node with
  | matchOn id control cases default =>
      rw [NodeWriter.generateSource]
      cases picked : lowering id with
      | conventionalSwitch | facade =>
          simp [MatchWriter.generateSource, Unlabelled, isDefaultLabel, isCaseLabel]
      | ifChain => exact chained control none cases default
  | loop head scope =>
      rw [NodeWriter.generateSource]
      cases head.initialization <;> simp [Unlabelled, isDefaultLabel, isCaseLabel]
  | action | brk | cont | ifElse =>
      simp [NodeWriter.generateSource, Unlabelled, isDefaultLabel, isCaseLabel]

theorem ScopeWriter.unlabelled (scope : List Node) :
    Unlabelled (ScopeWriter.generateSource lowering scope) := by
  induction scope with
  | nil => simp [ScopeWriter.generateSource, Unlabelled]
  | cons child rest ih =>
      rw [ScopeWriter.generateSource]
      exact (NodeWriter.unlabelled child).append ih

theorem runFrom_case {label : Fragment → Bool}
    (isLabel : ∀ fragment, isDefaultLabel fragment = false →
      (∀ constant, isCaseLabel constant fragment = false) → label fragment = false)
    (scope : List Node) (falls : Bool) (flag : Bool) (state : State σ) (rest : List Fragment) :
    runFrom interp fuel label flag state
        (ScopeWriter.generateSource lowering scope ++ ((if falls then [] else [.brk]) ++ rest)) =
      runFrom interp fuel label flag state rest := by
  rw [← List.append_assoc]
  apply runFrom_append
  have unlabelled : Unlabelled
      (ScopeWriter.generateSource lowering scope ++ if falls then [] else [.brk]) := by
    refine (ScopeWriter.unlabelled scope).append ?_
    cases falls <;> simp [Unlabelled, isDefaultLabel, isCaseLabel]
  exact fun fragment member =>
    isLabel fragment (unlabelled fragment member).1 (unlabelled fragment member).2

theorem run_switch_select (control : Control) (cases : List (Int × List Node × Bool))
    (scopes : ∀ case ∈ cases, RunsLike interp fuel (ScopeWriter.generateSource lowering case.2.1)
      fun state => means state case.2.1)
    (last : ∀ scope, default = some scope →
      RunsLike interp fuel (ScopeWriter.generateSource lowering scope) otherwise)
    (nothing : default = none → ∀ state, otherwise state = (.normal, state))
    (before : Option Bool) (flag : Bool) (state : State σ)
    (matched : cases.any (fun case => case.1 == value) = true)
    (defined : (casesRun means value (fun _ => otherwise) false state cases).1 ≠ .undefined) :
    ∃ outcome,
      outcome.exitsSwitch =
          (casesRun means value (fun _ => otherwise) false state cases).1.exitsSwitch ∧
      runFrom interp fuel (isCaseLabel value) flag state
          (CaseWriter.generateSource lowering .conventionalSwitch control before cases ++
            DefaultWriter.generateSource lowering .conventionalSwitch default) =
        (outcome, (casesRun means value (fun _ => otherwise) false state cases).2, flag) := by
  induction cases generalizing before with
  | nil => cases matched
  | cons first rest ih =>
      obtain ⟨constant, scope, containsFallthrough⟩ := first
      rw [CaseWriter.switch_cons, List.cons_append, runFrom, List.append_assoc, List.append_assoc]
      by_cases same : constant = value
      · subst constant
        rw [if_pos (by simp [isCaseLabel])]
        simp only [casesRun, beq_self_eq_true, Bool.or_true, if_true] at defined ⊢
        have body := EndsLike.case (scopes (value, scope, containsFallthrough) List.mem_cons_self)
          containsFallthrough flag state rfl defined fun falls after normal => by
            simp only [normal, falls, if_true] at defined
            exact run_switch_falling control rest
              (fun case member => scopes case (by simp [member])) last
              nothing (some containsFallthrough) flag after defined
        obtain ⟨outcome, exits, ran⟩ := body
        exact ⟨outcome, exits, ran none⟩
      · have skipped : (value == constant) = false := by simpa using Ne.symm same
        rw [if_neg (by simpa [isCaseLabel] using same), runFrom_case fun _ _ noCase => noCase value]
        simp only [casesRun, skipped, Bool.or_false, Bool.false_eq_true, if_false] at defined ⊢
        exact ih (fun case member => scopes case (by simp [member])) _
          (by simpa [same] using matched) defined

theorem run_switch_default (control : Control) (cases : List (Int × List Node × Bool))
    (last : ∀ scope, default = some scope →
      RunsLike interp fuel (ScopeWriter.generateSource lowering scope) otherwise)
    (nothing : default = none → ∀ state, otherwise state = (.normal, state))
    (before : Option Bool) (flag : Bool) (state : State σ)
    (defined : (otherwise state).1 ≠ .undefined) :
    runFrom interp fuel isDefaultLabel flag state
        (CaseWriter.generateSource lowering .conventionalSwitch control before cases ++
          DefaultWriter.generateSource lowering .conventionalSwitch default) =
      ((otherwise state).1, (otherwise state).2, flag) := by
  induction cases generalizing before with
  | nil =>
      cases default with
      | none =>
          rw [nothing rfl]
          rfl
      | some scope =>
          simp only [CaseWriter.generateSource, DefaultWriter.generateSource, List.nil_append,
            runFrom, isDefaultLabel, if_true]
          exact (last scope rfl).block none flag state defined
  | cons first rest ih =>
      obtain ⟨constant, scope, containsFallthrough⟩ := first
      rw [CaseWriter.switch_cons, List.cons_append, runFrom, List.append_assoc, List.append_assoc,
        if_neg (by simp [isDefaultLabel]), runFrom_case fun _ noDefault _ => noDefault]
      exact ih _

theorem casesRun_unmatched {atEnd : Bool → State σ → Outcome × State σ} (state : State σ)
    (cases : List (Int × List Node × Bool))
    (unmatched : cases.any (fun case => case.1 == value) = false) :
    casesRun means value atEnd false state cases = atEnd false state := by
  induction cases with
  | nil => rfl
  | cons first rest ih =>
      obtain ⟨constant, scope, containsFallthrough⟩ := first
      rw [List.any_cons, Bool.or_eq_false_iff] at unmatched
      have skipped : (value == constant) = false := by rw [BEq.comm, unmatched.1]
      simp only [casesRun, skipped, Bool.or_false, Bool.false_eq_true, if_false]
      exact ih unmatched.2

theorem any_isCaseLabel (before : Option Bool) (cases : List (Int × List Node × Bool)) :
    (CaseWriter.generateSource lowering .conventionalSwitch control before cases ++
        DefaultWriter.generateSource lowering .conventionalSwitch default).any (isCaseLabel value) =
      cases.any fun case => case.1 == value := by
  have scopeAny : ∀ scope,
      (ScopeWriter.generateSource lowering scope).any (isCaseLabel value) = false := by
    intro scope
    rw [List.any_eq_false]
    intro fragment member
    rw [(ScopeWriter.unlabelled scope fragment member).2 value]
    exact Bool.false_ne_true
  induction cases generalizing before with
  | nil =>
      cases default with
      | none => rfl
      | some scope => exact scopeAny scope
  | cons first rest ih =>
      obtain ⟨constant, scope, containsFallthrough⟩ := first
      have noBreak : (if containsFallthrough = true then [] else [Fragment.brk]).any
          (isCaseLabel value) = false := by
        cases containsFallthrough <;> rfl
      have restAny := ih (some containsFallthrough)
      rw [List.any_append] at restAny
      rw [CaseWriter.switch_cons, List.cons_append, List.any_cons, List.append_assoc,
        List.append_assoc, List.any_append, List.any_append, List.any_append, scopeAny, noBreak,
        Bool.false_or, Bool.false_or, restAny]
      rfl

theorem run_switch (cases : List (Int × List Node × Bool))
    (scopes : ∀ case ∈ cases, RunsLike interp fuel (ScopeWriter.generateSource lowering case.2.1)
      fun state => means state case.2.1)
    (last : ∀ scope, default = some scope →
      RunsLike interp fuel (ScopeWriter.generateSource lowering scope) otherwise)
    (nothing : default = none → ∀ state, otherwise state = (.normal, state))
    (flag : Bool) (state : State σ) {meant : Outcome × State σ}
    (meant_eq : casesRun means (interp.value control state.store) (fun _ => otherwise) false state
      cases = meant)
    (defined : meant.1 ≠ .undefined) :
    runFragment interp fuel flag state
        (.switch control (CaseWriter.generateSource lowering .conventionalSwitch control none
          cases ++ DefaultWriter.generateSource lowering .conventionalSwitch default)) =
      (meant.1.exitsSwitch, meant.2, flag) := by
  subst meant
  simp only [runFragment, any_isCaseLabel]
  cases matched : cases.any fun case => case.1 == interp.value control state.store with
  | true =>
      obtain ⟨outcome, exits, ran⟩ := run_switch_select control cases scopes last nothing none flag
        state matched defined
      simp only [if_true, ran, exits]
  | false =>
      rw [casesRun_unmatched state cases matched] at defined ⊢
      simp only [Bool.false_eq_true, if_false,
        run_switch_default control cases last nothing none flag state defined]

end Switch

/-- Where a lowering reaches the default from the last case. -/
def matchEnd (mode : Lowering) (otherwise : State σ → Outcome × State σ) :
    Bool → State σ → Outcome × State σ :=
  match mode with
  | .conventionalSwitch => fun _ => otherwise
  | .ifChain | .facade => chainEnd otherwise

theorem RunsLike.matchOn {mode : Lowering} (control : Control)
    {cases : List (Int × List Node × Bool)} {default : Option (List Node)}
    {otherwise : State σ → Outcome × State σ}
    (scopes : ∀ case ∈ cases, RunsLike interp fuel (ScopeWriter.generateSource lowering case.2.1)
      fun state => means state case.2.1)
    (last : ∀ scope, default = some scope →
      RunsLike interp fuel (ScopeWriter.generateSource lowering scope) otherwise)
    (nothing : default = none → ∀ state, otherwise state = (.normal, state))
    (wellLowered : WellLowered mode cases default) :
    RunsLike interp fuel (MatchWriter.generateSource mode control
        (CaseWriter.generateSource lowering mode control none cases ++
          DefaultWriter.generateSource lowering mode default))
      fun state =>
        let meant := casesRun means (interp.value control state.store) (matchEnd mode otherwise)
          false state cases
        (mode.exits meant.1, meant.2) := by
  intro chain flag state tail next exitDefined goesOn
  simp only at exitDefined goesOn ⊢
  have defined : (casesRun means (interp.value control state.store) (matchEnd mode otherwise) false
      state cases).1 ≠ .undefined := by
    intro undefined
    rw [undefined] at exitDefined
    cases mode <;> exact exitDefined rfl
  cases mode with
  | conventionalSwitch =>
      simp only [matchEnd] at defined goesOn ⊢
      simp only [MatchWriter.generateSource, List.cons_append, List.nil_append, runList]
      rw [run_switch cases scopes last nothing flag state rfl defined]
      rcases meaning : casesRun means (interp.value control state.store) (fun _ => otherwise) false
        state cases with ⟨outcome, after⟩
      rw [meaning] at goesOn
      cases outcome <;> first | rfl | exact goesOn after rfl none
  | ifChain =>
      have noFallthrough := wellLowered.1 rfl
      have attached := wellLowered.2 (by simp)
      simp only [matchEnd] at defined goesOn ⊢
      rw [MatchWriter.generateSource, List.append_assoc]
      exact run_ifChain cases noFallthrough scopes last nothing none chain flag state (.inl rfl) rfl
        (fun _ => attached) defined goesOn
  | facade =>
      have attached := wellLowered.2 (by simp)
      simp only [matchEnd] at defined goesOn ⊢
      have inside := run_facade cases scopes last nothing none none false false state (by simp)
        (fun _ => ⟨rfl, by simp, rfl⟩) (fun _ => attached) defined
      rcases meaning : casesRun means (interp.value control state.store) (chainEnd otherwise) false
        state cases with ⟨outcome, after⟩
      rw [meaning] at inside goesOn
      simp only [MatchWriter.generateSource, List.cons_append, List.nil_append, runList,
        runFragment]
      rcases ran : runList interp fuel none false state
        (CaseWriter.generateSource lowering .facade control none cases ++
          DefaultWriter.generateSource lowering .facade default) with ⟨ended, afterText, flagAfter⟩
      rw [ran, Prod.mk.injEq] at inside
      obtain ⟨exits, same⟩ := inside
      simp only at exits same
      subst after
      rw [exits]
      cases outcome <;> first | rfl | exact goesOn _ rfl none

end NovaC.Matches
