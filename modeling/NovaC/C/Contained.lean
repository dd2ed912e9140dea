import NovaC.C.Fragment

namespace NovaC.C

/-! Text that is left only by its end.

Text is contained where the text around it has a target for each of its jumps,
an `if` for each `else`, and a declaration of the flag it uses.  Contained text
can be put anywhere: what it does depends neither on the `if` chain in front of
it nor on a flag that is not its own.
-/

structure Around where
  breakTarget : Bool
  continueTarget : Bool
  flag : Bool

def guardContained (around : Around) : Guard → Bool
  | .test _ => true
  | .equals flagOr _ _ => !flagOr || around.flag

mutual

def listContained (around : Around) (afterIf : Bool) : List Fragment → Bool
  | [] => true
  | .ifPart afterElse guard block :: rest =>
      (!afterElse || afterIf) && guardContained around guard &&
        listContained around false block && listContained around true rest
  | .elsePart block :: rest =>
      afterIf && listContained around false block && listContained around false rest
  | fragment :: rest => fragmentContained around fragment && listContained around false rest

def fragmentContained (around : Around) : Fragment → Bool
  | .setFlag => around.flag
  | .brk => around.breakTarget
  | .cont => around.continueTarget
  | .loop _ _ block | .doWhileZero block =>
      listContained { around with breakTarget := true, continueTarget := true } false block
  | .switch _ block => listContained { around with breakTarget := true } false block
  | .withFlag block => listContained { around with flag := true } false block
  | _ => true

end

variable {σ : Type} {interp : Interp σ} {fuel : Nat}

theorem listContained_afterIf {around : Around} {source : List Fragment}
    (contained : listContained around false source = true) :
    listContained around true source = true := by
  cases source with
  | nil => rfl
  | cons fragment rest =>
      cases fragment <;> simp_all [listContained]

theorem listContained_append {around : Around} {afterIf : Bool} {front tail : List Fragment}
    (frontContained : listContained around afterIf front = true)
    (tailContained : listContained around false tail = true) :
    listContained around afterIf (front ++ tail) = true := by
  induction front generalizing afterIf with
  | nil =>
      cases afterIf with
      | false => exact tailContained
      | true => exact listContained_afterIf tailContained
  | cons fragment rest ih =>
      cases fragment <;> simp_all [listContained]

/-- Outside an `if` chain no `else` waits for the one in front. -/
theorem runList_chain {around : Around} {source : List Fragment}
    (contained : listContained around false source = true) (chain : Option Bool) (flag : Bool)
    (state : State σ) :
    runList interp fuel chain flag state source = runList interp fuel none flag state source := by
  cases source with
  | nil => rfl
  | cons fragment rest =>
      cases fragment <;> simp_all [listContained, runList]

theorem runList_append (interp : Interp σ) (fuel : Nat) (front tail : List Fragment) (chain : Option Bool) (flag : Bool)
    (state : State σ) :
    ∃ chainAfter, runList interp fuel chain flag state (front ++ tail) =
      andThen (runList interp fuel chain flag state front) fun after =>
        runList interp fuel chainAfter after.2 after.1 tail := by
  induction front generalizing chain flag state with
  | nil => exact ⟨chain, rfl⟩
  | cons fragment rest ih =>
      -- a statement that may end normally, and the text behind it
      have goesOn : ∀ (ran : Outcome × State σ × Bool) (chain : Option Bool),
          ∃ chainAfter,
            (andThen ran fun after => runList interp fuel chain after.2 after.1 (rest ++ tail)) =
              andThen (andThen ran fun after => runList interp fuel chain after.2 after.1 rest)
                fun after => runList interp fuel chainAfter after.2 after.1 tail := by
        intro ran chain
        rcases ran with ⟨outcome, after, flagAfter⟩
        cases outcome with
        | normal => exact ih chain flagAfter after
        | brk | cont | timeout | undefined => exact ⟨none, rfl⟩
      cases fragment with
      | ifPart afterElse guard block =>
          rw [List.cons_append, runList, runList]
          split
          · exact ⟨none, rfl⟩
          · split
            · exact ih (some true) flag state
            · split
              · exact goesOn _ _
              · exact ih (some false) flag state
      | elsePart block =>
          rcases chain with _ | taken
          · exact ⟨none, rfl⟩
          · cases taken with
            | true => exact ih none flag state
            | false =>
                simp only [List.cons_append, runList]
                exact goesOn _ _
      | _ =>
          simp only [List.cons_append, runList]
          exact goesOn _ _

theorem rounds_outcome {α : Type} {holds : α → Bool} {update : α → α} {body : α → Outcome × α}
    (defined : ∀ state, (body state).1 ≠ .undefined) (fuel : Nat) (state : α) :
    (rounds holds update body fuel state).1 ≠ .undefined ∧
      (rounds holds update body fuel state).1 ≠ .brk ∧
      (rounds holds update body fuel state).1 ≠ .cont := by
  induction fuel generalizing state with
  | zero => exact ⟨by simp [rounds], by simp [rounds], by simp [rounds]⟩
  | succ fuel ih =>
      have bodyDefined := defined state
      rw [rounds]
      split
      · rcases ran : body state with ⟨outcome, after⟩
        rw [ran] at bodyDefined
        cases outcome with
        | normal | cont => exact ih (update after)
        | brk | timeout => exact ⟨by simp, by simp, by simp⟩
        | undefined => exact absurd rfl bodyDefined
      · exact ⟨by simp, by simp, by simp⟩

/-- What a run of contained text gives, from either value of a flag that is not
its own. -/
structure Stays (around : Around) (flag : Bool) (run : Bool → Outcome × State σ × Bool) : Prop where
  defined : (run flag).1 ≠ .undefined
  breaks : (run flag).1 = .brk → around.breakTarget = true
  continues : (run flag).1 = .cont → around.continueTarget = true
  flagKept : around.flag = false → ∀ other, run other = ((run flag).1, (run flag).2.1, other)

theorem Stays.andThen {around : Around} {flag : Bool}
    {run : Bool → Outcome × State σ × Bool} (stays : Stays around flag run)
    {next : Bool → State σ → Outcome × State σ × Bool}
    (nextStays : ∀ flagAfter after, Stays around flagAfter fun flag => next flag after) :
    Stays around flag fun flag => andThen (run flag) fun after => next after.2 after.1 := by
  obtain ⟨defined, breaks, continues, flagKept⟩ := stays
  rcases ran : run flag with ⟨outcome, after, flagAfter⟩
  rw [ran] at defined breaks continues flagKept
  cases outcome with
  | normal =>
      obtain ⟨nextDefined, nextBreaks, nextContinues, nextKept⟩ := nextStays flagAfter after
      refine ⟨?_, ?_, ?_, fun outside other => ?_⟩
      · simp only [ran]
        exact nextDefined
      · simp only [ran]
        exact nextBreaks
      · simp only [ran]
        exact nextContinues
      · simp only [ran, flagKept outside other]
        exact nextKept outside other
  | brk | cont | timeout | undefined =>
      refine ⟨?_, ?_, ?_, fun outside other => ?_⟩
      · simp only [ran]
        exact defined
      · simp only [ran]
        exact breaks
      · simp only [ran]
        exact continues
      · simp only [ran, flagKept outside other]
        rfl

theorem Stays.congr {around : Around} {flag : Bool} {run run' : Bool → Outcome × State σ × Bool}
    (stays : Stays around flag run) (same : run' flag = run flag)
    (others : around.flag = false → ∀ other, run' other = run other) : Stays around flag run' where
  defined := same ▸ stays.defined
  breaks := same ▸ stays.breaks
  continues := same ▸ stays.continues
  flagKept outside other := by rw [others outside other, same, stays.flagKept outside other]

theorem Stays.normal {around : Around} {flag : Bool} (state : State σ) :
    Stays around flag fun flag => (.normal, state, flag) :=
  ⟨by simp, by simp, by simp, fun _ _ => rfl⟩

theorem Stays.ite {around : Around} {flag : Bool} {holds : Bool → Bool}
    {first second : Bool → Outcome × State σ × Bool}
    (same : around.flag = false → ∀ other, holds other = holds flag)
    (firstStays : Stays around flag first) (secondStays : Stays around flag second) :
    Stays around flag fun flag => if holds flag then first flag else second flag := by
  cases held : holds flag with
  | true =>
      apply firstStays.congr
      · simp [held]
      · intro outside other
        simp [same outside, held]
  | false =>
      apply secondStays.congr
      · simp [held]
      · intro outside other
        simp [same outside, held]

theorem Guard.holds_flag {around : Around} {guard : Guard}
    (contained : guardContained around guard = true) (outside : around.flag = false)
    (flag other : Bool) (state : State σ) :
    guard.holds interp other state = guard.holds interp flag state := by
  cases guard with
  | test condition => rfl
  | equals flagOr control constant =>
      have noFlag : flagOr = false := by simpa [guardContained, outside] using contained
      simp [Guard.holds, noFlag]

theorem Stays.exits {inside around : Around} {flag : Bool} {run : Bool → Outcome × State σ × Bool}
    {exit : Outcome → Outcome} (stays : Stays inside flag run)
    (sameFlag : inside.flag = around.flag)
    (undefined : ∀ outcome, exit outcome = .undefined → outcome = .undefined)
    (breaks : ∀ outcome, exit outcome ≠ .brk)
    (continues : ∀ outcome, exit outcome = .cont →
      outcome = .cont ∧ inside.continueTarget = around.continueTarget) :
    Stays around flag fun flag => (exit (run flag).1, (run flag).2) where
  defined leaves := stays.defined (undefined _ leaves)
  breaks leaves := absurd leaves (breaks _)
  continues leaves := (continues _ leaves).2 ▸ stays.continues (continues _ leaves).1
  flagKept outside other := by rw [stays.flagKept (sameFlag.trans outside) other]

theorem Stays.rounds {inside around : Around} {flag : Bool} {state : State σ}
    (holds : State σ → Bool) (update : State σ → State σ)
    {body : State σ → Bool → Outcome × State σ × Bool}
    (stays : ∀ flag state, Stays inside flag (body state)) (sameFlag : inside.flag = around.flag) :
    Stays around flag fun flag =>
      rounds (fun before => holds before.1) (fun before => (update before.1, before.2))
        (fun before => body before.1 before.2) fuel (state, flag) where
  defined := (rounds_outcome (fun before => (stays before.2 before.1).defined) fuel _).1
  breaks leaves :=
    absurd leaves (rounds_outcome (fun before => (stays before.2 before.1).defined) fuel _).2.1
  continues leaves :=
    absurd leaves (rounds_outcome (fun before => (stays before.2 before.1).defined) fuel _).2.2
  flagKept outside other := by
    refine rounds_map (fun before => (before.1, other)) ?_ ?_ ?_ fuel (state, flag) ?_
    · exact fun _ => rfl
    · exact fun _ => rfl
    · exact fun before _ => (stays before.2 before.1).flagKept (sameFlag.trans outside) other
    · exact (rounds_outcome (fun before => (stays before.2 before.1).defined) fuel _).1

mutual

theorem runList_stays {around : Around} {afterIf : Bool} (source : List Fragment)
    (contained : listContained around afterIf source = true) (chain : Option Bool)
    (inChain : afterIf = true → chain.isSome = true) (flag : Bool) (state : State σ) :
    Stays around flag fun flag => runList interp fuel chain flag state source := by
  match source with
  | [] => exact .normal state
  | .ifPart afterElse guard block :: rest =>
      simp only [listContained, Bool.and_eq_true, Bool.or_eq_true, Bool.not_eq_true'] at contained
      obtain ⟨⟨⟨follows, guardContained⟩, blockContained⟩, restContained⟩ := contained
      have attached : (afterElse && chain.isNone) = false := by
        cases afterElse with
        | false => rfl
        | true => simpa using inChain (follows.resolve_left (by simp))
      simp only [runList, attached, Bool.false_eq_true, if_false]
      split
      · exact runList_stays rest restContained (some true) (fun _ => rfl) flag state
      · exact .ite (fun outside other => Guard.holds_flag guardContained outside flag other state)
          ((runList_stays block blockContained none (by simp) flag state).andThen fun flagAfter after =>
            runList_stays rest restContained (some true) (fun _ => rfl) flagAfter after)
          (runList_stays rest restContained (some false) (fun _ => rfl) flag state)
  | .elsePart block :: rest =>
      simp only [listContained, Bool.and_eq_true] at contained
      obtain ⟨⟨follows, blockContained⟩, restContained⟩ := contained
      obtain ⟨taken, rfl⟩ := Option.isSome_iff_exists.mp (inChain follows)
      cases taken with
      | true => exact runList_stays rest restContained none (by simp) flag state
      | false =>
          exact (runList_stays block blockContained none (by simp) flag state).andThen
            fun flagAfter after => runList_stays rest restContained none (by simp) flagAfter after
  | .action _ :: rest | .setFlag :: rest | .brk :: rest | .cont :: rest | .loop _ _ _ :: rest
  | .doWhileZero _ :: rest | .switch _ _ :: rest | .caseLabel _ :: rest | .defaultLabel :: rest
  | .withFlag _ :: rest =>
      simp only [listContained, Bool.and_eq_true] at contained
      simp only [runList]
      exact (runFragment_stays _ contained.1 flag state).andThen fun flagAfter after =>
        runList_stays rest contained.2 none (by simp) flagAfter after

theorem runFragment_stays {around : Around} (fragment : Fragment)
    (contained : fragmentContained around fragment = true) (flag : Bool) (state : State σ) :
    Stays around flag fun flag => runFragment interp fuel flag state fragment := by
  match fragment with
  | .action action => exact .normal (state.act interp action)
  | .setFlag =>
      refine ⟨by simp [runFragment], by simp [runFragment], by simp [runFragment], fun outside => ?_⟩
      simp [fragmentContained, outside] at contained
  | .brk => exact ⟨by simp [runFragment], fun _ => contained, by simp [runFragment], fun _ _ => rfl⟩
  | .cont => exact ⟨by simp [runFragment], by simp [runFragment], fun _ => contained, fun _ _ => rfl⟩
  | .loop condition update block =>
      exact Stays.rounds
        (fun before => condition.all fun condition => interp.test condition before.store)
        (fun before => before.update interp update)
        (fun flag state => runList_stays block contained none (by simp) flag state) rfl
  | .doWhileZero block =>
      refine (runList_stays block contained none (by simp) flag state).exits rfl ?_ ?_ ?_ <;>
        intro outcome <;> cases outcome <;> simp [Outcome.exitsFacade]
  | .switch control block =>
      refine (runFrom_stays block contained _ ?_ flag state).exits rfl ?_ ?_ ?_
      · intro label
        split <;> cases label <;> simp [isCaseLabel, isDefaultLabel]
      all_goals intro outcome; cases outcome <;> simp [Outcome.exitsSwitch]
  | .withFlag block =>
      have stays := runList_stays block contained none (by simp) false state
      exact ⟨stays.defined, stays.breaks, stays.continues, fun _ _ => rfl⟩
  | .ifPart _ _ _ | .elsePart _ | .caseLabel _ | .defaultLabel => exact .normal state

theorem runFrom_stays {around : Around} {afterIf : Bool} (source : List Fragment)
    (contained : listContained around afterIf source = true) (label : Fragment → Bool)
    (isLabel : ∀ fragment, label fragment = true →
      isDefaultLabel fragment = true ∨ ∃ constant, isCaseLabel constant fragment = true)
    (flag : Bool) (state : State σ) :
    Stays around flag fun flag => runFrom interp fuel label flag state source := by
  match source with
  | [] => exact .normal state
  | fragment :: rest =>
      have skips : ∀ afterIf, listContained around afterIf rest = true →
          Stays around flag fun flag => runFrom interp fuel label flag state rest :=
        fun afterIf restContained =>
          runFrom_stays rest restContained label isLabel flag state
      cases found : label fragment with
      | true =>
          have restContained : listContained around false rest = true := by
            rcases isLabel fragment found with accepted | ⟨constant, accepted⟩
            · cases fragment <;> simp_all [isDefaultLabel, listContained]
            · cases fragment <;> simp_all [isCaseLabel, listContained]
          simpa only [runFrom, found, if_true] using
            runList_stays rest restContained none (by simp) flag state
      | false =>
          simp only [runFrom, found, Bool.false_eq_true, if_false]
          cases fragment <;> simp only [listContained, Bool.and_eq_true] at contained <;>
            exact skips _ contained.2

end

end NovaC.C
