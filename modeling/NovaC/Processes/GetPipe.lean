import Mathlib.Logic.Relation

namespace NovaC.Processes

/-! `getPipe` of `NativeSystem.c`, the POSIX one: the parent, its child and the pipe
between them.

`pipe`, `fork`, `execv` and `waitpid` succeed. The child writes its output in as many
writes as it likes, and exits.
-/

/-- The call that the parent makes next. -/
inductive Parent where
  | fork
  | waitpid
  | close
  | read
  | returned
deriving DecidableEq

inductive Child where
  | unborn
  /-- running, with what it still has to write -/
  | running (output : List UInt8)
  | exited
deriving DecidableEq

structure System where
  parent : Parent
  child : Child
  pipe : List UInt8
  /-- the parent's copy of `pipefd[1]` -/
  parentWriteEnd : Bool
deriving DecidableEq

namespace System

def start : System :=
  { parent := .fork, child := .unborn, pipe := [], parentWriteEnd := true }

/-- The child's copy of `pipefd[1]`, its standard output and its standard error are open
until it exits. -/
def writeEndOpen (system : System) : Prop :=
  system.parentWriteEnd = true ∨ ∃ output, system.child = .running output

end System

/-- `sizeof(buf)` -/
def bufferSize : Nat :=
  256

section Steps

variable (capacity : Nat) (output : List UInt8)

inductive ParentStep : System → System → Prop where
  | fork {system : System} (next : system.parent = .fork) :
      ParentStep system { system with parent := .waitpid, child := .running output }
  | waitpid {system : System} (next : system.parent = .waitpid)
      (exited : system.child = .exited) : ParentStep system { system with parent := .close }
  | close {system : System} (next : system.parent = .close) :
      ParentStep system { system with parent := .read, parentWriteEnd := false }
  | read {system : System} (next : system.parent = .read) (available : system.pipe ≠ []) :
      ParentStep system { system with pipe := system.pipe.drop bufferSize }
  | endOfFile {system : System} (next : system.parent = .read) (empty : system.pipe = [])
      (closed : ¬system.writeEndOpen) : ParentStep system { system with parent := .returned }

inductive ChildStep : System → System → Prop where
  | write {system : System} (chunk rest : List UInt8) (nonempty : chunk ≠ [])
      (running : system.child = .running (chunk ++ rest))
      (fits : system.pipe.length + chunk.length ≤ capacity) :
      ChildStep system { system with child := .running rest, pipe := system.pipe ++ chunk }
  | exit {system : System} (done : system.child = .running []) :
      ChildStep system { system with child := .exited }

def Step (system next : System) : Prop :=
  ParentStep output system next ∨ ChildStep capacity system next

def Reachable : System → Prop :=
  Relation.ReflTransGen (Step capacity output) .start

/-- One of the two can go on until the parent returns. -/
def DeadlockFree : Prop :=
  ∀ system, Reachable capacity output system → system.parent ≠ .returned →
    ∃ next, Step capacity output system next

end Steps

variable {capacity : Nat} {output : List UInt8} {system next : System}

/-- What holds at each of the parent's calls. -/
def Invariant (output : List UInt8) (system : System) : Prop :=
  match system.parent with
  | .fork => system.child = .unborn ∧ system.pipe = []
  | .waitpid =>
      system.child = .exited ∨
        ∃ rest, system.child = .running rest ∧ system.pipe ++ rest = output
  | .close => system.child = .exited
  | .read => system.child = .exited ∧ system.parentWriteEnd = false
  | .returned => system.child = .exited

theorem ParentStep.invariant (step : ParentStep output system next)
    (holds : Invariant output system) : Invariant output next := by
  cases step with
  | fork now =>
      simp only [Invariant, now] at holds ⊢
      exact .inr ⟨output, rfl, by rw [holds.2, List.nil_append]⟩
  | waitpid now exited => exact exited
  | close now =>
      simp only [Invariant, now] at holds
      exact ⟨holds, rfl⟩
  | read now available =>
      simp only [Invariant, now] at holds ⊢
      exact holds
  | endOfFile now empty closed =>
      simp only [Invariant, now] at holds ⊢
      exact holds.1

theorem Invariant.waiting {rest : List UInt8} (holds : Invariant output system)
    (running : system.child = .running rest) :
    system.parent = .waitpid ∧ system.pipe ++ rest = output := by
  cases now : system.parent with
  | waitpid =>
      simp only [Invariant, now, running, reduceCtorEq, false_or, Child.running.injEq] at holds
      obtain ⟨_, rfl, whole⟩ := holds
      exact ⟨rfl, whole⟩
  | _ => simp [Invariant, now, running] at holds

theorem ChildStep.invariant (step : ChildStep capacity system next)
    (holds : Invariant output system) : Invariant output next := by
  cases step with
  | write chunk rest nonempty running fits =>
      obtain ⟨now, whole⟩ := holds.waiting running
      simp only [Invariant, now]
      exact .inr ⟨rest, rfl, by rw [List.append_assoc, whole]⟩
  | exit done =>
      obtain ⟨now, -⟩ := holds.waiting done
      simp only [Invariant, now, true_or]

theorem Reachable.invariant (reached : Reachable capacity output system) :
    Invariant output system := by
  induction reached with
  | refl => exact ⟨rfl, rfl⟩
  | tail _ step ih =>
      rcases step with step | step
      · exact step.invariant ih
      · exact step.invariant ih

/-- The child never finds the pipe full when all its output fits in. -/
theorem Invariant.running_step {rest : List UInt8} (fits : output.length ≤ capacity)
    (holds : Invariant output system) (running : system.child = .running rest) :
    ∃ next, ChildStep capacity system next := by
  obtain ⟨-, whole⟩ := holds.waiting running
  cases rest with
  | nil => exact ⟨_, .exit running⟩
  | cons byte rest =>
      have room : system.pipe.length + [byte].length ≤ capacity := by
        have size := congrArg List.length whole
        simp only [List.length_append, List.length_cons, List.length_nil] at size ⊢
        omega
      exact ⟨_, .write [byte] rest (by simp) running room⟩

theorem Invariant.step (fits : output.length ≤ capacity) (holds : Invariant output system)
    (pending : system.parent ≠ .returned) : ∃ next, Step capacity output system next := by
  cases now : system.parent with
  | fork => exact ⟨_, .inl (.fork now)⟩
  | waitpid =>
      have child := holds
      simp only [Invariant, now] at child
      rcases child with exited | ⟨rest, running, -⟩
      · exact ⟨_, .inl (.waitpid now exited)⟩
      · obtain ⟨next, step⟩ := holds.running_step fits running
        exact ⟨next, .inr step⟩
  | close => exact ⟨_, .inl (.close now)⟩
  | read =>
      simp only [Invariant, now] at holds
      by_cases empty : system.pipe = []
      · have closed : ¬system.writeEndOpen := by
          simp [System.writeEndOpen, holds.1, holds.2]
        exact ⟨_, .inl (.endOfFile now empty closed)⟩
      · exact ⟨_, .inl (.read now empty)⟩
  | returned => exact absurd now pending

/-- The pipe is full, the child has more to write, and the parent waits for it. -/
def fullPipe (capacity : Nat) (output : List UInt8) : System :=
  { parent := .waitpid, child := .running (output.drop capacity), pipe := output.take capacity,
    parentWriteEnd := true }

theorem fullPipe_reachable (capacity : Nat) (output : List UInt8) :
    Reachable capacity output (fullPipe capacity output) := by
  have forked : Reachable capacity output
      { parent := .waitpid, child := .running output, pipe := [], parentWriteEnd := true } :=
    .single (.inl (.fork rfl))
  by_cases nothing : output.take capacity = []
  · have whole : output.drop capacity = output := by
      have split := List.take_append_drop capacity output
      rwa [nothing, List.nil_append] at split
    rwa [fullPipe, whole, nothing]
  · refine forked.tail (.inr (.write (output.take capacity) (output.drop capacity) nothing ?_ ?_))
    · rw [List.take_append_drop]
    · simp only [List.length_nil, List.length_take]
      omega

theorem fullPipe_stuck (long : capacity < output.length) :
    ¬∃ next, Step capacity output (fullPipe capacity output) next := by
  intro stepped
  obtain ⟨next, step | step⟩ := stepped
  · cases step with
    | waitpid now exited => cases exited
    | fork now => cases now
    | close now => cases now
    | read now => cases now
    | endOfFile now => cases now
  · have full : (fullPipe capacity output).pipe.length = capacity := by
      simp only [fullPipe, List.length_take]
      omega
    cases step with
    | write chunk rest nonempty running fits =>
        have room := List.length_pos_iff.mpr nonempty
        omega
    | exit done =>
        have nothing : output.drop capacity = [] := Child.running.inj done
        have size := List.drop_eq_nil_iff.mp nothing
        omega

/-- The wait comes before the first read, so the whole output has to fit into the
pipe. -/
theorem deadlock_free_iff (capacity : Nat) (output : List UInt8) :
    DeadlockFree capacity output ↔ output.length ≤ capacity := by
  constructor
  · intro free
    apply Nat.le_of_not_lt
    intro long
    exact fullPipe_stuck long (free _ (fullPipe_reachable capacity output) (by simp [fullPipe]))
  · intro fits system reached pending
    exact reached.invariant.step fits pending

theorem two_bytes_deadlock : ¬DeadlockFree 1 [104, 105] := by
  intro free
  exact fullPipe_stuck (by decide) (free _ (fullPipe_reachable 1 [104, 105]) (by decide))

end NovaC.Processes
