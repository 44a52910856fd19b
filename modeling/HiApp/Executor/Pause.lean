import HiApp.Lib.Runs
import Mathlib.Logic.Function.Basic

/-!
# Pausing the executor

Before every task a worker of `HiExecutor` looks at `isPaused` and, if it is set,
takes the lock and waits on `pauseCondition`.  The flag is not looked at again
under the lock, nor after the wait.
-/

namespace HiApp.Executor.Pause

open Runs

/-- Where a worker is in `beforeExecute`: outside, past a test of `isPaused` that
was true, waiting on `pauseCondition`, or woken and about to take the lock again. -/
inductive Worker where
  | outside
  | locking
  | waiting
  | signalled
  deriving DecidableEq, Repr

structure State (ω : Type*) where
  isPaused : Bool := false
  worker : ω → Worker := fun _ ↦ .outside

/-- A step of a worker in `beforeExecute`, with a wait that may also end without a
signal, or a call of `pause` or `resume`. -/
inductive Action (ω : Type*) where
  | read (w : ω)
  | await (w : ω)
  | wake (w : ω)
  | spurious (w : ω)
  | pause
  | resume
  deriving DecidableEq

section

variable {ω : Type*}

def State.pause (s : State ω) : State ω :=
  if s.isPaused then s else { s with isPaused := true }

def State.signalAll (s : State ω) : State ω :=
  { s with worker := fun w ↦ if s.worker w = .waiting then .signalled else s.worker w }

def State.resume (s : State ω) : State ω :=
  if !s.isPaused then s else { s with isPaused := false }.signalAll

variable [DecidableEq ω]

def State.goto (s : State ω) (w : ω) (next : Worker) : State ω :=
  { s with worker := Function.update s.worker w next }

def step (s : State ω) : Action ω → Option (State ω)
  | .read w =>
      if s.worker w = .outside then
        some (if s.isPaused then s.goto w .locking else s)
      else none
  | .await w => if s.worker w = .locking then some (s.goto w .waiting) else none
  | .wake w => if s.worker w = .signalled then some (s.goto w .outside) else none
  | .spurious w => if s.worker w = .waiting then some (s.goto w .outside) else none
  | .pause => some s.pause
  | .resume => some s.resume

/-- While the executor is not paused, nobody waits without a signal. -/
def NoneForgotten (s : State ω) : Prop :=
  s.isPaused = false → ∀ w, s.worker w ≠ .waiting

/-- A worker begins to wait only while the executor is paused. -/
def WaitsWhilePaused (s : State ω) : Action ω → Prop
  | .await _ => s.isPaused = true
  | _ => True

variable {s s' : State ω}

theorem NoneForgotten.goto (h : NoneForgotten s) (w : ω) {next : Worker}
    (hnext : next ≠ .waiting) : NoneForgotten (s.goto w next) := by
  intro hpaused v
  by_cases hv : v = w
  · simpa [State.goto, hv] using hnext
  · simpa [State.goto, hv] using h hpaused v

omit [DecidableEq ω] in
theorem NoneForgotten.resume (h : NoneForgotten s) : NoneForgotten s.resume := by
  unfold State.resume
  split
  · exact h
  · intro _ w
    by_cases hw : s.worker w = .waiting
    · simp [State.signalAll, hw]
    · simp [State.signalAll, hw]

theorem noneForgotten_step_iff {a : Action ω} (h : NoneForgotten s)
    (hstep : step s a = some s') : NoneForgotten s' ↔ WaitsWhilePaused s a := by
  cases a with
  | read w =>
      simp only [step, Option.ite_none_right_eq_some, Option.some.injEq] at hstep
      obtain ⟨-, rfl⟩ := hstep
      refine iff_of_true ?_ trivial
      split
      · exact h.goto w (by decide)
      · exact h
  | await w =>
      simp only [step, Option.ite_none_right_eq_some, Option.some.injEq] at hstep
      obtain ⟨-, rfl⟩ := hstep
      constructor
      · intro hnone
        by_contra hpaused
        exact hnone (Bool.eq_false_iff.mpr hpaused) w (by simp [State.goto])
      · intro hpaused hnot
        have hnot' : s.isPaused = false := hnot
        simp [WaitsWhilePaused, hnot'] at hpaused
  | wake w =>
      simp only [step, Option.ite_none_right_eq_some, Option.some.injEq] at hstep
      obtain ⟨-, rfl⟩ := hstep
      exact iff_of_true (h.goto w (by decide)) trivial
  | spurious w =>
      simp only [step, Option.ite_none_right_eq_some, Option.some.injEq] at hstep
      obtain ⟨-, rfl⟩ := hstep
      exact iff_of_true (h.goto w (by decide)) trivial
  | pause =>
      obtain rfl := Option.some.inj hstep
      refine iff_of_true ?_ trivial
      unfold State.pause
      split
      · exact h
      · intro hpaused
        simp at hpaused
  | resume =>
      obtain rfl := Option.some.inj hstep
      exact iff_of_true h.resume trivial

/-- Along every run, no worker is left waiting while the executor is not paused,
if and only if every worker that begins to wait does so while it is paused. -/
theorem noneForgotten_iff_waitsWhilePaused {s : State ω} {as : List (Action ω)}
    (hrun : run step {} as = some s) :
    StatesMeet step NoneForgotten {} as ↔ StepsMeet step WaitsWhilePaused {} as := by
  refine statesMeet_iff_stepsMeet (I := fun _ ↦ True) (D := fun _ _ ↦ True) ?_ ?_
    trivial ?_ stepsMeet_true hrun
  · intro u a v _ _ _ _ _
    trivial
  · intro u a v _ hu _ hstep
    exact noneForgotten_step_iff hu hstep
  · intro _ w
    simp

end

/-- The worker has seen the flag when `resume` is called, and waits after it. -/
def lateWaitRun : List (Action (Fin 1)) := [.pause, .read 0, .resume, .await 0]

theorem noneForgotten_iff_waitsWhilePaused_late :
    ∃ s, run step {} lateWaitRun = some s ∧
      (StatesMeet step NoneForgotten {} lateWaitRun ↔
        StepsMeet step WaitsWhilePaused {} lateWaitRun) := by
  refine ⟨_, rfl, ?_⟩
  exact @noneForgotten_iff_waitsWhilePaused (Fin 1) _ _ lateWaitRun rfl

theorem wakeup_lost :
    ∃ s, run step {} lateWaitRun = some s ∧ s.isPaused = false ∧
      s.worker 0 = .waiting ∧ ¬ NoneForgotten s := by
  refine ⟨_, rfl, rfl, by decide, ?_⟩
  intro hnone
  exact hnone rfl 0 (by decide)

end HiApp.Executor.Pause
