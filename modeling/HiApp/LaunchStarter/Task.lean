import Mathlib.Data.List.Basic
import Mathlib.Logic.Function.Basic

/-!
# Tasks of the launch starter

A task object is a reference `τ` and its class a reference `κ`.  What its
overridden methods answer is fixed and is in the `Launch`; its latch and flags
are in the `TaskVars`.
-/

namespace HiApp.LaunchStarter

/-- `DispatcherExecutor.getCPUExecutor()`, with a fixed number of threads and a
queue, or `getIOExecutor()`, with a thread for every job. -/
inductive Pool where
  | cpu
  | io
  deriving DecidableEq, Repr

/-- What a task object answers, with the defaults of `Task`. -/
structure Decl (κ : Type*) where
  cls : κ
  dependsOn : Option (List κ) := none
  needWait : Bool := false
  runOnMainThread : Bool := false
  onlyInMainProcess : Bool := true
  needCall : Bool := false
  needRunAsSoon : Bool := false
  runOn : Pool := .io

/-- All task objects of a process. -/
structure Launch (τ κ : Type*) where
  decl : τ → Decl κ
  getSimpleName : κ → String
  isMainProcess : Bool := true
  /-- `CORE_POOL_SIZE`, between two and five. -/
  corePoolSize : ℕ := 2
  corePoolSize_pos : 0 < corePoolSize := by exact Nat.two_pos

/-- `mDepends` and the flags of a task object. -/
structure TaskVars where
  mDepends : ℕ
  mIsWaiting : Bool := false
  mIsRunning : Bool := false
  mIsFinished : Bool := false
  mIsSend : Bool := false

namespace Launch

variable {τ κ : Type*} (L : Launch τ κ)

/-- The entries of `dependsOn()`; a missing list counts as empty everywhere. -/
def dependsOn (t : τ) : List κ := (L.decl t).dependsOn.getD []

def ifNeedWait (t : τ) : Bool :=
  !(L.decl t).runOnMainThread && (L.decl t).needWait

/-- The task is not sent in this process. -/
def skipped (t : τ) : Bool := (L.decl t).onlyInMainProcess && !L.isMainProcess

/-- The constructor of `Task`: the latch counts the entries of `dependsOn()`. -/
def newTask (t : τ) : TaskVars := { mDepends := (L.dependsOn t).length }

end Launch

end HiApp.LaunchStarter
