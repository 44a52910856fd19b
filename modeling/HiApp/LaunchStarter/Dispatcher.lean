import HiApp.LaunchStarter.Sort

/-!
# The task dispatcher at work

The state of one `TaskDispatcher`, the methods of its interface, and the steps
of the threads that execute its tasks.  A step is one method call of the
interface, one turn of a loop of `start`, or a piece of `DispatchRunnable.run`:
up to the wait on the latch, the wait with the body of the task, the completion
with `satisfyChildren`, and `markTaskDone`.
-/

namespace HiApp.LaunchStarter

variable {τ κ : Type*}

/-- Where a `DispatchRunnable` is.  `queued` has not begun, `waiting` is in
`waitToSatisfy`, `running` in `run()`, and `satisfied` has told its children. -/
inductive Stage where
  | queued
  | waiting
  | running
  | satisfied
  deriving DecidableEq, Repr

/-- The stage after the next step, `none` for the end. -/
def Stage.next : Stage → Option Stage
  | .queued => some .waiting
  | .waiting => some .running
  | .running => some .satisfied
  | .satisfied => none

structure Job (τ : Type*) where
  task : τ
  stage : Stage := .queued
  deriving DecidableEq

/-- What the main thread does: nothing of the dispatcher, the loop of
`sendAndExecuteAsyncTasks` (`modified` when the list was changed behind its
back), or the loop of `executeTaskMain`, in a `DispatchRunnable` or between
two. -/
inductive Control (τ : Type*) where
  | idle
  | sending (rest : List τ) (modified : Bool)
  | between (rest : List τ)
  | executing (job : Job τ) (rest : List τ)
  deriving DecidableEq

/-- `mAllTasks` has changed: the loop over it will notice. -/
def Control.listModified : Control τ → Control τ
  | .sending rest _ => .sending rest true
  | main => main

inductive Exception where
  | concurrentModification
  | nullPointer
  | illegalArgument
  deriving DecidableEq, Repr

/-- What has happened: calls of `addTask`, of `executeTask` and of `run()`, and
the calls of `markTaskDone` that count. -/
inductive Event (τ : Type*) where
  | added (task : τ)
  | executed (task : τ)
  | ran (task : τ)
  | done (task : τ)
  | threw (e : Exception)
  deriving DecidableEq

structure State (τ κ : Type*) where
  vars : τ → TaskVars
  /-- The tasks that were given a `TaskCallBack`. -/
  taskCallBack : List τ := []
  sNewTasksHigh : List τ := []
  mAllTasks : List τ := []
  mClsAllTasks : List κ := []
  mMainThreadTasks : List τ := []
  mCountDownLatch : Option ℕ := none
  mNeedWaitCount : ℤ := 0
  mNeedWaitTasks : List τ := []
  mFinishedTasks : List κ := []
  mDependedHashMap : κ → List τ := fun _ ↦ []
  main : Control τ := .idle
  pool : List (Job τ) := []
  trace : List (Event τ) := []

/-- A new dispatcher and new tasks, the first of their process. -/
def Launch.newState (L : Launch τ κ) : State τ κ := { vars := L.newTask }

section

variable [DecidableEq τ]

namespace State

def modify (s : State τ κ) (t : τ) (f : TaskVars → TaskVars) : State τ κ :=
  { s with vars := Function.update s.vars t (f (s.vars t)) }

/-- `Task.satisfy`; a latch stays at zero. -/
def satisfy (s : State τ κ) (t : τ) : State τ κ :=
  s.modify t fun v ↦ { v with mDepends := v.mDepends - 1 }

def setWaiting (s : State τ κ) (t : τ) : State τ κ :=
  s.modify t fun v ↦ { v with mIsWaiting := true }

def setRunning (s : State τ κ) (t : τ) : State τ κ :=
  s.modify t fun v ↦ { v with mIsRunning := true }

def setFinished (s : State τ κ) (t : τ) : State τ κ :=
  s.modify t fun v ↦ { v with mIsFinished := true }

def setSend (s : State τ κ) (t : τ) : State τ κ :=
  s.modify t fun v ↦ { v with mIsSend := true }

def emit (s : State τ κ) (e : Event τ) : State τ κ :=
  { s with trace := s.trace ++ [e] }

end State

namespace Launch

variable [DecidableEq κ] (L : Launch τ κ)

/-- One entry of `dependsOn()` in `collectDepends`. -/
def collectDepend (task : τ) (s : State τ κ) (cls : κ) : State τ κ :=
  let tasks := s.mDependedHashMap cls ++ [task]
  let s := { s with
    mDependedHashMap := Function.update s.mDependedHashMap cls tasks }
  if cls ∈ s.mFinishedTasks then s.satisfy task else s

def collectDepends (s : State τ κ) (task : τ) : State τ κ :=
  (L.dependsOn task).foldl (collectDepend task) s

def addTask (s : State τ κ) (task : τ) : State τ κ :=
  let s := L.collectDepends s task
  let s := { s with
    mAllTasks := s.mAllTasks ++ [task]
    mClsAllTasks := s.mClsAllTasks ++ [(L.decl task).cls]
    main := s.main.listModified }
  let s := if L.ifNeedWait task then
      { s with
        mNeedWaitTasks := s.mNeedWaitTasks ++ [task]
        mNeedWaitCount := s.mNeedWaitCount + 1 }
    else s
  s.emit (.added task)

def satisfyChildren (s : State τ κ) (launchTask : τ) : State τ κ :=
  (s.mDependedHashMap (L.decl launchTask).cls).foldl State.satisfy s

/-- `markTaskDone`.  Before `start` there is no latch to count down. -/
def markTaskDone (s : State τ κ) (task : τ) : State τ κ :=
  if L.ifNeedWait task then
    let s := { s with
      mFinishedTasks := s.mFinishedTasks ++ [(L.decl task).cls]
      mNeedWaitTasks := s.mNeedWaitTasks.erase task }
    match s.mCountDownLatch with
    | none => s.emit (.threw .nullPointer)
    | some n => { s with
        mCountDownLatch := some (n - 1)
        mNeedWaitCount := s.mNeedWaitCount - 1 }.emit (.done task)
  else s

def sentTaskReal (s : State τ κ) (task : τ) : State τ κ :=
  if (L.decl task).runOnMainThread then
    { s with
      mMainThreadTasks := s.mMainThreadTasks ++ [task]
      taskCallBack := if (L.decl task).needCall then s.taskCallBack ++ [task]
        else s.taskCallBack }
  else { s with pool := s.pool ++ [{ task := task }] }

/-- One turn of `sendAndExecuteAsyncTasks`. -/
def send (s : State τ κ) (task : τ) : State τ κ :=
  let s := if L.skipped task then L.markTaskDone s task
    else L.sentTaskReal s task
  s.setSend task

def executeTask (s : State τ κ) (task : τ) : State τ κ :=
  let s := if L.ifNeedWait task then
      { s with mNeedWaitCount := s.mNeedWaitCount + 1 }
    else s
  State.emit { s with pool := s.pool ++ [{ task := task }] } (.executed task)

/-- `start`, up to its first loop.  An exception of the sort leaves everything
as it is; a latch cannot be made for a negative count. -/
def start (s : State τ κ) : State τ κ :=
  if s.mAllTasks = [] then s
  else
    match L.getSortResult (fun t ↦ (s.vars t).mIsSend) s.sNewTasksHigh
        s.mAllTasks s.mClsAllTasks with
    | .error _ => s
    | .ok (high, tasks) =>
        let s : State τ κ := { s with sNewTasksHigh := high, mAllTasks := tasks }
        if s.mNeedWaitCount < (0 : ℤ) then s.emit (.threw .illegalArgument)
        else { s with
          mCountDownLatch := some s.mNeedWaitCount.toNat
          main := .sending tasks false }

/-- `TaskCallBack.call` of a task on the main thread. -/
def call (s : State τ κ) (task : τ) : State τ κ :=
  L.satisfyChildren (s.setFinished task) task

/-- A step of a `DispatchRunnable`: the new state and where it is then, `none`
for its end.  The wait on the latch is not passed before it is zero. -/
def stepRunnable (s : State τ κ) (job : Job τ) :
    Option (State τ κ × Option Stage) :=
  let t := job.task
  match job.stage with
  | .queued => some (s.setWaiting t, some .waiting)
  | .waiting =>
      if (s.vars t).mDepends = 0 then
        some ((s.setRunning t).emit (.ran t), some .running)
      else none
  | .running =>
      if !(L.decl t).needCall || !(L.decl t).runOnMainThread then
        some (L.satisfyChildren (s.setFinished t) t, some .satisfied)
      else some (s, none)
  | .satisfied => some (L.markTaskDone s t, none)

/-- The pool may begin the `i`-th job: the IO pool at any time, the CPU pool in
the order of submission and when one of its threads is free. -/
def mayBegin (pool : List (Job τ)) (i : ℕ) (task : τ) : Bool :=
  match (L.decl task).runOn with
  | .io => true
  | .cpu =>
      let cpu := fun job : Job τ ↦ decide ((L.decl job.task).runOn = .cpu)
      (pool.take i).all (fun job ↦ !cpu job || decide (job.stage ≠ .queued)) &&
        decide (pool.countP (fun job ↦ cpu job && decide (job.stage ≠ .queued)) <
          L.corePoolSize)

def stepPool (s : State τ κ) (i : ℕ) : Option (State τ κ) :=
  match s.pool[i]? with
  | none => none
  | some job =>
      if job.stage = .queued && !L.mayBegin s.pool i job.task then none
      else
        match L.stepRunnable s job with
        | none => none
        | some (s', some stage) =>
            some { s' with pool := s'.pool.set i { job with stage := stage } }
        | some (s', none) => some { s' with pool := s'.pool.eraseIdx i }

def stepMain (s : State τ κ) : Option (State τ κ) :=
  match s.main with
  | .idle => none
  | .sending _ true =>
      some ({ s with main := .idle }.emit (.threw .concurrentModification))
  | .sending [] false => some { s with main := .between s.mMainThreadTasks }
  | .sending (task :: rest) false =>
      some { L.send s task with main := .sending rest false }
  | .between [] => some { s with main := .idle }
  | .between (task :: rest) =>
      some { s with main := .executing { task := task } rest }
  | .executing job rest =>
      match L.stepRunnable s job with
      | none => none
      | some (s', some stage) =>
          some { s' with main := .executing { job with stage := stage } rest }
      | some (s', none) => some { s' with main := .between rest }

end Launch

/-- What may happen next: a call of the interface, a step of the main thread in
`start`, a step of a pool thread, or the call of a task's callback. -/
inductive Action (τ : Type*) where
  | addTask (task : τ)
  | start
  | executeTask (task : τ)
  | main
  | pool (i : ℕ)
  | call (task : τ)
  deriving DecidableEq

/-- What `await` does: it comes back at once, throws, or waits until the latch
is zero or its time is over. -/
inductive Await where
  | returns
  | throws
  | waits
  deriving DecidableEq, Repr

def State.await (s : State τ κ) : Await :=
  if 0 < s.mNeedWaitCount then
    match s.mCountDownLatch with
    | none => .throws
    | some 0 => .returns
    | some (_ + 1) => .waits
  else .returns

namespace Launch

variable [DecidableEq κ] (L : Launch τ κ)

def step (s : State τ κ) : Action τ → Option (State τ κ)
  | .addTask t => some (L.addTask s t)
  | .start => if s.main = .idle then some (L.start s) else none
  | .executeTask t => some (L.executeTask s t)
  | .main => L.stepMain s
  | .pool i => L.stepPool s i
  | .call t => if t ∈ s.taskCallBack then some (L.call s t) else none

/-! ## What a step can do -/

variable {L} {s s' : State τ κ}

omit [DecidableEq κ] in
theorem satisfyChildren_unchanged (t : τ) :
    (L.satisfyChildren s t).pool = s.pool ∧ (L.satisfyChildren s t).main = s.main ∧
      (L.satisfyChildren s t).mMainThreadTasks = s.mMainThreadTasks := by
  unfold satisfyChildren
  generalize s.mDependedHashMap (L.decl t).cls = l
  induction l generalizing s with
  | nil => exact ⟨rfl, rfl, rfl⟩
  | cons u l ih => exact ih (s := s.satisfy u)

omit [DecidableEq κ] in
theorem markTaskDone_unchanged (t : τ) :
    (L.markTaskDone s t).pool = s.pool ∧ (L.markTaskDone s t).main = s.main ∧
      (L.markTaskDone s t).mMainThreadTasks = s.mMainThreadTasks := by
  unfold markTaskDone
  split
  · simp only
    split <;> exact ⟨rfl, rfl, rfl⟩
  · exact ⟨rfl, rfl, rfl⟩

omit [DecidableEq κ] in
/-- The steps of a `DispatchRunnable`, one for each stage, and the end of a task
that waits for its callback. -/
theorem stepRunnable_cases {job : Job τ} {stage : Option Stage}
    (hstep : L.stepRunnable s job = some (s', stage)) :
    (job.stage = .queued ∧ s' = s.setWaiting job.task ∧ stage = some .waiting) ∨
    (job.stage = .waiting ∧ (s.vars job.task).mDepends = 0 ∧
      s' = (s.setRunning job.task).emit (.ran job.task) ∧ stage = some .running) ∨
    (job.stage = .running ∧ (!(L.decl job.task).needCall ||
        !(L.decl job.task).runOnMainThread) = true ∧
      s' = L.satisfyChildren (s.setFinished job.task) job.task ∧
      stage = some .satisfied) ∨
    (job.stage = .running ∧ (!(L.decl job.task).needCall ||
        !(L.decl job.task).runOnMainThread) = false ∧ s' = s ∧ stage = none) ∨
    (job.stage = .satisfied ∧ s' = L.markTaskDone s job.task ∧ stage = none) := by
  unfold stepRunnable at hstep
  cases hstage : job.stage with
  | queued =>
      simp only [hstage, Option.some.injEq, Prod.mk.injEq] at hstep
      exact .inl ⟨rfl, hstep.1.symm, hstep.2.symm⟩
  | waiting =>
      simp only [hstage] at hstep
      split at hstep
      · rename_i hlatch
        simp only [Option.some.injEq, Prod.mk.injEq] at hstep
        exact .inr (.inl ⟨rfl, hlatch, hstep.1.symm, hstep.2.symm⟩)
      · simp at hstep
  | running =>
      simp only [hstage] at hstep
      split at hstep
      · rename_i hcall
        simp only [Option.some.injEq, Prod.mk.injEq] at hstep
        exact .inr (.inr (.inl ⟨rfl, hcall, hstep.1.symm, hstep.2.symm⟩))
      · rename_i hcall
        simp only [Option.some.injEq, Prod.mk.injEq] at hstep
        exact .inr (.inr (.inr (.inl
          ⟨rfl, Bool.eq_false_iff.mpr hcall, hstep.1.symm, hstep.2.symm⟩)))
  | satisfied =>
      simp only [hstage, Option.some.injEq, Prod.mk.injEq] at hstep
      exact .inr (.inr (.inr (.inr ⟨rfl, hstep.1.symm, hstep.2.symm⟩)))

omit [DecidableEq κ] in
theorem stepRunnable_unchanged {job : Job τ} {stage : Option Stage}
    (hstep : L.stepRunnable s job = some (s', stage)) :
    s'.pool = s.pool ∧ s'.main = s.main ∧
      s'.mMainThreadTasks = s.mMainThreadTasks := by
  rcases stepRunnable_cases hstep with ⟨-, rfl, -⟩ | ⟨-, -, rfl, -⟩ |
    ⟨-, -, rfl, -⟩ | ⟨-, -, rfl, -⟩ | ⟨-, rfl, -⟩
  · exact ⟨rfl, rfl, rfl⟩
  · exact ⟨rfl, rfl, rfl⟩
  · exact satisfyChildren_unchanged job.task
  · exact ⟨rfl, rfl, rfl⟩
  · exact markTaskDone_unchanged job.task

omit [DecidableEq τ] in
/-- `start` does nothing, or sorts and cannot make a latch, or sorts, makes the
latch and enters its first loop. -/
theorem start_cases (L : Launch τ κ) (s : State τ κ) :
    (L.start s = s ∧ (s.mAllTasks = [] ∨ ∃ e, L.getSortResult
      (fun t ↦ (s.vars t).mIsSend) s.sNewTasksHigh s.mAllTasks s.mClsAllTasks =
        .error e)) ∨
    s.mAllTasks ≠ [] ∧ ∃ high tasks, L.getSortResult
        (fun t ↦ (s.vars t).mIsSend) s.sNewTasksHigh s.mAllTasks s.mClsAllTasks =
          .ok (high, tasks) ∧
      (s.mNeedWaitCount < 0 ∧ L.start s = State.emit
          { s with sNewTasksHigh := high, mAllTasks := tasks }
          (.threw .illegalArgument) ∨
        0 ≤ s.mNeedWaitCount ∧ L.start s = { s with
          sNewTasksHigh := high
          mAllTasks := tasks
          mCountDownLatch := some s.mNeedWaitCount.toNat
          main := .sending tasks false }) := by
  unfold start
  by_cases hnil : s.mAllTasks = []
  · simp [hnil]
  · cases hsort : L.getSortResult (fun t ↦ (s.vars t).mIsSend) s.sNewTasksHigh
        s.mAllTasks s.mClsAllTasks with
    | error e => simp [hnil]
    | ok result =>
        obtain ⟨high, tasks⟩ := result
        refine .inr ⟨hnil, high, tasks, rfl, ?_⟩
        by_cases hneg : s.mNeedWaitCount < 0
        · simp [hnil, hneg]
        · simp [hnil, hneg, Int.not_lt.mp hneg]

omit [DecidableEq κ] in
theorem stepPool_cases {i : ℕ} (hstep : L.stepPool s i = some s') :
    ∃ job s₁ stage, s.pool[i]? = some job ∧
      (job.stage = .queued → L.mayBegin s.pool i job.task = true) ∧
      L.stepRunnable s job = some (s₁, stage) ∧
      s' = { s₁ with pool := match stage with
        | some stage => s₁.pool.set i { job with stage := stage }
        | none => s₁.pool.eraseIdx i } := by
  unfold stepPool at hstep
  split at hstep
  · simp at hstep
  rename_i job hget
  split at hstep
  · simp at hstep
  rename_i hbegin
  refine ⟨job, ?_⟩
  have hmay : job.stage = .queued → L.mayBegin s.pool i job.task = true := by
    intro hqueued
    simpa [hqueued] using hbegin
  split at hstep
  · simp at hstep
  · rename_i s₁ stage hrun
    exact ⟨s₁, some stage, hget, hmay, hrun, (Option.some.inj hstep).symm⟩
  · rename_i s₁ hrun
    exact ⟨s₁, none, hget, hmay, hrun, (Option.some.inj hstep).symm⟩

omit [DecidableEq κ] in
theorem stepMain_cases (hstep : L.stepMain s = some s') :
    (∃ rest, s.main = .sending rest true ∧
      s' = State.emit { s with main := .idle } (.threw .concurrentModification)) ∨
    (s.main = .sending [] false ∧
      s' = { s with main := .between s.mMainThreadTasks }) ∨
    (∃ t rest, s.main = .sending (t :: rest) false ∧
      s' = { L.send s t with main := .sending rest false }) ∨
    (s.main = .between [] ∧ s' = { s with main := .idle }) ∨
    (∃ t rest, s.main = .between (t :: rest) ∧
      s' = { s with main := .executing { task := t } rest }) ∨
    ∃ job rest s₁ stage, s.main = .executing job rest ∧
      L.stepRunnable s job = some (s₁, stage) ∧
      s' = { s₁ with main := match stage with
        | some stage => .executing { job with stage := stage } rest
        | none => .between rest } := by
  unfold stepMain at hstep
  split at hstep
  · simp at hstep
  · rename_i rest hmain
    exact .inl ⟨rest, hmain, (Option.some.inj hstep).symm⟩
  · rename_i hmain
    exact .inr (.inl ⟨hmain, (Option.some.inj hstep).symm⟩)
  · rename_i t rest hmain
    exact .inr (.inr (.inl ⟨t, rest, hmain, (Option.some.inj hstep).symm⟩))
  · rename_i hmain
    exact .inr (.inr (.inr (.inl ⟨hmain, (Option.some.inj hstep).symm⟩)))
  · rename_i t rest hmain
    exact .inr (.inr (.inr (.inr (.inl
      ⟨t, rest, hmain, (Option.some.inj hstep).symm⟩))))
  · rename_i job rest hmain
    refine .inr (.inr (.inr (.inr (.inr ⟨job, rest, ?_⟩))))
    split at hstep
    · simp at hstep
    · rename_i s₁ stage hrun
      exact ⟨s₁, some stage, hmain, hrun, (Option.some.inj hstep).symm⟩
    · rename_i s₁ hrun
      exact ⟨s₁, none, hmain, hrun, (Option.some.inj hstep).symm⟩

end Launch

end

end HiApp.LaunchStarter
