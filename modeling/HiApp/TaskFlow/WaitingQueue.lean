import HiApp.TaskFlow.WaitLoop

/-!
# Which waiting tasks are lost

The queue of waiting tasks is served only while there are block tasks.  This
file says exactly when `TaskFlowManager.start` leaves it behind empty: when the
last block task finishes in time, that is, with nothing waiting or while the
main thread stands between the two tests of `runWaitingTasks`.
-/

namespace HiApp.TaskFlow

open Runs

variable {τ : Type*}

/-- Once there are no block tasks, the queue is empty or the main thread is
about to post it. -/
def State.Kept (s : State τ) : Prop :=
  s.blockTaskId = [] →
    s.waitingTasks = [] ∨ s.main.head? = some .runWaitingHead

/-- If the action removes the last block id, the queue is empty or the main
thread is between the two tests of `runWaitingTasks`. -/
def Arena.LastBlockInTime (A : Arena τ) (s : State τ) (a : Action) : Prop :=
  ∀ k t rest, a = .thread k → s.stack k = .body t :: rest →
    s.blockTaskId ≠ [] → s.blockTaskId.erase (A.decl t).id = [] →
    s.waitingTasks = [] ∨ s.main.head? = some .runWaitingHead

namespace State

variable {s s' : State τ} {k : Thread} {f : Frame τ} {rest : List (Frame τ)}

/-- A step of a task does not bring the main thread to the second test of
`runWaitingTasks`, nor away from it. -/
theorem head_iff_of_task_step (h : Stacks s) (s' : State τ)
    (hstack : s.stack k = f :: rest)
    (hf : f.isLoop = false) (hmain : s'.main = s.main)
    (new : List (Frame τ)) (hnew : new.head? ≠ some .runWaitingHead) :
    (s'.setStack k (new ++ rest)).main.head? = some .runWaitingHead ↔
      s.main.head? = some .runWaitingHead := by
  rcases stack_cases hstack with ⟨rfl, hs⟩ | ⟨seq, rfl, -⟩
  · refine iff_of_false ?_ ?_
    · have hrest := (hs ▸ h.main).head_rest
      cases new with
      | nil => exact hrest
      | cons g new => exact hnew
    · rw [hs]
      intro hhead
      obtain rfl : f = .runWaitingHead := by simpa using hhead
      simp [Frame.isLoop] at hf
  · rw [setStack, hmain]

theorem kept_iff_of_task_step (h : Stacks s) (s' : State τ)
    (hstack : s.stack k = f :: rest)
    (hf : f.isLoop = false) (hmain : s'.main = s.main)
    (hwaiting : s.blockTaskId = [] → s'.waitingTasks = s.waitingTasks)
    (hids : s'.blockTaskId = s.blockTaskId)
    (new : List (Frame τ)) (hnew : new.head? ≠ some .runWaitingHead) :
    (s'.setStack k (new ++ rest)).Kept ↔ s.Kept := by
  unfold Kept
  rw [head_iff_of_task_step h s' hstack hf hmain new hnew, setStack_blockTaskId,
    setStack_waitingTasks, hids]
  constructor
  · intro hkept hs
    rw [← hwaiting hs]
    exact hkept hs
  · intro hkept hs
    rw [hwaiting hs]
    exact hkept hs

theorem kept_of_blockTaskId_ne_nil (h : s.blockTaskId ≠ []) : s.Kept :=
  fun hids ↦ (h hids).elim

variable [DecidableEq τ] [Fintype τ] {A : Arena τ}

/-- The end of a task body: only the removal of the last block id matters. -/
theorem kept_iff_of_body {t : τ} (h : Stacks s)
    (hstack : s.stack k = .body t :: rest) :
    (A.stepFrame s k (.body t) rest).Kept ↔
      s.Kept ∧ A.LastBlockInTime s (.thread k) := by
  have hcond : A.LastBlockInTime s (.thread k) ↔
      (s.blockTaskId ≠ [] → s.blockTaskId.erase (A.decl t).id = [] →
        s.waitingTasks = [] ∨ s.main.head? = some .runWaitingHead) := by
    constructor
    · exact fun hcond ↦ hcond k t rest rfl hstack
    · intro hcond k' t' rest' hk hstack'
      obtain rfl : k = k' := by simpa using hk
      obtain ⟨ht, -⟩ := List.cons.inj (hstack.symm.trans hstack')
      obtain rfl : t = t' := by simpa using ht
      exact hcond
  have hhead := head_iff_of_task_step h (A.toFinish s t) hstack rfl rfl
    [.notifyBehindTasks t] (by simp)
  have hkept : (A.stepFrame s k (.body t) rest).Kept ↔
      (s.blockTaskId.erase (A.decl t).id = [] →
        s.waitingTasks = [] ∨ s.main.head? = some .runWaitingHead) := by
    rw [← hhead]
    simp [Arena.stepFrame, Kept, Arena.toFinish, emit, setState]
  rw [hkept, hcond]
  rcases eq_or_ne s.blockTaskId [] with hids | hids
  · simp [Kept, hids]
  · simp [Kept, hids]

theorem kept_iff_of_loop_step (h : Stacks s) (hmain : s.main = f :: rest)
    (hf : f.isLoop = true) : (A.stepFrame s .main f rest).Kept ↔ s.Kept := by
  have hrest := (hmain ▸ h.main).rest_of_isLoop hf
  subst hrest
  cases hids : s.hasBlockTasks with
  | true =>
      have hne : s.blockTaskId ≠ [] := by simpa [hasBlockTasks] using hids
      refine iff_of_true ?_ (kept_of_blockTaskId_ne_nil hne)
      apply kept_of_blockTaskId_ne_nil
      cases f with
      | run t | body t | notifyBehindTasks t | forBehindTask t bs =>
          simp [Frame.isLoop] at hf
      | outerWhile | sleep | innerWhile | runWaitingTasks =>
          simpa [Arena.stepFrame, hids] using hne
      | runWaitingHead =>
          simp only [Arena.stepFrame, hids, if_true]
          split <;> simpa [emit, State.throw] using hne
  | false =>
      have hnil : s.blockTaskId = [] := by simpa [hasBlockTasks] using hids
      cases f with
      | run t | body t | notifyBehindTasks t | forBehindTask t bs =>
          simp [Frame.isLoop] at hf
      | outerWhile | sleep | innerWhile | runWaitingTasks =>
          simp [Arena.stepFrame, hids, Kept, setStack, hnil, hmain, Frame.below]
      | runWaitingHead =>
          simp [Arena.stepFrame, hids, Kept, setStack, hnil, hmain]

theorem kept_iff {a : Action} (h : Stacks s) (hstep : A.step s a = some s') :
    s'.Kept ↔ s.Kept ∧ A.LastBlockInTime s a := by
  obtain ⟨-, ⟨k, f, rest, rfl, hstack, rfl⟩ | ⟨i, t, rfl, -, rfl⟩ |
    ⟨i, t, rfl, hmain, -, rfl⟩⟩ := Arena.step_cases hstep
  · have hquiet : (∀ t, f ≠ .body t) → A.LastBlockInTime s (.thread k) := by
      intro hf k' t rest' hk hstack'
      obtain rfl : k = k' := by simpa using hk
      rw [hstack] at hstack'
      exact (hf t (List.cons.inj hstack').1).elim
    cases f with
    | body t => exact kept_iff_of_body h hstack
    | run t =>
        rw [and_iff_left (hquiet (by simp))]
        exact kept_iff_of_task_step h (A.toRunning s t k) hstack rfl rfl
          (fun _ ↦ rfl) rfl [.body t] (by simp)
    | notifyBehindTasks t =>
        rw [and_iff_left (hquiet (by simp))]
        exact kept_iff_of_task_step h (s.sortBehindTasks t) hstack rfl rfl
          (fun _ ↦ rfl) rfl [.forBehindTask t _] (by simp)
    | forBehindTask t bs =>
        rw [and_iff_left (hquiet (by simp))]
        cases bs with
        | nil =>
            exact kept_iff_of_task_step h (s.recycle t) hstack rfl rfl
              (fun _ ↦ rfl) rfl [] (by simp)
        | cons b bs =>
            rcases Arena.stepFrame_notify A s t b k rest bs with
              ⟨e, -, he⟩ | ⟨s', calls, hnotice, hs'⟩
            · rw [he]
              rfl
            · obtain ⟨hids, hmain, -, -⟩ := hnotice.unchanged
              rw [hs']
              refine kept_iff_of_task_step h s' hstack rfl hmain ?_ hids _ ?_
              · exact hnotice.waitingTasks_eq
              · rcases hnotice.calls_eq with rfl | rfl <;> simp
    | outerWhile | sleep | innerWhile | runWaitingTasks | runWaitingHead =>
        rw [and_iff_left (hquiet (by simp))]
        obtain ⟨rfl, hmain⟩ := h.eq_main hstack rfl
        exact kept_iff_of_loop_step h hmain rfl
  · rw [and_iff_left (by intro k t rest hk; simp at hk)]
    rfl
  · rw [and_iff_left (by intro k t rest hk; simp at hk)]
    simp [Kept, hmain]

end State

section

variable [DecidableEq τ] [Fintype τ] (A : Arena τ) {h : Heap τ}
  {ids : List String} {info : Registry τ} {task : τ} {s₀ s : State τ}
  {as : List Action}

theorem kept_startFlow (hh : Built A h)
    (hstart : A.startFlow h ids info task = .ok s₀) : s₀.Kept := by
  obtain ⟨h', info', s', calls, -, htask, rfl⟩ := A.startFlow_cases hh hstart
  obtain ⟨-, hroute⟩ := Arena.route_of_taskStart htask
  intro hids
  obtain ⟨hids', -⟩ := hroute.unchanged
  left
  exact hroute.waitingTasks_eq (hids' ▸ hids)

/-- Whenever `start` has returned, every task that was put into the waiting
queue has been run or posted exactly once and the queue is empty, if and only
if the last block id was removed in time. -/
theorem waiting_tasks_served_iff (hh : Built A h)
    (hstart : A.startFlow h ids info task = .ok s₀)
    (hrun : run A.step s₀ as = some s) (hreturned : s.Returned) :
    (s.waitingTasks = [] ∧ ∀ t, .addWaiting t ∈ s.trace → s.served t = 1) ↔
      StepsMeet A.step A.LastBlockInTime s₀ as := by
  have hstacks : Stacks s := run_invariant' (fun u a v hu ↦ hu.step)
    (stacks_startFlow A hh hstart) hrun
  have hledger : Ledger s := run_invariant' (fun u a v hu ↦ hu.step)
    (ledger_startFlow A hh hstart) hrun
  have hiff : s.Kept ↔ StepsMeet A.step A.LastBlockInTime s₀ as :=
    meets_iff_stepsMeet (I := Stacks) (fun u a v hu ↦ hu.step)
      (fun u a v hu ↦ State.kept_iff hu) (stacks_startFlow A hh hstart)
      (kept_startFlow A hh hstart) hrun
  rw [← hiff]
  constructor
  · rintro ⟨hempty, -⟩ -
    exact .inl hempty
  · intro hkept
    have hempty : s.waitingTasks = [] := by
      rcases hkept (hstacks.waits hreturned) with hempty | hhead
      · exact hempty
      · have hloop := hreturned _ (List.mem_of_mem_head? hhead)
        simp [Frame.isLoop] at hloop
    refine ⟨hempty, fun t ht ↦ ?_⟩
    have hpos : 0 < s.added t := List.count_pos_iff.mpr ht
    have honce := hledger.once t
    have haccount := hledger.account t
    rw [hempty, List.count_nil] at haccount
    omega

end

/-- The start task `a`, the block task `b` on an executor thread, the task `w`
on the main thread, and the end task `c` behind both. -/
def blockAndWait : Arena (Fin 4) :=
  .plain (fun t ↦ if t = 0 then "a" else if t = 1 then "b"
    else if t = 2 then "w" else "c") (fun t ↦ decide (t = 1))

def fork : Heap (Fin 4) :=
  [Call.behind 0 1, .behind 0 2, .behind 1 3, .behind 2 3].foldl
    blockAndWait.perform (Heap.fresh fun _ ↦ 0)

theorem built_fork : Built blockAndWait fork :=
  built_foldl blockAndWait (.fresh _) _

/-- `b` ends while the main thread is between the two tests: `w` is posted. -/
theorem waiting_tasks_served_iff_fork :
    ∃ s₀ s, blockAndWait.startFlow fork ["b"] (fun _ ↦ none) 0 = .ok s₀ ∧
      run blockAndWait.step s₀
        (List.replicate 13 (Action.thread Thread.main) ++ [Action.takeJob 0] ++
          List.replicate 2 (Action.thread (Thread.hiExecutor 0)) ++
          List.replicate 3 (Action.thread Thread.main)) = some s ∧
      s.Returned ∧ s.served 2 = 1 ∧
      StepsMeet blockAndWait.step blockAndWait.LastBlockInTime s₀
        (List.replicate 13 (Action.thread Thread.main) ++ [Action.takeJob 0] ++
          List.replicate 2 (Action.thread (Thread.hiExecutor 0)) ++
          List.replicate 3 (Action.thread Thread.main)) := by
  obtain ⟨s₀, hstart, s, hrun, hreturned, hserved, hall⟩ :
      ∃ s₀, blockAndWait.startFlow fork ["b"] (fun _ ↦ none) 0 = .ok s₀ ∧
        ∃ s, run blockAndWait.step s₀
          (List.replicate 13 (Action.thread Thread.main) ++ [Action.takeJob 0] ++
            List.replicate 2 (Action.thread (Thread.hiExecutor 0)) ++
            List.replicate 3 (Action.thread Thread.main)) = some s ∧
          s.Returned ∧ s.served 2 = 1 ∧ s.waitingTasks = [] ∧
            ∀ t, .addWaiting t ∈ s.trace → s.served t = 1 :=
    exists_ok_run_of_any (by decide)
  exact ⟨s₀, s, hstart, hrun, hreturned, hserved,
    (waiting_tasks_served_iff blockAndWait built_fork hstart hrun hreturned).mp hall⟩

/-- `b` ends while `w` waits and the main thread is outside `runWaitingTasks`:
`start` returns and `w` is still in the queue, never run and never posted. -/
theorem waiting_task_lost :
    Built blockAndWait fork ∧
    ∃ s₀ s, blockAndWait.startFlow fork ["b"] (fun _ ↦ none) 0 = .ok s₀ ∧
      run blockAndWait.step s₀
        (List.replicate 11 (Action.thread Thread.main) ++ [Action.takeJob 0] ++
          List.replicate 2 (Action.thread (Thread.hiExecutor 0)) ++
          List.replicate 2 (Action.thread Thread.main)) = some s ∧
      s.Returned ∧ s.hasBlockTasks = false ∧ s.waitingTasks = [2] ∧
      s.served 2 = 0 := by
  refine ⟨built_fork, ?_⟩
  obtain ⟨s₀, hstart, s, hrun, hlost⟩ :
      ∃ s₀, blockAndWait.startFlow fork ["b"] (fun _ ↦ none) 0 = .ok s₀ ∧
        ∃ s, run blockAndWait.step s₀
          (List.replicate 11 (Action.thread Thread.main) ++ [Action.takeJob 0] ++
            List.replicate 2 (Action.thread (Thread.hiExecutor 0)) ++
            List.replicate 2 (Action.thread Thread.main)) = some s ∧
          s.Returned ∧ s.hasBlockTasks = false ∧ s.waitingTasks = [2] ∧ s.served 2 = 0 :=
    exists_ok_run_of_any (by decide)
  exact ⟨s₀, s, hstart, hrun, hlost⟩

end HiApp.TaskFlow
