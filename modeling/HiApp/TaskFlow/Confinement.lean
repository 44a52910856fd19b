import HiApp.TaskFlow.WaitLoop

/-!
# Which thread runs a task

`executeTask` hands a synchronous task to the main looper, to the waiting queue
or to the thread it is called on.  The last of these is an executor thread when
the last dependency of the task was asynchronous.
-/

namespace HiApp.TaskFlow

open Runs

variable {τ : Type*}

/-- The task whose `run` a frame belongs to, up to the end of its body. -/
def Frame.executing : Frame τ → Option τ
  | .run t | .body t => some t
  | _ => none

namespace Arena

variable (A : Arena τ)

/-- Executor threads execute asynchronous tasks only. -/
def Confined (s : State τ) : Prop :=
  ∀ f ∈ s.workers.flatten, ∀ t ∈ f.executing, (A.decl t).isAsyncTask = true

variable [DecidableEq τ] [Fintype τ]

/-- When an executor thread notifies a synchronous task of its last dependency,
the task is due to be posted, or it has to wait for the block tasks. -/
def Delegates (s : State τ) (a : Action) : Prop :=
  ∀ seq t b bs rest, a = .thread (.hiExecutor seq) →
    s.stack (.hiExecutor seq) = .forBehindTask t (b :: bs) :: rest →
    (s.heap b).behindTasks ≠ [] → (s.heap b).dependTasks.erase t = [] →
    (A.decl b).isAsyncTask = false →
    A.Posted s.heap s.taskRuntimeInfo b ∨
      s.blockTaskId ≠ [] ∧ A.isBlockTask s b = false

/-- Jobs of the executor are asynchronous, and the wait loop is on the main
thread. -/
def Jobs (s : State τ) : Prop :=
  Stacks s ∧ ∀ t ∈ s.executor, (A.decl t).isAsyncTask = true

variable {A} {s s' : State τ} {k : Thread} {t b : τ} {calls : List (Frame τ)}

theorem posted_toStart : A.Posted (State.toStart
      { s with heap := s.heap.removeDepend b t } b).heap s.taskRuntimeInfo b ↔
    A.Posted s.heap s.taskRuntimeInfo b := by
  refine A.posted_congr (fun u _ ↦ ?_) (fun _ ↦ rfl)
  simp [State.toStart, State.emit]

theorem mem_executor_of_notice (hnotice : Notice A s b t s' calls) {u : τ}
    (hu : u ∈ s'.executor) :
    u ∈ s.executor ∨ (A.decl u).isAsyncTask = true := by
  cases hnotice with
  | ignored | crossed => exact .inl hu
  | started _ _ _ hroute =>
      cases hroute with
      | executor hasync =>
          rcases List.mem_append.mp hu with hu | hu
          · exact .inl hu
          · obtain rfl : u = b := by simpa using hu
            exact .inr hasync
      | handler | direct => exact .inl hu
      | waiting =>
          unfold State.addWaitingTask at hu
          split at hu <;> exact .inl hu

theorem jobs_step {a : Action} (h : A.Jobs s) (hstep : A.step s a = some s') :
    A.Jobs s' := by
  refine ⟨h.1.step hstep, ?_⟩
  obtain ⟨-, ⟨k, f, rest, rfl, hstack, rfl⟩ | ⟨i, t, rfl, -, rfl⟩ |
    ⟨i, t, rfl, -, -, rfl⟩⟩ := step_cases hstep
  · cases hloop : f.isLoop with
    | true =>
        obtain ⟨rfl, -⟩ := h.1.eq_main hstack hloop
        rw [(A.stepFrame_loop s rest hloop).2.2.2.1]
        exact h.2
    | false =>
    cases f with
    | run t | body t | notifyBehindTasks t =>
        simpa [stepFrame, toRunning, toFinish, State.emit, State.setState,
          State.sortBehindTasks] using h.2
    | forBehindTask t bs =>
        cases bs with
        | nil => simpa [stepFrame, State.recycle] using h.2
        | cons b bs =>
            rcases stepFrame_notify A s t b k rest bs with ⟨e, -, he⟩ | ⟨s', calls, hnotice, hs'⟩
            · rw [he]
              exact h.2
            · rw [hs']
              intro u hu
              rw [State.setStack_executor] at hu
              rcases mem_executor_of_notice hnotice hu with hu | hu
              · exact h.2 u hu
              · exact hu
    | outerWhile | sleep | innerWhile | runWaitingTasks | runWaitingHead =>
        simp [Frame.isLoop] at hloop
  · exact fun u hu ↦ h.2 u (List.mem_of_mem_eraseIdx hu)
  · exact h.2

omit [DecidableEq τ] [Fintype τ] in
theorem Confined.setStack {f : Frame τ} {rest : List (Frame τ)}
    (h : A.Confined s) (s' : State τ) (hstack : s.stack k = f :: rest)
    (hworkers : s'.workers = s.workers) (new : List (Frame τ))
    (hnew : k ≠ .main → ∀ g ∈ new, ∀ t ∈ g.executing,
      (A.decl t).isAsyncTask = true) :
    A.Confined (s'.setStack k (new ++ rest)) := by
  intro g hg
  rcases State.mem_workers_setStack hstack hworkers hg with ⟨hk, hg⟩ | hg
  · exact hnew hk g hg
  · exact h g hg

theorem delegates_iff_of_notice {seq : ℕ} {bs : List τ} {rest : List (Frame τ)}
    (hstack : s.stack (.hiExecutor seq) = .forBehindTask t (b :: bs) :: rest)
    (hnotice : Notice A s b t s' calls) :
    A.Delegates s (.thread (.hiExecutor seq)) ↔
      (.run b ∈ calls → (A.decl b).isAsyncTask = true) := by
  have hcond : A.Delegates s (.thread (.hiExecutor seq)) ↔
      ((s.heap b).behindTasks ≠ [] → (s.heap b).dependTasks.erase t = [] →
        (A.decl b).isAsyncTask = false →
        A.Posted s.heap s.taskRuntimeInfo b ∨
          s.blockTaskId ≠ [] ∧ A.isBlockTask s b = false) := by
    constructor
    · exact fun hcond ↦ hcond seq t b bs rest rfl hstack
    · intro hcond seq' t' b' bs' rest' hk hstack'
      obtain rfl : seq = seq' := by simpa using hk
      have heq := hstack.symm.trans hstack'
      simp only [List.cons.injEq, Frame.forBehindTask.injEq] at heq
      obtain ⟨⟨rfl, rfl, -⟩, -⟩ := heq
      exact hcond
  rw [hcond]
  cases hnotice with
  | ignored hsink => simp [hsink]
  | crossed _ hmore => simp [hmore]
  | started hbehind hlast _ hroute =>
      cases hroute with
      | executor hasync => simp [hasync]
      | handler hsync hpost => simp [posted_toStart.mp hpost]
      | waiting hsync _ hblock hother =>
          refine iff_of_true (fun _ _ _ ↦ .inr ⟨hblock, hother⟩) (by simp)
      | direct hsync hpost hnow =>
          refine iff_of_false ?_ (by simp [hsync])
          intro hdelegates
          rcases hdelegates hbehind hlast hsync with hposted | ⟨hblock, hother⟩
          · exact hpost (posted_toStart.mpr hposted)
          · rcases hnow with hnow | hnow
            · exact hblock hnow
            · have hnow' : A.isBlockTask s b = true := hnow
              simp [hother] at hnow'

/-- After a notification the synchronous tasks are still confined, if and only if
the notifying thread is the main thread or does not call `run` of one. -/
theorem confined_iff_of_notice {bs : List τ} {rest : List (Frame τ)}
    (h : A.Confined s) (hstack : s.stack k = .forBehindTask t (b :: bs) :: rest)
    (hnotice : Notice A s b t s' calls) :
    A.Confined (s'.setStack k ((calls ++ [.forBehindTask t bs]) ++ rest)) ↔
      A.Delegates s (.thread k) := by
  obtain ⟨-, -, hworkers, -⟩ := hnotice.unchanged
  cases k with
  | main =>
      refine iff_of_true ?_ (by intro seq t b bs rest' hk; simp at hk)
      exact h.setStack s' hstack hworkers _ (by simp)
  | hiExecutor seq =>
      rw [delegates_iff_of_notice hstack hnotice]
      constructor
      · intro hconf hrun
        refine hconf (.run b) ?_ b rfl
        exact State.mem_workers_setStack_of_mem hstack hworkers
          (List.mem_append_left _ hrun)
      · intro hcalls
        apply h.setStack s' hstack hworkers
        intro _ g hg
        rcases hnotice.calls_eq with rfl | rfl
        · obtain rfl : g = .forBehindTask t bs := by simpa using hg
          simp [Frame.executing]
        · have hasync := hcalls (by simp)
          rcases List.mem_append.mp hg with hg | hg
          · obtain rfl : g = .run b := by simpa using hg
            simpa [Frame.executing] using hasync
          · obtain rfl : g = .forBehindTask t bs := by simpa using hg
            simp [Frame.executing]

theorem confined_iff {N : Countdown.Network τ} {a : Action} (hjobs : A.Jobs s)
    (hfollows : Follows N s) (h : A.Confined s)
    (hstep : A.step s a = some s') : A.Confined s' ↔ A.Delegates s a := by
  obtain ⟨-, ⟨k, f, rest, rfl, hstack, rfl⟩ | ⟨i, t, rfl, hget, rfl⟩ |
    ⟨i, t, rfl, -, -, rfl⟩⟩ := step_cases hstep
  · -- only a notification can violate the condition
    have hquiet : (∀ t b bs, f ≠ .forBehindTask t (b :: bs)) →
        A.Delegates s (.thread k) := by
      intro hf seq t b bs rest' hk hstack'
      obtain rfl : k = .hiExecutor seq := by simpa using hk
      exact (hf t b bs (List.cons.inj (hstack.symm.trans hstack')).1).elim
    have hown : k ≠ .main → ∀ t ∈ f.executing, (A.decl t).isAsyncTask = true := by
      intro hk
      rcases State.stack_cases hstack with ⟨rfl, -⟩ | ⟨seq, rfl, hget⟩
      · simp at hk
      · exact h f (List.mem_flatten.mpr
          ⟨f :: rest, List.mem_of_getElem? hget, by simp⟩)
    cases hloop : f.isLoop with
    | true =>
        refine iff_of_true ?_ (hquiet ?_)
        · obtain ⟨rfl, -⟩ := hjobs.1.eq_main hstack hloop
          unfold Confined
          rw [(A.stepFrame_loop s rest hloop).2.2.2.2]
          exact h
        · rintro t b bs rfl
          simp [Frame.isLoop] at hloop
    | false =>
    cases f with
    | run t =>
        refine iff_of_true ?_ (hquiet (by simp))
        refine h.setStack (A.toRunning s t k) hstack rfl [.body t] ?_
        intro hk g hg
        obtain rfl : g = .body t := by simpa using hg
        exact hown hk
    | body t =>
        refine iff_of_true ?_ (hquiet (by simp))
        exact h.setStack (A.toFinish s t) hstack rfl [.notifyBehindTasks t]
          (by simp [Frame.executing])
    | notifyBehindTasks t =>
        refine iff_of_true ?_ (hquiet (by simp))
        exact h.setStack (s.sortBehindTasks t) hstack rfl
          [.forBehindTask t _] (by simp [Frame.executing])
    | forBehindTask t bs =>
        cases bs with
        | nil =>
            refine iff_of_true ?_ (hquiet (by simp))
            exact h.setStack (s.recycle t) hstack rfl [] (by simp)
        | cons b bs =>
            obtain ⟨s', calls, hnotice, hs'⟩ := hfollows.exists_notice (A := A) hstack
            rw [hs']
            exact confined_iff_of_notice h hstack hnotice
    | outerWhile | sleep | innerWhile | runWaitingTasks | runWaitingHead =>
        simp [Frame.isLoop] at hloop
  · refine iff_of_true ?_ (by intro seq t b bs rest' hk; simp at hk)
    intro f hf
    rw [List.flatten_append, List.mem_append] at hf
    rcases hf with hf | hf
    · exact h f hf
    · obtain rfl : f = .run t := by simpa using hf
      have hasync := hjobs.2 t (List.mem_of_getElem? hget)
      simpa [Frame.executing] using hasync
  · exact iff_of_true h (by intro seq t b bs rest' hk; simp at hk)

end Arena

section

variable [DecidableEq τ] [Fintype τ] (A : Arena τ) {h : Heap τ}
  {ids : List String} {info : Registry τ} {task : τ} {s₀ s : State τ}
  {as : List Action}

theorem jobs_startFlow (hh : Built A h)
    (hstart : A.startFlow h ids info task = .ok s₀) :
    A.Jobs s₀ ∧ A.Confined s₀ := by
  refine ⟨⟨stacks_startFlow A hh hstart, ?_⟩, ?_⟩
  · obtain ⟨h', info', s', calls, -, htask, rfl⟩ := A.startFlow_cases hh hstart
    obtain ⟨-, hroute⟩ := Arena.route_of_taskStart htask
    cases hroute with
    | executor hasync =>
        intro t ht
        obtain rfl : t = A.startOf task := by
          simpa [State.toStart, State.emit, State.setState] using ht
        exact hasync
    | handler | direct => simp [State.toStart, State.emit, State.setState]
    | waiting => simp [State.addWaitingTask, State.toStart, State.emit, State.setState]
  · obtain ⟨h', info', s', calls, -, htask, rfl⟩ := A.startFlow_cases hh hstart
    obtain ⟨-, hroute⟩ := Arena.route_of_taskStart htask
    obtain ⟨-, -, hworkers, -⟩ := hroute.unchanged
    intro f hf
    simp [hworkers, State.toStart, State.emit, State.setState] at hf

/-- Along every run, synchronous tasks are executed on the main thread only, if
and only if every synchronous task whose last dependency finishes on an
executor thread is due to be posted or has to wait. -/
theorem confined_iff_delegates (hh : Built A h)
    (hstart : A.startFlow h ids info task = .ok s₀)
    (hrun : run A.step s₀ as = some s) :
    StatesMeet A.step A.Confined s₀ as ↔ StepsMeet A.step A.Delegates s₀ as := by
  obtain ⟨N, -, -, -, hfollows⟩ := A.exists_network hh hstart
  obtain ⟨hjobs, hconfined⟩ := jobs_startFlow A hh hstart
  refine statesMeet_iff_stepsMeet (I := fun u ↦ A.Jobs u ∧ Follows N u)
    ?_ ?_ ⟨hjobs, hfollows [] s₀ rfl⟩ hconfined stepsMeet_true hrun
  · rintro u a v ⟨hu, hNu⟩ - - - hstep
    exact ⟨Arena.jobs_step hu hstep, hNu.step hstep⟩
  · rintro u a v ⟨hu, hNu⟩ hconf - hstep
    exact Arena.confined_iff hu hNu hconf hstep

end

/-- The asynchronous start task `a`, and `b` and `c` on the main thread. -/
def asyncStart : Arena (Fin 3) :=
  .plain (fun t ↦ if t = 0 then "a" else if t = 1 then "b" else "c")
    (fun t ↦ decide (t = 0))

def asyncChain : Heap (Fin 3) :=
  [Call.behind 0 1, .behind 1 2].foldl asyncStart.perform (Heap.fresh fun _ ↦ 0)

theorem built_asyncChain : Built asyncStart asyncChain :=
  built_foldl asyncStart (.fresh _) _

theorem confined_iff_delegates_asyncChain :
    ∃ s₀ s, asyncStart.startFlow asyncChain [] (fun _ ↦ none) 0 = .ok s₀ ∧
      run asyncStart.step s₀ [.takeJob 0, .thread (.hiExecutor 0)] = some s ∧
      (StatesMeet asyncStart.step asyncStart.Confined s₀
          [.takeJob 0, .thread (.hiExecutor 0)] ↔
        StepsMeet asyncStart.step asyncStart.Delegates s₀
          [.takeJob 0, .thread (.hiExecutor 0)]) := by
  refine ⟨_, _, rfl, rfl, ?_⟩
  exact @confined_iff_delegates (Fin 3) _ _ asyncStart asyncChain []
    (fun _ ↦ none) 0 _ _ [.takeJob 0, .thread (.hiExecutor 0)] built_asyncChain
    rfl rfl

/-- `a` finishes on an executor thread and is the last dependency of `b`, which
is not asynchronous: the body of `b` is executed on the thread of `a`. -/
theorem body_on_executor_thread :
    Built asyncStart asyncChain ∧ (asyncStart.decl 1).isAsyncTask = false ∧
    ∃ s₀ s, asyncStart.startFlow asyncChain [] (fun _ ↦ none) 0 = .ok s₀ ∧
      run asyncStart.step s₀
        (.takeJob 0 :: List.replicate 5 (.thread (.hiExecutor 0))) = some s ∧
      .body 1 ∈ s.stack (.hiExecutor 0) :=
  ⟨built_asyncChain, rfl, _, _, rfl, rfl, by decide⟩

end HiApp.TaskFlow
