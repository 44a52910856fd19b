import Mathlib.Data.List.Sort
import HiApp.TaskFlow.Runtime

/-!
# The running task flow

A run of `TaskFlowManager.start` together with the executor threads and the
main looper.  Every thread has a call stack of frames; a step executes the top
frame up to the next point where another thread may come in between.  The
points are: a state change of a task together with the bookkeeping of
`toRunning` or `toFinish`, one notification (`dependTaskFinished`, with the
`start` it may lead to and the choice `executeTask` makes), one test of a
`while` or `if` of the wait loop.

A synchronous task that `executeTask` runs at once is a new frame on the stack
of the thread that notified it.  Jobs of `HiExecutor` and messages of
`MainHandler` are taken in any order; the main looper can dispatch only after
`start` has returned.
-/

namespace HiApp.TaskFlow

/-- The control points of a call stack.  `run` is a call of `Task.run`, `body`
is inside `run(id)`, `forBehindTask` is the loop of `notifyBehindTasks` with
the tasks still to be notified.  The other five are the tests of
`TaskFlowManager.start` and of `runWaitingTasks`, whose second test is
`runWaitingHead`. -/
inductive Frame (τ : Type*) where
  | run (task : τ)
  | body (task : τ)
  | notifyBehindTasks (task : τ)
  | forBehindTask (task : τ) (rest : List τ)
  | outerWhile
  | sleep
  | innerWhile
  | runWaitingTasks
  | runWaitingHead
  deriving DecidableEq

/-- What listeners are told, and what happens to the waiting queue. -/
inductive Event (τ : Type*) where
  | onStart (task : τ)
  | onRunning (task : τ) (thread : Thread)
  | onFinished (task : τ)
  | addWaiting (task : τ)
  | runWaiting (task : τ)
  | postWaiting (task : τ)
  deriving DecidableEq

/-- `executor` and `handler` hold the tasks handed to `HiExecutor` and to
`MainHandler` that no thread has taken up yet. -/
structure State (τ : Type*) where
  heap : Heap τ
  blockTaskId : List String
  waitingTasks : List τ := []
  taskRuntimeInfo : Registry τ
  executor : List τ := []
  handler : List τ := []
  main : List (Frame τ) := []
  workers : List (List (Frame τ)) := []
  thrown : Option (Thread × TaskError) := none
  trace : List (Event τ) := []

variable {τ : Type*}

namespace State

def hasBlockTasks (s : State τ) : Bool := !s.blockTaskId.isEmpty

def stack (s : State τ) : Thread → List (Frame τ)
  | .main => s.main
  | .hiExecutor seq => s.workers.getD seq []

def setStack (s : State τ) (k : Thread) (frames : List (Frame τ)) : State τ :=
  match k with
  | .main => { s with main := frames }
  | .hiExecutor seq => { s with workers := s.workers.set seq frames }

@[simp] theorem setStack_heap (s : State τ) (k : Thread)
    (fs : List (Frame τ)) : (s.setStack k fs).heap = s.heap := by
  cases k <;> rfl

@[simp] theorem setStack_trace (s : State τ) (k : Thread)
    (fs : List (Frame τ)) : (s.setStack k fs).trace = s.trace := by
  cases k <;> rfl

@[simp] theorem setStack_thrown (s : State τ) (k : Thread)
    (fs : List (Frame τ)) : (s.setStack k fs).thrown = s.thrown := by
  cases k <;> rfl

@[simp] theorem setStack_executor (s : State τ) (k : Thread)
    (fs : List (Frame τ)) : (s.setStack k fs).executor = s.executor := by
  cases k <;> rfl

@[simp] theorem setStack_handler (s : State τ) (k : Thread)
    (fs : List (Frame τ)) : (s.setStack k fs).handler = s.handler := by
  cases k <;> rfl

@[simp] theorem setStack_waitingTasks (s : State τ) (k : Thread)
    (fs : List (Frame τ)) :
    (s.setStack k fs).waitingTasks = s.waitingTasks := by
  cases k <;> rfl

@[simp] theorem setStack_blockTaskId (s : State τ) (k : Thread)
    (fs : List (Frame τ)) : (s.setStack k fs).blockTaskId = s.blockTaskId := by
  cases k <;> rfl

@[simp] theorem setStack_taskRuntimeInfo (s : State τ) (k : Thread)
    (fs : List (Frame τ)) :
    (s.setStack k fs).taskRuntimeInfo = s.taskRuntimeInfo := by
  cases k <;> rfl

theorem stack_cases {s : State τ} {k : Thread} {f : Frame τ}
    {rest : List (Frame τ)} (hstack : s.stack k = f :: rest) :
    (k = .main ∧ s.main = f :: rest) ∨
      ∃ seq, k = .hiExecutor seq ∧ s.workers[seq]? = some (f :: rest) := by
  cases k with
  | main => exact .inl ⟨rfl, hstack⟩
  | hiExecutor seq =>
      refine .inr ⟨seq, rfl, ?_⟩
      have hstack' : s.workers.getD seq [] = f :: rest := hstack
      rw [List.getD_eq_getElem?_getD] at hstack'
      cases hw : s.workers[seq]? with
      | none => simp [hw] at hstack'
      | some fs => simpa [hw] using hstack'

theorem mem_workers_of_stack {s : State τ} {k : Thread} {f : Frame τ}
    {rest : List (Frame τ)} (hstack : s.stack k = f :: rest) (hk : k ≠ .main) :
    f ∈ s.workers.flatten := by
  rcases stack_cases hstack with ⟨hmain, -⟩ | ⟨seq, -, hget⟩
  · exact (hk hmain).elim
  · exact List.mem_flatten.mpr ⟨f :: rest, List.mem_of_getElem? hget, by simp⟩

theorem mem_workers_setStack {s s' : State τ} {k : Thread} {f g : Frame τ}
    {rest new : List (Frame τ)} (hstack : s.stack k = f :: rest)
    (hworkers : s'.workers = s.workers)
    (hg : g ∈ (s'.setStack k (new ++ rest)).workers.flatten) :
    (k ≠ .main ∧ g ∈ new) ∨ g ∈ s.workers.flatten := by
  rcases stack_cases hstack with ⟨rfl, -⟩ | ⟨seq, rfl, hget⟩
  · exact .inr (hworkers ▸ hg)
  · obtain ⟨fs, hfs, hg⟩ := List.mem_flatten.mp hg
    rw [setStack, hworkers] at hfs
    rcases List.mem_or_eq_of_mem_set hfs with hfs | rfl
    · exact .inr (List.mem_flatten.mpr ⟨fs, hfs, hg⟩)
    · rcases List.mem_append.mp hg with hg | hg
      · exact .inl ⟨by simp, hg⟩
      · exact .inr (List.mem_flatten.mpr ⟨_, List.mem_of_getElem? hget,
          List.mem_cons_of_mem _ hg⟩)

theorem mem_workers_setStack_of_mem {s s' : State τ} {seq : ℕ} {f g : Frame τ}
    {rest new : List (Frame τ)}
    (hstack : s.stack (.hiExecutor seq) = f :: rest)
    (hworkers : s'.workers = s.workers) (hg : g ∈ new) :
    g ∈ (s'.setStack (.hiExecutor seq) (new ++ rest)).workers.flatten := by
  rcases stack_cases hstack with ⟨hk, -⟩ | ⟨seq', hseq, hget⟩
  · simp at hk
  · obtain rfl : seq = seq' := by simpa using hseq
    obtain ⟨hlt, -⟩ := List.getElem?_eq_some_iff.mp hget
    refine List.mem_flatten.mpr ⟨new ++ rest, ?_, List.mem_append_left _ hg⟩
    rw [setStack, hworkers]
    exact List.mem_set hlt _

def emit (s : State τ) (e : Event τ) : State τ :=
  { s with trace := s.trace ++ [e] }

variable [DecidableEq τ]

def setState (s : State τ) (t : τ) (state : TaskState) : State τ :=
  { s with heap := s.heap.modify t fun v ↦ { v with state := state } }

section

variable (s : State τ) (t u : τ) (state : TaskState)

@[simp] theorem setState_state : ((s.setState t state).heap u).state =
    if u = t then state else (s.heap u).state := by
  simp only [setState, Heap.modify_apply]
  split <;> rfl

variable {s t u state} in
theorem idle_of_setState (hne : state ≠ .idle)
    (hu : ((s.setState t state).heap u).state = .idle) :
    (s.heap u).state = .idle := by
  rw [setState_state] at hu
  split at hu
  · exact (hne hu).elim
  · exact hu

@[simp] theorem setState_dependTasks :
    ((s.setState t state).heap u).dependTasks = (s.heap u).dependTasks := by
  simp only [setState, Heap.modify_apply]
  split <;> rfl

@[simp] theorem setState_behindTasks :
    ((s.setState t state).heap u).behindTasks = (s.heap u).behindTasks := by
  simp only [setState, Heap.modify_apply]
  split <;> rfl

end

/-- An exception leaves the bottom of the stack of thread `k`. -/
def throw (s : State τ) (k : Thread) (e : TaskError) : State τ :=
  { s with thrown := some (k, e) }

def toStart (s : State τ) (t : τ) : State τ :=
  (s.setState t .start).emit (.onStart t)

def addWaitingTask (s : State τ) (t : τ) : State τ :=
  if t ∈ s.waitingTasks then s
  else { s with waitingTasks := s.waitingTasks ++ [t] }.emit (.addWaiting t)

def recycle (s : State τ) (t : τ) : State τ :=
  { s with
    heap := s.heap.modify t fun v ↦
      { v with dependTasks := [], behindTasks := [] } }

/-- `Collections.sort(tasks, taskComparator)`: a stable sort, higher priority
first. -/
def sortTasks (s : State τ) (tasks : List τ) : List τ :=
  tasks.insertionSort fun a b ↦ (s.heap b).priority ≤ (s.heap a).priority

def sortBehindTasks (s : State τ) (t : τ) : State τ :=
  { s with
    heap := s.heap.modify t fun v ↦
      { v with behindTasks := s.sortTasks v.behindTasks } }

omit [DecidableEq τ] in
theorem sortTasks_perm (s : State τ) (tasks : List τ) :
    (s.sortTasks tasks).Perm tasks :=
  List.perm_insertionSort _ _

section

variable (s : State τ) (t u : τ)

@[simp] theorem recycle_state :
    ((s.recycle t).heap u).state = (s.heap u).state := by
  simp only [recycle, Heap.modify_apply]
  split <;> rfl

@[simp] theorem recycle_dependTasks : ((s.recycle t).heap u).dependTasks =
    if u = t then [] else (s.heap u).dependTasks := by
  simp only [recycle, Heap.modify_apply]
  split <;> rfl

@[simp] theorem recycle_behindTasks : ((s.recycle t).heap u).behindTasks =
    if u = t then [] else (s.heap u).behindTasks := by
  simp only [recycle, Heap.modify_apply]
  split <;> rfl

@[simp] theorem sortBehindTasks_state :
    ((s.sortBehindTasks t).heap u).state = (s.heap u).state := by
  simp only [sortBehindTasks, Heap.modify_apply]
  split <;> rfl

@[simp] theorem sortBehindTasks_dependTasks :
    ((s.sortBehindTasks t).heap u).dependTasks = (s.heap u).dependTasks := by
  simp only [sortBehindTasks, Heap.modify_apply]
  split <;> rfl

@[simp] theorem sortBehindTasks_behindTasks :
    ((s.sortBehindTasks t).heap u).behindTasks =
      if u = t then s.sortTasks (s.heap u).behindTasks
      else (s.heap u).behindTasks := by
  simp only [sortBehindTasks, Heap.modify_apply]
  split <;> rfl

end

end State

namespace Arena

variable [DecidableEq τ] (A : Arena τ)

/-- `toRunning`, with `setThreadName`. -/
def toRunning (s : State τ) (t : τ) (k : Thread) : State τ :=
  let id := (A.decl t).id
  let info := Function.update s.taskRuntimeInfo id
    ((s.taskRuntimeInfo id).map fun i ↦ { i with threadName := some k })
  { s.setState t .running with taskRuntimeInfo := info }.emit (.onRunning t k)

/-- `toFinish`, with `removeBlockTask`. -/
def toFinish (s : State τ) (t : τ) : State τ :=
  let ids := s.blockTaskId.erase (A.decl t).id
  { s.setState t .finished with blockTaskId := ids }.emit (.onFinished t)

def isBlockTask (s : State τ) (t : τ) : Bool :=
  match s.taskRuntimeInfo (A.decl t).id with
  | some i => i.isBlockTask
  | none => false

/-- The last `if` of `executeTask`: run at once on this thread, or wait. -/
def runOrWait (s : State τ) (t : τ) : State τ × List (Frame τ) :=
  if !s.hasBlockTasks || A.isBlockTask s t then (s, [.run t])
  else (s.addWaitingTask t, [])

variable [Fintype τ]

/-- `TaskRuntime.executeTask`: the new state and the calls that follow on the
thread that executes it. -/
def executeTask (s : State τ) (t : τ) :
    Except TaskError (State τ × List (Frame τ)) :=
  if (A.decl t).isAsyncTask then
    .ok ({ s with executor := s.executor ++ [t] }, [])
  else if 0 < (A.decl t).delayMills then
    match A.hasBlockBehindTask s.heap s.taskRuntimeInfo (Fintype.card τ) t with
    | none => .error .stackOverflow
    | some false => .ok ({ s with handler := s.handler ++ [t] }, [])
    | some true => .ok (A.runOrWait s t)
  else .ok (A.runOrWait s t)

def taskStart (s : State τ) (t : τ) :
    Except TaskError (State τ × List (Frame τ)) :=
  if (s.heap t).state ≠ .idle then .error (.again (A.decl t).id)
  else A.executeTask (s.toStart t) t

/-- `Task.dependTaskFinished`.  The early return looks at the successors of
`this`, not at its dependencies. -/
def dependTaskFinished (s : State τ) (this dependTask : τ) :
    Except TaskError (State τ × List (Frame τ)) :=
  if (s.heap this).behindTasks = [] then .ok (s, [])
  else
    let s₁ := { s with heap := s.heap.removeDepend this dependTask }
    if (s₁.heap this).dependTasks = [] then A.taskStart s₁ this
    else .ok (s₁, [])

/-- Execute the top frame `f` of thread `k`, with `rest` below it. -/
def stepFrame (s : State τ) (k : Thread) (f : Frame τ)
    (rest : List (Frame τ)) : State τ :=
  match f with
  | .run t => (A.toRunning s t k).setStack k (.body t :: rest)
  | .body t => (A.toFinish s t).setStack k (.notifyBehindTasks t :: rest)
  | .notifyBehindTasks t =>
      (s.sortBehindTasks t).setStack k
        (.forBehindTask t (s.sortTasks (s.heap t).behindTasks) :: rest)
  | .forBehindTask t [] => (s.recycle t).setStack k rest
  | .forBehindTask t (b :: bs) =>
      match A.dependTaskFinished s b t with
      | .ok (s', calls) =>
          s'.setStack k (calls ++ .forBehindTask t bs :: rest)
      | .error e => s.throw k e
  | .outerWhile =>
      s.setStack k (if s.hasBlockTasks then .sleep :: rest else rest)
  | .sleep => s.setStack k (.innerWhile :: rest)
  | .innerWhile =>
      s.setStack k
        (if s.hasBlockTasks then .runWaitingTasks :: .innerWhile :: rest
        else .outerWhile :: rest)
  | .runWaitingTasks =>
      if s.hasBlockTasks then
        { s with waitingTasks := s.sortTasks s.waitingTasks }.setStack k
          (.runWaitingHead :: rest)
      else s.setStack k rest
  | .runWaitingHead =>
      if s.hasBlockTasks then
        match s.waitingTasks with
        | [] => s.throw k .indexOutOfBounds
        | head :: tail =>
            ({ s with waitingTasks := tail }.emit (.runWaiting head)).setStack k
              (.run head :: rest)
      else
        { s with
          handler := s.handler ++ s.waitingTasks
          waitingTasks := []
          trace := s.trace ++ s.waitingTasks.map Event.postWaiting }.setStack k rest

end Arena

/-- What may happen next: a thread goes on, an executor thread takes a job, or
the main looper dispatches a message. -/
inductive Action where
  | thread (k : Thread)
  | takeJob (i : ℕ)
  | dispatch (i : ℕ)
  deriving DecidableEq

namespace Arena

variable [DecidableEq τ] [Fintype τ] (A : Arena τ)

def step (s : State τ) (a : Action) : Option (State τ) :=
  if s.thrown.isSome then none
  else
    match a with
    | .thread k =>
        match s.stack k with
        | [] => none
        | f :: rest => some (A.stepFrame s k f rest)
    | .takeJob i =>
        match s.executor[i]? with
        | none => none
        | some t => some { s with
            executor := s.executor.eraseIdx i
            workers := s.workers ++ [[.run t]] }
    | .dispatch i =>
        match s.main, s.handler[i]? with
        | [], some t => some { s with
            handler := s.handler.eraseIdx i
            main := [.run t] }
        | _, _ => none

/-- `TaskFlowManager.start` up to the wait loop: nothing else is active yet, so
the checks and the `start` of the start task happen without interleaving.  The
result is an error when the checks throw. -/
def startFlow (h : Heap τ) (blockTaskId : List String) (info : Registry τ)
    (task : τ) : Except TaskError (State τ) :=
  match A.traversalDependencyTreeAndInit h blockTaskId info (A.startOf task) with
  | (_, some e) => .error e
  | ((h, info), none) =>
      let s : State τ :=
        { heap := h, blockTaskId := blockTaskId, taskRuntimeInfo := info }
      match A.taskStart s (A.startOf task) with
      | .ok (s', calls) => .ok { s' with main := calls ++ [.outerWhile] }
      | .error e => .ok (s.throw .main e)

end Arena

/-! ## What a notification can do -/

section

variable [DecidableEq τ] [Fintype τ] (A : Arena τ)

/-- `executeTask` posts a synchronous task with its delay. -/
def Arena.Posted (h : Heap τ) (info : Registry τ) (t : τ) : Prop :=
  0 < (A.decl t).delayMills ∧
    A.hasBlockBehindTask h info (Fintype.card τ) t = some false

omit [DecidableEq τ] in
theorem Arena.posted_congr {h h' : Heap τ} {info info' : Registry τ} {t : τ}
    (hbehinds : ∀ u, Relation.ReflTransGen h.Edge t u →
      (h' u).behindTasks = (h u).behindTasks)
    (hinfo : ∀ id, (info' id).map TaskRuntimeInfo.isBlockTask =
      (info id).map TaskRuntimeInfo.isBlockTask) :
    A.Posted h' info' t ↔ A.Posted h info t := by
  unfold Posted
  rw [A.hasBlockBehindTask_congr hbehinds hinfo]

/-- The four ways of `executeTask`. -/
inductive Route (s : State τ) (t : τ) : State τ → List (Frame τ) → Prop
  | executor (hasync : (A.decl t).isAsyncTask = true) :
      Route s t { s with executor := s.executor ++ [t] } []
  | handler (hsync : (A.decl t).isAsyncTask = false)
      (hpost : A.Posted s.heap s.taskRuntimeInfo t) :
      Route s t { s with handler := s.handler ++ [t] } []
  | direct (hsync : (A.decl t).isAsyncTask = false)
      (hpost : ¬ A.Posted s.heap s.taskRuntimeInfo t)
      (hnow : s.blockTaskId = [] ∨ A.isBlockTask s t = true) :
      Route s t s [.run t]
  | waiting (hsync : (A.decl t).isAsyncTask = false)
      (hpost : ¬ A.Posted s.heap s.taskRuntimeInfo t)
      (hblock : s.blockTaskId ≠ []) (hother : A.isBlockTask s t = false) :
      Route s t (s.addWaitingTask t) []

/-- The three outcomes of `dependTaskFinished`. -/
inductive Notice (s : State τ) (this dependTask : τ) :
    State τ → List (Frame τ) → Prop
  | ignored (hsink : (s.heap this).behindTasks = []) :
      Notice s this dependTask s []
  | crossed (hbehind : (s.heap this).behindTasks ≠ [])
      (hmore : (s.heap this).dependTasks.erase dependTask ≠ []) :
      Notice s this dependTask
        { s with heap := s.heap.removeDepend this dependTask } []
  | started {s' : State τ} {calls : List (Frame τ)}
      (hbehind : (s.heap this).behindTasks ≠ [])
      (hlast : (s.heap this).dependTasks.erase dependTask = [])
      (hidle : (s.heap this).state = .idle)
      (hroute : Route A ({ s with
        heap := s.heap.removeDepend this dependTask }.toStart this) this
        s' calls) :
      Notice s this dependTask s' calls

namespace Arena

variable {A} {s s' : State τ} {t this dependTask : τ} {calls : List (Frame τ)}

theorem route_of_executeTask (h : A.executeTask s t = .ok (s', calls)) :
    Route A s t s' calls := by
  have hlast : (A.decl t).isAsyncTask = false →
      ¬ A.Posted s.heap s.taskRuntimeInfo t →
      A.runOrWait s t = (s', calls) → Route A s t s' calls := by
    intro hsync hpost hrun
    unfold runOrWait at hrun
    split at hrun
    · rename_i hnow
      obtain ⟨rfl, rfl⟩ := Prod.mk.inj hrun
      exact .direct hsync hpost (by simpa [State.hasBlockTasks] using hnow)
    · rename_i hwait
      obtain ⟨rfl, rfl⟩ := Prod.mk.inj hrun
      have hblock : s.blockTaskId ≠ [] ∧ A.isBlockTask s t = false := by
        simpa [State.hasBlockTasks] using hwait
      exact .waiting hsync hpost hblock.1 hblock.2
  unfold executeTask at h
  split at h
  · rename_i hasync
    obtain ⟨rfl, rfl⟩ := Prod.mk.inj (Except.ok.inj h)
    exact .executor hasync
  rename_i hsync
  have hsync : (A.decl t).isAsyncTask = false := by simpa using hsync
  split at h
  · rename_i hdelay
    split at h
    · simp at h
    · rename_i hlook
      obtain ⟨rfl, rfl⟩ := Prod.mk.inj (Except.ok.inj h)
      exact .handler hsync ⟨hdelay, hlook⟩
    · rename_i hlook
      exact hlast hsync (by simp [Posted, hlook]) (Except.ok.inj h)
  · rename_i hdelay
    exact hlast hsync (fun hpost ↦ hdelay hpost.1) (Except.ok.inj h)

theorem route_of_taskStart (h : A.taskStart s t = .ok (s', calls)) :
    (s.heap t).state = .idle ∧ Route A (s.toStart t) t s' calls := by
  unfold taskStart at h
  split at h
  · simp at h
  · rename_i hidle
    exact ⟨by simpa using hidle, route_of_executeTask h⟩

theorem notice_of_dependTaskFinished
    (h : A.dependTaskFinished s this dependTask = .ok (s', calls)) :
    Notice A s this dependTask s' calls := by
  unfold dependTaskFinished at h
  split at h
  · rename_i hsink
    obtain ⟨rfl, rfl⟩ := Prod.mk.inj (Except.ok.inj h)
    exact .ignored hsink
  rename_i hbehind
  simp only [Heap.removeDepend_dependTasks, if_true] at h
  split at h
  · rename_i hlast
    obtain ⟨hidle, hroute⟩ := route_of_taskStart h
    exact .started hbehind hlast (by simpa using hidle) hroute
  · rename_i hmore
    obtain ⟨rfl, rfl⟩ := Prod.mk.inj (Except.ok.inj h)
    exact .crossed hbehind hmore

end Arena

section

variable {A : Arena τ} {s s' : State τ} {t this dependTask : τ}
  {calls : List (Frame τ)}

theorem Route.heap (h : Route A s t s' calls) : s'.heap = s.heap := by
  cases h with
  | executor | handler | direct => rfl
  | waiting =>
      unfold State.addWaitingTask
      split <;> rfl

theorem Route.unchanged (h : Route A s t s' calls) :
    s'.blockTaskId = s.blockTaskId ∧ s'.main = s.main ∧
      s'.workers = s.workers ∧ s'.taskRuntimeInfo = s.taskRuntimeInfo := by
  cases h with
  | executor | handler | direct => exact ⟨rfl, rfl, rfl, rfl⟩
  | waiting =>
      unfold State.addWaitingTask
      split <;> exact ⟨rfl, rfl, rfl, rfl⟩

theorem Route.thrown_eq (h : Route A s t s' calls) : s'.thrown = s.thrown := by
  cases h with
  | executor | handler | direct => rfl
  | waiting =>
      unfold State.addWaitingTask
      split <;> rfl

theorem Route.calls_eq (h : Route A s t s' calls) :
    calls = [] ∨ calls = [.run t] := by
  cases h <;> simp

theorem Route.waitingTasks_eq (h : Route A s t s' calls)
    (hids : s.blockTaskId = []) : s'.waitingTasks = s.waitingTasks := by
  cases h with
  | executor | handler | direct => rfl
  | waiting _ _ hblock _ => exact (hblock hids).elim

theorem Notice.unchanged (h : Notice A s this dependTask s' calls) :
    s'.blockTaskId = s.blockTaskId ∧ s'.main = s.main ∧
      s'.workers = s.workers ∧ s'.taskRuntimeInfo = s.taskRuntimeInfo := by
  cases h with
  | ignored | crossed => exact ⟨rfl, rfl, rfl, rfl⟩
  | started _ _ _ hroute => exact hroute.unchanged

theorem Notice.thrown_eq (h : Notice A s this dependTask s' calls) :
    s'.thrown = s.thrown := by
  cases h with
  | ignored | crossed => rfl
  | started _ _ _ hroute => exact hroute.thrown_eq

theorem Notice.calls_eq (h : Notice A s this dependTask s' calls) :
    calls = [] ∨ calls = [.run this] := by
  cases h with
  | ignored | crossed => exact .inl rfl
  | started _ _ _ hroute => exact hroute.calls_eq

theorem Notice.waitingTasks_eq (h : Notice A s this dependTask s' calls)
    (hids : s.blockTaskId = []) : s'.waitingTasks = s.waitingTasks := by
  cases h with
  | ignored | crossed => rfl
  | started _ _ _ hroute => exact hroute.waitingTasks_eq hids

theorem Notice.finished_iff (h : Notice A s this dependTask s' calls) (u : τ) :
    (s'.heap u).state = .finished ↔ (s.heap u).state = .finished := by
  cases h with
  | ignored => rfl
  | crossed => simp
  | started _ _ hidle hroute =>
      rw [hroute.heap]
      by_cases hthis : u = this
      · simp [State.toStart, State.emit, hthis, hidle]
      · simp [State.toStart, State.emit, hthis]

theorem Notice.behindTasks_eq (h : Notice A s this dependTask s' calls) (u : τ) :
    (s'.heap u).behindTasks = (s.heap u).behindTasks := by
  cases h with
  | ignored => rfl
  | crossed => simp
  | started _ _ _ hroute => simp [hroute.heap, State.toStart, State.emit]

end

/-! ## What a step can do -/

namespace Arena

variable {A} {s s' : State τ} {t b : τ} {k : Thread} {rest : List (Frame τ)}

theorem ne_indexOutOfBounds_of_dependTaskFinished {e : TaskError}
    (h : A.dependTaskFinished s b t = .error e) : e ≠ .indexOutOfBounds := by
  rintro rfl
  simp only [dependTaskFinished, taskStart, executeTask] at h
  repeat' split at h
  all_goals simp at h

variable (A s k t b rest) in
theorem stepFrame_notify (bs : List τ) :
    (∃ e, e ≠ .indexOutOfBounds ∧
      A.stepFrame s k (.forBehindTask t (b :: bs)) rest = s.throw k e) ∨
    ∃ s' calls, Notice A s b t s' calls ∧
      A.stepFrame s k (.forBehindTask t (b :: bs)) rest =
        s'.setStack k ((calls ++ [.forBehindTask t bs]) ++ rest) := by
  cases hnotice : A.dependTaskFinished s b t with
  | error e =>
      left
      refine ⟨e, ne_indexOutOfBounds_of_dependTaskFinished hnotice, ?_⟩
      simp [stepFrame, hnotice]
  | ok result =>
      right
      obtain ⟨s', calls⟩ := result
      refine ⟨s', calls, notice_of_dependTaskFinished hnotice, ?_⟩
      simp [stepFrame, hnotice]

theorem step_cases {a : Action} (hstep : A.step s a = some s') :
    s.thrown = none ∧
      ((∃ k f rest, a = .thread k ∧ s.stack k = f :: rest ∧
        s' = A.stepFrame s k f rest) ∨
      (∃ i t, a = .takeJob i ∧ s.executor[i]? = some t ∧
        s' = { s with
          executor := s.executor.eraseIdx i
          workers := s.workers ++ [[.run t]] }) ∨
      ∃ i t, a = .dispatch i ∧ s.main = [] ∧ s.handler[i]? = some t ∧
        s' = { s with handler := s.handler.eraseIdx i, main := [.run t] }) := by
  unfold step at hstep
  split at hstep
  · simp at hstep
  rename_i hthrown
  refine ⟨by simpa using hthrown, ?_⟩
  cases a with
  | thread k =>
      simp only at hstep
      split at hstep
      · simp at hstep
      · rename_i f rest hstack
        exact .inl ⟨k, f, rest, rfl, hstack, (Option.some.inj hstep).symm⟩
  | takeJob i =>
      simp only at hstep
      split at hstep
      · simp at hstep
      · rename_i t hget
        exact .inr (.inl ⟨i, t, rfl, hget, (Option.some.inj hstep).symm⟩)
  | dispatch i =>
      simp only at hstep
      split at hstep
      · rename_i t hmain hget
        exact .inr (.inr ⟨i, t, rfl, hmain, hget, (Option.some.inj hstep).symm⟩)
      · simp at hstep

end Arena

end

end HiApp.TaskFlow
