import HiApp.Executor.Pause
import HiApp.Lib.ThreadPool
import Mathlib.Data.Int.Notation

/-!
# The executor

A thread pool over a priority queue.  Every task is held in `beforeExecute` while the
executor is paused, and a thread that has been let through begins its task at once.
-/

namespace HiApp.Executor.HiExecutor

open Runs

structure PriorityRunnable (ρ : Type*) where
  priority : ℤ
  runnable : ρ
  deriving DecidableEq, Repr

namespace PriorityRunnable

variable {ρ : Type*}

def compareTo (self other : PriorityRunnable ρ) : ℤ :=
  if self.priority < other.priority then 1 else if self.priority > other.priority then -1 else 0

/-- The queue's order: its head compares with no other as greater. -/
def Before (self other : PriorityRunnable ρ) : Prop := self.compareTo other ≤ 0

instance : DecidableRel (Before (ρ := ρ)) :=
  fun self other ↦ inferInstanceAs (Decidable (self.compareTo other ≤ 0))

theorem before_iff {self other : PriorityRunnable ρ} :
    self.Before other ↔ other.priority ≤ self.priority := by
  unfold Before compareTo
  split
  · omega
  · split
    · omega
    · omega

end PriorityRunnable

/-- The executor: its pool, and where every thread is in `beforeExecute`. -/
structure State (ρ : Type*) where
  pool : ThreadPool.Pool (PriorityRunnable ρ) := {}
  gate : Pause.State ℕ := {}

/-- A call of `execute`, `pause` or `resume`, or a step of thread `w`: it takes a task,
goes through `beforeExecute`, or completes its task. -/
inductive Action (ρ : Type*) where
  | execute (task : PriorityRunnable ρ)
  | take (w : ℕ) (task : PriorityRunnable ρ)
  | read (w : ℕ)
  | await (w : ℕ)
  | wake (w : ℕ)
  | spurious (w : ℕ)
  | finish (w : ℕ)
  | pause
  | resume
  deriving DecidableEq

namespace State

variable {ρ : Type*}

/-- The thread leaves `beforeExecute` and runs its task. -/
def leave (s : State ρ) (w : ℕ) (gate : Pause.State ℕ) : Option (State ρ) :=
  (s.pool.start w).map fun pool ↦ { pool, gate }

def withGate (s : State ρ) (gate : Pause.State ℕ) : State ρ := { s with gate }

end State

section

variable {ρ : Type*} [DecidableEq ρ]

def step (corePoolSize : ℕ) (s : State ρ) : Action ρ → Option (State ρ)
  | .execute task => some { s with pool := s.pool.execute corePoolSize task }
  | .take w task =>
      (s.pool.take PriorityRunnable.Before w task).map fun pool ↦ { s with pool }
  | .read w =>
      if (s.pool.heldBy w).isNone then none
      else (Pause.step s.gate (.read w)).bind fun gate ↦
        if s.gate.isPaused then some (s.withGate gate) else s.leave w gate
  | .await w => (Pause.step s.gate (.await w)).map s.withGate
  | .wake w => (Pause.step s.gate (.wake w)).bind (s.leave w)
  | .spurious w => (Pause.step s.gate (.spurious w)).bind (s.leave w)
  | .finish w => (s.pool.finish w).map fun pool ↦ { s with pool }
  | .pause => some (s.withGate s.gate.pause)
  | .resume => some (s.withGate s.gate.resume)

end

namespace Action

variable {ρ : Type*}

def executed : Action ρ → Option (PriorityRunnable ρ)
  | .execute task => some task
  | _ => none

def taken : Action ρ → Option (PriorityRunnable ρ)
  | .take _ task => some task
  | _ => none

/-- Neither lets threads through that wait. -/
def KeepsWaiting : Action ρ → Prop
  | .resume => False
  | .spurious _ => False
  | _ => True

instance : DecidablePred (KeepsWaiting (ρ := ρ))
  | .resume => inferInstanceAs (Decidable False)
  | .spurious _ => inferInstanceAs (Decidable False)
  | .execute _ | .take _ _ | .read _ | .await _ | .wake _ | .finish _ | .pause =>
      inferInstanceAs (Decidable True)

/-- What the step is for the pool. -/
def onPool (s : State ρ) : Action ρ → List (ThreadPool.Action (PriorityRunnable ρ))
  | .execute task => [.execute task]
  | .take w task => [.take w task]
  | .read w => if s.gate.isPaused then [] else [.start w]
  | .wake w => [.start w]
  | .spurious w => [.start w]
  | .finish w => [.finish w]
  | .await _ => []
  | .pause => []
  | .resume => []

/-- What the step is for the gate. -/
def onGate : Action ρ → List (Pause.Action ℕ)
  | .read w => [.read w]
  | .await w => [.await w]
  | .wake w => [.wake w]
  | .spurious w => [.spurious w]
  | .pause => [.pause]
  | .resume => [.resume]
  | .execute _ => []
  | .take _ _ => []
  | .finish _ => []

end Action

variable {ρ : Type*} {corePoolSize : ℕ} {s s' t : State ρ} {action : Action ρ}
  {actions : List (Action ρ)} {task : PriorityRunnable ρ}

theorem State.leave_eq_some_iff {w : ℕ} {gate : Pause.State ℕ} :
    s.leave w gate = some s' ↔ ∃ pool, s.pool.start w = some pool ∧ { pool, gate } = s' := by
  rw [State.leave, Option.map_eq_some_iff]

variable [DecidableEq ρ]

/-! ### The executor is a pool behind a gate -/

theorem run_singleton {σ α : Type*} {f : σ → α → Option σ} {u v : σ} {a : α}
    (h : f u a = some v) : run f u [a] = some v := by
  rw [run, h, Option.bind_some, run_nil]

/-- A step of the executor is a step of the pool, or leaves it as it is. -/
theorem step_pool (hstep : step corePoolSize s action = some s') :
    run (ThreadPool.step PriorityRunnable.Before corePoolSize) s.pool (action.onPool s) =
      some s'.pool := by
  cases action with
  | execute task =>
      obtain rfl := Option.some.inj hstep
      exact run_singleton rfl
  | take w task =>
      obtain ⟨pool, hpool, rfl⟩ := Option.map_eq_some_iff.mp hstep
      exact run_singleton hpool
  | read w =>
      simp only [step, Option.ite_none_left_eq_some] at hstep
      obtain ⟨gate, hgate, hnext⟩ := Option.bind_eq_some_iff.mp hstep.2
      by_cases hpaused : s.gate.isPaused = true
      · rw [if_pos hpaused] at hnext
        obtain rfl := Option.some.inj hnext
        rw [Action.onPool, if_pos hpaused]
        rfl
      · rw [if_neg hpaused] at hnext
        obtain ⟨pool, hpool, rfl⟩ := State.leave_eq_some_iff.mp hnext
        rw [Action.onPool, if_neg hpaused]
        exact run_singleton hpool
  | await w =>
      obtain ⟨gate, -, rfl⟩ := Option.map_eq_some_iff.mp hstep
      rfl
  | wake w =>
      obtain ⟨gate, -, hnext⟩ := Option.bind_eq_some_iff.mp hstep
      obtain ⟨pool, hpool, rfl⟩ := State.leave_eq_some_iff.mp hnext
      exact run_singleton hpool
  | spurious w =>
      obtain ⟨gate, -, hnext⟩ := Option.bind_eq_some_iff.mp hstep
      obtain ⟨pool, hpool, rfl⟩ := State.leave_eq_some_iff.mp hnext
      exact run_singleton hpool
  | finish w =>
      obtain ⟨pool, hpool, rfl⟩ := Option.map_eq_some_iff.mp hstep
      exact run_singleton hpool
  | pause =>
      obtain rfl := Option.some.inj hstep
      rfl
  | resume =>
      obtain rfl := Option.some.inj hstep
      rfl

theorem step_gate (hstep : step corePoolSize s action = some s') :
    run Pause.step s.gate action.onGate = some s'.gate := by
  cases action with
  | execute task =>
      obtain rfl := Option.some.inj hstep
      rfl
  | take w task =>
      obtain ⟨pool, -, rfl⟩ := Option.map_eq_some_iff.mp hstep
      rfl
  | read w =>
      simp only [step, Option.ite_none_left_eq_some] at hstep
      obtain ⟨gate, hgate, hnext⟩ := Option.bind_eq_some_iff.mp hstep.2
      split at hnext
      · obtain rfl := Option.some.inj hnext
        exact run_singleton hgate
      · obtain ⟨pool, -, rfl⟩ := State.leave_eq_some_iff.mp hnext
        exact run_singleton hgate
  | await w =>
      obtain ⟨gate, hgate, rfl⟩ := Option.map_eq_some_iff.mp hstep
      exact run_singleton hgate
  | wake w =>
      obtain ⟨gate, hgate, hnext⟩ := Option.bind_eq_some_iff.mp hstep
      obtain ⟨pool, -, rfl⟩ := State.leave_eq_some_iff.mp hnext
      exact run_singleton hgate
  | spurious w =>
      obtain ⟨gate, hgate, hnext⟩ := Option.bind_eq_some_iff.mp hstep
      obtain ⟨pool, -, rfl⟩ := State.leave_eq_some_iff.mp hnext
      exact run_singleton hgate
  | finish w =>
      obtain ⟨pool, -, rfl⟩ := Option.map_eq_some_iff.mp hstep
      rfl
  | pause =>
      obtain rfl := Option.some.inj hstep
      exact run_singleton rfl
  | resume =>
      obtain rfl := Option.some.inj hstep
      exact run_singleton rfl

/-- To the threads that pause, a run of the executor is a run of its gate. -/
theorem run_gate (hrun : run (step corePoolSize) s actions = some t) :
    run Pause.step s.gate (actions.flatMap Action.onGate) = some t.gate := by
  induction actions generalizing s with
  | nil =>
      obtain rfl := Option.some.inj hrun
      rfl
  | cons action actions ih =>
      obtain ⟨u, hstep, hrest⟩ := Option.bind_eq_some_iff.mp hrun
      rw [List.flatMap_cons, run_append, step_gate hstep, Option.bind_some, ih hrest]

omit [DecidableEq ρ] in
theorem executed_onPool (s : State ρ) (action : Action ρ) :
    (action.onPool s).filterMap ThreadPool.Action.executed = action.executed.toList ∧
      (action.onPool s).filterMap ThreadPool.Action.taken = action.taken.toList := by
  cases action with
  | read w =>
      rw [Action.onPool]
      split
      · exact ⟨rfl, rfl⟩
      · exact ⟨rfl, rfl⟩
  | execute task => exact ⟨rfl, rfl⟩
  | take w task => exact ⟨rfl, rfl⟩
  | await w => exact ⟨rfl, rfl⟩
  | wake w => exact ⟨rfl, rfl⟩
  | spurious w => exact ⟨rfl, rfl⟩
  | finish w => exact ⟨rfl, rfl⟩
  | pause => exact ⟨rfl, rfl⟩
  | resume => exact ⟨rfl, rfl⟩

/-- A run of the executor is a run of the pool, with the same tasks submitted and taken. -/
theorem exists_pool_run (hrun : run (step corePoolSize) s actions = some t) :
    ∃ moves, run (ThreadPool.step PriorityRunnable.Before corePoolSize) s.pool moves =
        some t.pool ∧
      moves.filterMap ThreadPool.Action.executed = actions.filterMap Action.executed ∧
      moves.filterMap ThreadPool.Action.taken = actions.filterMap Action.taken := by
  induction actions generalizing s with
  | nil =>
      obtain rfl := Option.some.inj hrun
      exact ⟨[], rfl, rfl, rfl⟩
  | cons action actions ih =>
      obtain ⟨u, hstep, hrest⟩ := Option.bind_eq_some_iff.mp hrun
      obtain ⟨moves, hmoves, hexecuted, htaken⟩ := ih hrest
      obtain ⟨hexecuted', htaken'⟩ := executed_onPool s action
      refine ⟨action.onPool s ++ moves, ?_, ?_, ?_⟩
      · rw [run_append, step_pool hstep, Option.bind_some, hmoves]
      · rw [List.filterMap_append, hexecuted, hexecuted', ← List.singleton_append,
          List.filterMap_append]
        cases h : action.executed with
        | none => simp [h]
        | some task => simp [h]
      · rw [List.filterMap_append, htaken, htaken', ← List.singleton_append,
          List.filterMap_append]
        cases h : action.taken with
        | none => simp [h]
        | some task => simp [h]

/-- Every submitted task waits, is held, runs or is finished, just once, and has begun in the
last two cases only.  There are never more than the core threads, and all of these as soon as a
task waits. -/
theorem tasks_accounted (hrun : run (step corePoolSize) {} actions = some s) :
    (actions.filterMap Action.executed).Perm
        (s.pool.queue ++ s.pool.held ++ (s.pool.current ++ s.pool.finished)) ∧
      s.pool.begun.Perm (s.pool.current ++ s.pool.finished) ∧
      s.pool.workers.length ≤ corePoolSize ∧
      (s.pool.queue ≠ [] → s.pool.workers.length = corePoolSize) := by
  obtain ⟨moves, hmoves, hexecuted, -⟩ := exists_pool_run hrun
  have hplaced := ThreadPool.placed_run hmoves
  have haccounted := ThreadPool.accounted_run hmoves
  have hsized := ThreadPool.sized_run hmoves
  rw [hexecuted] at hplaced
  exact ⟨hplaced.trans (haccounted.append_left _), haccounted, hsized.length_le, hsized.full⟩

/-- One thread, and a task of a higher priority that comes after two others. -/
def submitRun : List (Action (Fin 3)) := [.execute ⟨1, 0⟩, .execute ⟨3, 1⟩, .execute ⟨5, 2⟩]

theorem tasks_accounted_submit :
    ∃ s, run (step 1) {} submitRun = some s ∧
      (submitRun.filterMap Action.executed).Perm
        (s.pool.queue ++ s.pool.held ++ (s.pool.current ++ s.pool.finished)) ∧
      s.pool.begun.Perm (s.pool.current ++ s.pool.finished) ∧
      s.pool.workers.length ≤ 1 ∧ (s.pool.queue ≠ [] → s.pool.workers.length = 1) :=
  ⟨_, rfl, @tasks_accounted (Fin 3) 1 _ submitRun _ rfl⟩

/-- Of the tasks with a lower priority than one that waits, only those that a thread already
holds can begin before it is taken, so no more than there are core threads. -/
theorem overtaken_at_most {front rest : List (Action ρ)}
    (hfront : run (step corePoolSize) {} front = some s) (hqueue : task ∈ s.pool.queue)
    (hrun : run (step corePoolSize) s rest = some t)
    (hwaits : task ∉ rest.filterMap Action.taken) :
    ∃ late, t.pool.begun = s.pool.begun ++ late ∧ task ∈ t.pool.queue ∧
      late.countP (fun other ↦ other.priority < task.priority) ≤
        s.pool.held.countP (fun other ↦ other.priority < task.priority) ∧
      late.countP (fun other ↦ other.priority < task.priority) ≤ corePoolSize := by
  obtain ⟨moves, hmoves, -, -⟩ := exists_pool_run hfront
  obtain ⟨rests, hrests, -, htaken⟩ := exists_pool_run hrun
  have hsized := ThreadPool.sized_run hmoves
  have hfull := hsized.full (List.ne_nil_of_mem hqueue)
  obtain ⟨late, hlate, hcount, hmem, -⟩ :=
    ThreadPool.exists_overtaking hfull hqueue hrests (htaken ▸ hwaits)
  simp only [PriorityRunnable.before_iff, Int.not_le] at hcount
  have hheld : late.countP (fun other ↦ other.priority < task.priority) ≤
      s.pool.held.countP (fun other ↦ other.priority < task.priority) :=
    Nat.le_trans (Nat.le_add_right _ _) hcount
  refine ⟨late, hlate, hmem, hheld, ?_⟩
  calc late.countP (fun other ↦ other.priority < task.priority)
      ≤ s.pool.held.countP (fun other ↦ other.priority < task.priority) := hheld
    _ ≤ s.pool.held.length := List.countP_le_length
    _ ≤ s.pool.workers.length := s.pool.length_held_le
    _ ≤ corePoolSize := hsized.length_le

theorem overtaken_at_most_submit :
    ∃ s, run (step 1) {} submitRun = some s ∧ ∃ t, run (step 1) s [.read 0] = some t ∧
      ∃ late, t.pool.begun = s.pool.begun ++ late ∧ ⟨5, 2⟩ ∈ t.pool.queue ∧
        late.countP (fun other ↦ other.priority < 5) ≤
          s.pool.held.countP (fun other ↦ other.priority < 5) ∧
        late.countP (fun other ↦ other.priority < 5) ≤ 1 :=
  ⟨_, rfl, _, rfl, @overtaken_at_most (Fin 3) 1 _ _ ⟨5, 2⟩ _ submitRun [.read 0] rfl
    (by decide) rfl (by decide)⟩

/-- Once nothing is submitted any more, tasks are taken by falling priority. -/
theorem taken_by_priority (hrun : run (step corePoolSize) s actions = some t)
    (hno : actions.filterMap Action.executed = []) :
    (actions.filterMap Action.taken).Pairwise fun task other ↦ other.priority ≤ task.priority := by
  obtain ⟨moves, hmoves, hexecuted, htaken⟩ := exists_pool_run hrun
  rw [hno, List.filterMap_eq_nil_iff] at hexecuted
  rw [← htaken]
  exact (ThreadPool.pairwise_taken hmoves hexecuted).1.imp PriorityRunnable.before_iff.mp

def drainRun : List (Action (Fin 3)) :=
  [.read 0, .finish 0, .take 0 ⟨5, 2⟩, .read 0, .finish 0, .take 0 ⟨3, 1⟩]

theorem taken_by_priority_drain :
    ∃ s, run (step 1) {} submitRun = some s ∧ ∃ t, run (step 1) s drainRun = some t ∧
      (drainRun.filterMap Action.taken).Pairwise
        fun task other ↦ other.priority ≤ task.priority := by
  have hsome : (run (step 1) {} (submitRun ++ drainRun)).isSome = true := by decide
  obtain ⟨t, hrun⟩ := Option.isSome_iff_exists.mp hsome
  rw [run_append] at hrun
  obtain ⟨s, hs, ht⟩ := Option.bind_eq_some_iff.mp hrun
  exact ⟨s, hs, t, ht, taken_by_priority ht rfl⟩

/-! ### While the executor is paused -/

/-- A thread is in `beforeExecute` only with a task. -/
def Anchored (s : State ρ) : Prop := ∀ w, s.gate.worker w ≠ .outside → s.pool.heldBy w ≠ none

/-- The task of a thread that was signalled and has not gone on. -/
def State.wokenAt (s : State ρ) (w : ℕ) : Option (PriorityRunnable ρ) :=
  if s.gate.worker w = .signalled then s.pool.heldBy w else none

def State.woken (s : State ρ) : List (PriorityRunnable ρ) :=
  (List.range s.pool.workers.length).filterMap s.wokenAt

omit [DecidableEq ρ] in
/-- The threads that there are not yet have no tasks. -/
theorem State.woken_eq {n : ℕ} (hn : s.pool.workers.length ≤ n) :
    s.woken = (List.range n).filterMap s.wokenAt := by
  obtain ⟨d, rfl⟩ := Nat.exists_eq_add_of_le hn
  rw [woken, List.range_add, List.filterMap_append]
  have hnone : ((List.range d).map (s.pool.workers.length + ·)).filterMap s.wokenAt = [] := by
    rw [List.filterMap_eq_nil_iff]
    intro w hw
    obtain ⟨i, -, rfl⟩ := List.mem_map.mp hw
    rw [wokenAt, ThreadPool.Pool.heldBy_of_le (Nat.le_add_right _ _), ite_self]
  rw [hnone, List.append_nil]

omit [DecidableEq ρ] in
theorem State.woken_congr (hlength : s.pool.workers.length ≤ s'.pool.workers.length)
    (hwoken : ∀ w, s'.wokenAt w = s.wokenAt w) : s'.woken = s.woken := by
  rw [State.woken_eq hlength, State.woken]
  exact List.filterMap_congr fun w _ ↦ hwoken w

/-- A list of the values at the places below `n`, with one of them taken out. -/
theorem perm_filterMap_range {α : Type*} {f g : ℕ → Option α} {n w : ℕ} {x : α} (hw : w < n)
    (hf : f w = some x) (hg : g w = none) (hfg : ∀ v, v ≠ w → g v = f v) :
    (x :: (List.range n).filterMap g).Perm ((List.range n).filterMap f) := by
  have hperm := List.perm_cons_erase (List.mem_range.mpr hw)
  have hrest : ((List.range n).erase w).filterMap g = ((List.range n).erase w).filterMap f :=
    List.filterMap_congr fun v hv ↦ hfg v ((List.nodup_range.mem_erase_iff).mp hv).1
  have hg' := hperm.filterMap g
  have hf' := hperm.filterMap f
  rw [List.filterMap_cons_none hg, hrest] at hg'
  rw [List.filterMap_cons_some hf] at hf'
  exact (hg'.cons x).trans hf'.symm

omit [DecidableEq ρ] in
theorem worker_goto (gate : Pause.State ℕ) (w : ℕ) (next : Pause.Worker) (v : ℕ) :
    (gate.goto w next).worker v = if v = w then next else gate.worker v :=
  Function.update_apply gate.worker w next v

omit [DecidableEq ρ] in
/-- A thread that goes on with its task has left `beforeExecute`. -/
theorem Anchored.of_start (hs : Anchored s) {w : ℕ} {gate : Pause.State ℕ}
    {pool : ThreadPool.Pool (PriorityRunnable ρ)} (hpool : s.pool.start w = some pool)
    (hw : gate.worker w = .outside) (hgate : ∀ v, v ≠ w → gate.worker v = s.gate.worker v) :
    Anchored { pool, gate } := by
  intro v hv
  obtain ⟨hmoves, -⟩ := ThreadPool.Pool.moves_start hpool
  have hne : v ≠ w := by
    rintro rfl
    exact hv hw
  rw [hmoves.held, if_neg hne]
  exact hs v (hgate v hne ▸ hv)

theorem Anchored.step (hs : Anchored s) (hstep : step corePoolSize s action = some s') :
    Anchored s' := by
  cases action with
  | execute task =>
      obtain rfl := Option.some.inj hstep
      intro v hv
      rw [ThreadPool.Pool.heldBy_execute]
      split
      · exact Option.some_ne_none task
      · exact hs v hv
  | take w task =>
      obtain ⟨pool, hpool, rfl⟩ := Option.map_eq_some_iff.mp hstep
      intro v hv
      rw [(ThreadPool.Pool.moves_take hpool).1.held]
      split
      · exact Option.some_ne_none task
      · exact hs v hv
  | read w =>
      simp only [step, Option.ite_none_left_eq_some] at hstep
      obtain ⟨hheld, hnext⟩ := hstep
      obtain ⟨gate, hgate, hnext⟩ := Option.bind_eq_some_iff.mp hnext
      obtain ⟨houtside, hgate⟩ := Option.ite_none_right_eq_some.mp hgate
      obtain rfl := Option.some.inj hgate
      by_cases hpaused : s.gate.isPaused = true
      · simp only [if_pos hpaused, Option.some.injEq] at hnext
        subst hnext
        intro v hv
        rw [State.withGate, worker_goto] at hv
        by_cases hvw : v = w
        · subst hvw
          intro hnone
          exact hheld (Option.isNone_iff_eq_none.mpr hnone)
        · rw [if_neg hvw] at hv
          exact hs v hv
      · simp only [if_neg hpaused] at hnext
        obtain ⟨pool, hpool, rfl⟩ := State.leave_eq_some_iff.mp hnext
        exact hs.of_start hpool houtside fun _ _ ↦ rfl
  | await w =>
      obtain ⟨gate, hgate, rfl⟩ := Option.map_eq_some_iff.mp hstep
      obtain ⟨hlocking, hgate⟩ := Option.ite_none_right_eq_some.mp hgate
      obtain rfl := Option.some.inj hgate
      intro v hv
      rw [State.withGate, worker_goto] at hv
      by_cases hvw : v = w
      · exact hs v (by rw [hvw, hlocking]; decide)
      · rw [if_neg hvw] at hv
        exact hs v hv
  | wake w =>
      obtain ⟨gate, hgate, hnext⟩ := Option.bind_eq_some_iff.mp hstep
      obtain ⟨-, hgate⟩ := Option.ite_none_right_eq_some.mp hgate
      obtain rfl := Option.some.inj hgate
      obtain ⟨pool, hpool, rfl⟩ := State.leave_eq_some_iff.mp hnext
      refine hs.of_start hpool (by rw [worker_goto, if_pos rfl]) fun v hv ↦ ?_
      rw [worker_goto, if_neg hv]
  | spurious w =>
      obtain ⟨gate, hgate, hnext⟩ := Option.bind_eq_some_iff.mp hstep
      obtain ⟨-, hgate⟩ := Option.ite_none_right_eq_some.mp hgate
      obtain rfl := Option.some.inj hgate
      obtain ⟨pool, hpool, rfl⟩ := State.leave_eq_some_iff.mp hnext
      refine hs.of_start hpool (by rw [worker_goto, if_pos rfl]) fun v hv ↦ ?_
      rw [worker_goto, if_neg hv]
  | finish w =>
      obtain ⟨pool, hpool, rfl⟩ := Option.map_eq_some_iff.mp hstep
      obtain ⟨hmoves, hheld, -⟩ := ThreadPool.Pool.moves_finish hpool
      intro v hv
      rw [hmoves.held]
      split
      · exact absurd hheld (by subst v; exact hs w hv)
      · exact hs v hv
  | pause =>
      obtain rfl := Option.some.inj hstep
      intro v hv
      refine hs v ?_
      rw [State.withGate, Pause.State.pause] at hv
      split at hv
      · exact hv
      · exact hv
  | resume =>
      obtain rfl := Option.some.inj hstep
      intro v hv
      refine hs v fun houtside ↦ hv ?_
      rw [State.withGate, Pause.State.resume]
      split
      · exact houtside
      · simp [Pause.State.signalAll, houtside]

/-- A step while paused: the pool begins the task of a woken thread, or none. -/
theorem step_paused (hs : Anchored s) (hpaused : s.gate.isPaused = true)
    (hkeeps : action.KeepsWaiting) (hstep : step corePoolSize s action = some s') :
    s'.gate.isPaused = true ∧
      ∃ late, s'.pool.begun = s.pool.begun ++ late ∧ (late ++ s'.woken).Perm s.woken := by
  -- a thread that does nothing else than take or complete a task was not woken
  have hnot (w : ℕ) (hw : s.pool.heldBy w = none) : s.gate.worker w ≠ .signalled := by
    intro hsignalled
    exact hs w (by rw [hsignalled]; decide) hw
  cases action with
  | execute task =>
      obtain rfl := Option.some.inj hstep
      refine ⟨hpaused, [], by simp [ThreadPool.Pool.begun_execute], List.Perm.of_eq ?_⟩
      refine State.woken_congr ThreadPool.Pool.length_le_execute fun v ↦ ?_
      rw [State.wokenAt, State.wokenAt, ThreadPool.Pool.heldBy_execute]
      by_cases hv : v = s.pool.workers.length ∧ v < corePoolSize
      · have hheld := ThreadPool.Pool.heldBy_of_le (s := s.pool) (Nat.le_of_eq hv.1.symm)
        rw [if_neg (hnot v hheld), if_neg (hnot v hheld)]
      · rw [if_neg hv]
  | take w task =>
      obtain ⟨pool, hpool, rfl⟩ := Option.map_eq_some_iff.mp hstep
      obtain ⟨hmoves, hheld, hbegun⟩ := ThreadPool.Pool.moves_take hpool
      refine ⟨hpaused, [], by simp [hbegun], List.Perm.of_eq ?_⟩
      refine State.woken_congr (Nat.le_of_eq hmoves.length.symm) fun v ↦ ?_
      rw [State.wokenAt, State.wokenAt, hmoves.held]
      by_cases hv : v = w
      · subst hv
        rw [if_neg (hnot v hheld), if_neg (hnot v hheld)]
      · rw [if_neg hv]
  | read w =>
      simp only [step, Option.ite_none_left_eq_some] at hstep
      obtain ⟨gate, hgate, hnext⟩ := Option.bind_eq_some_iff.mp hstep.2
      obtain ⟨houtside, hgate⟩ := Option.ite_none_right_eq_some.mp hgate
      obtain rfl := Option.some.inj hgate
      simp only [if_pos hpaused, Option.some.injEq] at hnext
      subst hnext
      refine ⟨hpaused, [], by simp [State.withGate], List.Perm.of_eq ?_⟩
      refine State.woken_congr (Nat.le_refl _) fun v ↦ ?_
      rw [State.wokenAt, State.wokenAt, State.withGate, worker_goto]
      by_cases hv : v = w
      · subst hv
        rw [if_pos rfl, houtside, if_neg (by decide), if_neg (by decide)]
      · rw [if_neg hv]
  | await w =>
      obtain ⟨gate, hgate, rfl⟩ := Option.map_eq_some_iff.mp hstep
      obtain ⟨hlocking, hgate⟩ := Option.ite_none_right_eq_some.mp hgate
      obtain rfl := Option.some.inj hgate
      refine ⟨hpaused, [], by simp [State.withGate], List.Perm.of_eq ?_⟩
      refine State.woken_congr (Nat.le_refl _) fun v ↦ ?_
      rw [State.wokenAt, State.wokenAt, State.withGate, worker_goto]
      by_cases hv : v = w
      · subst hv
        rw [if_pos rfl, hlocking, if_neg (by decide), if_neg (by decide)]
      · rw [if_neg hv]
  | wake w =>
      obtain ⟨gate, hgate, hnext⟩ := Option.bind_eq_some_iff.mp hstep
      obtain ⟨hsignalled, hgate⟩ := Option.ite_none_right_eq_some.mp hgate
      obtain rfl := Option.some.inj hgate
      obtain ⟨pool, hpool, rfl⟩ := State.leave_eq_some_iff.mp hnext
      obtain ⟨hmoves, task, hheld, hbegun⟩ := ThreadPool.Pool.moves_start hpool
      refine ⟨hpaused, [task], hbegun, ?_⟩
      rw [State.woken, State.woken, hmoves.length]
      refine perm_filterMap_range (w := w) ?_ ?_ ?_ fun v hv ↦ ?_
      · rw [← Nat.not_le]
        intro hle
        rw [ThreadPool.Pool.heldBy_of_le hle] at hheld
        cases hheld
      · rw [State.wokenAt, if_pos hsignalled, hheld]
      · rw [State.wokenAt, worker_goto, if_pos rfl, if_neg (by decide)]
      · rw [State.wokenAt, State.wokenAt, worker_goto, if_neg hv, hmoves.held, if_neg hv]
  | spurious w => exact hkeeps.elim
  | finish w =>
      obtain ⟨pool, hpool, rfl⟩ := Option.map_eq_some_iff.mp hstep
      obtain ⟨hmoves, hheld, hbegun⟩ := ThreadPool.Pool.moves_finish hpool
      refine ⟨hpaused, [], by simp [hbegun], List.Perm.of_eq ?_⟩
      refine State.woken_congr (Nat.le_of_eq hmoves.length.symm) fun v ↦ ?_
      rw [State.wokenAt, State.wokenAt, hmoves.held]
      by_cases hv : v = w
      · rw [if_pos hv, hv, hheld]
      · rw [if_neg hv]
  | pause =>
      obtain rfl := Option.some.inj hstep
      have hgate : s.gate.pause = s.gate := if_pos hpaused
      rw [hgate]
      exact ⟨hpaused, [], by simp [State.withGate], List.Perm.refl _⟩
  | resume => exact hkeeps.elim

/-- While the executor is paused and no wait ends by itself, just those tasks begin that the
last `resume` had already let through, each of them once. -/
theorem begins_woken_only {front rest : List (Action ρ)}
    (hfront : run (step corePoolSize) {} front = some s) (hpaused : s.gate.isPaused = true)
    (hkeeps : ∀ action ∈ rest, action.KeepsWaiting)
    (hrun : run (step corePoolSize) s rest = some t) :
    ∃ late, t.pool.begun = s.pool.begun ++ late ∧ (late ++ t.woken).Perm s.woken := by
  have hs : Anchored s :=
    run_invariant' (fun _ _ _ hu hstep ↦ hu.step hstep) (fun w hw ↦ absurd rfl hw) hfront
  have hinv := run_invariant (I := fun u ↦ Anchored u ∧ u.gate.isPaused = true ∧
      ∃ late, u.pool.begun = s.pool.begun ++ late ∧ (late ++ u.woken).Perm s.woken)
    (C := fun _ ↦ Action.KeepsWaiting) ?_ ⟨hs, hpaused, [], by simp, List.Perm.refl _⟩
    (stepsMeet_of_forall_mem hkeeps) hrun
  · exact hinv.2.2
  · rintro u action v ⟨hu, hupaused, late, hlate, hperm⟩ hkeep hstep
    obtain ⟨hvpaused, more, hmore, hperm'⟩ := step_paused hu hupaused hkeep hstep
    refine ⟨hu.step hstep, hvpaused, late ++ more, ?_, ?_⟩
    · rw [hmore, hlate, List.append_assoc]
    · rw [List.append_assoc]
      exact (hperm'.append_left late).trans hperm

/-- The thread is woken by a `resume`, and the executor is paused before it goes on. -/
def pausedRun : List (Action (Fin 3)) :=
  [.execute ⟨1, 0⟩, .pause, .read 0, .await 0, .resume, .pause]

theorem begins_woken_only_paused :
    ∃ s, run (step 1) {} pausedRun = some s ∧
      ∃ t, run (step 1) s [.wake 0, .finish 0] = some t ∧
        ∃ late, t.pool.begun = s.pool.begun ++ late ∧ (late ++ t.woken).Perm s.woken :=
  ⟨_, rfl, _, rfl, @begins_woken_only (Fin 3) 1 _ _ _ pausedRun [.wake 0, .finish 0] rfl rfl
    (by decide) rfl⟩

end HiApp.Executor.HiExecutor
