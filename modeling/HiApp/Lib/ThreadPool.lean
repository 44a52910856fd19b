import HiApp.Lib.Runs
import Mathlib.Data.List.Perm.Basic

/-!
# A pool of threads over an ordered queue

A task that is submitted goes to a new thread while there are fewer than
`corePoolSize` of them, and waits in the queue otherwise.  A thread without a task
takes one of the queue that comes before all others there.  Between that and the
start of the task lies a hook, so a thread may hold a task for a while.

The queue has no bound, so it never sends a task to more threads than the core ones.
-/

namespace HiApp.ThreadPool

open Runs

inductive Worker (τ : Type*) where
  | polling
  | holding (task : τ)
  | running (task : τ)
  deriving DecidableEq, Repr

namespace Worker

variable {τ : Type*}

/-- The task that a thread has taken and not yet started. -/
def held : Worker τ → Option τ
  | .holding task => some task
  | _ => none

def current : Worker τ → Option τ
  | .running task => some task
  | _ => none

def task : Worker τ → Option τ
  | .polling => none
  | .holding task => some task
  | .running task => some task

end Worker

/-- `begun` and `finished` are the tasks that were started and completed, in order. -/
structure Pool (τ : Type*) where
  workers : List (Worker τ) := []
  queue : List τ := []
  begun : List τ := []
  finished : List τ := []
  deriving DecidableEq, Repr

inductive Action (τ : Type*) where
  | execute (task : τ)
  | take (w : ℕ) (task : τ)
  | start (w : ℕ)
  | finish (w : ℕ)
  deriving DecidableEq, Repr

namespace Action

variable {τ : Type*}

def executed : Action τ → Option τ
  | .execute task => some task
  | _ => none

def taken : Action τ → Option τ
  | .take _ task => some task
  | _ => none

end Action

namespace Pool

variable {τ : Type*}

def held (s : Pool τ) : List τ := s.workers.filterMap Worker.held

def current (s : Pool τ) : List τ := s.workers.filterMap Worker.current

def heldBy (s : Pool τ) (w : ℕ) : Option τ := s.workers[w]?.bind Worker.held

def execute (corePoolSize : ℕ) (task : τ) (s : Pool τ) : Pool τ :=
  if s.workers.length < corePoolSize then { s with workers := s.workers ++ [.holding task] }
  else { s with queue := s.queue ++ [task] }

def start (w : ℕ) (s : Pool τ) : Option (Pool τ) :=
  match s.workers[w]? with
  | some (.holding task) =>
      some { s with workers := s.workers.set w (.running task), begun := s.begun ++ [task] }
  | _ => none

def finish (w : ℕ) (s : Pool τ) : Option (Pool τ) :=
  match s.workers[w]? with
  | some (.running task) =>
      some { s with workers := s.workers.set w .polling, finished := s.finished ++ [task] }
  | _ => none

variable [DecidableEq τ] (before : τ → τ → Prop) [DecidableRel before]

/-- Which of several foremost tasks is taken is left open. -/
def take (w : ℕ) (task : τ) (s : Pool τ) : Option (Pool τ) :=
  if s.workers[w]? = some .polling ∧ task ∈ s.queue ∧ ∀ other ∈ s.queue, before task other then
    some { s with workers := s.workers.set w (.holding task), queue := s.queue.erase task }
  else none

end Pool

section

variable {τ : Type*} [DecidableEq τ]

def step (before : τ → τ → Prop) [DecidableRel before] (corePoolSize : ℕ) (s : Pool τ) :
    Action τ → Option (Pool τ)
  | .execute task => some (s.execute corePoolSize task)
  | .take w task => s.take before w task
  | .start w => s.start w
  | .finish w => s.finish w

end

/-! ### One thread among the others -/

/-- An entry and the lists around it, which stay when the entry is set. -/
theorem exists_set_eq {α : Type*} {l : List α} {i : ℕ} {x : α} (h : l[i]? = some x) :
    ∃ front back, l = front ++ x :: back ∧ ∀ y, l.set i y = front ++ y :: back := by
  obtain ⟨hi, hx⟩ := List.getElem?_eq_some_iff.mp h
  refine ⟨l.take i, l.drop (i + 1), ?_, fun y ↦ ?_⟩
  · rw [← hx, List.getElem_cons_drop, List.take_append_drop]
  · rw [List.set_eq_take_append_cons_drop, if_pos hi]

variable {τ : Type*} {before : τ → τ → Prop} {corePoolSize : ℕ} {s s' t : Pool τ}
  {action : Action τ} {actions : List (Action τ)} {task : τ}

namespace Pool

theorem start_eq_some_iff {w : ℕ} :
    s.start w = some s' ↔ ∃ task, s.workers[w]? = some (.holding task) ∧
      s' = { s with workers := s.workers.set w (.running task), begun := s.begun ++ [task] } := by
  unfold start
  split
  · rename_i task hw
    simp [hw, eq_comm]
  · rename_i hw
    refine iff_of_false (by simp) ?_
    rintro ⟨task, htask, -⟩
    exact hw task htask

theorem finish_eq_some_iff {w : ℕ} :
    s.finish w = some s' ↔ ∃ task, s.workers[w]? = some (.running task) ∧
      s' = { s with workers := s.workers.set w .polling, finished := s.finished ++ [task] } := by
  unfold finish
  split
  · rename_i task hw
    simp [hw, eq_comm]
  · rename_i hw
    refine iff_of_false (by simp) ?_
    rintro ⟨task, htask, -⟩
    exact hw task htask

variable [DecidableEq τ] [DecidableRel before]

theorem take_eq_some_iff {w : ℕ} :
    s.take before w task = some s' ↔
      (s.workers[w]? = some .polling ∧ task ∈ s.queue ∧ ∀ other ∈ s.queue, before task other) ∧
        s' = { s with
          workers := s.workers.set w (.holding task), queue := s.queue.erase task } := by
  rw [take, Option.ite_none_right_eq_some, Option.some.injEq, eq_comm (a := s')]

end Pool

/-! ### What the threads hold -/

namespace Pool

theorem heldBy_of_le {w : ℕ} (hw : s.workers.length ≤ w) : s.heldBy w = none := by
  rw [heldBy, List.getElem?_eq_none hw, Option.bind_none]

theorem heldBy_execute (v : ℕ) :
    (s.execute corePoolSize task).heldBy v =
      if v = s.workers.length ∧ v < corePoolSize then some task else s.heldBy v := by
  unfold execute
  by_cases hcore : s.workers.length < corePoolSize
  · rw [if_pos hcore]
    rcases Nat.lt_trichotomy v s.workers.length with hv | rfl | hv
    · rw [if_neg (fun h ↦ Nat.ne_of_lt hv h.1), heldBy, heldBy, List.getElem?_append_left hv]
    · rw [if_pos ⟨rfl, hcore⟩, heldBy, List.getElem?_concat_length]
      rfl
    · rw [if_neg (fun h ↦ Nat.ne_of_gt hv h.1), heldBy_of_le (Nat.le_of_lt hv), heldBy_of_le]
      rw [List.length_append]
      exact hv
  · have hold : ¬ (v = s.workers.length ∧ v < corePoolSize) := by
      rintro ⟨rfl, hlt⟩
      exact hcore hlt
    rw [if_neg hcore, if_neg hold]
    rfl

theorem begun_execute : (s.execute corePoolSize task).begun = s.begun := by
  unfold execute
  split
  · rfl
  · rfl

theorem length_le_execute : s.workers.length ≤ (s.execute corePoolSize task).workers.length := by
  unfold execute
  split
  · simp
  · exact Nat.le_refl _

/-- The step moves thread `w` on, which then holds `task`, if any, and no other thread. -/
structure Moves (w : ℕ) (task : Option τ) (s u : Pool τ) : Prop where
  length : u.workers.length = s.workers.length
  held : ∀ v, u.heldBy v = if v = w then task else s.heldBy v

theorem moves_of_set {w : ℕ} {old : Worker τ} (worker : Worker τ) {u : Pool τ}
    (hw : s.workers[w]? = some old) (hu : u.workers = s.workers.set w worker) :
    Moves w worker.held s u := by
  obtain ⟨hlt, -⟩ := List.getElem?_eq_some_iff.mp hw
  refine ⟨by rw [hu, List.length_set], fun v ↦ ?_⟩
  rw [heldBy, hu, List.getElem?_set]
  by_cases hv : v = w
  · subst hv
    rw [if_pos rfl, if_pos hlt, if_pos rfl, Option.bind_some]
  · rw [if_neg (Ne.symm hv), if_neg hv, heldBy]

theorem moves_start {w : ℕ} {u : Pool τ} (h : s.start w = some u) :
    Moves w none s u ∧ ∃ task, s.heldBy w = some task ∧ u.begun = s.begun ++ [task] := by
  obtain ⟨task, hw, rfl⟩ := start_eq_some_iff.mp h
  refine ⟨moves_of_set (.running task) hw rfl, task, ?_, rfl⟩
  rw [heldBy, hw]
  rfl

theorem moves_finish {w : ℕ} {u : Pool τ} (h : s.finish w = some u) :
    Moves w none s u ∧ s.heldBy w = none ∧ u.begun = s.begun := by
  obtain ⟨task, hw, rfl⟩ := finish_eq_some_iff.mp h
  refine ⟨moves_of_set .polling hw rfl, ?_, rfl⟩
  rw [heldBy, hw]
  rfl

theorem moves_take [DecidableEq τ] [DecidableRel before] {w : ℕ} {u : Pool τ}
    (h : s.take before w task = some u) :
    Moves w (some task) s u ∧ s.heldBy w = none ∧ u.begun = s.begun := by
  obtain ⟨⟨hw, -, -⟩, rfl⟩ := take_eq_some_iff.mp h
  refine ⟨moves_of_set (.holding task) hw rfl, ?_, rfl⟩
  rw [heldBy, hw]
  rfl

end Pool

variable [DecidableEq τ] [DecidableRel before]

/-! ### What one step does to the lists of tasks -/

/-- The threads and the queue after a step: a new thread, a longer queue, or one thread
that goes on. -/
theorem step_cases (hstep : step before corePoolSize s action = some s') :
    (∃ task, action = .execute task ∧ s.workers.length < corePoolSize ∧
      s' = { s with workers := s.workers ++ [.holding task] }) ∨
    (∃ task, action = .execute task ∧ corePoolSize ≤ s.workers.length ∧
      s' = { s with queue := s.queue ++ [task] }) ∨
    (∃ w task front back, action = .take w task ∧ s.workers = front ++ .polling :: back ∧
      task ∈ s.queue ∧ (∀ other ∈ s.queue, before task other) ∧
      s' = { s with
        workers := front ++ .holding task :: back, queue := s.queue.erase task }) ∨
    (∃ w task front back, action = .start w ∧ s.workers = front ++ .holding task :: back ∧
      s' = { s with
        workers := front ++ .running task :: back, begun := s.begun ++ [task] }) ∨
    (∃ w task front back, action = .finish w ∧ s.workers = front ++ .running task :: back ∧
      s' = { s with
        workers := front ++ .polling :: back, finished := s.finished ++ [task] }) := by
  cases action with
  | execute task =>
      obtain rfl := Option.some.inj hstep
      rw [Pool.execute]
      by_cases hcore : s.workers.length < corePoolSize
      · exact .inl ⟨task, rfl, hcore, if_pos hcore⟩
      · exact .inr (.inl ⟨task, rfl, Nat.le_of_not_lt hcore, if_neg hcore⟩)
  | take w task =>
      obtain ⟨⟨hw, hmem, hbefore⟩, rfl⟩ := Pool.take_eq_some_iff.mp hstep
      obtain ⟨front, back, hworkers, hset⟩ := exists_set_eq hw
      rw [hset]
      exact .inr (.inr (.inl ⟨w, task, front, back, rfl, hworkers, hmem, hbefore, rfl⟩))
  | start w =>
      obtain ⟨task, hw, rfl⟩ := Pool.start_eq_some_iff.mp hstep
      obtain ⟨front, back, hworkers, hset⟩ := exists_set_eq hw
      rw [hset]
      exact .inr (.inr (.inr (.inl ⟨w, task, front, back, rfl, hworkers, rfl⟩)))
  | finish w =>
      obtain ⟨task, hw, rfl⟩ := Pool.finish_eq_some_iff.mp hstep
      obtain ⟨front, back, hworkers, hset⟩ := exists_set_eq hw
      rw [hset]
      exact .inr (.inr (.inr (.inr ⟨w, task, front, back, rfl, hworkers, rfl⟩)))

/-- There are no more threads than the core ones, and all of these as soon as a task waits. -/
structure Sized (corePoolSize : ℕ) (s : Pool τ) : Prop where
  length_le : s.workers.length ≤ corePoolSize
  full : s.queue ≠ [] → s.workers.length = corePoolSize

omit [DecidableEq τ] in
theorem sized_init : Sized corePoolSize ({} : Pool τ) := ⟨Nat.zero_le _, fun h ↦ absurd rfl h⟩

theorem Sized.step (hs : Sized corePoolSize s)
    (hstep : step before corePoolSize s action = some s') : Sized corePoolSize s' := by
  obtain ⟨hlength, hfull⟩ := hs
  obtain ⟨task, -, hcore, rfl⟩ | ⟨task, -, hcore, rfl⟩ |
    ⟨w, task, front, back, -, hworkers, hmem, -, rfl⟩ | ⟨w, task, front, back, -, hworkers, rfl⟩ |
    ⟨w, task, front, back, -, hworkers, rfl⟩ := step_cases hstep
  · refine ⟨by simpa using Nat.succ_le_of_lt hcore, fun hqueue ↦ ?_⟩
    exact absurd (hfull hqueue) (Nat.ne_of_lt hcore)
  · exact ⟨hlength, fun _ ↦ Nat.le_antisymm hlength hcore⟩
  · have hcount := hfull (List.ne_nil_of_mem hmem)
    rw [hworkers] at hcount
    exact ⟨Nat.le_of_eq (by simpa using hcount), fun _ ↦ by simpa using hcount⟩
  · rw [hworkers] at hlength hfull
    exact ⟨by simpa using hlength, by simpa using hfull⟩
  · rw [hworkers] at hlength hfull
    exact ⟨by simpa using hlength, by simpa using hfull⟩

theorem sized_run (hrun : run (step before corePoolSize) {} actions = some s) :
    Sized corePoolSize s :=
  run_invariant' (fun _ _ _ hs hstep ↦ hs.step hstep) sized_init hrun

/-! ### No task is lost, and none is begun twice -/

/-- Where the submitted tasks are. -/
def Placed (submitted : List τ) (s : Pool τ) : Prop :=
  submitted.Perm (s.queue ++ s.held ++ s.begun)

/-- A task that was begun is running or finished. -/
def Accounted (s : Pool τ) : Prop := s.begun.Perm (s.current ++ s.finished)

theorem Placed.step {submitted : List τ} (hs : Placed submitted s)
    (hstep : step before corePoolSize s action = some s') :
    Placed (submitted ++ action.executed.toList) s' := by
  unfold Placed Pool.held at *
  obtain ⟨task, rfl, -, rfl⟩ | ⟨task, rfl, -, rfl⟩ |
    ⟨w, task, front, back, rfl, hworkers, hmem, -, rfl⟩ |
    ⟨w, task, front, back, rfl, hworkers, rfl⟩ | ⟨w, task, front, back, rfl, hworkers, rfl⟩ :=
    step_cases hstep
  · refine (hs.append_right [task]).trans ?_
    simp only [List.filterMap_append, List.filterMap_cons, List.filterMap_nil, Worker.held,
      List.append_assoc]
    exact (List.perm_append_comm.append_left _).append_left _
  · refine (hs.append_right [task]).trans ?_
    simp only [List.append_assoc]
    refine List.Perm.append_left _ ?_
    rw [← List.append_assoc]
    exact List.perm_append_comm
  · rw [hworkers] at hs
    simp only [Action.executed, Option.toList_none, List.append_nil, List.filterMap_append,
      List.filterMap_cons, Worker.held] at hs ⊢
    refine hs.trans (List.Perm.append_right _ ?_)
    refine ((List.perm_cons_erase hmem).append_right _).trans ?_
    rw [List.cons_append, ← List.append_assoc, ← List.append_assoc]
    exact List.perm_middle.symm
  · rw [hworkers] at hs
    simp only [Action.executed, Option.toList_none, List.append_nil, List.filterMap_append,
      List.filterMap_cons, Worker.held] at hs ⊢
    refine hs.trans ?_
    simp only [List.append_assoc]
    refine List.Perm.append_left _ (List.Perm.append_left _ ?_)
    rw [List.cons_append, ← List.append_assoc]
    exact (List.perm_append_singleton task _).symm
  · rw [hworkers] at hs
    simp only [Action.executed, Option.toList_none, List.append_nil, List.filterMap_append,
      List.filterMap_cons, Worker.held] at hs ⊢
    exact hs

theorem Accounted.step (hs : Accounted s) (hstep : step before corePoolSize s action = some s') :
    Accounted s' := by
  unfold Accounted Pool.current at *
  obtain ⟨task, -, -, rfl⟩ | ⟨task, -, -, rfl⟩ |
    ⟨w, task, front, back, -, hworkers, -, -, rfl⟩ |
    ⟨w, task, front, back, -, hworkers, rfl⟩ | ⟨w, task, front, back, -, hworkers, rfl⟩ :=
    step_cases hstep
  · simpa only [List.filterMap_append, List.filterMap_cons, List.filterMap_nil, Worker.current,
      List.append_nil] using hs
  · exact hs
  · rw [hworkers] at hs
    simpa only [List.filterMap_append, List.filterMap_cons, Worker.current] using hs
  · rw [hworkers] at hs
    simp only [List.filterMap_append, List.filterMap_cons, Worker.current] at hs ⊢
    refine (hs.append_right [task]).trans ((List.perm_append_singleton task _).trans ?_)
    simp only [List.append_assoc, List.cons_append]
    exact List.perm_middle.symm
  · rw [hworkers] at hs
    simp only [List.filterMap_append, List.filterMap_cons, Worker.current] at hs ⊢
    refine hs.trans ?_
    simp only [List.append_assoc, List.cons_append]
    refine List.perm_middle.trans ?_
    rw [← List.append_assoc, ← List.append_assoc, ← List.append_assoc]
    exact (List.perm_append_singleton task _).symm

theorem placed_run (hrun : run (step before corePoolSize) {} actions = some s) :
    Placed (actions.filterMap Action.executed) s := by
  induction actions using List.reverseRecOn generalizing s with
  | nil =>
      obtain rfl := Option.some.inj hrun
      exact List.Perm.refl _
  | append_singleton actions action ih =>
      obtain ⟨u, hu, hstep⟩ := run_concat_eq_some_iff.mp hrun
      have hlast : List.filterMap Action.executed [action] = action.executed.toList := by
        cases h : action.executed with
        | none => simp [h]
        | some task => simp [h]
      rw [List.filterMap_append, hlast]
      exact (ih hu).step hstep

omit [DecidableEq τ] in
theorem accounted_init : Accounted ({} : Pool τ) := List.Perm.refl []

theorem accounted_run (hrun : run (step before corePoolSize) {} actions = some s) :
    Accounted s :=
  run_invariant' (fun _ _ _ hs hstep ↦ hs.step hstep) accounted_init hrun

/-! ### Which tasks can come first -/

/-- Tasks that come after `task` can be begun before it is taken by the threads that
already hold them, and by no other. -/
theorem exists_overtaking (hfull : s.workers.length = corePoolSize) (hmem : task ∈ s.queue)
    (hrun : run (step before corePoolSize) s actions = some t)
    (hwaits : task ∉ actions.filterMap Action.taken) :
    ∃ late, t.begun = s.begun ++ late ∧
      late.countP (fun other ↦ ¬ before other task) +
        t.held.countP (fun other ↦ ¬ before other task) ≤
          s.held.countP (fun other ↦ ¬ before other task) ∧
      task ∈ t.queue ∧ t.workers.length = corePoolSize := by
  induction actions using List.reverseRecOn generalizing t with
  | nil =>
      obtain rfl := Option.some.inj hrun
      exact ⟨[], by simp, by simp, hmem, hfull⟩
  | append_singleton actions action ih =>
      obtain ⟨u, hu, hstep⟩ := run_concat_eq_some_iff.mp hrun
      obtain ⟨late, hlate, hcount, hqueue, hlength⟩ :=
        ih hu fun htaken ↦ hwaits (by simp [htaken])
      unfold Pool.held at hcount ⊢
      obtain ⟨other, rfl, hcore, rfl⟩ | ⟨other, rfl, -, rfl⟩ |
        ⟨w, other, front, back, rfl, hworkers, -, hbefore, rfl⟩ |
        ⟨w, other, front, back, rfl, hworkers, rfl⟩ |
        ⟨w, other, front, back, rfl, hworkers, rfl⟩ := step_cases hstep
      · exact absurd hlength (Nat.ne_of_lt hcore)
      · exact ⟨late, hlate, hcount, List.mem_append_left _ hqueue, hlength⟩
      · -- what is taken comes before all that wait, `task` among them
        rw [hworkers] at hcount hlength
        have hne : task ≠ other := by
          rintro rfl
          exact hwaits (by simp [Action.taken])
        refine ⟨late, hlate, ?_, (List.mem_erase_of_ne hne).mpr hqueue, by simpa using hlength⟩
        simpa [Worker.held, List.filterMap_cons, hbefore task hqueue] using hcount
      · rw [hworkers] at hcount hlength
        refine ⟨late ++ [other], by rw [hlate, List.append_assoc], ?_, hqueue,
          by simpa using hlength⟩
        simp only [List.filterMap_append, List.filterMap_cons, Worker.held, List.countP_append,
          List.countP_cons, List.countP_nil] at hcount ⊢
        omega
      · rw [hworkers] at hcount hlength
        refine ⟨late, hlate, ?_, hqueue, by simpa using hlength⟩
        simpa [Worker.held, List.filterMap_cons] using hcount

omit [DecidableEq τ] in
theorem Pool.length_held_le (s : Pool τ) : s.held.length ≤ s.workers.length :=
  List.length_filterMap_le _ _

/-- Once nothing is submitted any more, what is taken comes in order. -/
theorem pairwise_taken (hrun : run (step before corePoolSize) s actions = some t)
    (hno : ∀ action ∈ actions, action.executed = none) :
    (actions.filterMap Action.taken).Pairwise before ∧
      ∀ task ∈ actions.filterMap Action.taken, task ∈ s.queue := by
  induction actions generalizing s with
  | nil => exact ⟨List.Pairwise.nil, by simp⟩
  | cons action actions ih =>
      obtain ⟨u, hstep, hrest⟩ := Option.bind_eq_some_iff.mp hrun
      obtain ⟨hpairwise, hqueue⟩ := ih hrest fun a ha ↦ hno a (List.mem_cons_of_mem _ ha)
      have hhead := hno action List.mem_cons_self
      obtain ⟨other, rfl, -, rfl⟩ | ⟨other, rfl, -, rfl⟩ |
        ⟨w, other, front, back, rfl, -, hmem, hbefore, rfl⟩ |
        ⟨w, other, front, back, rfl, -, rfl⟩ | ⟨w, other, front, back, rfl, -, rfl⟩ :=
        step_cases hstep
      · cases hhead
      · cases hhead
      · have hsub : ∀ task ∈ actions.filterMap Action.taken, task ∈ s.queue :=
          fun task htask ↦ List.mem_of_mem_erase (hqueue task htask)
        rw [List.filterMap_cons_some (f := Action.taken) (b := other) rfl]
        refine ⟨List.pairwise_cons.mpr ⟨fun task htask ↦ hbefore task (hsub task htask),
          hpairwise⟩, ?_⟩
        intro task htask
        rcases List.mem_cons.mp htask with rfl | htask
        · exact hmem
        · exact hsub task htask
      · exact ⟨hpairwise, hqueue⟩
      · exact ⟨hpairwise, hqueue⟩

end HiApp.ThreadPool
