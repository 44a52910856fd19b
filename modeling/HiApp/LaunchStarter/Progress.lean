import HiApp.LaunchStarter.Dependency
import HiApp.LaunchStarter.Flow
import HiApp.LaunchStarter.SortOrder

/-!
# Does every launch come to its end?

A launch is stuck when a task was dispatched and has not finished and no thread
can move.  The first unfinished task of the sorted list can always move, if
everything it depends on was dispatched before it; a class that is dispatched by
nobody is waited for forever.
-/

namespace HiApp.LaunchStarter

open Runs

variable {τ κ : Type*} [DecidableEq τ] [DecidableEq κ] {L : Launch τ κ}

/-! ## Latches that are never too high -/

namespace Book

variable {b : Book τ κ}

/-- The latch of every task that was added is covered by its unsatisfied
entries. -/
def Bounded (L : Launch τ κ) (b : Book τ κ) : Prop :=
  ∀ t, 0 < b.added t → b.mDepends t ≤ b.unsatisfied L t

theorem Bounded.enter (h : b.Bounded L) (hreg : b.Registered L) {e : Entry τ}
    (he : ∀ t, e ≠ .add t) : (b.enter L e).Bounded L := by
  cases e with
  | add t => exact absurd rfl (he t)
  | run t | record t => exact h
  | complete d =>
      intro t ht
      have hbefore := h t ht
      have hlatch : (b.enter L (.complete d)).mDepends t =
          b.mDepends t - b.added t * (L.dependsOn t).count (L.decl d).cls := by
        simp [Book.enter, hreg.count]
      rw [hlatch]
      by_cases hagain : b.ClassFinished L (L.decl d).cls
      · rw [unsatisfied_complete_again hagain]
        omega
      · have hsum := unsatisfied_complete_first (t := t) hagain
        have hmul : 1 * (L.dependsOn t).count (L.decl d).cls ≤
            b.added t * (L.dependsOn t).count (L.decl d).cls :=
          Nat.mul_le_mul_right _ ht
        omega

end Book

/-! ## Whole launches -/

/-- A launch of the sorted list `order` on its way. -/
structure Launched (L : Launch τ κ) (order : List τ) (s : State τ κ) : Prop where
  flow : ∃ sent, Flow L order sent s
  added : ∀ t ∈ order, 0 < s.book.added t
  registered : s.book.Registered L
  bounded : s.book.Bounded L
  covered : s.book.Covered L

section

variable {order : List τ} {s s' : State τ κ} {a : Action τ}

omit [DecidableEq τ] [DecidableEq κ] in
theorem exists_job_of_complete (ha : a.internal = true) {d : τ}
    (hentry : L.entry s a = some (.complete d)) :
    ∃ job ∈ s.jobs, job.task = d ∧ job.stage = .running := by
  have hjob : ∀ {job : Job τ}, L.jobEntry job = some (.complete d) →
      job.task = d ∧ job.stage = .running := by
    intro job hjob
    unfold Launch.jobEntry at hjob
    cases hstage : job.stage with
    | queued => simp [hstage] at hjob
    | waiting => simp [hstage] at hjob
    | running =>
        simp only [hstage] at hjob
        split at hjob
        · exact ⟨by simpa using hjob, rfl⟩
        · simp at hjob
    | satisfied =>
        simp only [hstage] at hjob
        split at hjob <;> simp at hjob
  cases a with
  | addTask t | start | executeTask t | call t => simp [Action.internal] at ha
  | main =>
      simp only [Launch.entry] at hentry
      split at hentry
      · rename_i job rest hmain
        exact ⟨job, by simp [State.jobs, State.mainJobs, hmain], hjob hentry⟩
      · split at hentry <;> simp at hentry
      · simp at hentry
  | pool i =>
      simp only [Launch.entry] at hentry
      split at hentry
      · rename_i job hget
        exact ⟨job, List.mem_append_left _ (List.mem_of_getElem? hget), hjob hentry⟩
      · simp at hentry

namespace Launched

theorem step (h : Launched L order s)
    (hcls : (order.map fun t ↦ (L.decl t).cls).Nodup)
    (hcall : ∀ t ∈ order, (L.decl t).needCall = false)
    (ha : a.internal = true) (hstep : L.step s a = some s') :
    Launched L order s' := by
  obtain ⟨sent, hflow⟩ := h.flow
  have horder : order.Nodup := hcls.of_map
  have hflow' : ∃ sent', Flow L order sent' s' := by
    cases a with
    | addTask t | start | executeTask t | call t => simp [Action.internal] at ha
    | main => exact hflow.stepMain horder hcall hstep
    | pool i => exact ⟨sent, hflow.stepPool horder hcall hstep⟩
  suffices hbook : (∀ t ∈ order, 0 < s'.book.added t) ∧ s'.book.Registered L ∧
      s'.book.Bounded L ∧ s'.book.Covered L from
    ⟨hflow', hbook.1, hbook.2.1, hbook.2.2.1, hbook.2.2.2⟩
  rw [L.book_step s hstep]
  cases hentry : L.entry s a with
  | none => exact ⟨h.added, h.registered, h.bounded, h.covered⟩
  | some e =>
      have hadd : ∀ t, e ≠ .add t := by
        rintro t rfl
        rw [entry_eq_add_iff.mp hentry] at ha
        simp [Action.internal] at ha
      refine ⟨?_, h.registered.enter e, h.bounded.enter h.registered hadd, ?_⟩
      · cases e with
        | add t => exact absurd rfl (hadd t)
        | run t | complete t | record t => exact h.added
      · refine h.covered.enter h.registered ?_ ?_
        · cases e with
          | add t => exact absurd rfl (hadd t)
          | run t | record t => trivial
          | complete d =>
              -- no other task of the list has the class of `d`
              rintro ⟨u, hu, hfin⟩
              obtain ⟨job, hjob, rfl, hstage⟩ := exists_job_of_complete ha hentry
              have hsame : u = job.task := List.inj_on_of_nodup_map hcls
                (hflow.mem_order (hflow.finished u hfin).1)
                (hflow.mem_order (hflow.mem_sent hjob).1) hu
              have hsatisfied := (hflow.stage job hjob).mp (hsame ▸ hfin)
              simp [hstage] at hsatisfied
        · rintro t rfl
          exact L.mDepends_eq_zero_of_run s t hstep hentry

end Launched

end

/-! ## What can move -/

section

variable {order : List τ} {s : State τ κ} {job : Job τ}

omit [DecidableEq κ] in
theorem exists_stepRunnable (L : Launch τ κ) (s : State τ κ) (job : Job τ)
    (hready : job.stage = .waiting → (s.vars job.task).mDepends = 0) :
    ∃ s' stage, L.stepRunnable s job = some (s', stage) := by
  unfold Launch.stepRunnable
  cases hstage : job.stage with
  | queued => exact ⟨_, _, rfl⟩
  | waiting => exact ⟨_, _, if_pos (hready hstage)⟩
  | running =>
      simp only
      split <;> exact ⟨_, _, rfl⟩
  | satisfied => exact ⟨_, _, rfl⟩

omit [DecidableEq κ] in
theorem stepPool_ne_none {i : ℕ} (hget : s.pool[i]? = some job)
    (hbegin : job.stage = .queued → L.mayBegin s.pool i job.task = true)
    (hready : job.stage = .waiting → (s.vars job.task).mDepends = 0) :
    L.stepPool s i ≠ none := by
  obtain ⟨s', stage, hrun⟩ := exists_stepRunnable L s job hready
  have hguard : (decide (job.stage = .queued) && !L.mayBegin s.pool i job.task) =
      false := by
    by_cases hqueued : job.stage = .queued
    · simp [hbegin hqueued]
    · simp [hqueued]
  unfold Launch.stepPool
  simp only [hget, hguard, hrun]
  cases stage <;> simp

omit [DecidableEq κ] in
theorem main_of_stepMain (hstep : L.stepMain s = none) : s.main = .idle ∨
    ∃ job rest, s.main = .executing job rest ∧ job.stage = .waiting ∧
      (s.vars job.task).mDepends ≠ 0 := by
  unfold Launch.stepMain at hstep
  cases hmain : s.main with
  | idle => exact .inl rfl
  | sending rest modified => cases rest <;> cases modified <;> simp [hmain] at hstep
  | between rest => cases rest <;> simp [hmain] at hstep
  | executing job rest =>
      refine .inr ⟨job, rest, rfl, ?_⟩
      by_contra hcon
      obtain ⟨s', stage, hrun⟩ := exists_stepRunnable L s job
        fun hwaiting ↦ by_contra fun hne ↦ hcon ⟨hwaiting, hne⟩
      cases stage <;> simp [hmain, hrun] at hstep

omit [DecidableEq τ] in
theorem mem_of_pair_sublist {l₁ l₂ : List τ} {x t : τ} (horder : order.Nodup)
    (hsplit : order = l₁ ++ t :: l₂) (hpair : [x, t].Sublist order) : x ∈ l₁ := by
  subst hsplit
  have ht : t ∉ l₂ :=
    (List.nodup_cons.mp (List.nodup_append.mp horder).2.1).1
  obtain ⟨p, q, hpq, hp, hq⟩ := List.sublist_append_iff.mp hpair
  cases p with
  | cons y p =>
      obtain ⟨rfl, -⟩ : x = y ∧ [t] = p ++ q := by simpa using hpq
      exact hp.subset List.mem_cons_self
  | nil =>
      obtain rfl : [x, t] = q := hpq
      rcases List.sublist_cons_iff.mp hq with hq | ⟨r, hr, hq⟩
      · exact absurd (hq.subset (by simp)) ht
      · obtain ⟨-, rfl⟩ : x = t ∧ [t] = r := by simpa using hr
        exact absurd (hq.subset List.mem_cons_self) ht

/-- A dispatched task has not finished, and no thread can move. -/
def Launch.Stuck (L : Launch τ κ) (s : State τ κ) : Prop :=
  (∃ t, (s.vars t).mIsSend = true ∧ L.skipped t = false ∧
    (s.vars t).mIsFinished = false) ∧
  ∀ a : Action τ, a.internal = true → L.step s a = none

/-- Every class a dispatched task depends on is the class of a dispatched task. -/
def Launch.DependenciesSent (L : Launch τ κ) (ts : List τ) : Prop :=
  ∀ t ∈ ts, L.skipped t = false → ∀ c ∈ L.dependsOn t,
    ∃ d ∈ ts, L.skipped d = false ∧ (L.decl d).cls = c

omit [DecidableEq τ] [DecidableEq κ] in
theorem mayBegin_of_forall_not_mem {i : ℕ} (hget : s.pool[i]? = some job)
    (hqueued : job.stage = .queued) (hfifo : s.pool.Pairwise L.Fifo)
    (hfirst : ∀ j, j ∉ s.pool.take i) : L.mayBegin s.pool i job.task = true := by
  obtain ⟨hlt, hi⟩ := List.getElem?_eq_some_iff.mp hget
  have hnil : s.pool.take i = [] := List.eq_nil_iff_forall_not_mem.mpr hfirst
  have hpool : s.pool = job :: s.pool.drop (i + 1) := by
    rw [← hi, ← List.drop_eq_getElem_cons hlt]
    conv_lhs => rw [← List.take_append_drop i s.pool, hnil, List.nil_append]
  unfold Launch.mayBegin
  cases hon : (L.decl job.task).runOn with
  | io => rfl
  | cpu =>
      simp only [hnil, List.all_nil, Bool.true_and, decide_eq_true_eq]
      refine lt_of_eq_of_lt (List.countP_eq_zero.mpr ?_) L.corePoolSize_pos
      intro k hk
      simp only [Bool.and_eq_true, decide_eq_true_eq, not_and, not_not]
      intro hcpu
      rw [hpool] at hk hfifo
      rcases List.mem_cons.mp hk with rfl | hk
      · exact hqueued
      · exact (List.pairwise_cons.mp hfifo).1 k hk hon hcpu hqueued

omit [DecidableEq κ] in
theorem Flow.sent_eq {sent : List τ} (h : Flow L order sent s)
    (hmain : L.stepMain s = none) : sent = order := by
  have hsplit := h.split
  rcases main_of_stepMain hmain with hmain | ⟨job, rest, hmain, -⟩ <;>
    simpa [hmain, Control.unsent] using hsplit.symm

omit [DecidableEq κ] in
theorem Flow.unfinished {sent : List τ} (h : Flow L order sent s)
    (hmain : L.stepMain s = none) (hpool : ∀ i, L.stepPool s i = none)
    (hjob : job ∈ s.jobs) : (s.vars job.task).mIsFinished = false := by
  by_contra hfin
  have hsatisfied := (h.stage job hjob).mp (by simpa using hfin)
  rcases List.mem_append.mp hjob with hjob | hjob
  · obtain ⟨i, hi⟩ := List.getElem?_of_mem hjob
    exact stepPool_ne_none hi (by simp [hsatisfied]) (by simp [hsatisfied]) (hpool i)
  · rcases main_of_stepMain hmain with hmain | ⟨job₀, rest, hmain, hwaiting, -⟩
    · simp [State.mainJobs, hmain] at hjob
    · simp only [State.mainJobs, hmain, List.mem_cons, List.mem_map] at hjob
      rcases hjob with rfl | ⟨u, -, rfl⟩
      · simp [hwaiting] at hsatisfied
      · simp at hsatisfied

namespace Launched

/-- No launch is stuck whose dependencies are all dispatched, and earlier in the
list. -/
theorem not_stuck (h : Launched L order s)
    (hcls : (order.map fun t ↦ (L.decl t).cls).Nodup)
    (hsorted : ∀ l₁ t l₂, order = l₁ ++ t :: l₂ →
      ∀ d ∈ order, (L.decl d).cls ∈ L.dependsOn t → d ∈ l₁)
    (hdeps : L.DependenciesSent order) : ¬ L.Stuck s := by
  rintro ⟨⟨t₀, hsend, hskip₀, hunfinished₀⟩, hstuck⟩
  have horder : order.Nodup := hcls.of_map
  obtain ⟨sent, hflow⟩ := h.flow
  have hpool : ∀ i, L.stepPool s i = none := fun i ↦ hstuck (.pool i) rfl
  have hmain := main_of_stepMain (hstuck .main rfl)
  obtain rfl := hflow.sent_eq (hstuck .main rfl)
  obtain ⟨t, hfind⟩ : ∃ t, sent.find?
      (fun t ↦ !L.skipped t && !(s.vars t).mIsFinished) = some t := by
    rw [← Option.isSome_iff_exists, List.find?_isSome]
    exact ⟨t₀, (hflow.isSend t₀).mp hsend, by simp [hskip₀, hunfinished₀]⟩
  obtain ⟨ht, l₁, l₂, hsplit, hbefore⟩ := List.find?_eq_some_iff_append.mp hfind
  simp only [Bool.and_eq_true, Bool.not_eq_true'] at ht
  obtain ⟨hskip, hunfinished⟩ := ht
  have hmem : t ∈ sent := by simp [hsplit]
  have hfinished : ∀ d ∈ l₁, L.skipped d = false → (s.vars d).mIsFinished = true := by
    intro d hd hskip
    simpa [hskip] using hbefore d hd
  have hlatch : (s.vars t).mDepends = 0 := by
    have hsat : s.book.unsatisfied L t = 0 := by
      apply Book.unsatisfied_eq_zero_iff.mpr
      intro c hc
      obtain ⟨d, hd, hskipd, rfl⟩ := hdeps t hmem hskip c hc
      exact ⟨d, rfl, hfinished d (hsorted l₁ t l₂ hsplit d hd hc) hskipd⟩
    exact Nat.le_zero.mp (hsat ▸ h.bounded t (h.added t hmem))
  -- a job in front of the job of `t` would have finished
  have hfront : ∀ job ∈ s.jobs, ¬ [job.task, t].Sublist sent := by
    intro job hjob hpair
    have hfin := hfinished _ (mem_of_pair_sublist horder hsplit hpair)
      (hflow.mem_sent hjob).2
    simp [hflow.unfinished (hstuck .main rfl) hpool hjob] at hfin
  rcases hflow.left t hmem hskip with hfin | ⟨job, hjob, rfl⟩
  · simp [hunfinished] at hfin
  rcases List.mem_append.mp hjob with hjob | hjob
  · obtain ⟨i, hi⟩ := List.getElem?_of_mem hjob
    refine stepPool_ne_none hi ?_ (fun _ ↦ hlatch) (hpool i)
    intro hqueued
    refine mayBegin_of_forall_not_mem hi hqueued hflow.fifo ?_
    intro j hj
    obtain ⟨hlt, hi⟩ := List.getElem?_eq_some_iff.mp hi
    refine hfront j (List.mem_append_left _ (List.mem_of_mem_take hj)) ?_
    have hpair : [j.task, job.task].Sublist (s.pool.map Job.task) := by
      rw [← List.take_append_drop i s.pool, List.drop_eq_getElem_cons hlt, hi,
        List.map_append]
      exact (List.singleton_sublist.mpr (List.mem_map_of_mem hj)).append
        (List.singleton_sublist.mpr (by simp))
    exact hpair.trans (hflow.pool.trans List.filter_sublist)
  · rcases hmain with hmain | ⟨job₀, rest, hmain, hwaiting, hne⟩
    · simp [State.mainJobs, hmain] at hjob
    · simp only [State.mainJobs, hmain, List.mem_cons] at hjob
      rcases hjob with rfl | hjob
      · exact hne hlatch
      · refine hfront job₀ (by simp [State.jobs, State.mainJobs, hmain]) ?_
        have hpair : [job₀.task, job.task].Sublist (s.mainJobs.map Job.task) := by
          simp only [State.mainJobs, hmain, List.map_cons]
          exact .cons_cons _ (List.singleton_sublist.mpr (List.mem_map_of_mem hjob))
        exact hpair.trans (hflow.main.trans List.filter_sublist)

/-- Once every thread stands still, a dispatched task whose class of dependency
nobody dispatches is stuck. -/
theorem stuck_of_missing (h : Launched L order s)
    (hhalt : ∀ a : Action τ, a.internal = true → L.step s a = none) {t : τ}
    (ht : t ∈ order) (hskip : L.skipped t = false) {c : κ}
    (hc : c ∈ L.dependsOn t)
    (hmissing : ∀ d ∈ order, L.skipped d = false → (L.decl d).cls ≠ c) :
    L.Stuck s := by
  obtain ⟨sent, hflow⟩ := h.flow
  refine ⟨⟨t, ?_, hskip, ?_⟩, hhalt⟩
  · rw [hflow.isSend, hflow.sent_eq (hhalt .main rfl)]
    exact ht
  · -- otherwise `t` has run, with a finished task of the missing class
    by_contra hfin
    obtain ⟨-, -, hrunning⟩ := hflow.finished t (by simpa using hfin)
    have hsat := Book.unsatisfied_eq_zero_iff.mp (h.covered.running t hrunning)
    obtain ⟨d, hd, hdfin⟩ := hsat c hc
    obtain ⟨hsent, hskipd, -⟩ := hflow.finished d hdfin
    exact hmissing d (hflow.mem_order hsent) hskipd hd

end Launched

end

/-! ## Every launch ends -/

def Stage.work : Stage → ℕ
  | .queued => 4
  | .waiting => 3
  | .running => 2
  | .satisfied => 1

/-- The steps the main thread has left, with `n` tasks of its own so far. -/
def Control.work (n : ℕ) : Control τ → ℕ
  | .idle => 0
  | .sending rest _ => 7 * rest.length + 6 * n + 2
  | .between rest => 6 * rest.length + 1
  | .executing job rest => job.stage.work + 6 * rest.length + 1

def State.work (s : State τ κ) : ℕ :=
  (s.pool.map fun job ↦ job.stage.work).sum + s.main.work s.mMainThreadTasks.length

section

variable {s s' : State τ κ}

omit [DecidableEq κ] in
theorem work_stepRunnable {job : Job τ} {stage : Option Stage}
    (hstep : L.stepRunnable s job = some (s', stage)) :
    stage.elim 0 Stage.work < job.stage.work := by
  rcases Launch.stepRunnable_cases hstep with ⟨hstage, -, rfl⟩ |
    ⟨hstage, -, -, rfl⟩ | ⟨hstage, -, -, rfl⟩ | ⟨hstage, -, -, rfl⟩ |
    ⟨hstage, -, rfl⟩
  all_goals simp [hstage, Stage.work]

omit [DecidableEq κ] in
theorem work_stepPool {i : ℕ} (hstep : L.stepPool s i = some s') :
    s'.work < s.work := by
  obtain ⟨job, s₁, stage, p₁, p₂, hrun, hpool, -, -, hpool', -, hmain, hthread⟩ :=
    stepPool_split hstep
  have hless := work_stepRunnable hrun
  simp only [State.work, hpool, hpool', hmain, hthread, List.map_append,
    List.map_cons, List.sum_append, List.sum_cons]
  cases stage with
  | none =>
      simp only [Option.elim_none] at hless
      simp only [Option.map_none, Option.toList_none, List.map_nil, List.sum_nil]
      omega
  | some stage =>
      simp only [Option.elim_some] at hless
      simp only [Option.map_some, Option.toList_some, List.map_cons, List.map_nil,
        List.sum_cons, List.sum_nil]
      omega

omit [DecidableEq κ] in
theorem work_send {t : τ} {rest : List τ}
    (hmain : s.main = .sending (t :: rest) false) :
    State.work { L.send s t with main := .sending rest false } < s.work := by
  simp only [State.work, hmain, Launch.send_pool, Launch.send_mMainThreadTasks,
    Control.work, List.length_cons]
  cases hskip : L.skipped t with
  | true =>
      simp only [Launch.onPool, Launch.onMain, hskip, Bool.not_true, Bool.false_and]
      simp
  | false =>
      cases hthread : (L.decl t).runOnMainThread <;>
        simp [Launch.onPool, Launch.onMain, hskip, hthread, Stage.work] <;> omega

omit [DecidableEq κ] in
theorem work_stepMain (hstep : L.stepMain s = some s') : s'.work < s.work := by
  rcases Launch.stepMain_cases hstep with ⟨rest, hmain, rfl⟩ | ⟨hmain, rfl⟩ |
    ⟨t, rest, hmain, rfl⟩ | ⟨hmain, rfl⟩ | ⟨t, rest, hmain, rfl⟩ |
    ⟨job, rest, s₁, stage, hmain, hrun, hs'⟩
  · simp [State.work, State.emit, hmain, Control.work]
  · simp [State.work, hmain, Control.work]
  · exact work_send hmain
  · simp [State.work, hmain, Control.work]
  · simp only [State.work, hmain, Control.work, Stage.work, List.length_cons]
    omega
  · obtain ⟨hpool₁, -, -⟩ := Launch.stepRunnable_unchanged hrun
    have hless := work_stepRunnable hrun
    have hpool : s'.pool = s.pool := by rw [hs', ← hpool₁]
    simp only [State.work, hpool, hmain]
    apply Nat.add_lt_add_left
    cases stage with
    | none =>
        simp only [Option.elim_none] at hless
        simp only [hs', Control.work]
        omega
    | some stage =>
        simp only [Option.elim_some] at hless
        simp only [hs', Control.work]
        omega

theorem work_step {a : Action τ} (ha : a.internal = true)
    (hstep : L.step s a = some s') : s'.work < s.work := by
  cases a with
  | addTask t | start | executeTask t | call t => simp [Action.internal] at ha
  | main => exact work_stepMain hstep
  | pool i => exact work_stepPool hstep

end

/-! ## From `addTask` to `start` -/

/-- A dispatcher to which the tasks `ts` were added and nothing else happened. -/
structure Prepared (L : Launch τ κ) (ts : List τ) (s : State τ κ) : Prop where
  vars : s.vars = L.newTask
  sNewTasksHigh : s.sNewTasksHigh = []
  mAllTasks : s.mAllTasks = ts
  mClsAllTasks : s.mClsAllTasks = ts.map fun t ↦ (L.decl t).cls
  mFinishedTasks : s.mFinishedTasks = []
  mNeedWaitCount : 0 ≤ s.mNeedWaitCount
  mMainThreadTasks : s.mMainThreadTasks = []
  main : s.main = .idle
  pool : s.pool = []
  added : ∀ t, s.book.added t = ts.count t
  registered : s.book.Registered L

theorem prepared_foldl (L : Launch τ κ) (ts : List τ) :
    Prepared L ts (ts.foldl L.addTask L.newState) := by
  induction ts using List.reverseRecOn with
  | nil =>
      exact ⟨rfl, rfl, rfl, rfl, rfl, le_rfl, rfl, rfl, rfl, fun _ ↦ rfl,
        registered_newState⟩
  | append_singleton ts t ih =>
      rw [List.foldl_append, List.foldl_cons, List.foldl_nil]
      generalize ts.foldl L.addTask L.newState = s at ih
      have hbook := L.book_addTask s t
      constructor
      · rw [Launch.addTask_eq]
        simp [ih.vars, ih.mFinishedTasks]
      · rw [Launch.addTask_eq]
        exact ih.sNewTasksHigh
      · rw [Launch.addTask_eq]
        simp [ih.mAllTasks]
      · rw [Launch.addTask_eq]
        simp [ih.mClsAllTasks]
      · rw [Launch.addTask_eq]
        exact ih.mFinishedTasks
      · rw [Launch.addTask_eq]
        have hcount := ih.mNeedWaitCount
        simp only
        split <;> omega
      · rw [Launch.addTask_eq]
        exact ih.mMainThreadTasks
      · rw [Launch.addTask_eq]
        simp [ih.main, Control.listModified]
      · rw [Launch.addTask_eq]
        exact ih.pool
      · intro u
        rw [hbook]
        by_cases hut : u = t
        · simp [Book.enter, hut, ih.added]
        · simp [Book.enter, hut, Ne.symm hut, ih.added]
      · rw [hbook]
        exact ih.registered.enter _

/-- `start` accepts the list: the sort does not throw. -/
def Launch.Accepts (L : Launch τ κ) (ts : List τ) : Prop :=
  ∃ result, L.getSortResult (fun _ ↦ false) [] ts
    (ts.map fun t ↦ (L.decl t).cls) = .ok result

namespace Prepared

variable {ts high order : List τ} {s : State τ κ}

theorem book (h : Prepared L ts s) (hcls : ts.Nodup) :
    s.book.Bounded L ∧ s.book.Covered L := by
  have hlatch : ∀ t, s.book.mDepends t = (L.dependsOn t).length := by
    intro t
    simp [State.book, h.vars, Launch.newTask]
  have hrunning : ∀ t, s.book.isRunning t = false := by
    intro t
    simp [State.book, h.vars, Launch.newTask]
  have hnone : ∀ c, ¬ s.book.ClassFinished L c := by
    rintro c ⟨d, -, hd⟩
    simp [State.book, h.vars, Launch.newTask] at hd
  have hunsatisfied : ∀ t, s.book.unsatisfied L t = (L.dependsOn t).length := by
    intro t
    simp [Book.unsatisfied, hnone]
  refine ⟨?_, ?_, ?_, ?_⟩
  · intro t _
    rw [hlatch, hunsatisfied]
  · intro t _
    rw [hlatch, hunsatisfied]
  · intro t _
    rw [h.added]
    exact .inl (List.nodup_iff_count_le_one.mp hcls t)
  · intro t ht
    simp [hrunning] at ht

theorem flow (h : Prepared L ts s) {s' : State τ κ} (hvars : s'.vars = s.vars)
    (hpool : s'.pool = s.pool) (hmain : s'.mainJobs = [])
    (hunsent : s'.main.unsent = order)
    (hunmodified : ∀ rest, s'.main ≠ .sending rest true) :
    Flow L order [] s' := by
  have hjobs : s'.jobs = [] := by rw [State.jobs, hpool, h.pool, hmain]; rfl
  constructor
  · rw [hunsent, List.nil_append]
  · exact hunmodified
  · simp [hpool, h.pool]
  · simp [hmain]
  · simp [hvars, h.vars, Launch.newTask]
  · simp [hvars, h.vars, Launch.newTask]
  · simp
  · simp [hjobs]
  · simp [hjobs]
  · simp [hpool, h.pool]

theorem launched_start (h : Prepared L ts s)
    (hcls : (ts.map fun t ↦ (L.decl t).cls).Nodup)
    (hsort : L.getSortResult (fun _ ↦ false) [] ts
      (ts.map fun t ↦ (L.decl t).cls) = .ok (high, order)) :
    Launched L order (L.start s) := by
  obtain ⟨hperm, -⟩ := Launch.getSortResult_spec (fun _ ↦ rfl) hcls hsort
  have hsort' : L.getSortResult (fun t ↦ (s.vars t).mIsSend) s.sNewTasksHigh
      s.mAllTasks s.mClsAllTasks = .ok (high, order) := by
    rw [h.vars, h.sNewTasksHigh, h.mAllTasks, h.mClsAllTasks]
    exact hsort
  have hbook : (L.start s).book = s.book := by
    have hstep : L.step s .start = some (L.start s) := by simp [Launch.step, h.main]
    exact L.book_step s hstep
  obtain ⟨hbounded, hcovered⟩ := h.book hcls.of_map
  suffices hflow : Flow L order [] (L.start s) by
    refine ⟨⟨[], hflow⟩, ?_, ?_, ?_, ?_⟩ <;> rw [hbook]
    · intro t ht
      rw [h.added]
      exact List.count_pos_iff.mpr (hperm.mem_iff.mp ht)
    · exact h.registered
    · exact hbounded
    · exact hcovered
  rcases Launch.start_cases L s with ⟨heq, hnil | ⟨e, herror⟩⟩ |
    ⟨-, high', tasks, hok, ⟨hneg, heq⟩ | ⟨-, heq⟩⟩
  · rw [heq]
    have hts : ts = [] := h.mAllTasks ▸ hnil
    have horder : order = [] := (hts ▸ hperm).eq_nil
    apply h.flow rfl rfl
    · simp [State.mainJobs, h.main]
    · simp [h.main, Control.unsent, horder]
    · simp [h.main]
  · simp [hsort'] at herror
  · have hcount := h.mNeedWaitCount
    omega
  · obtain ⟨-, rfl⟩ : high = high' ∧ order = tasks := by simpa [hsort'] using hok
    rw [heq]
    refine h.flow ?_ ?_ ?_ ?_ ?_
    · rfl
    · rfl
    · simp [State.mainJobs, h.mMainThreadTasks]
    · simp [Control.unsent]
    · simp

end Prepared

section

variable (L) {ts : List τ}

theorem run_addTasks (ts : List τ) (s : State τ κ) :
    run L.step s (ts.map .addTask) = some (ts.foldl L.addTask s) := by
  induction ts generalizing s with
  | nil => rfl
  | cons t ts ih => exact ih (L.addTask s t)

/-- The runs of a launch are the runs from the state that `start` leaves. -/
theorem run_launch (as : List (Action τ)) :
    run L.step L.newState (ts.map .addTask ++ .start :: as) =
      run L.step (L.start (ts.foldl L.addTask L.newState)) as := by
  have hmain := (prepared_foldl L ts).main
  rw [run_append, run_addTasks, Option.bind_some]
  simp [run, Launch.step, hmain]

/-- A launch of tasks of distinct classes without callbacks never gets stuck, if
and only if every class that a dispatched task depends on is the class of a
dispatched task. -/
theorem never_stuck_iff (hcls : (ts.map fun t ↦ (L.decl t).cls).Nodup)
    (hcall : ∀ t ∈ ts, (L.decl t).needCall = false) (haccepts : L.Accepts ts) :
    (∀ as s, (∀ a ∈ as, Action.internal a = true) →
      run L.step L.newState (ts.map .addTask ++ .start :: as) = some s →
        ¬ L.Stuck s) ↔ L.DependenciesSent ts := by
  obtain ⟨⟨high, order⟩, hsort⟩ := haccepts
  obtain ⟨hperm, hsorted⟩ := Launch.getSortResult_spec (fun _ ↦ rfl) hcls hsort
  have hcls' : (order.map fun t ↦ (L.decl t).cls).Nodup :=
    (hperm.map _).nodup_iff.mpr hcls
  have hcall' : ∀ t ∈ order, (L.decl t).needCall = false :=
    fun t ht ↦ hcall t (hperm.mem_iff.mp ht)
  set s₀ := L.start (ts.foldl L.addTask L.newState) with hs₀
  have hstart : Launched L order s₀ := (prepared_foldl L ts).launched_start hcls hsort
  have hlaunched : ∀ as s, (∀ a ∈ as, Action.internal a = true) →
      run L.step s₀ as = some s → Launched L order s := by
    intro as s has hrun
    refine run_invariant (C := fun _ a ↦ Action.internal a = true) ?_ hstart
      (stepsMeet_of_forall_mem has) hrun
    intro u a v hu ha hstep
    exact hu.step hcls' hcall' ha hstep
  constructor
  · intro hnever t ht hskip c hc
    by_contra! hmissing
    have hwork : ∀ (u : State τ κ) a v, Action.internal a = true →
        L.step u a = some v → v.work < u.work :=
      fun u a v ha hstep ↦ work_step ha hstep
    obtain ⟨as, s, has, hrun, hhalt⟩ := exists_halting_run State.work hwork s₀
    apply hnever as s has
    · rw [run_launch, hrun]
    · refine (hlaunched as s has hrun).stuck_of_missing hhalt
        (hperm.mem_iff.mpr ht) hskip hc ?_
      intro d hd
      exact hmissing d (hperm.mem_iff.mp hd)
  · intro hdeps as s has hrun
    rw [run_launch] at hrun
    refine (hlaunched as s has hrun).not_stuck hcls' ?_ ?_
    · intro l₁ t l₂ hsplit d hd
      exact hsorted l₁ t l₂ hsplit d (hperm.mem_iff.mp hd)
    · intro t ht hskip c hc
      obtain ⟨d, hd, hrest⟩ := hdeps t (hperm.mem_iff.mp ht) hskip c hc
      exact ⟨d, hperm.mem_iff.mpr hd, hrest⟩

end

theorem never_stuck_iff_join :
    (([0, 1, 2] : List (Fin 3)).map fun t ↦ (join.decl t).cls).Nodup ∧
    (∀ t ∈ ([0, 1, 2] : List (Fin 3)), (join.decl t).needCall = false) ∧
    join.Accepts [0, 1, 2] ∧
    ((∀ as s, (∀ a ∈ as, Action.internal a = true) →
      run join.step join.newState ([0, 1, 2].map Action.addTask ++ Action.start :: as) = some s →
        ¬ join.Stuck s) ↔ join.DependenciesSent [0, 1, 2]) := by
  have hcls : (([0, 1, 2] : List (Fin 3)).map fun t ↦ (join.decl t).cls).Nodup := by
    decide
  have hcall : ∀ t ∈ ([0, 1, 2] : List (Fin 3)), (join.decl t).needCall = false := by
    decide
  have haccepts : join.Accepts [0, 1, 2] := ⟨_, rfl⟩
  exact ⟨hcls, hcall, haccepts, never_stuck_iff join hcls hcall haccepts⟩

/-- `1` depends on `0`; in this process `0` is skipped and `1` is not. -/
def sideProcess : Launch (Fin 2) (Fin 2) where
  decl t := { cls := t
              dependsOn := if t = 1 then some [0] else none
              onlyInMainProcess := decide (t = 0) }
  getSimpleName c := toString c
  isMainProcess := false

/-- The dependency is skipped without a notification, so the other task waits
forever. -/
theorem stuck_after_skip :
    (([0, 1] : List (Fin 2)).map fun t ↦ (sideProcess.decl t).cls).Nodup ∧
    (∀ t ∈ ([0, 1] : List (Fin 2)), (sideProcess.decl t).needCall = false) ∧
    sideProcess.Accepts [0, 1] ∧
    ∃ s, run sideProcess.step sideProcess.newState
        ([0, 1].map Action.addTask ++ Action.start :: [.main, .main, .main, .main, .pool 0]) =
          some s ∧ sideProcess.Stuck s := by
  refine ⟨by decide, by decide, ⟨_, rfl⟩, _, rfl, ⟨1, rfl, rfl, rfl⟩, ?_⟩
  intro a ha
  cases a with
  | addTask t | start | executeTask t | call t => simp [Action.internal] at ha
  | main => rfl
  | pool i => cases i <;> rfl

end HiApp.LaunchStarter
