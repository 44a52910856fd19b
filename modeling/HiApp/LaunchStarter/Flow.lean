import HiApp.LaunchStarter.Book

/-!
# From `start` to the last task

After `start` has sorted the list, the main thread sends the tasks in order and
then executes its own, while the pools execute theirs.  `Flow` says where every
task of the list is: still to be sent, a job of a thread, or finished.
-/

namespace HiApp.LaunchStarter

variable {τ κ : Type*}

def Job.next (job : Job τ) : List (Job τ) :=
  (job.stage.next.map fun stage ↦ { job with stage := stage }).toList

def Control.unsent : Control τ → List τ
  | .sending rest _ => rest
  | .idle | .between _ | .executing _ _ => []

/-- The jobs of the main thread, at work or to come. -/
def State.mainJobs (s : State τ κ) : List (Job τ) :=
  match s.main with
  | .idle => []
  | .sending _ _ => s.mMainThreadTasks.map fun t ↦ { task := t }
  | .between rest => rest.map fun t ↦ { task := t }
  | .executing job rest => job :: rest.map fun t ↦ { task := t }

def State.jobs (s : State τ κ) : List (Job τ) := s.pool ++ s.mainJobs

def Action.internal : Action τ → Bool
  | .main | .pool _ => true
  | .addTask _ | .start | .executeTask _ | .call _ => false

namespace Launch

variable (L : Launch τ κ)

def onPool (t : τ) : Bool := !L.skipped t && !(L.decl t).runOnMainThread

def onMain (t : τ) : Bool := !L.skipped t && (L.decl t).runOnMainThread

/-- A CPU job that has not begun holds the later ones back. -/
def Fifo (j k : Job τ) : Prop :=
  (L.decl j.task).runOn = .cpu → (L.decl k.task).runOn = .cpu →
    j.stage = .queued → k.stage = .queued

end Launch

/-- Where the tasks of the sorted list `order` are, after `sent` were sent. -/
structure Flow (L : Launch τ κ) (order sent : List τ) (s : State τ κ) : Prop where
  split : order = sent ++ s.main.unsent
  unmodified : ∀ rest, s.main ≠ .sending rest true
  pool : (s.pool.map Job.task).Sublist (sent.filter L.onPool)
  main : (s.mainJobs.map Job.task).Sublist (sent.filter L.onMain)
  isSend : ∀ t, (s.vars t).mIsSend = true ↔ t ∈ sent
  finished : ∀ t, (s.vars t).mIsFinished = true →
    t ∈ sent ∧ L.skipped t = false ∧ (s.vars t).mIsRunning = true
  left : ∀ t ∈ sent, L.skipped t = false →
    (s.vars t).mIsFinished = true ∨ ∃ job ∈ s.jobs, job.task = t
  stage : ∀ job ∈ s.jobs, (s.vars job.task).mIsFinished = true ↔
    job.stage = .satisfied
  running : ∀ job ∈ s.jobs, job.stage = .running →
    (s.vars job.task).mIsRunning = true
  fifo : s.pool.Pairwise L.Fifo

namespace Flow

variable {L : Launch τ κ} {order sent : List τ} {s s' : State τ κ}

theorem mem_sent (h : Flow L order sent s) {job : Job τ} (hjob : job ∈ s.jobs) :
    job.task ∈ sent ∧ L.skipped job.task = false := by
  rcases List.mem_append.mp hjob with hjob | hjob
  · have hmem := h.pool.subset (List.mem_map_of_mem hjob)
    rw [List.mem_filter] at hmem
    exact ⟨hmem.1, by simpa [Launch.onPool] using (Bool.and_eq_true_iff.mp hmem.2).1⟩
  · have hmem := h.main.subset (List.mem_map_of_mem hjob)
    rw [List.mem_filter] at hmem
    exact ⟨hmem.1, by simpa [Launch.onMain] using (Bool.and_eq_true_iff.mp hmem.2).1⟩

theorem mem_order (h : Flow L order sent s) {t : τ} (ht : t ∈ sent) : t ∈ order :=
  h.split ▸ List.mem_append_left _ ht

theorem nodup_jobs (h : Flow L order sent s) (horder : order.Nodup) :
    (s.jobs.map Job.task).Nodup := by
  have hsent : sent.Nodup := by
    rw [h.split] at horder
    exact (List.nodup_append.mp horder).1
  rw [State.jobs, List.map_append]
  refine List.Nodup.append (h.pool.nodup (hsent.filter _))
    (h.main.nodup (hsent.filter _)) ?_
  intro t hpool hmain
  have hp := (List.mem_filter.mp (h.pool.subset hpool)).2
  have hm := (List.mem_filter.mp (h.main.subset hmain)).2
  simp only [Launch.onPool, Launch.onMain, Bool.and_eq_true, Bool.not_eq_true'] at hp hm
  simp [hp.2] at hm

theorem congr (h : Flow L order sent s) (hunsent : s'.main.unsent = s.main.unsent)
    (hunmodified : ∀ rest, s'.main ≠ .sending rest true)
    (hpool : s'.pool = s.pool) (hmain : s'.mainJobs = s.mainJobs)
    (hvars : s'.vars = s.vars) : Flow L order sent s' := by
  have hjobs : s'.jobs = s.jobs := by rw [State.jobs, hpool, hmain, State.jobs]
  constructor
  · rw [hunsent]
    exact h.split
  · exact hunmodified
  · rw [hpool]
    exact h.pool
  · rw [hmain]
    exact h.main
  · rw [hvars]
    exact h.isSend
  · rw [hvars]
    exact h.finished
  · rw [hvars, hjobs]
    exact h.left
  · rw [hvars, hjobs]
    exact h.stage
  · rw [hvars, hjobs]
    exact h.running
  · rw [hpool]
    exact h.fifo

end Flow

/-! ## Sending -/

section

variable [DecidableEq τ] {L : Launch τ κ} {order sent : List τ} {s : State τ κ}
  {t : τ}

theorem Launch.markTaskDone_vars : (L.markTaskDone s t).vars = s.vars := by
  unfold Launch.markTaskDone
  split
  · simp only
    split <;> rfl
  · rfl

theorem Launch.send_vars : (L.send s t).vars =
    Function.update s.vars t { s.vars t with mIsSend := true } := by
  have hvars : (if L.skipped t then L.markTaskDone s t
      else L.sentTaskReal s t).vars = s.vars := by
    split
    · exact Launch.markTaskDone_vars
    · unfold Launch.sentTaskReal
      split <;> rfl
  rw [Launch.send]
  simp only [State.setSend, State.modify, hvars]

theorem Launch.send_pool : (L.send s t).pool =
    s.pool ++ if L.onPool t then [{ task := t }] else [] := by
  have hpool : (L.send s t).pool =
      (if L.skipped t then L.markTaskDone s t else L.sentTaskReal s t).pool := rfl
  rw [hpool]
  cases hskip : L.skipped t with
  | true => simp [Launch.onPool, hskip, (Launch.markTaskDone_unchanged t).1]
  | false =>
      cases hmain : (L.decl t).runOnMainThread <;>
        simp [Launch.onPool, Launch.sentTaskReal, hskip, hmain]

theorem Launch.send_mMainThreadTasks : (L.send s t).mMainThreadTasks =
    s.mMainThreadTasks ++ if L.onMain t then [t] else [] := by
  have hmain : (L.send s t).mMainThreadTasks =
      (if L.skipped t then L.markTaskDone s t
        else L.sentTaskReal s t).mMainThreadTasks := rfl
  rw [hmain]
  cases hskip : L.skipped t with
  | true => simp [Launch.onMain, hskip, (Launch.markTaskDone_unchanged t).2.2]
  | false =>
      cases hmain : (L.decl t).runOnMainThread <;>
        simp [Launch.onMain, Launch.sentTaskReal, hskip, hmain]

theorem Launch.send_flags (u : τ) :
    ((L.send s t).vars u).mIsFinished = (s.vars u).mIsFinished ∧
      ((L.send s t).vars u).mIsRunning = (s.vars u).mIsRunning := by
  rw [Launch.send_vars]
  by_cases hut : u = t
  · simp [hut]
  · simp [hut]

theorem mainJobs_send {rest : List τ} (hmain : s.main = .sending (t :: rest) false) :
    State.mainJobs { L.send s t with main := .sending rest false } =
      s.mainJobs ++ if L.onMain t then [{ task := t }] else [] := by
  have hmap : State.mainJobs { L.send s t with main := .sending rest false } =
      (L.send s t).mMainThreadTasks.map fun t ↦ { task := t } := rfl
  rw [hmap, Launch.send_mMainThreadTasks]
  cases L.onMain t <;> simp [State.mainJobs, hmain]

theorem mem_jobs_send {rest : List τ} (hmain : s.main = .sending (t :: rest) false)
    {job : Job τ} :
    job ∈ State.jobs { L.send s t with main := .sending rest false } ↔
      job ∈ s.jobs ∨ L.skipped t = false ∧ job = { task := t } := by
  rw [State.jobs, mainJobs_send hmain]
  simp only [Launch.send_pool, State.jobs, List.mem_append]
  cases hskip : L.skipped t <;> cases hthread : (L.decl t).runOnMainThread <;>
    simp [Launch.onPool, Launch.onMain, hskip, hthread] <;> tauto

theorem Flow.send (h : Flow L order sent s) (horder : order.Nodup) {rest : List τ}
    (hmain : s.main = .sending (t :: rest) false) :
    Flow L order (sent ++ [t]) { L.send s t with main := .sending rest false } := by
  have hsplit : order = sent ++ t :: rest := by
    simpa [hmain, Control.unsent] using h.split
  have ht : t ∉ sent := by
    rw [hsplit] at horder
    intro hmem
    exact List.disjoint_of_nodup_append horder hmem List.mem_cons_self
  have hfresh : (s.vars t).mIsFinished = false := by
    by_contra hfin
    exact ht (h.finished t (by simpa using hfin)).1
  constructor
  · simpa [Control.unsent] using hsplit
  · simp
  · simp only [Launch.send_pool, List.map_append, List.filter_append]
    apply h.pool.append
    cases hp : L.onPool t <;> simp [hp]
  · rw [mainJobs_send hmain, List.map_append, List.filter_append]
    apply h.main.append
    cases hm : L.onMain t <;> simp [hm]
  · intro u
    simp only [Launch.send_vars]
    by_cases hut : u = t
    · simp [hut]
    · simpa [hut] using h.isSend u
  · intro u hu
    simp only [(Launch.send_flags u).1, (Launch.send_flags u).2] at hu ⊢
    obtain ⟨hmem, hrest⟩ := h.finished u hu
    exact ⟨List.mem_append_left _ hmem, hrest⟩
  · intro u hu hskip
    simp only [(Launch.send_flags u).1, mem_jobs_send hmain]
    rcases List.mem_append.mp hu with hu | hu
    · rcases h.left u hu hskip with hfin | ⟨job, hjob, rfl⟩
      · exact .inl hfin
      · exact .inr ⟨job, .inl hjob, rfl⟩
    · obtain rfl := List.mem_singleton.mp hu
      exact .inr ⟨{ task := u }, .inr ⟨hskip, rfl⟩, rfl⟩
  · intro job hjob
    simp only [(Launch.send_flags job.task).1]
    rcases (mem_jobs_send hmain).mp hjob with hjob | ⟨-, rfl⟩
    · exact h.stage job hjob
    · simp [hfresh]
  · intro job hjob hrunning
    simp only [(Launch.send_flags job.task).2]
    rcases (mem_jobs_send hmain).mp hjob with hjob | ⟨-, rfl⟩
    · exact h.running job hjob hrunning
    · simp at hrunning
  · simp only [Launch.send_pool]
    rw [List.pairwise_append]
    refine ⟨h.fifo, ?_, ?_⟩
    · split <;> simp
    · intro j _ k hk _ _ _
      split at hk
      · rw [List.mem_singleton.mp hk]
      · simp at hk

end

/-! ## Steps of jobs -/

/-- What a step of a job does to the flags of the tasks. -/
structure Advances (job : Job τ) (s s' : State τ κ) : Prop where
  isSend : ∀ u, (s'.vars u).mIsSend = (s.vars u).mIsSend
  finished : ∀ u, (s'.vars u).mIsFinished = true ↔
    (s.vars u).mIsFinished = true ∨ u = job.task ∧ job.stage = .running
  running : ∀ u, (s'.vars u).mIsRunning = true ↔
    (s.vars u).mIsRunning = true ∨ u = job.task ∧ job.stage = .waiting

theorem advances_stepRunnable [DecidableEq τ] {L : Launch τ κ} {job : Job τ}
    {s s' : State τ κ} {stage : Option Stage}
    (hcall : (L.decl job.task).needCall = false)
    (hstep : L.stepRunnable s job = some (s', stage)) :
    Advances job s s' ∧ stage = job.stage.next := by
  rcases Launch.stepRunnable_cases hstep with ⟨hstage, rfl, rfl⟩ |
    ⟨hstage, -, rfl, rfl⟩ | ⟨hstage, -, rfl, rfl⟩ | ⟨-, hcall', -⟩ |
    ⟨hstage, rfl, rfl⟩
  · refine ⟨⟨?_, ?_, ?_⟩, by rw [hstage]; rfl⟩
    all_goals
      intro u
      by_cases hu : u = job.task <;>
        simp [State.setWaiting, State.modify, hu, hstage]
  · refine ⟨⟨?_, ?_, ?_⟩, by rw [hstage]; rfl⟩
    all_goals
      intro u
      by_cases hu : u = job.task <;>
        simp [State.setRunning, State.modify, State.emit, hu, hstage]
  · refine ⟨⟨?_, ?_, ?_⟩, by rw [hstage]; rfl⟩
    all_goals
      intro u
      by_cases hu : u = job.task <;>
        simp [Launch.satisfyChildren_eq, State.setFinished, State.modify, hu, hstage]
  · simp [hcall] at hcall'
  · refine ⟨⟨?_, ?_, ?_⟩, by rw [hstage]; rfl⟩
    all_goals
      intro u
      simp [Launch.markTaskDone_vars, hstage]

theorem stepPool_split [DecidableEq τ] {L : Launch τ κ} {s s' : State τ κ} {i : ℕ}
    (hstep : L.stepPool s i = some s') :
    ∃ job s₁ stage p₁ p₂, L.stepRunnable s job = some (s₁, stage) ∧
      s.pool = p₁ ++ job :: p₂ ∧ s.pool.take i = p₁ ∧
      (job.stage = .queued → L.mayBegin s.pool i job.task = true) ∧
      s'.pool = p₁ ++
        ((stage.map fun stage ↦ { job with stage := stage }).toList ++ p₂) ∧
      s'.vars = s₁.vars ∧ s'.main = s.main ∧
      s'.mMainThreadTasks = s.mMainThreadTasks := by
  obtain ⟨job, s₁, stage, hget, hbegin, hrun, hs'⟩ := Launch.stepPool_cases hstep
  obtain ⟨hlt, hi⟩ := List.getElem?_eq_some_iff.mp hget
  obtain ⟨hpool₁, hmain₁, hthread₁⟩ := Launch.stepRunnable_unchanged hrun
  refine ⟨job, s₁, stage, s.pool.take i, s.pool.drop (i + 1), hrun, ?_, rfl, hbegin,
    ?_, ?_, ?_, ?_⟩
  · rw [← hi, ← List.drop_eq_getElem_cons hlt, List.take_append_drop]
  · rw [hs']
    cases stage with
    | some stage => simp [hpool₁, List.set_eq_take_append_cons_drop, hlt]
    | none => simp [hpool₁, List.eraseIdx_eq_take_drop_succ]
  · rw [hs']
  · rw [hs', ← hmain₁]
  · rw [hs', ← hthread₁]

theorem Job.mem_next {job job' : Job τ} :
    job' ∈ job.next ↔ job'.task = job.task ∧ job.stage.next = some job'.stage := by
  obtain ⟨t, stage⟩ := job
  obtain ⟨t', stage'⟩ := job'
  simp only [Job.next, Option.mem_toList, Option.map_eq_some_iff, Job.mk.injEq]
  constructor
  · rintro ⟨st, hst, rfl, rfl⟩
    exact ⟨rfl, hst⟩
  · rintro ⟨rfl, hst⟩
    exact ⟨stage', hst, rfl, rfl⟩

theorem Job.next_sublist (job : Job τ) : (job.next.map Job.task).Sublist [job.task] := by
  obtain ⟨t, stage⟩ := job
  cases stage <;> simp [Job.next, Stage.next]

namespace Flow

variable {L : Launch τ κ} {order sent : List τ} {s s' : State τ κ}

/-- One job takes a step and all others stay. -/
theorem advance (h : Flow L order sent s) (horder : order.Nodup) {job : Job τ}
    {l₁ l₂ : List (Job τ)} (hjobs : s.jobs = l₁ ++ job :: l₂)
    (hjobs' : s'.jobs = l₁ ++ (job.next ++ l₂)) (hadvances : Advances job s s')
    (hunsent : s'.main.unsent = s.main.unsent)
    (hunmodified : ∀ rest, s'.main ≠ .sending rest true)
    (hpool : (s'.pool.map Job.task).Sublist (s.pool.map Job.task))
    (hmain : (s'.mainJobs.map Job.task).Sublist (s.mainJobs.map Job.task))
    (hfifo : s'.pool.Pairwise L.Fifo) : Flow L order sent s' := by
  have hnodup := h.nodup_jobs horder
  rw [hjobs, List.map_append, List.map_cons] at hnodup
  have hmem : job ∈ s.jobs := by simp [hjobs]
  have hcases : ∀ job' ∈ s'.jobs,
      job' ∈ s.jobs ∧ job'.task ≠ job.task ∨ job' ∈ job.next := by
    intro job' hjob'
    have hother : ∀ {l : List (Job τ)}, job' ∈ l → job.task ∉ l.map Job.task →
        job'.task ≠ job.task :=
      fun hl hnot heq ↦ hnot (heq ▸ List.mem_map_of_mem hl)
    obtain ⟨-, hnodup₂, hdisjoint⟩ := List.nodup_append.mp hnodup
    rw [hjobs', List.mem_append, List.mem_append] at hjob'
    rcases hjob' with hjob' | hjob' | hjob'
    · refine .inl ⟨by simp [hjobs, hjob'], hother hjob' ?_⟩
      intro hin
      exact hdisjoint _ hin _ List.mem_cons_self rfl
    · exact .inr hjob'
    · exact .inl ⟨by simp [hjobs, hjob'],
        hother hjob' (List.nodup_cons.mp hnodup₂).1⟩
  constructor
  · rw [hunsent]
    exact h.split
  · exact hunmodified
  · exact hpool.trans h.pool
  · exact hmain.trans h.main
  · intro u
    rw [hadvances.isSend]
    exact h.isSend u
  · intro u hu
    rcases (hadvances.finished u).mp hu with hu | ⟨rfl, hstage⟩
    · obtain ⟨hsent, hskip, hrunning⟩ := h.finished u hu
      exact ⟨hsent, hskip, (hadvances.running u).mpr (.inl hrunning)⟩
    · obtain ⟨hsent, hskip⟩ := h.mem_sent hmem
      exact ⟨hsent, hskip,
        (hadvances.running _).mpr (.inl (h.running job hmem hstage))⟩
  · intro u hu hskip
    rcases h.left u hu hskip with hfin | ⟨job', hjob', rfl⟩
    · exact .inl ((hadvances.finished u).mpr (.inl hfin))
    · rw [hjobs, List.mem_append, List.mem_cons] at hjob'
      rcases hjob' with hjob' | rfl | hjob'
      · exact .inr ⟨job', by simp [hjobs', hjob'], rfl⟩
      · cases hnext : job'.stage.next with
        | some stage =>
            refine .inr ⟨{ job' with stage := stage }, ?_, rfl⟩
            rw [hjobs', List.mem_append, List.mem_append]
            exact .inr (.inl (Job.mem_next.mpr ⟨rfl, hnext⟩))
        | none =>
            -- the job ends with its task finished
            have hstage : job'.stage = .satisfied := by
              cases hst : job'.stage <;> simp [hst, Stage.next] at hnext ⊢
            exact .inl ((hadvances.finished _).mpr (.inl ((h.stage job' hmem).mpr hstage)))
      · exact .inr ⟨job', by simp [hjobs', hjob'], rfl⟩
  · intro job' hjob'
    rw [hadvances.finished]
    rcases hcases job' hjob' with ⟨hold, hne⟩ | hnext
    · simpa [hne] using h.stage job' hold
    · obtain ⟨htask, hst⟩ := Job.mem_next.mp hnext
      have hstage := h.stage job hmem
      rw [htask, hstage]
      cases hjob : job.stage <;> simp [hjob, Stage.next] at hst ⊢ <;> simp [← hst]
  · intro job' hjob' hrunning
    rw [hadvances.running]
    rcases hcases job' hjob' with ⟨hold, hne⟩ | hnext
    · exact .inl (h.running job' hold hrunning)
    · obtain ⟨htask, hst⟩ := Job.mem_next.mp hnext
      refine .inr ⟨htask, ?_⟩
      cases hjob : job.stage <;> simp [hjob, hrunning, Stage.next] at hst ⊢
  · exact hfifo

/-- CPU jobs begin in order. -/
theorem fifo_next {job : Job τ} {p₁ p₂ : List (Job τ)}
    (h : (p₁ ++ job :: p₂).Pairwise L.Fifo)
    (hbegin : job.stage = .queued → (L.decl job.task).runOn = .cpu →
      ∀ j ∈ p₁, (L.decl j.task).runOn = .cpu → j.stage ≠ .queued) :
    (p₁ ++ (job.next ++ p₂)).Pairwise L.Fifo := by
  obtain ⟨h₁, h₂, hcross⟩ := List.pairwise_append.mp h
  obtain ⟨hjob, h₂⟩ := List.pairwise_cons.mp h₂
  have hstarted : ∀ job' ∈ job.next, job'.stage ≠ .queued := by
    intro job' hjob' hqueued
    obtain ⟨-, hst⟩ := Job.mem_next.mp hjob'
    rw [hqueued] at hst
    cases hstage : job.stage <;> simp [hstage, Stage.next] at hst
  refine List.pairwise_append.mpr ⟨h₁, List.pairwise_append.mpr ⟨?_, h₂, ?_⟩, ?_⟩
  · obtain ⟨t, stage⟩ := job
    cases stage <;> simp [Job.next, Stage.next]
  · intro job' hjob' k _ _ _ hqueued
    exact absurd hqueued (hstarted job' hjob')
  · intro j hj k hk hcpu hcpu' hqueued
    rcases List.mem_append.mp hk with hk | hk
    · -- then `job` was held back by `j`
      obtain ⟨htask, -⟩ := Job.mem_next.mp hk
      rw [htask] at hcpu'
      have hheld := hcross j hj job List.mem_cons_self hcpu hcpu' hqueued
      exact absurd hqueued (hbegin hheld hcpu' j hj hcpu)
    · exact hcross j hj k (List.mem_cons_of_mem _ hk) hcpu hcpu' hqueued

variable [DecidableEq τ]

theorem stepPool (h : Flow L order sent s) (horder : order.Nodup)
    (hcall : ∀ t ∈ order, (L.decl t).needCall = false) {i : ℕ}
    (hstep : L.stepPool s i = some s') : Flow L order sent s' := by
  obtain ⟨job, s₁, stage, p₁, p₂, hrun, hpool, htake, hbegin, hpool', hvars, hmain,
    hthread⟩ := stepPool_split hstep
  have hmem : job ∈ s.jobs := by simp [State.jobs, hpool]
  obtain ⟨hadvances, rfl⟩ := advances_stepRunnable
    (hcall _ (h.mem_order (h.mem_sent hmem).1)) hrun
  have hmainJobs : s'.mainJobs = s.mainJobs := by
    simp only [State.mainJobs, hmain, hthread]
  have hjobs : s.jobs = p₁ ++ job :: (p₂ ++ s.mainJobs) := by
    simp [State.jobs, hpool]
  refine h.advance horder hjobs ?_ ?_ ?_ ?_ ?_ ?_ ?_
  · simp [State.jobs, hpool', hmainJobs, Job.next]
  · constructor <;> rw [hvars]
    · exact hadvances.isSend
    · exact hadvances.finished
    · exact hadvances.running
  · rw [hmain]
  · rw [hmain]
    exact h.unmodified
  · rw [hpool', hpool]
    simp only [List.map_append, List.map_cons]
    exact .append (.refl _) (job.next_sublist.append (.refl _))
  · rw [hmainJobs]
  · rw [hpool']
    apply fifo_next (hpool ▸ h.fifo)
    intro hqueued hcpu j hj hjcpu
    have hmay := hbegin hqueued
    simp only [Launch.mayBegin, hcpu, Bool.and_eq_true, List.all_eq_true, htake] at hmay
    simpa [hjcpu] using hmay.1 j hj

theorem stepMain (h : Flow L order sent s) (horder : order.Nodup)
    (hcall : ∀ t ∈ order, (L.decl t).needCall = false)
    (hstep : L.stepMain s = some s') : ∃ sent', Flow L order sent' s' := by
  rcases Launch.stepMain_cases hstep with ⟨rest, hmain, rfl⟩ | ⟨hmain, rfl⟩ |
    ⟨t, rest, hmain, rfl⟩ | ⟨hmain, rfl⟩ | ⟨t, rest, hmain, rfl⟩ |
    ⟨job, rest, s₁, stage, hmain, hrun, hs'⟩
  · exact absurd hmain (h.unmodified rest)
  · exact ⟨sent, h.congr (by simp [hmain, Control.unsent]) (by simp) rfl
      (by simp [State.mainJobs, hmain]) rfl⟩
  · exact ⟨sent ++ [t], h.send horder hmain⟩
  · exact ⟨sent, h.congr (by simp [hmain, Control.unsent]) (by simp) rfl
      (by simp [State.mainJobs, hmain]) rfl⟩
  · exact ⟨sent, h.congr (by simp [hmain, Control.unsent]) (by simp) rfl
      (by simp [State.mainJobs, hmain]) rfl⟩
  · refine ⟨sent, ?_⟩
    have hjobs : s.mainJobs = job :: rest.map fun t ↦ { task := t } := by
      rw [State.mainJobs, hmain]
    have hmem : job ∈ s.jobs := by simp [State.jobs, hjobs]
    obtain ⟨hadvances, rfl⟩ := advances_stepRunnable
      (hcall _ (h.mem_order (h.mem_sent hmem).1)) hrun
    obtain ⟨hpool₁, -, -⟩ := Launch.stepRunnable_unchanged hrun
    have hvars : s'.vars = s₁.vars := by rw [hs']
    have hpool' : s'.pool = s.pool := by rw [hs', ← hpool₁]
    have hmain' : s'.main = job.stage.next.elim (.between rest)
        fun stage ↦ .executing { job with stage := stage } rest := by
      cases hnext : job.stage.next <;> simp [hs', hnext]
    have hjobs' : s'.mainJobs = job.next ++ rest.map fun t ↦ { task := t } := by
      simp only [State.mainJobs, hmain', Job.next]
      cases job.stage.next <;> simp
    have hall : s.jobs = s.pool ++ job :: rest.map fun t ↦ { task := t } := by
      rw [State.jobs, hjobs]
    refine h.advance horder hall ?_ ?_ ?_ ?_ ?_ ?_ ?_
    · rw [State.jobs, hpool', hjobs']
    · constructor <;> rw [hvars]
      · exact hadvances.isSend
      · exact hadvances.finished
      · exact hadvances.running
    · rw [hmain, hmain']
      cases job.stage.next <;> rfl
    · intro rest'
      rw [hmain']
      cases job.stage.next <;> simp
    · rw [hpool']
    · rw [hjobs', hjobs, List.map_append, List.map_cons]
      exact job.next_sublist.append (.refl _)
    · rw [hpool']
      exact h.fifo

end Flow

end HiApp.LaunchStarter
