import HiApp.LaunchStarter.Process
import HiApp.LaunchStarter.History
import HiApp.LaunchStarter.Flow

/-!
# Tasks that run twice

Nothing that was sent is ever taken off `mAllTasks`, `mMainThreadTasks` or
`sNewTasksHigh`, and a second `start` sends and executes all of it again.  A task
is run at most once as long as every `start` finds it unsent and in one place
only.
-/

namespace HiApp.LaunchStarter

open Runs

variable {δ τ κ : Type*} [DecidableEq τ]

/-- The job has still to call `run()` of `t`. -/
def Job.ahead (t : τ) (job : Job τ) : ℕ :=
  if job.task = t ∧ (job.stage = .queued ∨ job.stage = .waiting) then 1 else 0

def Job.aheads (t : τ) (jobs : List (Job τ)) : ℕ := (jobs.map (Job.ahead t)).sum

/-- The runs of `t` that have happened or are with a pool. -/
def State.runs (t : τ) (s : State τ κ) : ℕ :=
  s.trace.count (.ran t) + Job.aheads t s.pool

namespace Process

def runs (t : τ) (p : Process δ τ κ) : ℕ :=
  p.trace.count (.ran t) + Job.aheads t (p.pool.map Prod.snd)

/-- The runs of `t` that have happened or for which a job is there. -/
def prepared (t : τ) (p : Process δ τ κ) : ℕ :=
  p.runs t + p.onMain.elim 0 fun d ↦ Job.aheads t (p.dispatcher d).mainJobs

end Process

namespace Launch

variable (L : Launch τ κ)

/-- How often `sendAndExecuteAsyncTasks` will still send `t`. -/
def toSend (t : τ) (main : Control τ) : ℕ :=
  if L.skipped t then 0 else main.unsent.count t

/-- The task was not sent yet, or is not sent in this process. -/
def Untouched (t : τ) (vars : τ → TaskVars) : Prop :=
  (vars t).mIsSend = false ∨ L.skipped t = true

end Launch

/-- What the dispatcher sends or executes for `t` comes from its list. -/
def State.Listed (t : τ) (s : State τ κ) : Prop :=
  t ∈ s.mMainThreadTasks ∨ t ∈ s.main.unsent → t ∈ s.mAllTasks

/-! ## Effects of the methods -/

/-- What a method of a dispatcher does with the runs of `t`.  It begins with `n`
and leaves `k` of them outside the main thread. -/
structure Effect (L : Launch τ κ) (t : τ) (s : State τ κ) (n : ℕ) (s' : State τ κ)
    (k : ℕ) : Prop where
  sum : k + Job.aheads t s'.mainJobs + L.toSend t s'.main ≤
    n + Job.aheads t s.mainJobs + L.toSend t s.main
  untouched : L.Untouched t s'.vars → L.Untouched t s.vars ∧
    k + Job.aheads t s'.mainJobs ≤ n + Job.aheads t s.mainJobs ∧
    (t ∈ s'.mMainThreadTasks → t ∈ s.mMainThreadTasks)
  listed : s.Listed t → s'.Listed t

namespace Job

@[simp] theorem aheads_nil (t : τ) : aheads t [] = 0 := rfl

@[simp] theorem aheads_cons (t : τ) (job : Job τ) (jobs : List (Job τ)) :
    aheads t (job :: jobs) = job.ahead t + aheads t jobs := by
  simp [aheads]

@[simp] theorem aheads_append (t : τ) (jobs jobs' : List (Job τ)) :
    aheads t (jobs ++ jobs') = aheads t jobs + aheads t jobs' := by
  simp [aheads]

@[simp] theorem aheads_map_task (t : τ) (l : List τ) :
    aheads t (l.map fun u ↦ { task := u }) = l.count t := by
  induction l with
  | nil => rfl
  | cons u l ih =>
      rw [List.map_cons, aheads_cons, ih, List.count_cons, Nat.add_comm]
      simp [ahead]

end Job

namespace Effect

variable {L : Launch τ κ} {t : τ} {s s' : State τ κ} {n k : ℕ}

theorem of_unchanged (hn : k ≤ n) (hjobs : s'.mainJobs = s.mainJobs)
    (hunsent : s'.main.unsent = s.main.unsent)
    (hsend : (s'.vars t).mIsSend = (s.vars t).mIsSend)
    (hthread : s'.mMainThreadTasks = s.mMainThreadTasks)
    (hall : s.mAllTasks ⊆ s'.mAllTasks) : Effect L t s n s' k := by
  have htoSend : L.toSend t s'.main = L.toSend t s.main := by
    simp [Launch.toSend, hunsent]
  constructor
  · rw [hjobs, htoSend]
    omega
  · intro h
    refine ⟨by simpa [Launch.Untouched, hsend] using h, ?_, ?_⟩
    · rw [hjobs]
      omega
    · rw [hthread]
      exact id
  · intro hlisted h
    rw [hthread, hunsent] at h
    exact hall (hlisted h)

end Effect

namespace Launch

variable {L : Launch τ κ} {t : τ} {s s' : State τ κ}

theorem markTaskDone_runs (u : τ) :
    (L.markTaskDone s u).runs t = s.runs t ∧
      (L.markTaskDone s u).mAllTasks = s.mAllTasks := by
  unfold markTaskDone
  split
  · simp only
    split <;> simp [State.runs, State.emit]
  · exact ⟨rfl, rfl⟩

theorem stepRunnable_runs {job : Job τ} {stage : Option Stage}
    (hstep : L.stepRunnable s job = some (s', stage)) :
    s'.runs t + Job.aheads t (stage.map fun stage ↦ { job with stage := stage }).toList ≤
        s.runs t + job.ahead t ∧
      (s'.vars t).mIsSend = (s.vars t).mIsSend ∧ s'.mAllTasks = s.mAllTasks := by
  rcases stepRunnable_cases hstep with ⟨hstage, rfl, rfl⟩ | ⟨hstage, -, rfl, rfl⟩ |
    ⟨hstage, -, rfl, rfl⟩ | ⟨hstage, -, rfl, rfl⟩ | ⟨hstage, rfl, rfl⟩
  · refine ⟨?_, ?_, rfl⟩
    · simp [State.runs, State.setWaiting, State.modify, Job.ahead, hstage]
    · by_cases ht : t = job.task <;> simp [State.setWaiting, State.modify, ht]
  · refine ⟨?_, ?_, rfl⟩
    · simp only [State.runs, State.setRunning, State.modify, State.emit,
        List.count_append, List.count_singleton, Option.map_some, Option.toList_some,
        Job.aheads_cons, Job.aheads_nil, Job.ahead, hstage]
      by_cases ht : job.task = t <;> simp [ht]
      omega
    · by_cases ht : t = job.task <;>
        simp [State.setRunning, State.modify, State.emit, ht]
  · rw [satisfyChildren_eq]
    refine ⟨?_, ?_, rfl⟩
    · simp [State.runs, State.setFinished, State.modify, Job.ahead]
    · by_cases ht : t = job.task <;> simp [State.setFinished, State.modify, ht]
  · exact ⟨by simp, rfl, rfl⟩
  · obtain ⟨hruns, hall⟩ := L.markTaskDone_runs (s := s) (t := t) job.task
    exact ⟨by simp [hruns], by rw [markTaskDone_vars], hall⟩

theorem send_runs (u : τ) : (L.send s u).runs t = s.runs t +
      Job.aheads t (if L.onPool u then [{ task := u }] else []) ∧
    (L.send s u).mAllTasks = s.mAllTasks := by
  have htrace : (L.send s u).trace.count (.ran t) = s.trace.count (.ran t) ∧
      (L.send s u).mAllTasks = s.mAllTasks := by
    simp only [send, State.setSend, State.modify]
    split
    · obtain ⟨hruns, hall⟩ := L.markTaskDone_runs (s := s) (t := t) u
      have hpool := (L.markTaskDone_unchanged (s := s) u).1
      simp only [State.runs, hpool] at hruns
      exact ⟨by omega, hall⟩
    · unfold sentTaskReal
      split <;> exact ⟨rfl, rfl⟩
  simp only [State.runs, htrace.1, send_pool, Job.aheads_append]
  exact ⟨by omega, htrace.2⟩

/-- The next task of the list is sent: its run moves from `toSend` to a job, and
it is marked. -/
theorem effect_send {u : τ} {rest : List τ}
    (hmain : s.main = .sending (u :: rest) false) :
    Effect L t s (s.runs t) { L.send s u with main := .sending rest false }
      ((L.send s u).runs t) := by
  obtain ⟨hruns, hall⟩ := send_runs (L := L) (s := s) (t := t) u
  have hunsent : s.main.unsent = u :: rest := by rw [hmain]; rfl
  by_cases htu : t = u
  · subst htu
    have hmoved : Job.aheads t (if L.onPool t then [{ task := t }] else []) +
        Job.aheads t (if L.onMain t then [{ task := t }] else []) =
          if L.skipped t then 0 else 1 := by
      cases hskip : L.skipped t <;> cases hthread : (L.decl t).runOnMainThread <;>
        simp [onPool, onMain, hskip, hthread, Job.ahead]
    constructor
    · rw [mainJobs_send hmain, hruns, Job.aheads_append]
      simp only [toSend, hmain, Control.unsent, List.count_cons_self]
      cases hskip : L.skipped t <;> simp only [hskip] at hmoved ⊢ <;> simp at hmoved ⊢
      all_goals omega
    · intro huntouched
      have hskip : L.skipped t = true := by
        simpa [Untouched, send_vars] using huntouched
      rw [mainJobs_send hmain, hruns, Job.aheads_append]
      simp only [hskip, if_true] at hmoved
      refine ⟨.inr hskip, by omega, ?_⟩
      simp [send_mMainThreadTasks, onMain, hskip]
    · intro hlisted _
      simp only [hall]
      exact hlisted (.inr (by simp [hunsent]))
  · have hpool : Job.aheads t (if L.onPool u then [{ task := u }] else []) = 0 := by
      split <;> simp [Job.ahead, Ne.symm htu]
    have hthread : Job.aheads t (if L.onMain u then [{ task := u }] else []) = 0 := by
      split <;> simp [Job.ahead, Ne.symm htu]
    have hmem : t ∈ (L.send s u).mMainThreadTasks ↔ t ∈ s.mMainThreadTasks := by
      rw [send_mMainThreadTasks]
      split <;> simp [htu]
    constructor
    · rw [mainJobs_send hmain, hruns, Job.aheads_append, hpool, hthread]
      simp [toSend, hmain, Control.unsent, Ne.symm htu]
    · intro huntouched
      rw [mainJobs_send hmain, hruns, Job.aheads_append, hpool, hthread]
      exact ⟨by simpa [Untouched, send_vars, htu] using huntouched, by omega, hmem.mp⟩
    · intro hlisted h
      simp only [hall]
      apply hlisted
      rcases h with h | h
      · exact .inl (hmem.mp h)
      · exact .inr (by simpa [hunsent] using .inr h)

theorem effect_stepMain (hstep : L.stepMain s = some s') :
    Effect L t s (s.runs t) s' (s'.runs t) := by
  obtain ⟨rest, hmain, rfl⟩ | ⟨hmain, rfl⟩ | ⟨u, rest, hmain, rfl⟩ | ⟨hmain, rfl⟩ |
    ⟨u, rest, hmain, rfl⟩ | ⟨job, rest, s₁, stage, hmain, hrun, rfl⟩ :=
      stepMain_cases hstep
  · constructor
    · simp [State.runs, State.emit, State.mainJobs, toSend, Control.unsent]
      omega
    · intro h
      exact ⟨h, by simp [State.runs, State.emit, State.mainJobs], id⟩
    · intro hlisted h
      exact hlisted (.inl (by simpa [State.emit, Control.unsent] using h))
  · apply Effect.of_unchanged
    · exact le_rfl
    · simp [State.mainJobs, hmain]
    · simp [hmain, Control.unsent]
    · rfl
    · rfl
    · exact fun _ h ↦ h
  · exact effect_send hmain
  · apply Effect.of_unchanged
    · exact le_rfl
    · simp [State.mainJobs, hmain]
    · simp [hmain, Control.unsent]
    · rfl
    · rfl
    · exact fun _ h ↦ h
  · apply Effect.of_unchanged
    · exact le_rfl
    · simp [State.mainJobs, hmain]
    · simp [hmain, Control.unsent]
    · rfl
    · rfl
    · exact fun _ h ↦ h
  · obtain ⟨hruns, hsend, hall⟩ := stepRunnable_runs (t := t) hrun
    obtain ⟨-, -, hthread⟩ := stepRunnable_unchanged hrun
    have hbefore : s.mainJobs = job :: rest.map fun u ↦ { task := u } := by
      simp [State.mainJobs, hmain]
    have hcount : ∀ main : Control τ,
        State.runs t { s₁ with main := main } = s₁.runs t := fun _ ↦ rfl
    constructor
    · rw [hbefore, hcount]
      cases stage <;>
        simp [State.mainJobs, toSend, Control.unsent] at hruns ⊢ <;> omega
    · intro h
      refine ⟨by simpa [Untouched, hsend] using h, ?_, by simp [hthread]⟩
      rw [hbefore, hcount]
      cases stage <;> simp [State.mainJobs] at hruns ⊢ <;> omega
    · intro hlisted h
      simp only [hall]
      apply hlisted
      cases stage <;> simpa [hthread, hmain, Control.unsent] using h

end Launch

/-! ## Whole processes -/

/-- The task is run at most once, and whatever will run it is accounted for. -/
structure Once (L : Launch τ κ) (t : τ) (p : Process δ τ κ) : Prop where
  idle : ∀ d, p.onMain ≠ some d → (p.dispatcher d).main = .idle
  listed : ∀ d, (p.dispatcher d).Listed t
  untouched : L.Untouched t p.vars →
    p.prepared t = 0 ∧ ∀ d, t ∉ (p.dispatcher d).mMainThreadTasks
  once : p.prepared t +
    (p.onMain.elim 0 fun d ↦ L.toSend t (p.dispatcher d).main) ≤ 1

namespace Once

variable [DecidableEq δ] {L : Launch τ κ} {t : τ} {p q : Process δ τ κ} {d : δ}
  {s : State τ κ} {n k : ℕ}

/-- What the main thread holds changes by what dispatcher `d` gets or gives. -/
theorem share (f : State τ κ → ℕ) (hf : ∀ s : State τ κ, s.main = .idle → f s = 0)
    (h : Once L t p) (hdispatcher : q.dispatcher = Function.update p.dispatcher d s)
    (honMain : q.onMain = p.onMain) (hidle : p.onMain ≠ some d → s.main = .idle) :
    (q.onMain.elim 0 fun e ↦ f (q.dispatcher e)) + f (p.dispatcher d) =
      (p.onMain.elim 0 fun e ↦ f (p.dispatcher e)) + f s := by
  rw [honMain, hdispatcher]
  by_cases hd : p.onMain = some d
  · simp [hd, Nat.add_comm]
  · rw [hf _ (h.idle d hd), hf s (hidle hd)]
    cases hmain : p.onMain with
    | none => rfl
    | some e =>
        have hne : e ≠ d := fun he ↦ hd (he ▸ hmain)
        simp [hne]

/-- A method of dispatcher `d` that leaves the main thread in the same `start`. -/
theorem put (h : Once L t p) (heffect : Effect L t (p.view d) n s k)
    (hruns : q.runs t + n = p.runs t + k) (hvars : q.vars = s.vars)
    (hdispatcher : q.dispatcher = Function.update p.dispatcher d s)
    (honMain : q.onMain = p.onMain) (hidle : p.onMain ≠ some d → s.main = .idle) :
    Once L t q := by
  have hjobs := share (fun s ↦ Job.aheads t s.mainJobs)
    (fun s hs ↦ by simp [State.mainJobs, hs]) h hdispatcher honMain hidle
  have hsend := share (fun s ↦ L.toSend t s.main)
    (fun s hs ↦ by simp [Launch.toSend, Control.unsent, hs]) h hdispatcher honMain hidle
  have hview : Job.aheads t (p.view d).mainJobs =
      Job.aheads t (p.dispatcher d).mainJobs := rfl
  have hview' : L.toSend t (p.view d).main = L.toSend t (p.dispatcher d).main := rfl
  constructor
  · intro e he
    rw [honMain] at he
    by_cases hed : e = d
    · subst hed
      simpa [hdispatcher] using hidle he
    · simpa [hdispatcher, hed] using h.idle e he
  · intro e
    by_cases hed : e = d
    · subst hed
      simpa [hdispatcher] using heffect.listed (h.listed e)
    · simpa [hdispatcher, hed] using h.listed e
  · rw [hvars]
    intro huntouched
    obtain ⟨hbefore, hle, hthread⟩ := heffect.untouched huntouched
    obtain ⟨hzero, hnot⟩ := h.untouched hbefore
    constructor
    · simp only [Process.prepared] at hzero ⊢
      omega
    · intro e
      by_cases hed : e = d
      · subst hed
        simpa [hdispatcher] using mt hthread (hnot e)
      · simpa [hdispatcher, hed] using hnot e
  · have hsum := heffect.sum
    have honce := h.once
    simp only [Process.prepared] at honce ⊢
    omega

omit [DecidableEq δ] in
theorem leave (h : Once L t p) (hmain : p.onMain = some d)
    (hidle : (p.dispatcher d).main = .idle) : Once L t { p with onMain := none } := by
  have hprepared : Process.prepared t { p with onMain := none } = p.prepared t := by
    simp [Process.prepared, Process.runs, hmain, State.mainJobs, hidle]
  constructor
  · intro e _
    by_cases hed : e = d
    · exact hed ▸ hidle
    · exact h.idle e fun he ↦ hed (Option.some.inj (he.symm.trans hmain))
  · exact h.listed
  · intro huntouched
    rw [hprepared]
    exact h.untouched huntouched
  · have honce := h.once
    rw [hprepared]
    simp only [Option.elim_none]
    omega

theorem runs_store (p : Process δ τ κ) (d : δ) (s : State τ κ) :
    (p.store d s).runs t = p.runs t + s.runs t := by
  simp only [Process.runs, Process.store, List.count_append, List.map_append,
    List.map_map, Job.aheads_append, State.runs]
  have hjobs : s.pool.map (Prod.snd ∘ fun job ↦ (d, job)) = s.pool := by
    simp [Function.comp_def]
  rw [hjobs]
  omega

theorem store (h : Once L t p) (heffect : Effect L t (p.view d) 0 s (s.runs t))
    (hidle : p.onMain ≠ some d → s.main = .idle) : Once L t (p.store d s) := by
  apply h.put heffect
  · rw [runs_store, Nat.add_zero]
  · rfl
  · rfl
  · rfl
  · exact hidle

theorem stepMain (h : Once L t p) (hmain : p.onMain = some d)
    (hstep : L.stepMain (p.view d) = some s) : Once L t (p.storeMain d s) := by
  have hstore : Once L t (p.store d s) :=
    h.store (Launch.effect_stepMain hstep) fun hne ↦ absurd hmain hne
  by_cases hidle : s.main = .idle
  · have hleft := hstore.leave (d := d) hmain (by simpa [Process.store] using hidle)
    simpa [Process.storeMain, hidle] using hleft
  · have hsame : p.storeMain d s = p.store d s := by
      simp [Process.storeMain, hidle, Process.store, hmain]
    rw [hsame]
    exact hstore

theorem stepPool (h : Once L t p) {i : ℕ} (hstep : L.stepProcessPool p i = some q) :
    Once L t q := by
  obtain ⟨d, job, s, stage, p₁, p₂, hrun, hpool, rfl⟩ :=
    Launch.stepProcessPool_cases hstep
  obtain ⟨hruns, hsend, hall⟩ := Launch.stepRunnable_runs (t := t) hrun
  obtain ⟨hpool₁, hmain, hthread⟩ := Launch.stepRunnable_unchanged hrun
  have hzero : (p.view d).runs t = 0 := rfl
  have hjobs : (((stage.map fun stage ↦ (d, { job with stage := stage })).toList).map
      Prod.snd) = (stage.map fun stage ↦ { job with stage := stage }).toList := by
    cases stage <;> rfl
  apply h.put (d := d) (s := s) (n := job.ahead t)
    (k := s.runs t +
      Job.aheads t (stage.map fun stage ↦ { job with stage := stage }).toList)
  · apply Effect.of_unchanged
    · omega
    · simp [State.mainJobs, hmain, hthread]
    · rw [hmain]
    · exact hsend
    · exact hthread
    · rw [hall]
      exact List.Subset.refl _
  · rw [runs_store]
    simp only [Process.runs, hpool, List.map_append, List.map_cons, Job.aheads_append,
      Job.aheads_cons, hjobs]
    omega
  · rfl
  · rfl
  · rfl
  · intro hne
    rw [hmain]
    exact h.idle d hne

omit [DecidableEq δ] in
theorem of_untouched (h : Once L t p) (hmain : p.onMain = none)
    (hun : L.Untouched t p.vars) (d : δ) :
    p.runs t = 0 ∧ (p.dispatcher d).mMainThreadTasks.count t = 0 := by
  obtain ⟨hzero, hnot⟩ := h.untouched hun
  refine ⟨?_, List.count_eq_zero_of_not_mem (hnot d)⟩
  simpa [Process.prepared, hmain] using hzero

omit [DecidableEq δ] in
/-- `start` begins to send: nothing of `t` is prepared, or nothing of `t` is in the
lists. -/
theorem runs_add_count_le (h : Once L t p) (hmain : p.onMain = none)
    (hfresh : L.skipped t = false →
      (p.sNewTasksHigh ++ (p.dispatcher d).mAllTasks).count t ≤ 1 ∧
        (t ∈ p.sNewTasksHigh ++ (p.dispatcher d).mAllTasks →
          (p.vars t).mIsSend = false)) :
    p.runs t + (p.dispatcher d).mMainThreadTasks.count t +
      (if L.skipped t then 0
        else (p.sNewTasksHigh ++ (p.dispatcher d).mAllTasks).count t) ≤ 1 := by
  cases hskip : L.skipped t with
  | true =>
      obtain ⟨hzero, hcount⟩ := h.of_untouched hmain (.inr hskip) d
      simp only [if_true]
      omega
  | false =>
      obtain ⟨hle, hunsent⟩ := hfresh hskip
      simp only [Bool.false_eq_true, if_false]
      by_cases hmem : t ∈ p.sNewTasksHigh ++ (p.dispatcher d).mAllTasks
      · obtain ⟨hzero, hcount⟩ := h.of_untouched hmain (.inl (hunsent hmem)) d
        omega
      · have hthread : t ∉ (p.dispatcher d).mMainThreadTasks := by
          intro hthread
          exact hmem (List.mem_append_right _ (h.listed d (.inl hthread)))
        have hcount := List.count_eq_zero_of_not_mem hthread
        have hnone := List.count_eq_zero_of_not_mem hmem
        have hbefore := h.once
        simp only [Process.prepared, hmain, Option.elim_none] at hbefore
        omega

theorem sending (h : Once L t p) (hmain : p.onMain = none) {tasks : List τ}
    (hvars : s.vars = p.vars) (hsmain : s.main = .sending tasks false)
    (hthread : s.mMainThreadTasks = (p.dispatcher d).mMainThreadTasks)
    (hall : s.mAllTasks = tasks) (hruns : s.runs t = 0)
    (hperm : tasks.Perm (p.sNewTasksHigh ++ (p.dispatcher d).mAllTasks))
    (hfresh : L.skipped t = false →
      (p.sNewTasksHigh ++ (p.dispatcher d).mAllTasks).count t ≤ 1 ∧
        (t ∈ p.sNewTasksHigh ++ (p.dispatcher d).mAllTasks →
          (p.vars t).mIsSend = false)) :
    Once L t (p.storeMain d s) := by
  have hprepared : (p.storeMain d s).prepared t =
      p.runs t + (p.dispatcher d).mMainThreadTasks.count t := by
    have hstore : (p.storeMain d s).runs t = (p.store d s).runs t := rfl
    rw [Process.prepared, hstore, runs_store, hruns]
    simp [Process.storeMain, Process.store, hsmain, State.mainJobs, hthread]
  constructor
  · intro e he
    have hne : e ≠ d := by
      rintro rfl
      exact he (by simp [Process.storeMain, hsmain])
    simpa [Process.storeMain, Process.store, hne] using h.idle e (by simp [hmain])
  · intro e
    by_cases hed : e = d
    · subst hed
      have hlisted : s.Listed t := by
        rintro (hmem | hmem)
        · rw [hthread] at hmem
          rw [hall]
          exact hperm.mem_iff.mpr (List.mem_append_right _ (h.listed e (.inl hmem)))
        · rw [hall]
          simpa [hsmain, Control.unsent] using hmem
      simpa [Process.storeMain, Process.store] using hlisted
    · simpa [Process.storeMain, Process.store, hed] using h.listed e
  · intro hun
    have hun' : L.Untouched t p.vars := by
      rw [← hvars]
      exact hun
    obtain ⟨hzero, hcount⟩ := h.of_untouched hmain hun' d
    refine ⟨by omega, ?_⟩
    intro e
    by_cases hed : e = d
    · subst hed
      simpa [Process.storeMain, Process.store, hthread] using (h.untouched hun').2 e
    · simpa [Process.storeMain, Process.store, hed] using (h.untouched hun').2 e
  · have htoSend : ((p.storeMain d s).onMain.elim 0 fun e ↦
        L.toSend t ((p.storeMain d s).dispatcher e).main) =
          if L.skipped t then 0
          else (p.sNewTasksHigh ++ (p.dispatcher d).mAllTasks).count t := by
      simp [Process.storeMain, Process.store, hsmain, Launch.toSend, Control.unsent,
        hperm.count_eq]
    rw [htoSend, hprepared]
    exact h.runs_add_count_le hmain hfresh

theorem keep_lists (h : Once L t p) (hmain : p.onMain = none)
    (hsmain : s.main = (p.dispatcher d).main)
    (hthread : s.mMainThreadTasks = (p.dispatcher d).mMainThreadTasks)
    (hvars : s.vars = p.vars) (hall : (p.dispatcher d).mAllTasks ⊆ s.mAllTasks)
    (hruns : s.runs t = 0) : Once L t (p.storeMain d s) := by
  have hidle : s.main = .idle := by
    rw [hsmain]
    exact h.idle d (by simp [hmain])
  have hsame : p.storeMain d s = p.store d s := by
    simp [Process.storeMain, hidle, Process.store, hmain]
  rw [hsame]
  apply h.store
  · apply Effect.of_unchanged
    · exact hruns.le
    · simp only [State.mainJobs, hsmain, hthread]
      rfl
    · rw [hsmain]
      rfl
    · rw [hvars]
      rfl
    · exact hthread
    · exact hall
  · exact fun _ ↦ hidle

end Once

section

variable [DecidableEq δ] [DecidableEq κ] (L : Launch τ κ)

/-- The task was added at most once and not handed to `executeTask`. -/
def Process.AddedOnce (t : τ) (p : Process δ τ κ) : Prop :=
  p.trace.count (.added t) ≤ 1 ∧ .executed t ∉ p.trace

/-- `start` gets past the sort and the latch, and then sends. -/
def Launch.Sends (p : Process δ τ κ) (d : δ) : Prop :=
  (p.dispatcher d).mAllTasks ≠ [] ∧
    (L.analyse
      { isSend := fun t ↦ (p.vars t).mIsSend
        originTasks := (p.dispatcher d).mAllTasks
        clsLaunchTasks := (p.dispatcher d).mClsAllTasks }).isOk = true ∧
    0 ≤ (p.dispatcher d).mNeedWaitCount

/-- A `start` that sends finds every task in one place of `sNewTasksHigh` and its
`mAllTasks`, and unsent. -/
def Launch.StartsFresh (p : Process δ τ κ) : ProcessAction δ τ → Prop
  | .start d => L.Sends p d → ∀ t, p.AddedOnce t → L.skipped t = false →
      (p.sNewTasksHigh ++ (p.dispatcher d).mAllTasks).count t ≤ 1 ∧
        (t ∈ p.sNewTasksHigh ++ (p.dispatcher d).mAllTasks →
          (p.vars t).mIsSend = false)
  | _ => True

instance (t : τ) (p : Process δ τ κ) : Decidable (p.AddedOnce t) :=
  inferInstanceAs (Decidable (_ ∧ _))

instance (p : Process δ τ κ) (d : δ) : Decidable (L.Sends p d) :=
  inferInstanceAs (Decidable (_ ∧ _ ∧ _))

instance decidableStartsFresh [Fintype τ] (p : Process δ τ κ) :
    ∀ a, Decidable (L.StartsFresh p a)
  | .start d => inferInstanceAs (Decidable (L.Sends p d → ∀ t, p.AddedOnce t →
      L.skipped t = false →
        (p.sNewTasksHigh ++ (p.dispatcher d).mAllTasks).count t ≤ 1 ∧
          (t ∈ p.sNewTasksHigh ++ (p.dispatcher d).mAllTasks →
            (p.vars t).mIsSend = false)))
  | .addTask _ _ | .executeTask _ _ | .main | .pool _ | .call _ => isTrue trivial

variable {L} {t : τ} {p q : Process δ τ κ}

theorem Once.start {d : δ} (h : Once L t p) (hmain : p.onMain = none)
    (hadded : p.AddedOnce t) (hfresh : L.StartsFresh p (.start d)) :
    Once L t (p.storeMain d (L.start (p.view d))) := by
  obtain ⟨hstart, -⟩ | ⟨hne, high, tasks, hsort, hcases⟩ :=
    Launch.start_cases L (p.view d)
  · rw [hstart]
    exact h.keep_lists hmain rfl rfl rfl (List.Subset.refl _) rfl
  · let call : SortCall τ κ :=
      { isSend := fun t ↦ (p.vars t).mIsSend
        originTasks := (p.dispatcher d).mAllTasks
        clsLaunchTasks := (p.dispatcher d).mClsAllTasks }
    have hperm : tasks.Perm (p.sNewTasksHigh ++ (p.dispatcher d).mAllTasks) :=
      Launch.getSortResult_perm_append (c := call) hsort
    obtain ⟨-, hstart⟩ | ⟨hcount, hstart⟩ := hcases
    · rw [hstart]
      refine h.keep_lists hmain rfl rfl rfl ?_ ?_
      · intro u hu
        exact hperm.mem_iff.mpr (List.mem_append_right _ hu)
      · simp [State.runs, State.emit, Process.view]
    · rw [hstart]
      obtain ⟨indices, hcall⟩ := Launch.analyse_of_getSortResult (c := call) hsort
      have hok : (L.analyse call).isOk = true := by
        rw [hcall]
        rfl
      exact h.sending hmain rfl rfl rfl rfl rfl hperm (hfresh ⟨hne, hok, hcount⟩ t hadded)

theorem trace_prefix_step {a : ProcessAction δ τ} (hstep : L.stepProcess p a = some q) :
    p.trace <+: q.trace := by
  cases a with
  | addTask d u | executeTask d u =>
      obtain rfl := Option.some.inj hstep
      exact List.prefix_append _ _
  | start d =>
      simp only [Launch.stepProcess, Option.ite_none_right_eq_some,
        Option.some.injEq] at hstep
      obtain ⟨-, rfl⟩ := hstep
      exact List.prefix_append _ _
  | main =>
      simp only [Launch.stepProcess] at hstep
      split at hstep
      · simp at hstep
      · obtain ⟨s, -, rfl⟩ := Option.map_eq_some_iff.mp hstep
        exact List.prefix_append _ _
  | pool i =>
      obtain ⟨d, job, s, stage, p₁, p₂, -, -, rfl⟩ :=
        Launch.stepProcessPool_cases hstep
      exact List.prefix_append _ _
  | call u =>
      simp only [Launch.stepProcess] at hstep
      split at hstep
      · simp at hstep
      · obtain rfl := Option.some.inj hstep
        exact List.prefix_append _ _

theorem Process.AddedOnce.of_step {a : ProcessAction δ τ}
    (h : q.AddedOnce t) (hstep : L.stepProcess p a = some q) : p.AddedOnce t := by
  have htrace := trace_prefix_step hstep
  exact ⟨(htrace.sublist.count_le _).trans h.1, fun hmem ↦ h.2 (htrace.subset hmem)⟩

theorem Once.step {a : ProcessAction δ τ} (h : Once L t p) (hadded : q.AddedOnce t)
    (hfresh : L.StartsFresh p a) (hstep : L.stepProcess p a = some q) :
    Once L t q := by
  cases a with
  | addTask d u =>
      obtain rfl := Option.some.inj hstep
      rw [Launch.addTask_eq]
      apply h.store
      · apply Effect.of_unchanged
        · simp [State.runs, Process.view]
        · cases hmain : (p.view d).main <;>
            simp [State.mainJobs, Control.listModified, hmain]
        · cases hmain : (p.view d).main <;>
            simp [Control.unsent, Control.listModified]
        · by_cases htu : t = u <;> simp [htu]
        · rfl
        · simp
      · intro hne
        have hidle : (p.view d).main = .idle := h.idle d hne
        simp [hidle, Control.listModified]
  | start d =>
      simp only [Launch.stepProcess, Option.ite_none_right_eq_some,
        Option.some.injEq] at hstep
      obtain ⟨hmain, rfl⟩ := hstep
      refine h.start hmain ?_ hfresh
      apply hadded.of_step (L := L) (a := .start d)
      simp [Launch.stepProcess, hmain]
  | executeTask d u =>
      obtain rfl := Option.some.inj hstep
      have htu : u ≠ t := by
        rintro rfl
        apply hadded.2
        simp [Process.store, Launch.executeTask, State.emit]
      apply h.store
      · apply Effect.of_unchanged
        · cases hwait : L.ifNeedWait u <;>
            simp [State.runs, Process.view, Launch.executeTask, State.emit, Job.ahead,
              htu, hwait]
        all_goals
          cases hwait : L.ifNeedWait u <;>
            simp [Launch.executeTask, State.emit, State.mainJobs, hwait]
      · intro hne
        have hidle : (p.view d).main = .idle := h.idle d hne
        cases hwait : L.ifNeedWait u <;>
          simp [Launch.executeTask, State.emit, hwait, hidle]
  | main =>
      simp only [Launch.stepProcess] at hstep
      split at hstep
      · simp at hstep
      · rename_i d hmain
        obtain ⟨s, hs, rfl⟩ := Option.map_eq_some_iff.mp hstep
        exact h.stepMain hmain hs
  | pool i => exact h.stepPool hstep
  | call u =>
      simp only [Launch.stepProcess] at hstep
      split at hstep
      · simp at hstep
      · rename_i d hcall
        obtain rfl := Option.some.inj hstep
        rw [Launch.call, Launch.satisfyChildren_eq]
        apply h.store
        · apply Effect.of_unchanged
          · simp [State.runs, Process.view, State.setFinished, State.modify]
          · rfl
          · rfl
          · by_cases htu : t = u <;> simp [State.setFinished, State.modify, htu]
          · rfl
          · exact List.Subset.refl _
        · exact h.idle d

omit [DecidableEq δ] [DecidableEq κ] in
theorem once_newProcess : Once L t (L.newProcess : Process δ τ κ) := by
  constructor
  · intro d _
    rfl
  · intro d hmem
    simp [Launch.newProcess, Launch.newState, Control.unsent] at hmem
  · intro _
    simp [Process.prepared, Process.runs, Launch.newProcess, Launch.newState]
  · simp [Process.prepared, Process.runs, Launch.newProcess]

/-- In every run of a process in which every `start` that sends finds the tasks it
sends unsent and in one place, a task that was added once is run at most once. -/
theorem ran_at_most_once {as : List (ProcessAction δ τ)}
    (hrun : run L.stepProcess L.newProcess as = some p)
    (hfresh : StepsMeet L.stepProcess L.StartsFresh L.newProcess as) (t : τ)
    (hadded : p.AddedOnce t) : p.trace.count (.ran t) ≤ 1 := by
  have hinv := run_invariant (I := fun p ↦ p.AddedOnce t → Once L t p)
    (fun u a v hu hC hstep hv ↦ (hu (hv.of_step hstep)).step hv hC hstep)
    (fun _ ↦ once_newProcess) hfresh hrun
  have honce := (hinv hadded).once
  simp only [Process.prepared, Process.runs] at honce
  omega

end

def alone : Launch (Fin 1) (Fin 1) where
  decl t := { cls := t }
  getSimpleName c := toString c

/-- Add the task, start, and let it run to its end. -/
def firstStart : List (ProcessAction (Fin 1) (Fin 1)) :=
  [.addTask 0 0, .start 0, .main, .main, .main, .pool 0, .pool 0, .pool 0, .pool 0]

theorem ran_at_most_once_alone :
    ∃ p, run alone.stepProcess alone.newProcess firstStart = some p ∧
      StepsMeet alone.stepProcess alone.StartsFresh alone.newProcess firstStart ∧
      p.AddedOnce 0 ∧ p.trace.count (.ran 0) = 1 ∧ p.trace.count (.ran 0) ≤ 1 := by
  obtain ⟨p, hrun, hadded, hran⟩ :
      ∃ p, run alone.stepProcess (alone.newProcess : Process (Fin 1) _ _) firstStart =
        some p ∧ p.AddedOnce 0 ∧ p.trace.count (.ran 0) = 1 :=
    exists_run_of_any (by decide)
  have hfresh : StepsMeet alone.stepProcess alone.StartsFresh alone.newProcess firstStart := by
    decide
  exact ⟨p, hrun, hfresh, hadded, hran, ran_at_most_once hrun hfresh 0 hadded⟩

/-- The second `start` sends the task again. -/
theorem ran_twice_by_second_start :
    ∃ p, run alone.stepProcess (alone.newProcess : Process (Fin 1) _ _)
        (firstStart ++ [ProcessAction.start 0, .main, .pool 0, .pool 0]) = some p ∧
      p.trace.count (.added 0) = 1 ∧ .executed 0 ∉ p.trace ∧
      p.trace.count (.ran 0) = 2 :=
  exists_run_of_any (by decide)

end HiApp.LaunchStarter
