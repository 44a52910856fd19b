import Mathlib.Data.Multiset.AddSub
import HiApp.Lib.Runs
import HiApp.LaunchStarter.Book

/-!
# What `await` waits for

Three fields count the same thing: `mCountDownLatch`, `mNeedWaitCount` and the
length of `mNeedWaitTasks` are to be the number of tasks that `await` has to wait
for.  The `Account` of a state holds the three and the tasks handed over and done
so far; `posting` says which step makes which change to it.
-/

namespace HiApp.LaunchStarter

open Runs

variable {τ κ : Type*}

@[ext]
structure Account (τ : Type*) where
  latch : Option ℕ
  count : ℤ
  tasks : List τ
  handed : Multiset τ
  finished : Multiset τ

inductive Posting (τ : Type*) where
  | add (task : τ)
  | execute (task : τ)
  | size
  | mark (task : τ)

/-- `markTaskDone` is called where the book records a finished class. -/
def Entry.posting : Entry τ → Option (Posting τ)
  | .record t => some (.mark t)
  | .add _ | .run _ | .complete _ => none

/-- The task that the event hands to the dispatcher. -/
def Event.handedTask : Event τ → Option τ
  | .added t | .executed t => some t
  | .ran _ | .done _ | .threw _ => none

def Event.doneTask : Event τ → Option τ
  | .done t => some t
  | .added _ | .executed _ | .ran _ | .threw _ => none

namespace Account

variable [DecidableEq τ]

def post (b : Account τ) : Posting τ → Account τ
  | .add t => { b with
      count := b.count + 1
      tasks := b.tasks ++ [t]
      handed := b.handed + {t} }
  | .execute t => { b with
      count := b.count + 1
      handed := b.handed + {t} }
  | .size => { b with latch := some b.count.toNat }
  | .mark t =>
      match b.latch with
      | none => { b with tasks := b.tasks.erase t }
      | some n => { b with
          latch := some (n - 1)
          count := b.count - 1
          tasks := b.tasks.erase t
          finished := b.finished + {t} }

def post? (b : Account τ) (p : Option (Posting τ)) : Account τ := p.elim b b.post

/-- The number of tasks handed over and not yet done. -/
def outstanding (b : Account τ) : ℕ := (b.handed - b.finished).card

/-- The three counters are the number of outstanding tasks. -/
structure Balanced (b : Account τ) : Prop where
  count : b.count = b.tasks.length
  tasks : b.tasks.length = b.outstanding
  latch : ∀ n, b.latch = some n → (n : ℤ) = b.count

/-- The posting reaches all three counters. -/
def Reaches (b : Account τ) : Posting τ → Prop
  | .add _ => b.latch = none
  | .execute _ => False
  | .size => True
  | .mark t => t ∈ b.tasks

/-- The list holds exactly what is handed over and not done. -/
def Kept (b : Account τ) : Prop := (b.tasks : Multiset τ) + b.finished = b.handed

variable {b : Account τ} {p : Posting τ}

theorem Kept.outstanding_eq (h : b.Kept) : b.outstanding = b.tasks.length := by
  rw [outstanding, ← h, Multiset.add_sub_cancel_right, Multiset.coe_card]

theorem Kept.post (h : b.Kept) (hreaches : b.Reaches p)
    (hlatch : ∀ t, p = .mark t → b.latch ≠ none) : (b.post p).Kept := by
  cases p with
  | add t =>
      have hadd : (b.tasks : Multiset τ) + {t} + b.finished = b.handed + {t} := by
        rw [add_right_comm, h]
      simpa [Kept, Account.post, ← Multiset.coe_add] using hadd
  | execute t => exact hreaches.elim
  | size => exact h
  | mark t =>
      obtain ⟨n, hn⟩ := Option.ne_none_iff_exists'.mp (hlatch t rfl)
      have hmem : t ∈ (b.tasks : Multiset τ) := hreaches
      have hmark : (b.tasks : Multiset τ).erase t + (b.finished + {t}) = b.handed := by
        rw [← h, add_comm b.finished, ← add_assoc,
          add_comm _ ({t} : Multiset τ), Multiset.singleton_add, Multiset.cons_erase hmem]
      simpa [Kept, Account.post, hn] using hmark

/-- A posting keeps the account balanced if and only if it reaches all three
counters. -/
theorem Balanced.post_iff (h : b.Balanced) (hkept : b.Kept)
    (hlatch : ∀ t, p = .mark t → b.latch ≠ none) :
    (b.post p).Balanced ↔ b.Reaches p := by
  refine ⟨fun hpost ↦ ?_, fun hreaches ↦ ?_⟩
  · have hcount := hpost.count
    have hbefore := h.count
    cases p with
    | add t =>
        apply Option.eq_none_iff_forall_ne_some.mpr
        intro n hn
        have hold := h.latch n hn
        have hnew := hpost.latch n hn
        simp only [Account.post] at hnew
        omega
    | execute t =>
        simp only [Account.post] at hcount
        omega
    | size => trivial
    | mark t =>
        obtain ⟨n, hn⟩ := Option.ne_none_iff_exists'.mp (hlatch t rfl)
        by_contra hmem
        simp only [Account.post, hn, List.erase_of_not_mem hmem] at hcount
        omega
  · have hcount := h.count
    suffices hpost : (b.post p).count = (b.post p).tasks.length ∧
        ∀ n, (b.post p).latch = some n → (n : ℤ) = (b.post p).count from
      ⟨hpost.1, (hkept.post hreaches hlatch).outstanding_eq.symm, hpost.2⟩
    cases p with
    | add t =>
        have hnone : b.latch = none := hreaches
        simp [Account.post, hcount, hnone]
    | execute t => exact hreaches.elim
    | size => simp [Account.post, hcount]
    | mark t =>
        obtain ⟨n, hn⟩ := Option.ne_none_iff_exists'.mp (hlatch t rfl)
        have hold := h.latch n hn
        have hmem : t ∈ b.tasks := hreaches
        have hpos := List.length_pos_of_mem hmem
        simp only [Account.post, hn, List.length_erase_of_mem hmem,
          Option.some.injEq, forall_eq']
        omega

end Account

namespace Launch

variable [DecidableEq τ] [DecidableEq κ] (L : Launch τ κ)

def account (s : State τ κ) : Account τ where
  latch := s.mCountDownLatch
  count := s.mNeedWaitCount
  tasks := s.mNeedWaitTasks
  handed := (s.trace.filterMap Event.handedTask).filter (L.ifNeedWait ·)
  finished := s.trace.filterMap Event.doneTask

/-- `start` has something to do and makes a latch. -/
def sizesLatch (s : State τ κ) : Bool :=
  decide (s.mAllTasks ≠ []) && decide (0 ≤ s.mNeedWaitCount) &&
    (L.getSortResult (fun t ↦ (s.vars t).mIsSend) s.sNewTasksHigh s.mAllTasks
      s.mClsAllTasks).toBool

def posting (s : State τ κ) : Action τ → Option (Posting τ)
  | .addTask t => if L.ifNeedWait t then some (.add t) else none
  | .executeTask t => if L.ifNeedWait t then some (.execute t) else none
  | .start => if L.sizesLatch s then some .size else none
  | a => (L.entry s a).bind Entry.posting

/-! ## Methods -/

variable {L} {s s' : State τ κ} {t : τ}

theorem account_addTask : L.account (L.addTask s t) =
    (L.account s).post? (if L.ifNeedWait t then some (.add t) else none) := by
  rw [addTask_eq]
  cases hwait : L.ifNeedWait t <;>
    simp [account, Account.post?, Account.post, hwait, List.filterMap_append,
      Event.handedTask, Event.doneTask, ← Multiset.coe_add]

omit [DecidableEq τ] [DecidableEq κ] in
theorem account_emit {e : Event τ} (hhanded : e.handedTask = none)
    (hdone : e.doneTask = none) : L.account (s.emit e) = L.account s := by
  simp [account, State.emit, List.filterMap_append, hhanded, hdone]

omit [DecidableEq κ] in
theorem account_markTaskDone : L.account (L.markTaskDone s t) =
    (L.account s).post? (if L.ifNeedWait t then some (.mark t) else none) := by
  unfold markTaskDone
  split
  · simp only
    split
    · rename_i hlatch
      rw [account_emit rfl rfl]
      simp [account, Account.post?, Account.post, hlatch]
    · rename_i n hlatch
      simp [account, Account.post?, Account.post, hlatch, State.emit,
        List.filterMap_append, Event.handedTask, Event.doneTask,
        ← Multiset.coe_add]
  · rfl

omit [DecidableEq κ] in
theorem account_satisfyChildren : L.account (L.satisfyChildren s t) = L.account s := by
  rw [satisfyChildren_eq]
  rfl

omit [DecidableEq κ] in
theorem account_send : L.account (L.send s t) = (L.account s).post?
    (if L.skipped t && L.ifNeedWait t then some (.mark t) else none) := by
  have hflag : L.account (L.send s t) =
      L.account (if L.skipped t then L.markTaskDone s t else L.sentTaskReal s t) :=
    rfl
  rw [hflag]
  cases hskip : L.skipped t with
  | true => simpa using account_markTaskDone
  | false =>
      simp only [Bool.false_eq_true, if_false, Bool.false_and, sentTaskReal]
      split <;> rfl

omit [DecidableEq κ] in
theorem account_stepRunnable {job : Job τ} {stage : Option Stage}
    (hstep : L.stepRunnable s job = some (s', stage)) :
    L.account s' = (L.account s).post? ((L.jobEntry job).bind Entry.posting) := by
  unfold jobEntry
  rcases stepRunnable_cases hstep with ⟨hstage, rfl, -⟩ | ⟨hstage, -, rfl, -⟩ |
    ⟨hstage, hcall, rfl, -⟩ | ⟨hstage, hcall, rfl, -⟩ | ⟨hstage, rfl, -⟩
  · rw [hstage]
    rfl
  · rw [hstage, account_emit rfl rfl]
    rfl
  · rw [hstage, hcall, account_satisfyChildren]
    rfl
  · rw [hstage, hcall]
    rfl
  · rw [hstage, account_markTaskDone]
    cases L.ifNeedWait job.task <;> rfl

theorem account_start : L.account (L.start s) =
    (L.account s).post? (if L.sizesLatch s then some .size else none) := by
  rcases start_cases L s with ⟨heq, hnil | ⟨e, hsort⟩⟩ |
    ⟨hcons, high, tasks, hsort, ⟨hneg, heq⟩ | ⟨hpos, heq⟩⟩
  · simp [heq, sizesLatch, hnil, Account.post?]
  · simp [heq, sizesLatch, hsort, Except.toBool, Account.post?]
  · rw [heq, account_emit rfl rfl]
    simp [sizesLatch, Int.not_le.mpr hneg, Account.post?, account]
  · simp [heq, sizesLatch, hsort, hcons, hpos, Except.toBool, Account.post?,
      Account.post, account]

theorem account_step {a : Action τ} (hstep : L.step s a = some s') :
    L.account s' = (L.account s).post? (L.posting s a) := by
  cases a with
  | addTask t =>
      obtain rfl := Option.some.inj hstep
      exact account_addTask
  | start =>
      simp only [step] at hstep
      split at hstep
      · obtain rfl := Option.some.inj hstep
        exact account_start
      · simp at hstep
  | executeTask t =>
      obtain rfl := Option.some.inj hstep
      unfold executeTask
      cases hwait : L.ifNeedWait t <;>
        simp [account, posting, Account.post?, Account.post, hwait, State.emit,
          List.filterMap_append, Event.handedTask, Event.doneTask,
          ← Multiset.coe_add]
  | main =>
      rw [posting]
      · rcases stepMain_cases hstep with ⟨rest, hmain, rfl⟩ | ⟨hmain, rfl⟩ |
          ⟨t, rest, hmain, rfl⟩ | ⟨hmain, rfl⟩ | ⟨t, rest, hmain, rfl⟩ |
          ⟨job, rest, s₁, stage, hmain, hrun, rfl⟩
        · have hentry : L.entry s .main = none := by simp [entry, hmain]
          rw [account_emit rfl rfl, hentry]
          rfl
        · rw [entry, hmain]
          rfl
        · have hsend := account_send (L := L) (s := s) (t := t)
          rw [entry, hmain]
          refine hsend.trans (congrArg _ ?_)
          simp only
          split <;> rfl
        · rw [entry, hmain]
          rfl
        · rw [entry, hmain]
          rfl
        · have hjob := account_stepRunnable hrun
          rw [entry, hmain]
          exact hjob
      all_goals simp
  | pool i =>
      obtain ⟨job, s₁, stage, hget, -, hrun, rfl⟩ := stepPool_cases hstep
      have hjob := account_stepRunnable hrun
      rw [posting, entry, hget]
      · exact hjob
      all_goals simp
  | call t =>
      simp only [step] at hstep
      split at hstep
      · obtain rfl := Option.some.inj hstep
        exact account_satisfyChildren
      · simp at hstep

/-! ## Whole runs -/

/-- Whatever may lead to `markTaskDone` has seen the latch being made. -/
structure LatchMade (L : Launch τ κ) (s : State τ κ) : Prop where
  main : s.main ≠ .idle → s.mCountDownLatch ≠ none
  pool : ∀ job ∈ s.pool, L.ifNeedWait job.task = true → s.mCountDownLatch ≠ none

theorem latch_step {a : Action τ} (hstep : L.step s a = some s')
    (hlatch : s.mCountDownLatch ≠ none) : s'.mCountDownLatch ≠ none := by
  obtain ⟨n, hn⟩ := Option.ne_none_iff_exists'.mp hlatch
  have hbefore : (L.account s).latch = some n := hn
  have hafter := congrArg Account.latch (account_step hstep)
  intro hnone
  rw [show (L.account s').latch = none from hnone] at hafter
  cases hposting : L.posting s a with
  | none => simp [hposting, Account.post?, hbefore] at hafter
  | some p => cases p <;> simp [hposting, Account.post?, Account.post, hbefore] at hafter

theorem main_step {a : Action τ} (hstep : L.step s a = some s')
    (hmain : s'.main ≠ .idle) : s.main ≠ .idle ∨ s'.mCountDownLatch ≠ none := by
  by_contra! hcon
  obtain ⟨hidle, hnone⟩ := hcon
  apply hmain
  cases a with
  | addTask t =>
      obtain rfl := Option.some.inj hstep
      rw [addTask_eq]
      simp [hidle, Control.listModified]
  | executeTask t =>
      obtain rfl := Option.some.inj hstep
      unfold executeTask
      simp only
      split <;> exact hidle
  | start =>
      simp only [step, hidle, if_true, Option.some.injEq] at hstep
      subst hstep
      rcases start_cases L s with ⟨heq, -⟩ |
        ⟨-, high, tasks, -, ⟨-, heq⟩ | ⟨-, heq⟩⟩
      · rwa [heq]
      · rwa [heq]
      · simp [heq] at hnone
  | main => simp [step, stepMain, hidle] at hstep
  | pool i =>
      obtain ⟨job, s₁, stage, hget, -, hrun, rfl⟩ := stepPool_cases hstep
      exact (stepRunnable_unchanged hrun).2.1.trans hidle
  | call t =>
      simp only [step] at hstep
      split at hstep
      · obtain rfl := Option.some.inj hstep
        exact (satisfyChildren_unchanged t).2.1.trans hidle
      · simp at hstep

theorem mem_pool_step {a : Action τ} (hstep : L.step s a = some s')
    {job : Job τ} (hjob : job ∈ s'.pool) :
    (∃ job' ∈ s.pool, job'.task = job.task) ∨ a = .executeTask job.task ∨
      s.main ≠ .idle := by
  have hold : ∀ {s₁ : State τ κ}, s₁.pool = s.pool → job ∈ s₁.pool →
      ∃ job' ∈ s.pool, job'.task = job.task :=
    fun heq hmem ↦ ⟨job, heq ▸ hmem, rfl⟩
  cases a with
  | addTask t =>
      obtain rfl := Option.some.inj hstep
      exact .inl (hold (by rw [addTask_eq]) hjob)
  | executeTask t =>
      obtain rfl := Option.some.inj hstep
      have hpool : (L.executeTask s t).pool = s.pool ++ [{ task := t }] := by
        unfold executeTask
        simp only
        split <;> rfl
      rw [hpool, List.mem_append, List.mem_singleton] at hjob
      rcases hjob with hjob | rfl
      · exact .inl ⟨job, hjob, rfl⟩
      · exact .inr (.inl rfl)
  | start =>
      simp only [step] at hstep
      split at hstep
      · obtain rfl := Option.some.inj hstep
        refine .inl (hold ?_ hjob)
        rcases start_cases L s with ⟨heq, -⟩ |
          ⟨-, high, tasks, -, ⟨-, heq⟩ | ⟨-, heq⟩⟩ <;> simp [heq, State.emit]
      · simp at hstep
  | main =>
      refine .inr (.inr ?_)
      intro hidle
      simp [step, stepMain, hidle] at hstep
  | pool i =>
      obtain ⟨job₀, s₁, stage, hget, -, hrun, rfl⟩ := stepPool_cases hstep
      obtain ⟨hpool, -⟩ := stepRunnable_unchanged hrun
      left
      cases stage with
      | none =>
          simp only [hpool] at hjob
          exact ⟨job, List.mem_of_mem_eraseIdx hjob, rfl⟩
      | some stage =>
          simp only [hpool] at hjob
          rcases List.mem_or_eq_of_mem_set hjob with hjob | rfl
          · exact ⟨job, hjob, rfl⟩
          · exact ⟨job₀, List.mem_of_getElem? hget, rfl⟩
  | call t =>
      simp only [step] at hstep
      split at hstep
      · obtain rfl := Option.some.inj hstep
        have hpool : (L.call s t).pool = s.pool := (satisfyChildren_unchanged t).1
        exact .inl (hold hpool hjob)
      · simp at hstep

theorem LatchMade.step {a : Action τ} (h : L.LatchMade s)
    (hwait : ∀ t, a = .executeTask t → L.ifNeedWait t = false)
    (hstep : L.step s a = some s') : L.LatchMade s' := by
  refine ⟨?_, ?_⟩
  · intro hmain
    rcases main_step hstep hmain with hmain | hlatch
    · exact latch_step hstep (h.main hmain)
    · exact hlatch
  · intro job hjob hneed
    rcases mem_pool_step hstep hjob with ⟨job', hjob', htask⟩ | ha | hmain
    · exact latch_step hstep (h.pool job' hjob' (htask ▸ hneed))
    · simp [hwait job.task ha] at hneed
    · exact latch_step hstep (h.main hmain)

/-- The posting of the action reaches all three counters. -/
def Reaches (L : Launch τ κ) (s : State τ κ) (a : Action τ) : Prop :=
  ∀ p ∈ L.posting s a, (L.account s).Reaches p

omit [DecidableEq τ] [DecidableEq κ] in
theorem ifNeedWait_of_jobEntry {job : Job τ}
    (hentry : L.jobEntry job = some (.record t)) :
    L.ifNeedWait job.task = true := by
  unfold jobEntry at hentry
  split at hentry
  · simp at hentry
  · simp at hentry
  · split at hentry <;> simp at hentry
  · by_contra hwait
    simp [hwait] at hentry

/-- Only a thread that has seen the latch calls `markTaskDone` for a task that
`await` waits for. -/
theorem LatchMade.latch_of_mark {a : Action τ} (h : L.LatchMade s)
    (hstep : L.step s a = some s') (hposting : L.posting s a = some (.mark t)) :
    s.mCountDownLatch ≠ none := by
  cases a with
  | addTask u | executeTask u | start =>
      simp only [posting] at hposting
      split at hposting <;> simp at hposting
  | main =>
      apply h.main
      intro hidle
      simp [Launch.step, stepMain, hidle] at hstep
  | call u => simp [posting, entry, Entry.posting] at hposting
  | pool i =>
      obtain ⟨job, s₁, stage, hget, -, -, -⟩ := stepPool_cases hstep
      apply h.pool job (List.mem_of_getElem? hget)
      simp only [posting, entry, hget, Option.bind_eq_some_iff] at hposting
      obtain ⟨e, hentry, he⟩ := hposting
      cases e with
      | record u => exact ifNeedWait_of_jobEntry hentry
      | add u | run u | complete u => simp [Entry.posting] at he

/-- A step keeps the account balanced if and only if its posting reaches all
three counters. -/
theorem balanced_step_iff {a : Action τ} (hkept : (L.account s).Kept)
    (hmade : L.LatchMade s) (hbalanced : (L.account s).Balanced)
    (hstep : L.step s a = some s') :
    (L.account s').Balanced ↔ L.Reaches s a := by
  rw [account_step hstep]
  cases hposting : L.posting s a with
  | none => exact iff_of_true hbalanced (by simp [Reaches, hposting])
  | some p =>
      have hcond : L.Reaches s a ↔ (L.account s).Reaches p := by
        simp [Reaches, hposting]
      rw [hcond]
      refine hbalanced.post_iff hkept ?_
      rintro t rfl
      exact hmade.latch_of_mark hstep hposting

theorem kept_step {a : Action τ} (hkept : (L.account s).Kept)
    (hmade : L.LatchMade s) (hreaches : L.Reaches s a)
    (hstep : L.step s a = some s') : (L.account s').Kept ∧ L.LatchMade s' := by
  refine ⟨?_, hmade.step ?_ hstep⟩
  · rw [account_step hstep]
    cases hposting : L.posting s a with
    | none => exact hkept
    | some p =>
        refine hkept.post (hreaches p hposting) ?_
        rintro t rfl
        exact hmade.latch_of_mark hstep hposting
  · rintro t rfl
    by_contra hwait
    simp only [Bool.not_eq_false] at hwait
    exact hreaches (.execute t) (by simp [posting, hwait])

omit [DecidableEq κ] in
theorem outstanding_eq_zero_of_await (hbalanced : (L.account s).Balanced)
    (hawait : s.await = .returns) : (L.account s).outstanding = 0 := by
  have hcount : s.mNeedWaitCount = s.mNeedWaitTasks.length := hbalanced.count
  have hlatch : ∀ n : ℕ, s.mCountDownLatch = some n → (n : ℤ) = s.mNeedWaitCount :=
    hbalanced.latch
  have houtstanding : s.mNeedWaitTasks.length = (L.account s).outstanding :=
    hbalanced.tasks
  unfold State.await at hawait
  split at hawait
  · rename_i hpos
    split at hawait
    · simp at hawait
    · rename_i hzero
      have hcontra := hlatch 0 hzero
      omega
    · simp at hawait
  · omega

end Launch

section

variable [DecidableEq τ] [DecidableEq κ] (L : Launch τ κ) {s : State τ κ}
  {as : List (Action τ)}

/-- Along every run, latch, counter and list are the number of tasks that were
handed over and are not done, if and only if every step that changes one of them
reaches all three; then `await` comes back only when nothing is outstanding. -/
theorem balanced_iff_reaches (hrun : run L.step L.newState as = some s) :
    (StatesMeet L.step (fun s ↦ (L.account s).Balanced) L.newState as ↔
      StepsMeet L.step L.Reaches L.newState as) ∧
    (StepsMeet L.step L.Reaches L.newState as → s.await = .returns →
      (L.account s).outstanding = 0) := by
  have hiff : StatesMeet L.step (fun s ↦ (L.account s).Balanced) L.newState as ↔
      StepsMeet L.step L.Reaches L.newState as := by
    refine statesMeet_iff_stepsMeet
      (I := fun s ↦ (L.account s).Kept ∧ L.LatchMade s) ?_ ?_ ?_ ?_
      stepsMeet_true hrun
    · rintro u a v ⟨hkept, hmade⟩ hbu hbv _ hstep
      have hreaches := (Launch.balanced_step_iff hkept hmade hbu hstep).mp hbv
      exact Launch.kept_step hkept hmade hreaches hstep
    · rintro u a v ⟨hkept, hmade⟩ hbu _ hstep
      exact Launch.balanced_step_iff hkept hmade hbu hstep
    · refine ⟨rfl, ⟨fun h ↦ absurd rfl h, ?_⟩⟩
      simp [Launch.newState]
    · refine ⟨rfl, rfl, ?_⟩
      simp [Launch.account, Launch.newState]
  refine ⟨hiff, fun hreaches hawait ↦ ?_⟩
  exact Launch.outstanding_eq_zero_of_await
    (hiff.mpr hreaches as (List.prefix_refl as) s hrun) hawait

end

/-- `1` is a task that `await` waits for, `0` is not. -/
def waited : Launch (Fin 2) (Fin 2) where
  decl t := { cls := t, needWait := decide (t = 1) }
  getSimpleName c := toString c

theorem balanced_iff_reaches_waited :
    ∃ s, run waited.step waited.newState [.addTask 0, .addTask 1, .start] = some s ∧
      (StatesMeet waited.step (fun s ↦ (waited.account s).Balanced) waited.newState
          [.addTask 0, .addTask 1, .start] ↔
        StepsMeet waited.step waited.Reaches waited.newState
          [.addTask 0, .addTask 1, .start]) ∧
      (StepsMeet waited.step waited.Reaches waited.newState
          [.addTask 0, .addTask 1, .start] → s.await = .returns →
        (waited.account s).outstanding = 0) := by
  refine ⟨_, rfl, ?_⟩
  exact @balanced_iff_reaches (Fin 2) (Fin 2) _ _ waited _
    [.addTask 0, .addTask 1, .start] rfl

/-- `executeTask` after `start` raises the counter and not the latch: `await`
comes back at once with the task outstanding. -/
theorem await_returns_early :
    ∃ s, run waited.step waited.newState [.addTask 0, .start, .executeTask 1] =
        some s ∧
      s.mCountDownLatch = some 0 ∧ s.mNeedWaitCount = 1 ∧ s.mNeedWaitTasks = [] ∧
      (waited.account s).outstanding = 1 ∧ ¬ (waited.account s).Balanced ∧
      s.await = .returns := by
  refine ⟨_, rfl, rfl, rfl, rfl, by decide, ?_, by decide⟩
  intro hbalanced
  exact absurd hbalanced.count (by decide)

end HiApp.LaunchStarter
