import Mathlib.Data.Fintype.Basic
import HiApp.LaunchStarter.Dispatcher

/-!
# The book of the latches

The part of a dispatcher that decides when tasks may run: the latches, who is
registered as waiting for which class, which tasks are running and finished,
and the record of finished classes.  Every step of the dispatcher makes at most
one entry into this book, and `entry` says which.
-/

namespace HiApp.LaunchStarter

variable {τ κ : Type*}

/-- `children` is `mDependedHashMap`, `recorded` is `mFinishedTasks`; `added`
and `ran` count the calls of `addTask` and `run()`. -/
@[ext]
structure Book (τ κ : Type*) where
  mDepends : τ → ℕ
  isRunning : τ → Bool
  isFinished : τ → Bool
  children : κ → List τ
  recorded : List κ
  added : τ → ℕ
  ran : τ → ℕ

inductive Entry (τ : Type*) where
  | add (task : τ)
  | run (task : τ)
  | complete (task : τ)
  | record (task : τ)
  deriving DecidableEq

variable [DecidableEq τ] [DecidableEq κ] (L : Launch τ κ)

namespace Book

def enter (b : Book τ κ) : Entry τ → Book τ κ
  | .add t => { b with
      mDepends := Function.update b.mDepends t
        (b.mDepends t - (L.dependsOn t).countP (fun c ↦ decide (c ∈ b.recorded)))
      children := fun c ↦
        b.children c ++ List.replicate ((L.dependsOn t).count c) t
      added := Function.update b.added t (b.added t + 1) }
  | .run t => { b with
      isRunning := Function.update b.isRunning t true
      ran := Function.update b.ran t (b.ran t + 1) }
  | .complete t => { b with
      isFinished := Function.update b.isFinished t true
      mDepends := fun u ↦
        b.mDepends u - (b.children (L.decl t).cls).count u }
  | .record t => { b with recorded := b.recorded ++ [(L.decl t).cls] }

end Book

namespace State

def book (s : State τ κ) : Book τ κ where
  mDepends t := (s.vars t).mDepends
  isRunning t := (s.vars t).mIsRunning
  isFinished t := (s.vars t).mIsFinished
  children := s.mDependedHashMap
  recorded := s.mFinishedTasks
  added t := s.trace.count (.added t)
  ran t := s.trace.count (.ran t)

end State

namespace Launch

/-- The entry a step of a `DispatchRunnable` makes. -/
def jobEntry (job : Job τ) : Option (Entry τ) :=
  match job.stage with
  | .queued => none
  | .waiting => some (.run job.task)
  | .running =>
      if !(L.decl job.task).needCall || !(L.decl job.task).runOnMainThread then
        some (.complete job.task)
      else none
  | .satisfied =>
      if L.ifNeedWait job.task then some (.record job.task) else none

def entry (s : State τ κ) : Action τ → Option (Entry τ)
  | .addTask t => some (.add t)
  | .call t => some (.complete t)
  | .start | .executeTask _ => none
  | .main =>
      match s.main with
      | .executing job _ => L.jobEntry job
      | .sending (t :: _) false =>
          if L.skipped t && L.ifNeedWait t then some (.record t) else none
      | _ => none
  | .pool i =>
      match s.pool[i]? with
      | some job => L.jobEntry job
      | none => none

end Launch

def Book.enter? (b : Book τ κ) (e : Option (Entry τ)) : Book τ κ :=
  e.elim b (b.enter L)

/-! ## Methods -/

omit [DecidableEq κ] in
theorem foldl_satisfy (l : List τ) (s : State τ κ) :
    l.foldl State.satisfy s = { s with
      vars := fun t ↦
        { s.vars t with mDepends := (s.vars t).mDepends - l.count t } } := by
  induction l generalizing s with
  | nil => rfl
  | cons u l ih =>
      rw [List.foldl_cons, ih]
      simp only [State.satisfy, State.modify, State.mk.injEq, and_true]
      funext t
      by_cases htu : t = u
      · subst htu
        simp [Nat.sub_sub, Nat.add_comm]
      · simp [htu, Ne.symm htu]

omit [DecidableEq τ] in
theorem register_cons (children : κ → List τ) (task : τ) (d : κ) (l : List κ)
    (c : κ) :
    Function.update children d (children d ++ [task]) c ++
        List.replicate (l.count c) task =
      children c ++ List.replicate ((d :: l).count c) task := by
  by_cases hcd : c = d
  · subst hcd
    simp [List.replicate_succ]
  · simp [hcd, Ne.symm hcd]

theorem foldl_collectDepend (task : τ) (l : List κ) (s : State τ κ) :
    l.foldl (Launch.collectDepend task) s = { s with
      vars := Function.update s.vars task
        { s.vars task with
          mDepends := (s.vars task).mDepends -
            l.countP (fun c ↦ decide (c ∈ s.mFinishedTasks)) }
      mDependedHashMap := fun c ↦
        s.mDependedHashMap c ++ List.replicate (l.count c) task } := by
  induction l generalizing s with
  | nil => simp
  | cons d l ih =>
      rw [List.foldl_cons, ih]
      simp only [← register_cons]
      by_cases hd : d ∈ s.mFinishedTasks
      · simp [Launch.collectDepend, hd, State.satisfy, State.modify, Nat.sub_sub,
          Nat.add_comm]
      · simp [Launch.collectDepend, hd]

namespace Launch

variable (s : State τ κ) (t : τ)

omit [DecidableEq κ] in
theorem satisfyChildren_eq : L.satisfyChildren s t = { s with
    vars := fun u ↦ { s.vars u with
      mDepends := (s.vars u).mDepends -
        (s.mDependedHashMap (L.decl t).cls).count u } } :=
  foldl_satisfy _ _

/-- All that `addTask` does. -/
theorem addTask_eq : L.addTask s t = { s with
    vars := Function.update s.vars t
      { s.vars t with
        mDepends := (s.vars t).mDepends -
          (L.dependsOn t).countP (fun c ↦ decide (c ∈ s.mFinishedTasks)) }
    mDependedHashMap := fun c ↦
      s.mDependedHashMap c ++ List.replicate ((L.dependsOn t).count c) t
    mAllTasks := s.mAllTasks ++ [t]
    mClsAllTasks := s.mClsAllTasks ++ [(L.decl t).cls]
    mNeedWaitTasks := s.mNeedWaitTasks ++ if L.ifNeedWait t then [t] else []
    mNeedWaitCount := s.mNeedWaitCount + if L.ifNeedWait t then 1 else 0
    main := s.main.listModified
    trace := s.trace ++ [.added t] } := by
  rw [addTask, collectDepends, foldl_collectDepend]
  cases L.ifNeedWait t <;> simp [State.emit]

theorem book_addTask : (L.addTask s t).book = s.book.enter L (.add t) := by
  rw [addTask_eq]
  ext u
  · by_cases hu : u = t
    · subst hu
      simp only [State.book, Book.enter, Function.update_self]
      rfl
    · simp [State.book, Book.enter, hu]
  · by_cases hu : u = t <;> simp [State.book, Book.enter, hu]
  · by_cases hu : u = t <;> simp [State.book, Book.enter, hu]
  · rfl
  · rfl
  · by_cases hu : u = t
    · simp [State.book, Book.enter, hu]
    · simp [State.book, Book.enter, hu, Ne.symm hu]
  · simp [State.book, Book.enter]

theorem book_complete : (L.satisfyChildren (s.setFinished t) t).book =
    s.book.enter L (.complete t) := by
  rw [satisfyChildren_eq]
  ext u
  · by_cases hu : u = t <;>
      simp [State.book, Book.enter, State.setFinished, State.modify, hu]
  · by_cases hu : u = t <;>
      simp [State.book, Book.enter, State.setFinished, State.modify, hu]
  · by_cases hu : u = t <;>
      simp [State.book, Book.enter, State.setFinished, State.modify, hu]
  all_goals rfl

theorem book_markTaskDone : (L.markTaskDone s t).book =
    s.book.enter? L (if L.ifNeedWait t then some (.record t) else none) := by
  unfold markTaskDone
  split
  · simp only
    split <;> simp [State.emit, State.book, Book.enter?, Book.enter]
  · rfl

omit [DecidableEq κ] in
theorem book_modify {f : TaskVars → TaskVars}
    (hdepends : ∀ v, (f v).mDepends = v.mDepends)
    (hrunning : ∀ v, (f v).mIsRunning = v.mIsRunning)
    (hfinished : ∀ v, (f v).mIsFinished = v.mIsFinished) :
    (s.modify t f).book = s.book := by
  ext x
  · by_cases hx : x = t <;> simp [State.book, State.modify, hx, hdepends]
  · by_cases hx : x = t <;> simp [State.book, State.modify, hx, hrunning]
  · by_cases hx : x = t <;> simp [State.book, State.modify, hx, hfinished]
  all_goals rfl

omit [DecidableEq κ] in
theorem book_setWaiting : (s.setWaiting t).book = s.book :=
  book_modify s t (fun _ ↦ rfl) (fun _ ↦ rfl) (fun _ ↦ rfl)

omit [DecidableEq κ] in
theorem book_setSend : (s.setSend t).book = s.book :=
  book_modify s t (fun _ ↦ rfl) (fun _ ↦ rfl) (fun _ ↦ rfl)

theorem book_send : (L.send s t).book = s.book.enter? L
    (if L.skipped t && L.ifNeedWait t then some (.record t) else none) := by
  rw [send, book_setSend]
  cases hskip : L.skipped t with
  | true => simpa using L.book_markTaskDone s t
  | false =>
      simp only [Bool.false_eq_true, if_false, Bool.false_and, sentTaskReal]
      split <;> rfl

theorem book_run :
    ((s.setRunning t).emit (.ran t)).book = s.book.enter L (.run t) := by
  ext u
  · by_cases hu : u = t <;>
      simp [State.book, Book.enter, State.emit, State.setRunning, State.modify, hu]
  · by_cases hu : u = t <;>
      simp [State.book, Book.enter, State.emit, State.setRunning, State.modify, hu]
  · by_cases hu : u = t <;>
      simp [State.book, Book.enter, State.emit, State.setRunning, State.modify, hu]
  · rfl
  · rfl
  · simp [State.book, Book.enter, State.emit, State.setRunning, State.modify]
  · by_cases hu : u = t
    · simp [State.book, Book.enter, State.emit, State.setRunning, State.modify, hu]
    · simp [State.book, Book.enter, State.emit, State.setRunning, State.modify, hu, Ne.symm hu]

theorem book_stepRunnable {job : Job τ} {s' : State τ κ} {stage : Option Stage}
    (hstep : L.stepRunnable s job = some (s', stage)) :
    s'.book = s.book.enter? L (L.jobEntry job) := by
  unfold jobEntry
  rcases stepRunnable_cases hstep with ⟨hstage, rfl, -⟩ | ⟨hstage, -, rfl, -⟩ |
    ⟨hstage, hcall, rfl, -⟩ | ⟨hstage, hcall, rfl, -⟩ | ⟨hstage, rfl, -⟩
  · rw [hstage, book_setWaiting]
    rfl
  · rw [hstage, L.book_run]
    rfl
  · rw [hstage, hcall, book_complete]
    rfl
  · rw [hstage, hcall]
    rfl
  · rw [hstage, book_markTaskDone]

theorem mDepends_eq_zero_of_run {a : Action τ} {s' : State τ κ}
    (hstep : L.step s a = some s') (hentry : L.entry s a = some (.run t)) :
    (s.vars t).mDepends = 0 := by
  have hjob : ∀ {job : Job τ} {r}, L.jobEntry job = some (.run t) →
      L.stepRunnable s job = some r → (s.vars t).mDepends = 0 := by
    rintro job ⟨s₁, stage⟩ hentry hrun
    unfold jobEntry at hentry
    rcases stepRunnable_cases hrun with ⟨hstage, -⟩ | ⟨hstage, hlatch, -⟩ |
      ⟨hstage, -⟩ | ⟨hstage, -⟩ | ⟨hstage, -⟩
    · simp [hstage] at hentry
    · obtain rfl : job.task = t := by simpa [hstage] using hentry
      exact hlatch
    all_goals
      simp only [hstage] at hentry
      split at hentry <;> simp at hentry
  cases a with
  | addTask u | start | executeTask u | call u => simp [entry] at hentry
  | main =>
      rcases stepMain_cases hstep with ⟨rest, hmain, rfl⟩ | ⟨hmain, rfl⟩ |
        ⟨u, rest, hmain, rfl⟩ | ⟨hmain, rfl⟩ | ⟨u, rest, hmain, rfl⟩ |
        ⟨job, rest, s₁, stage, hmain, hrun, rfl⟩
      · simp [entry, hmain] at hentry
      · simp [entry, hmain] at hentry
      · simp [entry, hmain] at hentry
      · simp [entry, hmain] at hentry
      · simp [entry, hmain] at hentry
      · rw [entry, hmain] at hentry
        exact hjob hentry hrun
  | pool i =>
      obtain ⟨job, s₁, stage, hget, -, hrun, rfl⟩ := stepPool_cases hstep
      rw [entry, hget] at hentry
      exact hjob hentry hrun

/-- Every step makes the entry of its action, or none. -/
theorem book_step {a : Action τ} {s' : State τ κ}
    (hstep : L.step s a = some s') :
    s'.book = s.book.enter? L (L.entry s a) := by
  cases a with
  | addTask t =>
      obtain rfl := Option.some.inj hstep
      exact L.book_addTask s t
  | start =>
      simp only [step] at hstep
      split at hstep
      · obtain rfl := Option.some.inj hstep
        rcases start_cases L s with ⟨heq, -⟩ |
          ⟨-, high, tasks, -, ⟨-, heq⟩ | ⟨-, heq⟩⟩
        · rw [heq]
          rfl
        · simp [heq, State.book, State.emit, entry, Book.enter?]
        · rw [heq]
          rfl
      · simp at hstep
  | executeTask t =>
      obtain rfl := Option.some.inj hstep
      unfold executeTask
      simp only
      split <;> simp [State.book, State.emit, entry, Book.enter?]
  | main =>
      rcases stepMain_cases hstep with ⟨rest, hmain, rfl⟩ | ⟨hmain, rfl⟩ |
        ⟨t, rest, hmain, rfl⟩ | ⟨hmain, rfl⟩ | ⟨t, rest, hmain, rfl⟩ |
        ⟨job, rest, s₁, stage, hmain, hrun, rfl⟩
      · simp [State.book, State.emit, entry, hmain, Book.enter?]
      · simp [State.book, entry, hmain, Book.enter?]
      · have hsend := L.book_send s t
        rw [entry, hmain]
        exact hsend
      · simp [State.book, entry, hmain, Book.enter?]
      · simp [State.book, entry, hmain, Book.enter?]
      · have hjob := L.book_stepRunnable s hrun
        rw [entry, hmain]
        exact hjob
  | pool i =>
      obtain ⟨job, s₁, stage, hget, -, hrun, rfl⟩ := stepPool_cases hstep
      have hjob := L.book_stepRunnable s hrun
      rw [entry, hget]
      exact hjob
  | call t =>
      simp only [step] at hstep
      split at hstep
      · obtain rfl := Option.some.inj hstep
        exact L.book_complete s t
      · simp at hstep

end Launch

end HiApp.LaunchStarter
