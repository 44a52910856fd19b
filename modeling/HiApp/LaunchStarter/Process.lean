import HiApp.LaunchStarter.Dispatcher
import HiApp.Lib.Runs

/-!
# Several dispatchers in one process

The dispatchers of a process share the task objects, the static list
`sNewTasksHigh`, the two pools and the main thread.  A step is a step of one
dispatcher, as in `Launch.step`, on its own fields and on what is shared.
-/

namespace HiApp.LaunchStarter

variable {δ τ κ : Type*}

/-- `dispatcher` has the fields of each dispatcher; what is shared is read from
the process and not from there. -/
structure Process (δ τ κ : Type*) where
  vars : τ → TaskVars
  sNewTasksHigh : List τ := []
  /-- The dispatcher that made the `TaskCallBack` of the task. -/
  callBack : τ → Option δ := fun _ ↦ none
  dispatcher : δ → State τ κ
  /-- The dispatcher whose `start` the main thread is in. -/
  onMain : Option δ := none
  pool : List (δ × Job τ) := []
  trace : List (Event τ) := []

def Launch.newProcess (L : Launch τ κ) : Process δ τ κ :=
  { vars := L.newTask, dispatcher := fun _ ↦ L.newState }

namespace Process

/-- What a method of dispatcher `d` works on; jobs, events and callbacks that it
adds are collected from empty lists. -/
def view (p : Process δ τ κ) (d : δ) : State τ κ :=
  { p.dispatcher d with
    vars := p.vars
    sNewTasksHigh := p.sNewTasksHigh
    taskCallBack := []
    pool := []
    trace := [] }

variable [DecidableEq δ] [DecidableEq τ]

/-- The process after a method of dispatcher `d` has left `s`. -/
def store (p : Process δ τ κ) (d : δ) (s : State τ κ) : Process δ τ κ :=
  { p with
    vars := s.vars
    sNewTasksHigh := s.sNewTasksHigh
    callBack := fun t ↦ if t ∈ s.taskCallBack then some d else p.callBack t
    dispatcher := Function.update p.dispatcher d s
    pool := p.pool ++ s.pool.map fun job ↦ (d, job)
    trace := p.trace ++ s.trace }

/-- The main thread is in `start` of dispatcher `d`, or has left it. -/
def storeMain (p : Process δ τ κ) (d : δ) (s : State τ κ) : Process δ τ κ :=
  { p.store d s with onMain := if s.main = .idle then none else some d }

end Process

/-- As `Action`, with the dispatcher that a method is called on. -/
inductive ProcessAction (δ τ : Type*) where
  | addTask (d : δ) (task : τ)
  | start (d : δ)
  | executeTask (d : δ) (task : τ)
  | main
  | pool (i : ℕ)
  | call (task : τ)
  deriving DecidableEq

namespace Launch

variable [DecidableEq δ] [DecidableEq τ] [DecidableEq κ] (L : Launch τ κ)

/-- As `stepPool`, on the jobs of all dispatchers. -/
def stepProcessPool (p : Process δ τ κ) (i : ℕ) : Option (Process δ τ κ) :=
  match p.pool[i]? with
  | none => none
  | some (d, job) =>
      if job.stage = .queued && !L.mayBegin (p.pool.map Prod.snd) i job.task then none
      else
        match L.stepRunnable (p.view d) job with
        | none => none
        | some (s, some stage) =>
            some (Process.store
              { p with pool := p.pool.set i (d, { job with stage := stage }) } d s)
        | some (s, none) =>
            some (Process.store { p with pool := p.pool.eraseIdx i } d s)

omit [DecidableEq κ] in
theorem stepProcessPool_cases {L : Launch τ κ} {p q : Process δ τ κ} {i : ℕ}
    (hstep : L.stepProcessPool p i = some q) :
    ∃ d job s stage p₁ p₂, L.stepRunnable (p.view d) job = some (s, stage) ∧
      p.pool = p₁ ++ (d, job) :: p₂ ∧
      q = Process.store { p with pool := p₁ ++
        ((stage.map fun stage ↦ (d, { job with stage := stage })).toList ++ p₂) } d s := by
  unfold stepProcessPool at hstep
  split at hstep
  · simp at hstep
  rename_i d job hget
  obtain ⟨hlt, hi⟩ := List.getElem?_eq_some_iff.mp hget
  split at hstep
  · simp at hstep
  refine ⟨d, job, ?_⟩
  have hpool : p.pool = p.pool.take i ++ (d, job) :: p.pool.drop (i + 1) := by
    rw [← hi, ← List.drop_eq_getElem_cons hlt, List.take_append_drop]
  split at hstep
  · simp at hstep
  · rename_i s stage hrun
    refine ⟨s, some stage, p.pool.take i, p.pool.drop (i + 1), hrun, hpool, ?_⟩
    rw [← Option.some.inj hstep, List.set_eq_take_append_cons_drop, if_pos hlt]
    rfl
  · rename_i s hrun
    refine ⟨s, none, p.pool.take i, p.pool.drop (i + 1), hrun, hpool, ?_⟩
    rw [← Option.some.inj hstep, List.eraseIdx_eq_take_drop_succ]
    rfl

def stepProcess (p : Process δ τ κ) : ProcessAction δ τ → Option (Process δ τ κ)
  | .addTask d t => some (p.store d (L.addTask (p.view d) t))
  | .start d =>
      if p.onMain = none then some (p.storeMain d (L.start (p.view d))) else none
  | .executeTask d t => some (p.store d (L.executeTask (p.view d) t))
  | .main =>
      match p.onMain with
      | none => none
      | some d => (L.stepMain (p.view d)).map (p.storeMain d)
  | .pool i => L.stepProcessPool p i
  | .call t =>
      match p.callBack t with
      | none => none
      | some d => some (p.store d (L.call (p.view d) t))

end Launch

end HiApp.LaunchStarter
