import HiApp.TaskFlow.Edges

/-!
# Project.Builder and the heaps a program can build

A `Project` is a group of tasks between a start and an end task.  Its builder
connects each added task to the end task at once and to the start task one call
later.  `Built` collects every heap that the public interface can produce
before a run: fresh objects, any sequence of the four mutators, assignments to
`priority`.  What a builder does is such a sequence.
-/

namespace HiApp.TaskFlow

variable {τ : Type*} [DecidableEq τ]

/-- The heaps a program can build before it starts a run. -/
inductive Built (A : Arena τ) : Heap τ → Prop
  | fresh (priority : τ → Int) : Built A (Heap.fresh priority)
  | perform {h : Heap τ} (c : Call τ) (hh : Built A h) :
      Built A (A.perform h c)
  | setPriority {h : Heap τ} (t : τ) (priority : Int) (hh : Built A h) :
      Built A (h.setPriority t priority)

theorem built_foldl (A : Arena τ) {h : Heap τ} (hh : Built A h)
    (calls : List (Call τ)) : Built A (calls.foldl A.perform h) := by
  induction calls generalizing h with
  | nil => exact hh
  | cons c calls ih => exact ih (hh.perform c)

/-! ## Project.Builder -/

/-- `Project.Builder`, with the cache of its `TaskFactory`.  The three objects
it makes belong together. -/
structure Builder (A : Arena τ) where
  mProject : τ
  mStartTask : τ
  mEndTask : τ
  boundary : (A.decl mProject).kind = .project mStartTask mEndTask
  mCacheTasks : String → Option τ := fun _ ↦ none
  mPriority : Int := 0
  mCurrentTaskShouldDependOnStartTask : Bool := false
  mCurrentAddTask : Option τ := none

namespace Builder

variable {A : Arena τ}

/-- `TaskFactory.getTask`: the creator is asked once per id. -/
def getTask (B : Builder A) (createTask : String → τ) (id : String) :
    Builder A × τ :=
  match B.mCacheTasks id with
  | some task => (B, task)
  | none =>
      let task := createTask id
      ({ B with mCacheTasks := Function.update B.mCacheTasks id (some task) },
        task)

/-- `mStartTask.behind(mCurrentAddTask)`, when a task is pending. -/
def linkPending (B : Builder A) (h : Heap τ) : Heap τ :=
  match B.mCurrentAddTask with
  | some current =>
      if B.mCurrentTaskShouldDependOnStartTask then
        A.behind h B.mStartTask current
      else h
  | none => h

def addTask (B : Builder A) (h : Heap τ) (task : τ) : Builder A × Heap τ :=
  ({ B with
      mCurrentAddTask := some task
      mCurrentTaskShouldDependOnStartTask := true },
    A.behind (B.linkPending h) task B.mEndTask)

def add (B : Builder A) (h : Heap τ) (createTask : String → τ) (id : String) :
    Builder A × Heap τ :=
  let (B₁, task) := B.getTask createTask id
  let B₂ := if B₁.mPriority < (h task).priority then
    { B₁ with mPriority := (h task).priority } else B₁
  B₂.addTask h task

def build (B : Builder A) (h : Heap τ) : τ × Heap τ :=
  let h₁ := if B.mCurrentAddTask.isNone then
      A.behind h B.mStartTask B.mEndTask
    else B.linkPending h
  (B.mProject,
    (h₁.setPriority B.mStartTask B.mPriority).setPriority B.mEndTask B.mPriority)

theorem built_linkPending (B : Builder A) {h : Heap τ} (hh : Built A h) :
    Built A (B.linkPending h) := by
  unfold linkPending
  split
  · split
    · exact hh.perform (.behind _ _)
    · exact hh
  · exact hh

theorem built_add (B : Builder A) {h : Heap τ} (hh : Built A h)
    (createTask : String → τ) (id : String) :
    Built A (B.add h createTask id).2 := by
  unfold add addTask
  exact ((built_linkPending _ hh).perform (.behind _ _))

theorem built_build (B : Builder A) {h : Heap τ} (hh : Built A h) :
    Built A (B.build h).2 := by
  unfold build
  refine Built.setPriority _ _ (Built.setPriority _ _ ?_)
  split
  · exact hh.perform (.behind _ _)
  · exact B.built_linkPending hh

end Builder

/-! ## What holds of every built heap -/

namespace Arena

variable (A : Arena τ)

theorem perform_state (h : Heap τ) (c : Call τ) (t : τ) :
    (A.perform h c t).state = (h t).state := by
  have hdep : ∀ (h : Heap τ) (x y : τ),
      (A.taskDependOn h x y t).state = (h t).state := by
    intro h x y
    unfold taskDependOn
    split
    · rfl
    · dsimp only
      split <;> simp
  have hrem : ∀ (h : Heap τ) (x y : τ),
      (A.taskRemoveDependence h x y t).state = (h t).state := by
    intro h x y
    unfold taskRemoveDependence
    split
    · rfl
    · dsimp only
      split <;> simp
  cases c with
  | dependOn r x => exact hdep h _ _
  | removeDependence r x => exact hrem h _ _
  | behind r x =>
      simp only [perform, behind, taskBehind]
      split
      · rfl
      · simp [dependOn, hdep]
  | removeBehind r x =>
      simp only [perform, removeBehind, taskRemoveBehind]
      split
      · rfl
      · simp [removeDependence, hrem]

end Arena

namespace Built

variable {A : Arena τ} {h : Heap τ}

theorem state_eq_idle (hh : Built A h) (t : τ) : (h t).state = .idle := by
  induction hh with
  | fresh priority => rfl
  | perform c _ ih => rw [A.perform_state, ih]
  | setPriority u p _ ih => rw [Heap.setPriority_state, ih]

/-- Between two different tasks, a successor record is always matched by a
dependency record, whatever the mutators did. -/
theorem behinds_le_depends (hh : Built A h) {a b : τ} (hab : a ≠ b) :
    h.behinds a b ≤ h.depends a b := by
  induction hh with
  | fresh priority => exact Nat.le_refl _
  | setPriority u p _ ih => simpa using ih
  | @perform h c _ ih =>
      by_cases hc : c.Trivial A
      · rwa [A.perform_of_trivial h hc]
      rw [A.depends_perform h hc, A.behinds_perform h hc]
      by_cases hedge : (a, b) = c.edge A
      · rw [if_pos hedge, if_pos hedge]
        cases c with
        | dependOn r x =>
            simp only [Call.newBehinds, Call.newDepends]
            omega
        | removeDependence r x =>
            simp only [Call.newBehinds, Call.newDepends]
            omega
        | behind r x =>
            obtain ⟨rfl, rfl⟩ := Prod.mk.inj hedge
            simp only [Call.newBehinds, Call.newDepends, Ne.symm hab, if_false]
            omega
        | removeBehind r x =>
            obtain ⟨rfl, rfl⟩ := Prod.mk.inj hedge
            simp only [Call.newBehinds, Call.newDepends, Ne.symm hab, if_false]
            omega
      · rwa [if_neg hedge, if_neg hedge]

end Built

end HiApp.TaskFlow
