import Mathlib.Logic.Relation
import HiApp.TaskFlow.Runtime

/-!
# The graph a Project.Builder makes

Every added task is connected to the end task at once and to the start task by the
next `add` or by `build`.  Between two calls the last added task is the only one that
is still to be connected to the start task.
-/

namespace HiApp.TaskFlow

open Relation

variable {τ : Type*} [DecidableEq τ]

namespace Heap

variable (h : Heap τ) (t x u : τ)

@[simp] theorem addDepend_priority :
    (h.addDepend t x u).priority = (h u).priority := by
  rw [addDepend, modify_apply]
  split
  · rfl
  · rfl

@[simp] theorem addBehind_priority :
    (h.addBehind t x u).priority = (h u).priority := by
  rw [addBehind, modify_apply]
  split
  · rfl
  · rfl

theorem setPriority_priority (p : Int) :
    (h.setPriority t p u).priority = if u = t then p else (h u).priority := by
  rw [setPriority, modify_apply]
  split
  · rfl
  · rfl

end Heap

namespace Arena

variable (A : Arena τ) (h : Heap τ)

omit [DecidableEq τ] in
theorem startOf_eq_self {t : τ} (ht : (A.decl t).isProject = false) : A.startOf t = t := by
  unfold startOf
  split
  · rename_i hkind
    simp [Decl.isProject, hkind] at ht
  · rfl

/-- `behind` between two tasks that are no projects records one edge on either side. -/
theorem depends_behind {t x : τ} (ht : (A.decl t).isProject = false)
    (hx : (A.decl x).isProject = false) (hne : x ≠ t) (a b : τ) :
    (A.behind h t x).depends a b = h.depends a b + if a = t ∧ b = x then 1 else 0 := by
  have hend := A.endOf_eq_self ht
  have hstart := A.startOf_eq_self hx
  have hcall : ¬ (Call.behind t x).Trivial A := by
    simpa [Call.Trivial, hend] using hne
  have heffect := A.depends_perform h hcall a b
  simp only [perform, Call.edge, Call.newDepends, hend, hstart, hne, if_false,
    Prod.mk.injEq] at heffect
  rw [heffect]
  split
  · rfl
  · rfl

theorem behinds_behind {t x : τ} (ht : (A.decl t).isProject = false)
    (hx : (A.decl x).isProject = false) (hne : x ≠ t) (a b : τ) :
    (A.behind h t x).behinds a b = h.behinds a b + if a = t ∧ b = x then 1 else 0 := by
  have hend := A.endOf_eq_self ht
  have hstart := A.startOf_eq_self hx
  have hcall : ¬ (Call.behind t x).Trivial A := by
    simpa [Call.Trivial, hend] using hne
  have heffect := A.behinds_perform h hcall a b
  simp only [perform, Call.edge, Call.newBehinds, hend, hstart, Prod.mk.injEq] at heffect
  rw [heffect]
  split
  · rfl
  · rfl

theorem priority_behind (t x u : τ) :
    (A.behind h t x u).priority = (h u).priority := by
  unfold behind taskBehind
  split
  · rfl
  · unfold dependOn taskDependOn
    split
    · simp
    · dsimp only
      split
      · simp
      · simp

end Arena

namespace Builder

variable {A : Arena τ}

/-- One `add` after the other. -/
def addAll (B : Builder A) (h : Heap τ) (createTask : String → τ) (ids : List String) :
    Builder A × Heap τ :=
  ids.foldl (fun s id ↦ s.1.add s.2 createTask id) (B, h)

/-- The number of edges from `a` to `b`, with `after` behind the start task and
`before` in front of the end task. -/
def links (startTask endTask : τ) (after before : List τ) (a b : τ) : ℕ :=
  (if a = startTask then after.count b else 0) + if b = endTask then before.count a else 0

/-- The tasks `added` so far: all are connected to the end task, and all but the last to
the start task. -/
structure Pending (B : Builder A) (h : Heap τ) (priority : τ → Int)
    (createTask : String → τ) (added : List τ) : Prop where
  cache : ∀ id task, B.mCacheTasks id = some task → task = createTask id
  current : B.mCurrentAddTask = added.getLast?
  flag : B.mCurrentAddTask.isSome → B.mCurrentTaskShouldDependOnStartTask = true
  mPriority : B.mPriority = (added.map priority).foldl max 0
  priority : ∀ t, (h t).priority = priority t
  depends : ∀ a b, h.depends a b =
    links B.mStartTask B.mEndTask added.dropLast added a b
  behinds : ∀ a b, h.behinds a b =
    links B.mStartTask B.mEndTask added.dropLast added a b

variable {B : Builder A} {h : Heap τ} {priority : τ → Int} {createTask : String → τ}
  {added : List τ}

omit [DecidableEq τ] in
theorem isProject_boundary (B : Builder A) :
    (A.decl B.mStartTask).isProject = false ∧ (A.decl B.mEndTask).isProject = false := by
  obtain ⟨hstart, hend⟩ := A.boundary _ _ _ B.boundary
  exact ⟨by simp [Decl.isProject, hstart], by simp [Decl.isProject, hend]⟩

theorem links_after (startTask endTask x : τ) (after before : List τ) (a b : τ) :
    links startTask endTask after before a b + (if a = startTask ∧ b = x then 1 else 0) =
      links startTask endTask (after ++ [x]) before a b := by
  unfold links
  by_cases ha : a = startTask
  · by_cases hb : b = x
    · simp [ha, hb]
      omega
    · simp [ha, hb, Ne.symm hb]
  · simp [ha]

theorem links_before (startTask endTask x : τ) (after before : List τ) (a b : τ) :
    links startTask endTask after before a b + (if a = x ∧ b = endTask then 1 else 0) =
      links startTask endTask after (before ++ [x]) a b := by
  unfold links
  by_cases hb : b = endTask
  · by_cases ha : a = x
    · simp [ha, hb]
      omega
    · simp [ha, hb, Ne.symm ha]
  · simp [hb]

namespace Pending

/-- After the pending edge is made, all added tasks are connected on both sides. -/
theorem linkPending (hB : Pending B h priority createTask added)
    (hadded : ∀ t ∈ added, (A.decl t).isProject = false ∧ t ≠ B.mStartTask) (a b : τ) :
    (B.linkPending h).depends a b = links B.mStartTask B.mEndTask added added a b ∧
      (B.linkPending h).behinds a b = links B.mStartTask B.mEndTask added added a b := by
  rcases List.eq_nil_or_concat' added with rfl | ⟨init, last, rfl⟩
  · have hnone : B.mCurrentAddTask = none := hB.current
    simp only [Builder.linkPending, hnone]
    exact ⟨hB.depends a b, hB.behinds a b⟩
  · have hcurrent : B.mCurrentAddTask = some last := by
      rw [hB.current, List.getLast?_concat]
    have hflag := hB.flag (by rw [hcurrent]; rfl)
    obtain ⟨hproject, hne⟩ := hadded last (by simp)
    simp only [Builder.linkPending, hcurrent, hflag, if_true]
    rw [A.depends_behind h B.isProject_boundary.1 hproject hne,
      A.behinds_behind h B.isProject_boundary.1 hproject hne, hB.depends, hB.behinds,
      List.dropLast_concat]
    exact ⟨links_after _ _ _ _ _ a b, links_after _ _ _ _ _ a b⟩

theorem priority_linkPending (B : Builder A) (h : Heap τ) (t : τ) :
    (B.linkPending h t).priority = (h t).priority := by
  unfold Builder.linkPending
  cases B.mCurrentAddTask with
  | none => rfl
  | some current =>
      dsimp only
      split
      · exact A.priority_behind h _ _ t
      · rfl

theorem getTask_eq (hB : Pending B h priority createTask added) (id : String) :
    B.getTask createTask id = ({ B with
      mCacheTasks := Function.update B.mCacheTasks id (some (createTask id)) },
      createTask id) := by
  unfold getTask
  split
  · rename_i task htask
    obtain rfl := hB.cache id task htask
    rw [← htask, Function.update_eq_self]
  · rfl

theorem add_eq (hB : Pending B h priority createTask added) (id : String) :
    B.add h createTask id = ({ B with
      mCacheTasks := Function.update B.mCacheTasks id (some (createTask id))
      mPriority := max B.mPriority (priority (createTask id))
      mCurrentAddTask := some (createTask id)
      mCurrentTaskShouldDependOnStartTask := true },
      A.behind (B.linkPending h) (createTask id) B.mEndTask) := by
  unfold Builder.add
  rw [hB.getTask_eq]
  simp only [hB.priority, addTask]
  split
  · rename_i hlt
    rw [max_eq_right hlt.le]
    rfl
  · rename_i hle
    rw [max_eq_left (not_lt.mp hle)]
    rfl

theorem add (hB : Pending B h priority createTask added) (id : String)
    (hadded : ∀ t ∈ added, (A.decl t).isProject = false ∧ t ≠ B.mStartTask)
    (hproject : (A.decl (createTask id)).isProject = false)
    (hne : createTask id ≠ B.mEndTask) :
    Pending (B.add h createTask id).1 (B.add h createTask id).2 priority createTask
      (added ++ [createTask id]) := by
  rw [hB.add_eq]
  constructor
  · intro id' task htask
    dsimp only at htask
    by_cases hid : id' = id
    · rw [hid, Function.update_self] at htask
      rw [hid, Option.some.inj htask]
    · rw [Function.update_of_ne hid] at htask
      exact hB.cache id' task htask
  · simp
  · intro _
    rfl
  · simp [hB.mPriority]
  · intro t
    rw [A.priority_behind, priority_linkPending, hB.priority]
  · intro a b
    rw [A.depends_behind _ hproject B.isProject_boundary.2 (Ne.symm hne),
      (hB.linkPending hadded a b).1, List.dropLast_concat]
    exact links_before _ _ _ _ _ a b
  · intro a b
    rw [A.behinds_behind _ hproject B.isProject_boundary.2 (Ne.symm hne),
      (hB.linkPending hadded a b).2, List.dropLast_concat]
    exact links_before _ _ _ _ _ a b

end Pending

/-- The builder keeps its boundary tasks and its project through every `add`. -/
theorem boundary_addAll (B : Builder A) (h : Heap τ) (createTask : String → τ)
    (ids : List String) :
    (B.addAll h createTask ids).1.mStartTask = B.mStartTask ∧
      (B.addAll h createTask ids).1.mEndTask = B.mEndTask ∧
      (B.addAll h createTask ids).1.mProject = B.mProject := by
  have hadd : ∀ (B : Builder A) (h : Heap τ) (id : String),
      (B.add h createTask id).1.mStartTask = B.mStartTask ∧
        (B.add h createTask id).1.mEndTask = B.mEndTask ∧
        (B.add h createTask id).1.mProject = B.mProject := by
    intro B h id
    unfold add addTask getTask
    dsimp only
    split
    · split
      · exact ⟨rfl, rfl, rfl⟩
      · exact ⟨rfl, rfl, rfl⟩
    · split
      · exact ⟨rfl, rfl, rfl⟩
      · exact ⟨rfl, rfl, rfl⟩
  induction ids using List.reverseRecOn with
  | nil => exact ⟨rfl, rfl, rfl⟩
  | append_singleton ids id ih =>
      rw [addAll, List.foldl_concat, ← addAll]
      obtain ⟨hstart, hend, hproject⟩ := hadd (B.addAll h createTask ids).1
        (B.addAll h createTask ids).2 id
      exact ⟨hstart.trans ih.1, hend.trans ih.2.1, hproject.trans ih.2.2⟩

theorem pending_addAll (hB : Pending B h priority createTask []) (ids : List String)
    (hids : ∀ id ∈ ids, (A.decl (createTask id)).isProject = false ∧
      createTask id ≠ B.mStartTask ∧ createTask id ≠ B.mEndTask) :
    Pending (B.addAll h createTask ids).1 (B.addAll h createTask ids).2 priority createTask
      (ids.map createTask) := by
  induction ids using List.reverseRecOn with
  | nil => exact hB
  | append_singleton ids id ih =>
      have hinit := ih fun i hi ↦ hids i (List.mem_append_left _ hi)
      obtain ⟨hstart, hend, -⟩ := boundary_addAll B h createTask ids
      obtain ⟨hproject, -, hne⟩ := hids id (by simp)
      rw [addAll, List.foldl_concat, ← addAll, List.map_append]
      refine hinit.add id ?_ hproject (by rwa [hend])
      intro t ht
      obtain ⟨i, hi, rfl⟩ := List.mem_map.mp ht
      rw [hstart]
      obtain ⟨hproject', hne', -⟩ := hids i (List.mem_append_left _ hi)
      exact ⟨hproject', hne'⟩

/-! ## The finished project -/

/-- The constructor of `Project.Builder`. -/
def create {project startTask endTask : τ}
    (boundary : (A.decl project).kind = .project startTask endTask) : Builder A where
  mProject := project
  mStartTask := startTask
  mEndTask := endTask
  boundary := boundary

theorem pending_create {project startTask endTask : τ}
    (hproject : (A.decl project).kind = .project startTask endTask) (priority : τ → Int)
    (createTask : String → τ) :
    Pending (create hproject) (Heap.fresh priority) priority createTask [] := by
  refine ⟨by simp [create], rfl, by simp [create], rfl, fun _ ↦ rfl, ?_, ?_⟩
  · intro a b
    simp [Heap.depends, Heap.fresh, links]
  · intro a b
    simp [Heap.behinds, Heap.fresh, links]

/-- The tasks stand between the start and the end task, with an edge on either side for
each time a task is listed; without tasks the one edge connects the two. -/
structure Spans (h : Heap τ) (startTask endTask : τ) (tasks : List τ) : Prop where
  depends : ∀ a b, h.depends a b = h.behinds a b
  behinds : ∀ a b, h.behinds a b =
    if tasks = [] then (if a = startTask ∧ b = endTask then 1 else 0)
    else links startTask endTask tasks tasks a b

namespace Spans

variable {startTask endTask : τ} {tasks : List τ}

theorem behinds_start (hS : Spans h startTask endTask tasks) (hnil : tasks ≠ [])
    (hstart : startTask ∉ tasks) (t : τ) : h.behinds startTask t = tasks.count t := by
  rw [hS.behinds, if_neg hnil]
  simp [links, List.count_eq_zero.mpr hstart]

theorem behinds_end (hS : Spans h startTask endTask tasks) (hnil : tasks ≠ [])
    (hend : endTask ∉ tasks) (t : τ) : h.behinds t endTask = tasks.count t := by
  rw [hS.behinds, if_neg hnil]
  simp [links, List.count_eq_zero.mpr hend]

/-- An edge leaves the start task or enters the end task. -/
theorem edge_cases (hS : Spans h startTask endTask tasks) {a b : τ} (hedge : h.Edge a b) :
    (a = startTask ∧ b = endTask) ∨ (a = startTask ∧ b ∈ tasks) ∨
      (b = endTask ∧ a ∈ tasks) := by
  have hpos : 0 < h.behinds a b := (h.mem_behindTasks_iff a b).mp hedge
  rw [hS.behinds] at hpos
  split at hpos
  · left
    by_contra hother
    simp [hother] at hpos
  · right
    by_contra hother
    push Not at hother
    have hzero : links startTask endTask tasks tasks a b = 0 := by
      unfold links
      simp only [Nat.add_eq_zero_iff, ite_eq_right_iff, List.count_eq_zero]
      exact hother
    omega

/-- From the start task over the tasks to the end task every edge goes up. -/
theorem acyclic (hS : Spans h startTask endTask tasks) (hne : endTask ≠ startTask)
    (hstart : startTask ∉ tasks) (hend : endTask ∉ tasks) (a : τ) :
    ¬ TransGen h.Edge a a := by
  refine Acyclic.not_transGen_self_of_rank
    (fun t ↦ if t = startTask then 0 else if t = endTask then 2 else 1) ?_ a
  intro a b hedge
  rcases hS.edge_cases hedge with ⟨rfl, rfl⟩ | ⟨rfl, hb⟩ | ⟨rfl, ha⟩
  · simp [hne]
  · have hb₁ : b ≠ a := fun heq ↦ hstart (heq ▸ hb)
    have hb₂ : b ≠ endTask := fun heq ↦ hend (heq ▸ hb)
    simp [hb₁, hb₂]
  · have ha₁ : a ≠ startTask := fun heq ↦ hstart (heq ▸ ha)
    have ha₂ : a ≠ b := fun heq ↦ hend (heq ▸ ha)
    simp [ha₁, ha₂, hne]

/-- Without tasks the start task has the end task behind it and nothing else. -/
theorem of_nil (hS : Spans h startTask endTask []) :
    (h startTask).behindTasks = [endTask] ∧ (h endTask).dependTasks = [startTask] := by
  have hone : ∀ a b, h.behinds a b = if a = startTask ∧ b = endTask then 1 else 0 := by
    intro a b
    rw [hS.behinds, if_pos rfl]
  constructor
  · refine List.perm_singleton.mp (List.perm_iff_count.mpr fun t ↦ ?_)
    have hcount := hone startTask t
    rw [Heap.behinds] at hcount
    rw [hcount]
    by_cases ht : t = endTask
    · simp [ht]
    · simp [ht, Ne.symm ht]
  · refine List.perm_singleton.mp (List.perm_iff_count.mpr fun t ↦ ?_)
    have hcount := hone t endTask
    rw [← hS.depends, Heap.depends] at hcount
    rw [hcount]
    by_cases ht : t = startTask
    · simp [ht]
    · simp [ht, Ne.symm ht]

end Spans

/-- The edges of the heap that `build` leaves. -/
theorem Pending.build (hB : Pending B h priority createTask added)
    (hadded : ∀ t ∈ added, (A.decl t).isProject = false ∧ t ≠ B.mStartTask)
    (hne : B.mEndTask ≠ B.mStartTask) :
    Spans (B.build h).2 B.mStartTask B.mEndTask added := by
  suffices hedges : ∀ a b, (B.build h).2.depends a b = (B.build h).2.behinds a b ∧
      (B.build h).2.behinds a b =
        if added = [] then (if a = B.mStartTask ∧ b = B.mEndTask then 1 else 0)
        else links B.mStartTask B.mEndTask added added a b from
    ⟨fun a b ↦ (hedges a b).1, fun a b ↦ (hedges a b).2⟩
  intro a b
  unfold Builder.build
  simp only [Heap.depends_setPriority, Heap.behinds_setPriority]
  by_cases hnil : added = []
  · subst hnil
    have hnone : B.mCurrentAddTask = none := hB.current
    have hzero : ∀ a b, links B.mStartTask B.mEndTask [] [] a b = 0 := by
      intro a b
      simp [links]
    simp only [hnone, Option.isNone_none, if_true]
    rw [A.depends_behind h B.isProject_boundary.1 B.isProject_boundary.2 hne,
      A.behinds_behind h B.isProject_boundary.1 B.isProject_boundary.2 hne, hB.depends,
      hB.behinds, List.dropLast_nil, hzero, Nat.zero_add]
    exact ⟨rfl, rfl⟩
  · have hsome : B.mCurrentAddTask.isNone = false := by
      obtain ⟨init, last, rfl⟩ := (List.eq_nil_or_concat' added).resolve_left hnil
      rw [hB.current, List.getLast?_concat]
      rfl
    simp only [hsome, Bool.false_eq_true, if_false, hnil]
    obtain ⟨hdepends, hbehinds⟩ := hB.linkPending hadded a b
    rw [hdepends, hbehinds]
    exact ⟨rfl, rfl⟩

theorem Pending.priority_build (hB : Pending B h priority createTask added) :
    ((B.build h).2 B.mStartTask).priority = (added.map priority).foldl max 0 ∧
      ((B.build h).2 B.mEndTask).priority = (added.map priority).foldl max 0 := by
  unfold Builder.build
  simp only [Heap.setPriority_priority, if_true, hB.mPriority, ite_self, and_self]

/-- What a builder makes of any sequence of ids, when the creator makes tasks of its own
that nobody has connected: a graph without a cycle, the added tasks between the start
and the end task, with as many records on one side of an edge as on the other. -/
theorem builder_shape {project startTask endTask : τ}
    (hproject : (A.decl project).kind = .project startTask endTask)
    (hne : endTask ≠ startTask) (priority : τ → Int) (createTask : String → τ)
    (ids : List String)
    (hids : ∀ id ∈ ids, (A.decl (createTask id)).isProject = false ∧
      createTask id ≠ startTask ∧ createTask id ≠ endTask) :
    let added := (create hproject).addAll (Heap.fresh priority) createTask ids
    let h := (added.1.build added.2).2
    (added.1.build added.2).1 = project ∧
    (∀ a, ¬ TransGen h.Edge a a) ∧
    (∀ id ∈ ids, startTask ∈ (h (createTask id)).dependTasks ∧
      endTask ∈ (h (createTask id)).behindTasks ∧
      h.depends startTask (createTask id) = h.behinds startTask (createTask id) ∧
      h.depends (createTask id) endTask = h.behinds (createTask id) endTask ∧
      h.depends startTask (createTask id) = h.behinds (createTask id) endTask) ∧
    (ids ≠ [] → ∀ t, (t ∈ (h startTask).behindTasks ↔ t ∈ ids.map createTask) ∧
      (t ∈ (h endTask).dependTasks ↔ t ∈ ids.map createTask)) ∧
    (ids = [] → (h startTask).behindTasks = [endTask] ∧
      (h endTask).dependTasks = [startTask]) ∧
    (h startTask).priority = ((ids.map createTask).map priority).foldl max 0 ∧
    (h endTask).priority = ((ids.map createTask).map priority).foldl max 0 := by
  intro added h
  have hpending : Pending added.1 added.2 priority createTask (ids.map createTask) :=
    pending_addAll (pending_create hproject priority createTask) ids hids
  obtain ⟨hstart, hend, hbuilt⟩ : added.1.mStartTask = startTask ∧
      added.1.mEndTask = endTask ∧ added.1.mProject = project :=
    boundary_addAll (create hproject) (Heap.fresh priority) createTask ids
  have hadded : ∀ t ∈ ids.map createTask, (A.decl t).isProject = false ∧
      t ≠ startTask ∧ t ≠ endTask := by
    intro t ht
    obtain ⟨id, hid, rfl⟩ := List.mem_map.mp ht
    exact hids id hid
  have hnotStart : startTask ∉ ids.map createTask := fun hmem ↦ (hadded _ hmem).2.1 rfl
  have hnotEnd : endTask ∉ ids.map createTask := fun hmem ↦ (hadded _ hmem).2.2 rfl
  have hspans : Spans h startTask endTask (ids.map createTask) := by
    rw [← hstart, ← hend]
    exact hpending.build
      (fun t ht ↦ ⟨(hadded t ht).1, hstart ▸ (hadded t ht).2.1⟩) (by rwa [hstart, hend])
  have hprio := hpending.priority_build
  rw [hstart, hend] at hprio
  refine ⟨hbuilt, hspans.acyclic hne hnotStart hnotEnd, ?_, ?_, ?_, hprio⟩
  · intro id hid
    have hmem : createTask id ∈ ids.map createTask := List.mem_map_of_mem hid
    have hpos := List.count_pos_iff.mpr hmem
    have hnil : ids.map createTask ≠ [] := List.ne_nil_of_mem hmem
    rw [h.mem_dependTasks_iff, h.mem_behindTasks_iff, hspans.depends, hspans.depends,
      hspans.behinds_start hnil hnotStart, hspans.behinds_end hnil hnotEnd]
    exact ⟨hpos, hpos, rfl, rfl, rfl⟩
  · intro hids' t
    have hnil : ids.map createTask ≠ [] := by simpa using hids'
    rw [h.mem_dependTasks_iff, h.mem_behindTasks_iff, hspans.depends,
      hspans.behinds_start hnil hnotStart, hspans.behinds_end hnil hnotEnd,
      List.count_pos_iff]
    exact ⟨Iff.rfl, Iff.rfl⟩
  · rintro rfl
    exact hspans.of_nil

/-- A project `p` with its boundary tasks, and one more task. -/
def oneProject : Arena (Fin 4) where
  decl t := { id := if t = 0 then "p" else if t = 1 then "p_start" else if t = 2 then "p_end"
                else "x",
              kind := if t = 0 then .project 1 2 else if t = 3 then .task false 0
                else .criticalTask }
  boundary := by decide

/-- The same id twice: two edges on either side of the task. -/
theorem builder_shape_twice :
    ∃ (hproject : (oneProject.decl 0).kind = .project 1 2),
      let added := (create hproject).addAll (Heap.fresh fun _ ↦ 5) (fun _ ↦ 3) ["x", "x"]
      ((added.1.build added.2).2 1).priority = 5 ∧
        (1 : Fin 4) ∈ ((added.1.build added.2).2 3).dependTasks := by
  obtain ⟨-, -, htask, -, -, hpriority, -⟩ := builder_shape (A := oneProject)
    (show (oneProject.decl 0).kind = .project 1 2 by decide) (by decide) (fun _ ↦ 5)
    (fun _ ↦ 3) ["x", "x"] (by decide)
  exact ⟨by decide, hpriority, (htask "x" (by simp)).1⟩

end Builder

end HiApp.TaskFlow
