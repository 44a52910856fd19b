import HiApp.TaskFlow.Dependency
import HiApp.TaskFlow.Traversal

/-!
# The list of block tasks

`addBlockTask` appends an id every time it is called, and a task that finishes takes
one occurrence of its id away.  So the list counts, for every task of the tree, how
often its id was registered, less one when the task has finished.  It is empty when
all block tasks have finished if no id was registered twice.
-/

namespace HiApp.TaskFlow

open Relation Countdown Runs

/-- `TaskRuntime.addBlockTask`: an empty id is ignored. -/
def addBlockTask (blockTaskId : List String) (id : String) : List String :=
  if id = "" then blockTaskId else blockTaskId ++ [id]

def addBlockTasks (blockTaskId : List String) (ids : List String) : List String :=
  if ids = [] then blockTaskId else ids.foldl addBlockTask blockTaskId

/-- A call of `addBlockTask` or `addBlockTasks`. -/
inductive BlockCall where
  | addBlockTask (id : String)
  | addBlockTasks (ids : List String)
  deriving DecidableEq, Repr

namespace BlockCall

def perform (blockTaskId : List String) : BlockCall → List String
  | .addBlockTask id => HiApp.TaskFlow.addBlockTask blockTaskId id
  | .addBlockTasks ids => HiApp.TaskFlow.addBlockTasks blockTaskId ids

/-- The ids a call names. -/
def ids : BlockCall → List String
  | .addBlockTask id => [id]
  | .addBlockTasks ids => ids

/-- The list after some calls. -/
def performAll (calls : List BlockCall) : List String := calls.foldl perform []

/-- The ids that were registered, as often as they were. -/
def registered (calls : List BlockCall) : List String :=
  (calls.flatMap ids).filter fun id ↦ id ≠ ""

theorem foldl_addBlockTask (blockTaskId new : List String) :
    new.foldl HiApp.TaskFlow.addBlockTask blockTaskId =
      blockTaskId ++ new.filter fun id ↦ id ≠ "" := by
  induction new generalizing blockTaskId with
  | nil => simp
  | cons id new ih =>
      rw [List.foldl_cons, ih, HiApp.TaskFlow.addBlockTask]
      by_cases hid : id = ""
      · simp [hid]
      · simp [hid]

theorem perform_eq (blockTaskId : List String) (c : BlockCall) :
    perform blockTaskId c = blockTaskId ++ c.ids.filter fun id ↦ id ≠ "" := by
  cases c with
  | addBlockTask id => exact foldl_addBlockTask blockTaskId [id]
  | addBlockTasks new =>
      simp only [perform, ids, HiApp.TaskFlow.addBlockTasks]
      split
      · rename_i hnil
        simp [hnil]
      · exact foldl_addBlockTask blockTaskId new

theorem performAll_eq (calls : List BlockCall) : performAll calls = registered calls := by
  have hfold : ∀ blockTaskId, calls.foldl perform blockTaskId =
      blockTaskId ++ registered calls := by
    induction calls with
    | nil => simp [registered]
    | cons c calls ih =>
        intro blockTaskId
        rw [List.foldl_cons, ih, perform_eq]
        simp [registered]
  exact hfold []

end BlockCall

variable {τ : Type*} [DecidableEq τ] [Fintype τ] {A : Arena τ} {N : Network τ}
  {s s' : State τ}

/-! ## What a step does to the list -/

/-- A step leaves the list and the finished tasks as they are, or it finishes a task of
the tree and takes its id from the list. -/
theorem Follows.finish_cases {a : Action} (h : Follows N s) (hstep : A.step s a = some s') :
    (s'.blockTaskId = s.blockTaskId ∧
      ∀ u, (s'.heap u).state = .finished ↔ (s.heap u).state = .finished) ∨
    ∃ t, ReflTransGen N.Edge N.root t ∧ (s.heap t).state ≠ .finished ∧
      s'.blockTaskId = s.blockTaskId.erase (A.decl t).id ∧
      ∀ u, (s'.heap u).state = .finished ↔ u = t ∨ (s.heap u).state = .finished := by
  obtain ⟨c, -, hinv, hR⟩ := h
  obtain ⟨-, ⟨k, f, rest, rfl, hstack, rfl⟩ | ⟨i, t, rfl, -, rfl⟩ |
    ⟨i, t, rfl, -, -, rfl⟩⟩ := Arena.step_cases hstep
  · have hmem := State.mem_frames_of_stack hstack
    cases f with
    | run t =>
        have hphase : c.phase t = .queued := hR.phase_of_mem_frames hmem rfl
        have hstate : (s.heap t).state = .start := by rw [hR.state, hphase]; rfl
        left
        refine ⟨by simp [Arena.stepFrame, Arena.toRunning, State.emit, State.setState], ?_⟩
        intro u
        by_cases hu : u = t
        · simp [Arena.stepFrame, Arena.toRunning, State.emit, hu, hstate]
        · simp [Arena.stepFrame, Arena.toRunning, State.emit, hu]
    | body t =>
        have hphase : c.phase t = .running := hR.phase_of_mem_frames hmem rfl
        have hstate : (s.heap t).state = .running := by rw [hR.state, hphase]; rfl
        right
        refine ⟨t, hinv.reach t (by simp [hphase]), by simp [hstate], ?_, ?_⟩
        · simp [Arena.stepFrame, Arena.toFinish, State.emit]
        · intro u
          by_cases hu : u = t
          · simp [Arena.stepFrame, Arena.toFinish, State.emit, hu]
          · simp [Arena.stepFrame, Arena.toFinish, State.emit, hu]
    | notifyBehindTasks t => exact .inl ⟨by simp [Arena.stepFrame, State.sortBehindTasks],
        by simp [Arena.stepFrame]⟩
    | forBehindTask t bs =>
        left
        cases bs with
        | nil => exact ⟨by simp [Arena.stepFrame, State.recycle], by simp [Arena.stepFrame]⟩
        | cons b bs =>
            rcases Arena.stepFrame_notify A s t b k rest bs with
              ⟨e, -, he⟩ | ⟨w, calls, hnotice, hw⟩
            · rw [he]
              exact ⟨rfl, fun u ↦ Iff.rfl⟩
            · rw [hw]
              refine ⟨by simpa using hnotice.unchanged.1, fun u ↦ ?_⟩
              simpa using hnotice.finished_iff u
    | outerWhile | sleep | innerWhile =>
        exact .inl ⟨by simp [Arena.stepFrame], by simp [Arena.stepFrame]⟩
    | runWaitingTasks =>
        left
        rw [Arena.stepFrame]
        split
        · exact ⟨by simp, by simp⟩
        · exact ⟨by simp, by simp⟩
    | runWaitingHead =>
        left
        rw [Arena.stepFrame]
        split
        · split
          · exact ⟨rfl, fun u ↦ Iff.rfl⟩
          · exact ⟨by simp [State.emit], by simp [State.emit]⟩
        · exact ⟨by simp, by simp⟩
  · exact .inl ⟨rfl, fun u ↦ Iff.rfl⟩
  · exact .inl ⟨rfl, fun u ↦ Iff.rfl⟩

/-! ## The list as a tally -/

/-- The list has the ids of `ids`, with one occurrence less for the tasks of the tree
that have finished. -/
structure Tally (A : Arena τ) (tree : τ → Prop) (ids : List String) (s : State τ) :
    Prop where
  count : ∀ t, tree t → s.blockTaskId.count (A.decl t).id =
    ids.count (A.decl t).id - if (s.heap t).state = .finished then 1 else 0
  subset : ∀ id ∈ s.blockTaskId, id ∈ ids

namespace Tally

variable {tree : τ → Prop} {ids : List String}

theorem step {a : Action} (h : Tally A tree ids s) (hfollows : Follows N s)
    (htree : ∀ t, ReflTransGen N.Edge N.root t → tree t)
    (hdistinct : ∀ t u, tree t → tree u → (A.decl t).id = (A.decl u).id → t = u)
    (hstep : A.step s a = some s') : Tally A tree ids s' := by
  rcases hfollows.finish_cases hstep with ⟨hids, hfin⟩ | ⟨t, ht, hnot, hids, hfin⟩
  · refine ⟨fun u hu ↦ ?_, hids ▸ h.subset⟩
    rw [hids, h.count u hu]
    simp only [hfin u]
  · refine ⟨fun u hu ↦ ?_, fun id hid ↦ h.subset id ?_⟩
    · rw [hids]
      by_cases hut : u = t
      · subst hut
        rw [List.count_erase_self, h.count u hu, if_neg hnot, if_pos ((hfin u).mpr (.inl rfl)),
          Nat.sub_zero]
      · have hid : (A.decl u).id ≠ (A.decl t).id :=
          fun heq ↦ hut (hdistinct u t hu (htree t ht) heq)
        rw [List.count_erase_of_ne hid, h.count u hu]
        simp only [hfin u, hut, false_or]
    · rw [hids] at hid
      exact List.mem_of_mem_erase hid

omit [DecidableEq τ] [Fintype τ] in
/-- While a registered task is unfinished its id is in the list. -/
theorem mem_of_unfinished (h : Tally A tree ids s) {t : τ} (ht : tree t)
    (hid : (A.decl t).id ∈ ids) (hstate : (s.heap t).state ≠ .finished) :
    (A.decl t).id ∈ s.blockTaskId := by
  rw [← List.count_pos_iff, h.count t ht, if_neg hstate, Nat.sub_zero]
  exact List.count_pos_iff.mpr hid

omit [DecidableEq τ] [Fintype τ] in
/-- Of a finished task, the list has the id as often as it was registered beyond the
first time. -/
theorem mem_of_finished_iff (h : Tally A tree ids s) {t : τ} (ht : tree t)
    (hstate : (s.heap t).state = .finished) :
    (A.decl t).id ∈ s.blockTaskId ↔ 1 < ids.count (A.decl t).id := by
  rw [← List.count_pos_iff, h.count t ht, if_pos hstate]
  omega

end Tally

/-- Some registered id belongs to a task of the tree that has not finished. -/
def Unfinished (A : Arena τ) (h : Heap τ) (root : τ) (ids : List String) (s : State τ) :
    Prop :=
  ∃ id ∈ ids, ∃ t, ReflTransGen h.Edge root t ∧ (A.decl t).id = id ∧
    (s.heap t).state ≠ .finished

/-- The list says whether a block task is unfinished, and the wait loop is left at its
next test when there is none. -/
def Accounts (A : Arena τ) (h : Heap τ) (root : τ) (ids : List String) (s : State τ) :
    Prop :=
  (s.hasBlockTasks = true ↔ Unfinished A h root ids s) ∧
    (¬ Unfinished A h root ids s → ∀ rest,
      A.stepFrame s .main .outerWhile rest = s.setStack .main rest ∧
      A.stepFrame s .main .innerWhile rest = s.setStack .main (.outerWhile :: rest))

section Tree

variable {h : Heap τ} {root : τ} {ids : List String}

omit [DecidableEq τ] [Fintype τ] in
/-- While a block task is unfinished the list is not empty. -/
theorem Tally.hasBlockTasks_of_unfinished
    (htally : Tally A (ReflTransGen h.Edge root) ids s) (hpending : Unfinished A h root ids s) :
    s.hasBlockTasks = true := by
  obtain ⟨id, hid, t, ht, rfl, hstate⟩ := hpending
  have hmem := htally.mem_of_unfinished ht hid hstate
  simpa [State.hasBlockTasks] using List.ne_nil_of_mem hmem

theorem Tally.accounts_of_nodup (htally : Tally A (ReflTransGen h.Edge root) ids s)
    (hcontains : ∀ id ∈ ids, ∃ t, ReflTransGen h.Edge root t ∧ (A.decl t).id = id)
    (hnodup : ids.Nodup) : Accounts A h root ids s := by
  have hiff : s.hasBlockTasks = true ↔ Unfinished A h root ids s := by
    refine ⟨fun hblock ↦ ?_, htally.hasBlockTasks_of_unfinished⟩
    obtain ⟨id, hid⟩ : ∃ id, id ∈ s.blockTaskId :=
      List.exists_mem_of_ne_nil _ (by simpa [State.hasBlockTasks] using hblock)
    obtain ⟨t, ht, rfl⟩ := hcontains id (htally.subset id hid)
    refine ⟨_, htally.subset _ hid, t, ht, rfl, fun hstate ↦ ?_⟩
    have hmany := (htally.mem_of_finished_iff ht hstate).mp hid
    have hone := List.nodup_iff_count_le_one.mp hnodup (A.decl t).id
    omega
  refine ⟨hiff, fun hnone rest ↦ ?_⟩
  have hfalse : s.hasBlockTasks = false := by
    rw [← hiff] at hnone
    simpa using hnone
  exact ⟨by simp [Arena.stepFrame, hfalse], by simp [Arena.stepFrame, hfalse]⟩

/-- An id that was registered twice stays when all block tasks have finished. -/
theorem Tally.not_accounts_of_dup (htally : Tally A (ReflTransGen h.Edge root) ids s)
    (hcontains : ∀ id ∈ ids, ∃ t, ReflTransGen h.Edge root t ∧ (A.decl t).id = id)
    (hdup : ¬ ids.Nodup) (hnone : ¬ Unfinished A h root ids s) :
    ¬ Accounts A h root ids s := by
  intro haccounts
  rw [List.nodup_iff_count_le_one] at hdup
  push Not at hdup
  obtain ⟨id, hmany⟩ := hdup
  have hid : id ∈ ids := List.count_pos_iff.mp (by omega)
  obtain ⟨t, ht, rfl⟩ := hcontains id hid
  have hstate : (s.heap t).state = .finished := by
    by_contra hstate
    exact hnone ⟨_, hid, t, ht, rfl, hstate⟩
  have hmem := (htally.mem_of_finished_iff ht hstate).mpr hmany
  have hblock : s.hasBlockTasks = true := by
    simpa [State.hasBlockTasks] using List.ne_nil_of_mem hmem
  exact hnone (haccounts.1.mp hblock)

end Tree

theorem tally_startFlow {h : Heap τ} {ids : List String} {info : Registry τ} {task : τ}
    {s₀ : State τ} (hh : Built A h) (hstart : A.startFlow h ids info task = .ok s₀)
    (tree : τ → Prop) : Tally A tree ids s₀ := by
  obtain ⟨h', info', s', calls, hinit, htask, rfl⟩ := A.startFlow_cases hh hstart
  obtain ⟨hidle, hroute⟩ := Arena.route_of_taskStart htask
  obtain ⟨hids, -⟩ := hroute.unchanged
  obtain ⟨hshape, -⟩ := A.accepted_spec hinit
  have hstate : ∀ t, (s'.heap t).state ≠ .finished := by
    intro t
    rw [hroute.heap, State.toStart, State.emit, State.setState_state]
    split
    · simp
    · simp [(hshape t).1, hh.state_eq_idle]
  refine ⟨fun t _ ↦ ?_, fun id hid ↦ ?_⟩
  · simp only [hids, hstate t, if_false, Nat.sub_zero]
    rfl
  · simp only [hids] at hid
    exact hid

/-- After any calls of `addBlockTask` and `addBlockTasks`, in every run on a tree that has
the registered ids: when no id was registered twice, the list accounts for the
block tasks in every state.  When one was, it does not in any state in which all
block tasks have finished. -/
theorem block_list_accounts (A : Arena τ) {h : Heap τ} (hh : Built A h)
    (calls : List BlockCall) {info : Registry τ} {task : τ} {s₀ s : State τ}
    {as : List Action}
    (hstart : A.startFlow h (BlockCall.performAll calls) info task = .ok s₀)
    (hcontains : ∀ id ∈ BlockCall.registered calls,
      ∃ t, ReflTransGen h.Edge (A.startOf task) t ∧ (A.decl t).id = id)
    (hrun : run A.step s₀ as = some s) :
    ((BlockCall.registered calls).Nodup →
      Accounts A h (A.startOf task) (BlockCall.registered calls) s) ∧
    (¬ (BlockCall.registered calls).Nodup →
      ¬ Unfinished A h (A.startOf task) (BlockCall.registered calls) s →
        ¬ Accounts A h (A.startOf task) (BlockCall.registered calls) s) := by
  rw [BlockCall.performAll_eq] at hstart
  generalize BlockCall.registered calls = ids at hstart hcontains ⊢
  obtain ⟨N, hroot, -, hfeeds, hfollows⟩ := A.exists_network hh hstart
  have hedge : N.Edge = h.Edge := by
    funext a b
    rw [Network.Edge, hfeeds, Multiset.mem_coe, Heap.Edge]
  obtain ⟨h', info', s', calls', hinit, -, -⟩ := A.startFlow_cases hh hstart
  have hfits := Arena.accepted_fits hinit
  have htally : Tally A (ReflTransGen h.Edge (A.startOf task)) ids s := by
    refine (run_invariant' (I := fun u ↦ Follows N u ∧
      Tally A (ReflTransGen h.Edge (A.startOf task)) ids u) ?_
      ⟨hfollows [] s₀ rfl, tally_startFlow hh hstart _⟩ hrun).2
    rintro u a v ⟨hu, htally⟩ hstep
    refine ⟨hu.step hstep, htally.step hu ?_ hfits.distinct hstep⟩
    intro t ht
    rwa [hedge, hroot] at ht
  exact ⟨htally.accounts_of_nodup hcontains, htally.not_accounts_of_dup hcontains⟩

theorem block_list_accounts_chain :
    ∃ s₀ s, threeTasks.startFlow chain (BlockCall.performAll [.addBlockTasks ["b"]])
        (fun _ ↦ none) 0 = .ok s₀ ∧
      run threeTasks.step s₀ (List.replicate 11 (.thread .main)) = some s ∧
      Accounts threeTasks chain 0 ["b"] s := by
  have hedge : chain.Edge 0 1 := by
    unfold Heap.Edge
    decide
  refine ⟨_, _, rfl, rfl, ?_⟩
  refine (@block_list_accounts (Fin 3) _ _ threeTasks chain built_chain
    [.addBlockTasks ["b"]] (fun _ ↦ none) 0 _ _ (List.replicate 11 (.thread .main)) rfl ?_
    rfl).1 (by decide)
  intro id hid
  obtain rfl : id = "b" := by simpa [BlockCall.registered, BlockCall.ids] using hid
  exact ⟨1, .single hedge, rfl⟩

/-- The id of `b` is registered twice: when `b` has finished, it is still in the list. -/
theorem block_list_keeps_second_id :
    ∃ s₀ s, threeTasks.startFlow chain
        (BlockCall.performAll [.addBlockTask "b", .addBlockTask "b"]) (fun _ ↦ none) 0 =
        .ok s₀ ∧
      run threeTasks.step s₀ (List.replicate 11 (.thread .main)) = some s ∧
      s.hasBlockTasks = true ∧
      ∀ t, (threeTasks.decl t).id ∈
          BlockCall.registered [.addBlockTask "b", .addBlockTask "b"] →
        (s.heap t).state = .finished := by
  refine ⟨_, _, rfl, rfl, ?_, ?_⟩
  · decide
  · decide

end HiApp.TaskFlow
