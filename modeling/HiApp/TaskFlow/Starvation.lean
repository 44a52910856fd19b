import HiApp.TaskFlow.Dependency
import HiApp.TaskFlow.WaitLoop

/-!
# When the wait loop runs out of tasks

The inner loop of `TaskFlowManager.start` takes the head of the waiting queue
as long as there are block tasks, whether the queue has a head or not.  It
never fails when the main thread alone can finish all block tasks: they and
everything they depend on are synchronous, not posted, and get started.
-/

namespace HiApp.TaskFlow

open Relation Countdown Runs

variable {τ : Type*} [DecidableEq τ]

def Frame.owner : Frame τ → Option τ
  | .run t | .body t | .notifyBehindTasks t | .forBehindTask t _ => some t
  | _ => none

section

variable [Fintype τ] (A : Arena τ) (h : Heap τ) (info : Registry τ) (root : τ)

/-- The tasks that the main thread brings to an end by itself. -/
inductive OnMain : τ → Prop
  | start (hsync : (A.decl root).isAsyncTask = false)
      (hpost : ¬ A.Posted h info root) : OnMain root
  | behind (t : τ) (hsync : (A.decl t).isAsyncTask = false)
      (hpost : ¬ A.Posted h info t) (hbehind : (h t).behindTasks ≠ [])
      (hdeps : (h t).dependTasks ≠ [])
      (hbalance : ∀ d, h.behinds d t = h.depends d t)
      (hdepend : ∀ d ∈ (h t).dependTasks, OnMain d) : OnMain t

/-- No block id is listed twice, and each belongs to such a task. -/
def BlocksOnMain (ids : List String) : Prop :=
  ids.Nodup ∧ ∀ id ∈ ids, ∃ t, OnMain A h info root t ∧ (A.decl t).id = id

variable {A h info root}

theorem OnMain.isAsyncTask_eq_false {t : τ} (ht : OnMain A h info root t) :
    (A.decl t).isAsyncTask = false := by
  cases ht <;> assumption

theorem OnMain.not_posted {t : τ} (ht : OnMain A h info root t) :
    ¬ A.Posted h info t := by
  cases ht <;> assumption

theorem OnMain.depend {t d : τ} (ht : OnMain A h info root t) (hroot : t ≠ root)
    (hd : d ∈ (h t).dependTasks) : OnMain A h info root d := by
  cases ht with
  | start => exact (hroot rfl).elim
  | behind _ _ _ _ _ _ hdepend => exact hdepend d hd

/-- What holds along a run whose block tasks are the main thread's.  While there
are block tasks, the tasks of the main thread are in the waiting queue or on
the main stack. -/
structure Busy (A : Arena τ) (h : Heap τ) (info : Registry τ) (root : τ)
    (s : State τ) : Prop where
  behinds : ∀ u, (s.heap u).state ≠ .finished →
    (s.heap u).behindTasks = (h u).behindTasks
  flags : ∀ id, (s.taskRuntimeInfo id).map TaskRuntimeInfo.isBlockTask =
    (info id).map TaskRuntimeInfo.isBlockTask
  nodup : s.blockTaskId.Nodup
  pending : ∀ id ∈ s.blockTaskId, ∃ t, OnMain A h info root t ∧
    (A.decl t).id = id ∧ (s.heap t).state ≠ .finished
  place : s.blockTaskId ≠ [] → ∀ t, OnMain A h info root t →
    t ∉ s.executor ∧ t ∉ s.handler ∧
      ∀ f ∈ s.workers.flatten, t ∉ f.owner

namespace Busy

variable {N : Network τ} {s s' : State τ} {k : Thread} {f : Frame τ} {t b : τ}
  {rest : List (Frame τ)}

theorem task_step (hb : Busy A h info root s) (s' : State τ)
    (hstack : s.stack k = f :: rest) (new : List (Frame τ)) (hworkers : s'.workers = s.workers)
    (hbehinds : ∀ u, (s'.heap u).state ≠ .finished →
      (s.heap u).state ≠ .finished ∧
        (s'.heap u).behindTasks = (s.heap u).behindTasks)
    (hflags : ∀ id, (s'.taskRuntimeInfo id).map TaskRuntimeInfo.isBlockTask =
      (s.taskRuntimeInfo id).map TaskRuntimeInfo.isBlockTask)
    (hids : s'.blockTaskId.Sublist s.blockTaskId)
    (hpending : ∀ u, (A.decl u).id ∈ s'.blockTaskId →
      (s'.heap u).state = .finished → (s.heap u).state = .finished)
    (hplace : s.blockTaskId ≠ [] → ∀ u, OnMain A h info root u →
      (u ∈ s'.executor → u ∈ s.executor) ∧ (u ∈ s'.handler → u ∈ s.handler) ∧
        (k ≠ .main → ∀ g ∈ new, u ∈ g.owner → u ∈ f.owner)) :
    Busy A h info root (s'.setStack k (new ++ rest)) := by
  constructor
  · intro u hu
    rw [State.setStack_heap] at hu ⊢
    obtain ⟨hold, hlist⟩ := hbehinds u hu
    rw [hlist, hb.behinds u hold]
  · intro id
    rw [State.setStack_taskRuntimeInfo, hflags, hb.flags]
  · rw [State.setStack_blockTaskId]
    exact hids.nodup hb.nodup
  · intro id hid
    rw [State.setStack_blockTaskId] at hid
    obtain ⟨u, hu, rfl, hunfinished⟩ := hb.pending id (hids.subset hid)
    refine ⟨u, hu, rfl, ?_⟩
    rw [State.setStack_heap]
    exact fun hfinished ↦ hunfinished (hpending u hid hfinished)
  · intro hne u hu
    rw [State.setStack_blockTaskId] at hne
    have hne' : s.blockTaskId ≠ [] := by
      rintro hnil
      exact hne (List.sublist_nil.mp (hnil ▸ hids))
    obtain ⟨hexecutor, hhandler, hframes⟩ := hb.place hne' u hu
    obtain ⟨hexecutor', hhandler', hnew⟩ := hplace hne' u hu
    rw [State.setStack_executor, State.setStack_handler]
    refine ⟨fun hmem ↦ hexecutor (hexecutor' hmem),
      fun hmem ↦ hhandler (hhandler' hmem), ?_⟩
    intro g hg hown
    rcases State.mem_workers_setStack hstack hworkers hg with ⟨hk, hg⟩ | hg
    · exact hframes f (State.mem_workers_of_stack hstack hk) (hnew hk g hg hown)
    · exact hframes g hg hown

theorem run (hb : Busy A h info root s) (hfollows : Follows N s)
    (hstack : s.stack k = .run t :: rest) :
    Busy A h info root (A.stepFrame s k (.run t) rest) := by
  obtain ⟨c, -, -, hR⟩ := hfollows
  have hphase : c.phase t = .queued :=
    hR.phase_of_mem_frames (State.mem_frames_of_stack hstack) rfl
  have hstart : (s.heap t).state = .start := by rw [hR.state, hphase]; rfl
  refine hb.task_step (A.toRunning s t k) hstack [.body t] rfl ?_ ?_
    (.refl _) ?_ ?_
  · intro u hu
    refine ⟨?_, by simp [Arena.toRunning, State.emit]⟩
    intro hfinished
    have hut : u ≠ t := by
      rintro rfl
      simp [hstart] at hfinished
    exact hu (by simpa [Arena.toRunning, State.emit, hut] using hfinished)
  · intro id
    simp only [Arena.toRunning, State.emit, State.setState]
    by_cases hid : id = (A.decl t).id
    · subst hid
      rw [Function.update_self, Option.map_map]
      rfl
    · rw [Function.update_of_ne hid]
  · intro u _ hu
    by_cases hut : u = t
    · simp [Arena.toRunning, State.emit, hut] at hu
    · simpa [Arena.toRunning, State.emit, hut] using hu
  · intro _ u _
    refine ⟨id, id, ?_⟩
    intro _ g hg
    obtain rfl : g = .body t := by simpa using hg
    exact id

theorem body (hb : Busy A h info root s)
    (hstack : s.stack k = .body t :: rest) :
    Busy A h info root (A.stepFrame s k (.body t) rest) := by
  have hne : ∀ u, (A.decl u).id ∈ s.blockTaskId.erase (A.decl t).id → u ≠ t := by
    rintro u hu rfl
    exact hb.nodup.not_mem_erase hu
  refine hb.task_step (A.toFinish s t) hstack [.notifyBehindTasks t] rfl ?_
    (fun _ ↦ rfl) List.erase_sublist ?_ ?_
  · intro u hu
    have hut : u ≠ t := by
      rintro rfl
      simp [Arena.toFinish, State.emit] at hu
    exact ⟨by simpa [Arena.toFinish, State.emit, hut] using hu,
      by simp [Arena.toFinish, State.emit]⟩
  · intro u hu hfinished
    have hut := hne u hu
    simpa [Arena.toFinish, State.emit, hut] using hfinished
  · intro _ u _
    refine ⟨id, id, ?_⟩
    intro _ g hg
    obtain rfl : g = .notifyBehindTasks t := by simpa using hg
    exact id

theorem relist (hb : Busy A h info root s) (hstack : s.stack k = f :: rest)
    (hfinished : (s.heap t).state = .finished) (g : Vars τ → Vars τ)
    (hg : (g (s.heap t)).state = (s.heap t).state) (new : List (Frame τ))
    (hown : ∀ g ∈ new, ∀ u ∈ g.owner, u ∈ f.owner) :
    Busy A h info root
      (State.setStack { s with heap := s.heap.modify t g } k (new ++ rest)) := by
  have hstate : ∀ u, ((s.heap.modify t g) u).state = (s.heap u).state := by
    intro u
    rw [Heap.modify_apply]
    split
    · rename_i hut
      rw [hut, hg]
    · rfl
  refine hb.task_step _ hstack new rfl ?_ (fun _ ↦ rfl) (.refl _) ?_ ?_
  · intro u hu
    have hut : u ≠ t := by
      rintro rfl
      exact hu ((hstate u).trans hfinished)
    refine ⟨fun hu' ↦ hu ((hstate u).trans hu'), ?_⟩
    simp [Heap.modify_apply, hut]
  · exact fun u _ hu ↦ (hstate u).symm.trans hu
  · exact fun _ u _ ↦ ⟨id, id, fun _ g hg ↦ hown g hg u⟩

/-- A notification.  A task of the main thread is told by tasks of the main
thread only. -/
theorem notice {bs : List τ} {calls : List (Frame τ)} (hroot : N.root = root)
    (hneeds : ∀ t, N.needs t = (h t).dependTasks)
    (hfeeds : ∀ t, N.feeds t = (h t).behindTasks)
    (hb : Busy A h info root s) (hfollows : Follows N s)
    (hstack : s.stack k = .forBehindTask t (b :: bs) :: rest)
    (hnotice : Notice A s b t s' calls) :
    Busy A h info root
      (s'.setStack k ((calls ++ [.forBehindTask t bs]) ++ rest)) := by
  obtain ⟨c, -, hinv, hR⟩ := hfollows
  have hphase : c.phase t = .telling (b ::ₘ (bs : Multiset τ)) :=
    hR.phase_of_mem_frames (k := .telling t (b :: bs : List τ))
      (State.mem_frames_of_stack hstack) rfl
  obtain ⟨hreach, hne, hbroot, hidle⟩ := hinv.idle_of_telling hphase
  have hedges : N.Edge = h.Edge := by
    funext x y
    simp [Network.Edge, Heap.Edge, hfeeds]
  -- nothing behind `b` is finished, so the look ahead sees the lists of `h`
  have hlists : ∀ u, ReflTransGen h.Edge b u →
      (s.heap u).behindTasks = (h u).behindTasks := by
    intro u hu
    apply hb.behinds
    rw [hR.state, Ne, stateOf_eq_finished_iff]
    rw [← hedges] at hu
    exact hinv.not_finished_of_reach hreach (by simp [hidle, Phase.Finished]) hu
  obtain ⟨hids, -, hworkers, hinfo⟩ := hnotice.unchanged
  refine hb.task_step s' hstack _ hworkers ?_ (by simp [hinfo]) (by simp [hids]) ?_ ?_
  · intro u hu
    rw [Ne, hnotice.finished_iff] at hu
    exact ⟨hu, hnotice.behindTasks_eq u⟩
  · exact fun u _ hu ↦ (hnotice.finished_iff u).mp hu
  · intro hblock u hu
    have hloop : ∀ g ∈ [Frame.forBehindTask t bs], u ∈ g.owner →
        u ∈ (Frame.forBehindTask t (b :: bs)).owner := by
      intro g hg
      obtain rfl : g = .forBehindTask t bs := by simpa using hg
      exact id
    cases hnotice with
    | ignored | crossed => exact ⟨id, id, fun _ ↦ hloop⟩
    | started _ _ _ hroute =>
        cases hroute with
        | executor hasync =>
            refine ⟨?_, id, fun _ ↦ hloop⟩
            intro hmem
            rcases List.mem_append.mp hmem with hmem | hmem
            · exact hmem
            · obtain rfl : u = b := by simpa using hmem
              rw [hu.isAsyncTask_eq_false] at hasync
              simp at hasync
        | handler hsync hpost =>
            refine ⟨id, ?_, fun _ ↦ hloop⟩
            intro hmem
            rcases List.mem_append.mp hmem with hmem | hmem
            · exact hmem
            · obtain rfl : u = b := by simpa using hmem
              refine (hu.not_posted ((A.posted_congr ?_ hb.flags).mp hpost)).elim
              intro x hx
              simpa [State.toStart, State.emit] using hlists x hx
        | waiting =>
            unfold State.addWaitingTask
            split <;> exact ⟨id, id, fun _ ↦ hloop⟩
        | direct =>
            refine ⟨id, id, ?_⟩
            intro hk g hg
            rcases List.mem_append.mp hg with hg | hg
            · obtain rfl : g = .run b := by simpa using hg
              rintro ⟨⟩
              -- the teller `t` is a dependency of `b`
              have hmem : t ∈ N.needs b := by
                have hle := N.feeds_le t b hne.symm
                have hpos := Multiset.count_pos.mpr (hinv.edge_of_telling hphase)
                exact Multiset.count_pos.mp (by omega)
              rw [hneeds, Multiset.mem_coe] at hmem
              have hframes := (hb.place hblock t (hu.depend (hroot ▸ hbroot) hmem)).2.2
              exact (hframes _ (State.mem_workers_of_stack hstack hk) rfl).elim
            · exact hloop g hg

theorem loop_step (hb : Busy A h info root s) (hf : f.isLoop = true) :
    Busy A h info root (A.stepFrame s .main f rest) := by
  obtain ⟨hheap, hids, hinfo, hexecutor, hworkers⟩ :=
    A.stepFrame_loop s rest hf
  have hhandler : s.blockTaskId ≠ [] →
      (A.stepFrame s .main f rest).handler = s.handler := by
    intro hne
    have hblock : s.hasBlockTasks = true := by simpa [State.hasBlockTasks] using hne
    cases f with
    | run t | body t | notifyBehindTasks t | forBehindTask t bs =>
        simp [Frame.isLoop] at hf
    | outerWhile | sleep | innerWhile => rfl
    | runWaitingTasks => simp [Arena.stepFrame, hblock]
    | runWaitingHead =>
        simp only [Arena.stepFrame, hblock, if_true]
        split <;> rfl
  constructor
  · rw [hheap]
    exact hb.behinds
  · rw [hinfo]
    exact hb.flags
  · rw [hids]
    exact hb.nodup
  · rw [hids, hheap]
    exact hb.pending
  · rw [hids]
    intro hne
    rw [hexecutor, hhandler hne, hworkers]
    exact hb.place hne

theorem step {a : Action} (hroot : N.root = root)
    (hneeds : ∀ t, N.needs t = (h t).dependTasks)
    (hfeeds : ∀ t, N.feeds t = (h t).behindTasks)
    (hb : Busy A h info root s) (hfollows : Follows N s) (hstacks : Stacks s)
    (hstep : A.step s a = some s') : Busy A h info root s' := by
  obtain ⟨-, ⟨k, f, rest, rfl, hstack, rfl⟩ | ⟨i, t, rfl, hget, rfl⟩ |
    ⟨i, t, rfl, hmain, hget, rfl⟩⟩ := Arena.step_cases hstep
  · cases hloop : f.isLoop with
    | true =>
        obtain ⟨rfl, -⟩ := hstacks.eq_main hstack hloop
        exact hb.loop_step hloop
    | false =>
    cases f with
    | run t => exact hb.run hfollows hstack
    | body t => exact hb.body hstack
    | notifyBehindTasks t =>
        refine hb.relist hstack (hfollows.finished_of_notify hstack (.inl rfl)) _ rfl
          [.forBehindTask t (s.sortTasks (s.heap t).behindTasks)] ?_
        simp [Frame.owner]
    | forBehindTask t bs =>
        cases bs with
        | nil =>
            exact hb.relist hstack (hfollows.finished_of_notify hstack (.inr ⟨_, rfl⟩)) _
              rfl [] (by simp)
        | cons b bs =>
            obtain ⟨s', calls, hnotice, hs'⟩ := hfollows.exists_notice (A := A) hstack
            rw [hs']
            exact hb.notice hroot hneeds hfeeds hfollows hstack hnotice
    | outerWhile | sleep | innerWhile | runWaitingTasks | runWaitingHead =>
        simp [Frame.isLoop] at hloop
  · refine ⟨hb.behinds, hb.flags, hb.nodup, hb.pending, ?_⟩
    intro hne u hu
    obtain ⟨hexecutor, hhandler, hframes⟩ := hb.place hne u hu
    refine ⟨fun hmem ↦ hexecutor (List.mem_of_mem_eraseIdx hmem), hhandler, ?_⟩
    intro f hf
    rw [List.flatten_append, List.mem_append] at hf
    rcases hf with hf | hf
    · exact hframes f hf
    · obtain rfl : f = .run t := by simpa using hf
      rintro ⟨⟩
      exact hexecutor (List.mem_of_getElem? hget)
  · refine ⟨hb.behinds, hb.flags, hb.nodup, hb.pending, ?_⟩
    intro hne u hu
    obtain ⟨hexecutor, hhandler, hframes⟩ := hb.place hne u hu
    exact ⟨hexecutor, fun hmem ↦ hhandler (List.mem_of_mem_eraseIdx hmem), hframes⟩

/-- With nothing in the waiting queue and no task on the main stack, the tasks
of the main thread are idle or done. -/
theorem tokens_eq_zero {c : Config τ} (hb : Busy A h info root s)
    (hR : Refines N s c) (hblock : s.blockTaskId ≠ [])
    (hwaiting : s.waitingTasks = []) (hmain : ∀ f ∈ s.main, f.owner = none)
    (ht : OnMain A h info root t) : (c.phase t).tokens t = 0 := by
  obtain ⟨hexecutor, hhandler, hframes⟩ := hb.place hblock t ht
  rw [← hR.soup t, Multiset.filter_eq_nil]
  rintro tok htok rfl
  rcases Multiset.mem_add.mp htok with htok | htok
  · obtain ⟨u, hu, rfl⟩ := List.mem_map.mp (Multiset.mem_coe.mp htok)
    simp only [List.mem_append, hwaiting, List.not_mem_nil, or_false] at hu
    rcases hu with hu | hu
    · exact hexecutor hu
    · exact hhandler hu
  · obtain ⟨f, hf, hftok⟩ := List.mem_filterMap.mp (Multiset.mem_coe.mp htok)
    have hown : f.owner = some tok.node := by
      cases f <;> simp_all [Frame.token, Frame.owner] <;> subst hftok <;> rfl
    rcases List.mem_append.mp hf with hf | hf
    · simp [hmain f hf] at hown
    · exact hframes f hf hown

/-- Then they are done: each of them has been told by all its dependencies. -/
theorem retired_of_onMain {c : Config τ} (hroot : N.root = root)
    (hneeds : ∀ t, N.needs t = (h t).dependTasks)
    (hfeeds : ∀ t, N.feeds t = (h t).behindTasks)
    (hb : Busy A h info root s) (hlaunched : c.phase N.root ≠ .idle)
    (hinv : Inv N c) (hR : Refines N s c) (hblock : s.blockTaskId ≠ [])
    (hwaiting : s.waitingTasks = []) (hmain : ∀ f ∈ s.main, f.owner = none)
    (ht : OnMain A h info root t) : c.phase t = .retired := by
  have hdone : ∀ u, OnMain A h info root u → c.phase u ≠ .idle →
      c.phase u = .retired := by
    intro u hu hidle
    have hzero := hb.tokens_eq_zero hR hblock hwaiting hmain hu
    cases hphase : c.phase u <;> simp_all [Phase.tokens]
  induction ht with
  | start hsync hpost =>
      exact hdone _ (.start hsync hpost) (hroot ▸ hlaunched)
  | behind t hsync hpost hbehind hdeps hbalance hdepend ih =>
      apply hdone t (.behind t hsync hpost hbehind hdeps hbalance hdepend)
      rcases eq_or_ne t N.root with rfl | htroot
      · exact hlaunched
      · have htold : ∀ d ∈ N.needs t, (c.phase d).Told := by
          intro d hd
          rw [hneeds, Multiset.mem_coe] at hd
          rw [ih d hd]
          trivial
        refine (hinv.phase_ne_idle_iff htroot ?_ htold).mpr ⟨?_, ?_⟩
        · simpa [hneeds] using hdeps
        · simpa [hfeeds] using hbehind
        · intro d
          simpa [hfeeds, hneeds, Heap.behinds, Heap.depends] using hbalance d

end Busy

end

section

variable [Fintype τ] (A : Arena τ) {h : Heap τ} {ids : List String}
  {info : Registry τ} {task : τ} {s₀ s : State τ} {as : List Action}

theorem busy_startFlow (hh : Built A h)
    (hstart : A.startFlow h ids info task = .ok s₀)
    (hblocks : BlocksOnMain A h s₀.taskRuntimeInfo (A.startOf task) ids) :
    Busy A h s₀.taskRuntimeInfo (A.startOf task) s₀ := by
  obtain ⟨h', info', s', calls, hinit, htask, rfl⟩ := A.startFlow_cases hh hstart
  obtain ⟨hshape, -⟩ := A.accepted_spec hinit
  obtain ⟨-, hroute⟩ := Arena.route_of_taskStart htask
  obtain ⟨hids, -, hworkers, -⟩ := hroute.unchanged
  have hids : s'.blockTaskId = ids := hids
  have hbehinds : ∀ u, ((State.toStart
      { heap := h', blockTaskId := ids, taskRuntimeInfo := info' }
      (A.startOf task)).heap u).behindTasks = (h u).behindTasks := by
    intro u
    simp [State.toStart, State.emit, (hshape u).2.2]
  constructor
  · intro u _
    simp only [hroute.heap]
    exact hbehinds u
  · exact fun _ ↦ rfl
  · exact hids ▸ hblocks.1
  · intro id hid
    obtain ⟨t, ht, hidt⟩ := hblocks.2 id (hids ▸ hid)
    refine ⟨t, ht, hidt, ?_⟩
    simp only [hroute.heap, State.toStart, State.emit, State.setState_state]
    split
    · simp
    · simp [(hshape t).1, hh.state_eq_idle]
  · intro _ t ht
    have hnone : ∀ f ∈ s'.workers.flatten, t ∉ f.owner := by
      simp [hworkers, State.toStart, State.emit, State.setState]
    cases hroute with
    | executor hasync =>
        refine ⟨?_, by simp [State.toStart, State.emit, State.setState], hnone⟩
        intro hmem
        obtain rfl : t = A.startOf task := by
          simpa [State.toStart, State.emit, State.setState] using hmem
        rw [ht.isAsyncTask_eq_false] at hasync
        simp at hasync
    | handler hsync hpost =>
        refine ⟨by simp [State.toStart, State.emit, State.setState], ?_, hnone⟩
        intro hmem
        obtain rfl : t = A.startOf task := by
          simpa [State.toStart, State.emit, State.setState] using hmem
        refine ht.not_posted ?_
        exact (A.posted_congr (fun u _ ↦ hbehinds u) (fun _ ↦ rfl)).mp hpost
    | direct =>
        refine ⟨?_, ?_, hnone⟩ <;> simp [State.toStart, State.emit, State.setState]
    | waiting =>
        refine ⟨?_, ?_, hnone⟩ <;>
          simp [State.addWaitingTask, State.toStart, State.emit, State.setState]

theorem Busy.thrown_eq_none {N : Network τ} {root : τ} {info₀ : Registry τ}
    {a : Action} {s' : State τ} (hroot : N.root = root)
    (hneeds : ∀ t, N.needs t = (h t).dependTasks)
    (hfeeds : ∀ t, N.feeds t = (h t).behindTasks)
    (hb : Busy A h info₀ root s) (hfollows : Follows N s) (hstacks : Stacks s)
    (hstep : A.step s a = some s') : s'.thrown = none := by
  obtain ⟨hthrown, ⟨k, f, rest, rfl, hstack, rfl⟩ | ⟨i, t, rfl, -, rfl⟩ |
    ⟨i, t, rfl, -, -, rfl⟩⟩ := Arena.step_cases hstep
  · cases f with
    | run t | body t | notifyBehindTasks t | outerWhile | sleep | innerWhile =>
        simpa [Arena.stepFrame, Arena.toRunning, Arena.toFinish, State.emit,
          State.setState, State.sortBehindTasks] using hthrown
    | forBehindTask t bs =>
        cases bs with
        | nil => simpa [Arena.stepFrame, State.recycle] using hthrown
        | cons b bs =>
            obtain ⟨s', calls, hnotice, hs'⟩ := hfollows.exists_notice (A := A) hstack
            rw [hs', State.setStack_thrown]
            exact hnotice.thrown_eq.trans hthrown
    | runWaitingTasks =>
        rw [Arena.stepFrame]
        split <;> simpa using hthrown
    | runWaitingHead =>
        rw [Arena.stepFrame]
        split
        · rename_i hhas
          split
          · -- the queue is empty: every block task would be finished
            rename_i hwaiting
            exfalso
            obtain ⟨rfl, hmain⟩ := hstacks.eq_main hstack rfl
            have hrest := (hmain ▸ hstacks.main).rest_of_isLoop rfl
            have hblock : s.blockTaskId ≠ [] := by
              simpa [State.hasBlockTasks] using hhas
            obtain ⟨id, hid⟩ := List.exists_mem_of_ne_nil _ hblock
            obtain ⟨t, ht, -, hunfinished⟩ := hb.pending id hid
            obtain ⟨c, hlaunched, hinv, hR⟩ := hfollows
            have hretired := hb.retired_of_onMain hroot hneeds hfeeds hlaunched
              hinv hR hblock hwaiting
              (by simp [hmain, hrest, Frame.below, Frame.owner]) ht
            exact hunfinished (by rw [hR.state, hretired]; rfl)
          · simpa [State.emit] using hthrown
        · simpa using hthrown
  · exact hthrown
  · exact hthrown

/-- No exception leaves `start`, in any run, when all block tasks are brought to
an end by the main thread itself. -/
theorem thrown_eq_none_of_blocksOnMain (hh : Built A h)
    (hstart : A.startFlow h ids info task = .ok s₀)
    (hblocks : BlocksOnMain A h s₀.taskRuntimeInfo (A.startOf task) ids)
    (hrun : run A.step s₀ as = some s) : s.thrown = none := by
  obtain ⟨N, hroot, hneeds, hfeeds, hfollows⟩ := A.exists_network hh hstart
  have hthrown : s₀.thrown = none := by
    obtain ⟨h', info', s', calls, -, htask, rfl⟩ := A.startFlow_cases hh hstart
    obtain ⟨-, hroute⟩ := Arena.route_of_taskStart htask
    exact hroute.thrown_eq
  have hall : Follows N s ∧ Stacks s ∧
      Busy A h s₀.taskRuntimeInfo (A.startOf task) s ∧ s.thrown = none := by
    refine run_invariant' (I := fun u ↦ Follows N u ∧ Stacks u ∧
      Busy A h s₀.taskRuntimeInfo (A.startOf task) u ∧ u.thrown = none) ?_ ?_ hrun
    · rintro u a v ⟨hNu, hu, hbu, -⟩ hstep
      exact ⟨hNu.step hstep, hu.step hstep,
        hbu.step hroot hneeds hfeeds hNu hu hstep,
        hbu.thrown_eq_none A hroot hneeds hfeeds hNu hu hstep⟩
    · exact ⟨hfollows [] s₀ rfl, stacks_startFlow A hh hstart,
        busy_startFlow A hh hstart hblocks, hthrown⟩
  exact hall.2.2.2

end

theorem onMain_chain (info : Registry (Fin 3)) :
    BlocksOnMain threeTasks chain info 0 ["b"] := by
  have hpost : ∀ t, ¬ threeTasks.Posted chain info t := by
    intro t ht
    exact absurd ht.1 (lt_irrefl 0)
  refine ⟨by decide, ?_⟩
  intro id hid
  refine ⟨1, .behind 1 rfl (hpost 1) (by decide) (by decide) (by decide) ?_,
    (List.mem_singleton.mp hid).symm⟩
  intro d hd
  obtain rfl : d = 0 := List.mem_singleton.mp hd
  exact .start rfl (hpost 0)

/-- The block task `b` is synchronous: the main thread runs `a` from the waiting
queue, then `b`, and `start` returns. -/
theorem thrown_eq_none_of_blocksOnMain_chain :
    ∃ s₀ s, threeTasks.startFlow chain ["b"] (fun _ ↦ none) 0 = .ok s₀ ∧
      BlocksOnMain threeTasks chain s₀.taskRuntimeInfo (threeTasks.startOf 0)
        ["b"] ∧
      run threeTasks.step s₀ (List.replicate 17 (.thread .main)) = some s ∧
      s.Returned ∧ s.thrown = none := by
  refine ⟨_, _, rfl, onMain_chain _, rfl, by decide, ?_⟩
  exact @thrown_eq_none_of_blocksOnMain (Fin 3) _ _ threeTasks chain ["b"]
    (fun _ ↦ none) 0 _ _ (List.replicate 17 (.thread .main)) built_chain rfl
    (onMain_chain _) rfl

/-- `a`, then the block task `b` on an executor thread, then `c`. -/
def blockInBackground : Arena (Fin 3) :=
  .plain (fun t ↦ if t = 0 then "a" else if t = 1 then "b" else "c")
    (fun t ↦ decide (t = 1))

def backgroundChain : Heap (Fin 3) :=
  [Call.behind 0 1, .behind 1 2].foldl blockInBackground.perform
    (Heap.fresh fun _ ↦ 0)

/-- The main thread takes `a` from the waiting queue and runs it.  Nothing is
left in the queue, `b` has not ended, and the next `removeAt(0)` throws. -/
theorem wait_loop_throws :
    Built blockInBackground backgroundChain ∧
    ∃ s₀ s, blockInBackground.startFlow backgroundChain ["b"] (fun _ ↦ none) 0 =
        .ok s₀ ∧
      run blockInBackground.step s₀ (List.replicate 13 (.thread .main)) =
        some s ∧
      s.thrown = some (.main, .indexOutOfBounds) :=
  ⟨built_foldl blockInBackground (.fresh _) _, _, _, rfl, rfl, rfl⟩

end HiApp.TaskFlow
