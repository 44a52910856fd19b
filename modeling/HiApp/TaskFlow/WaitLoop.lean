import HiApp.TaskFlow.Refinement

/-!
# The wait loop of `TaskFlowManager.start`

After the start task has been started, the main thread turns in two nested
loops as long as there are block tasks, and serves the waiting queue in them.
This file accounts for the tasks that go through the queue and for the
exceptions that leave the loop.
-/

namespace HiApp.TaskFlow

open Relation Countdown Runs

variable {τ : Type*}

/-- The frames of `TaskFlowManager.start` itself. -/
def Frame.isLoop : Frame τ → Bool
  | .outerWhile | .sleep | .innerWhile | .runWaitingTasks | .runWaitingHead =>
      true
  | _ => false

/-- What lies below a frame of `start`. -/
def Frame.below : Frame τ → List (Frame τ)
  | .runWaitingTasks | .runWaitingHead => [.innerWhile]
  | _ => []

/-- A test of the wait loop changes the queues and the main stack only. -/
theorem Arena.stepFrame_loop [DecidableEq τ] [Fintype τ] (A : Arena τ)
    (s : State τ) {f : Frame τ} (rest : List (Frame τ))
    (hf : f.isLoop = true) :
    (A.stepFrame s .main f rest).heap = s.heap ∧
      (A.stepFrame s .main f rest).blockTaskId = s.blockTaskId ∧
      (A.stepFrame s .main f rest).taskRuntimeInfo = s.taskRuntimeInfo ∧
      (A.stepFrame s .main f rest).executor = s.executor ∧
      (A.stepFrame s .main f rest).workers = s.workers := by
  cases f with
  | run t | body t | notifyBehindTasks t | forBehindTask t bs =>
      simp [Frame.isLoop] at hf
  | outerWhile | sleep | innerWhile => exact ⟨rfl, rfl, rfl, rfl, rfl⟩
  | runWaitingTasks =>
      rw [stepFrame]
      split <;> exact ⟨rfl, rfl, rfl, rfl, rfl⟩
  | runWaitingHead =>
      rw [stepFrame]
      split
      · split <;> exact ⟨rfl, rfl, rfl, rfl, rfl⟩
      · exact ⟨rfl, rfl, rfl, rfl, rfl⟩

/-- No frame of `start` is left on the main thread. -/
def State.Returned (s : State τ) : Prop := ∀ f ∈ s.main, f.isLoop = false

instance (s : State τ) : Decidable s.Returned :=
  inferInstanceAs (Decidable (∀ f ∈ s.main, f.isLoop = false))

/-- The stacks of the main thread.  Tasks are run on top of the two `while`
tests, or after `start` has returned. -/
inductive MainStack : List (Frame τ) → Prop
  | tasks (ts bottom : List (Frame τ)) (hts : ∀ f ∈ ts, f.isLoop = false)
      (hbottom : bottom ∈ [[], [.outerWhile], [.innerWhile]]) :
      MainStack (ts ++ bottom)
  | sleep : MainStack [.sleep]
  | runWaitingTasks : MainStack [.runWaitingTasks, .innerWhile]
  | runWaitingHead : MainStack [.runWaitingHead, .innerWhile]

namespace MainStack

variable {f : Frame τ} {rest new : List (Frame τ)}

theorem replace (h : MainStack (f :: rest)) (hf : f.isLoop = false)
    (hnew : ∀ g ∈ new, g.isLoop = false) : MainStack (new ++ rest) := by
  generalize hstack : f :: rest = stack at h
  cases h with
  | tasks ts bottom hts hbottom =>
      cases ts with
      | nil =>
          rw [List.nil_append] at hstack
          subst hstack
          simp only [List.mem_cons, List.cons.injEq, List.not_mem_nil, or_false,
            reduceCtorEq, false_or] at hbottom
          rcases hbottom with ⟨rfl, -⟩ | ⟨rfl, -⟩ <;> simp [Frame.isLoop] at hf
      | cons t ts =>
          rw [List.cons_append] at hstack
          obtain ⟨rfl, rfl⟩ := List.cons.inj hstack
          rw [← List.append_assoc]
          refine .tasks _ _ ?_ hbottom
          intro g hg
          rcases List.mem_append.mp hg with hg | hg
          · exact hnew g hg
          · exact hts g (List.mem_cons_of_mem _ hg)
  | sleep | runWaitingTasks | runWaitingHead =>
      obtain ⟨rfl, -⟩ := List.cons.inj hstack
      simp [Frame.isLoop] at hf

theorem head_rest (h : MainStack (f :: rest)) :
    rest.head? ≠ some .runWaitingHead := by
  generalize hstack : f :: rest = stack at h
  cases h with
  | tasks ts bottom hts hbottom =>
      have hmem : ∀ g ∈ f :: rest, g ≠ .runWaitingHead := by
        rw [hstack]
        rintro g hg rfl
        rcases List.mem_append.mp hg with hg | hg
        · have := hts _ hg
          simp [Frame.isLoop] at this
        · simp only [List.mem_cons, List.not_mem_nil, or_false] at hbottom
          rcases hbottom with rfl | rfl | rfl <;> simp at hg
      intro hhead
      exact hmem _ (List.mem_cons_of_mem _ (List.mem_of_mem_head? hhead)) rfl
  | sleep | runWaitingTasks | runWaitingHead =>
      obtain ⟨-, rfl⟩ := List.cons.inj hstack
      simp

theorem rest_of_isLoop (h : MainStack (f :: rest)) (hf : f.isLoop = true) :
    rest = f.below := by
  generalize hstack : f :: rest = stack at h
  cases h with
  | tasks ts bottom hts hbottom =>
      cases ts with
      | nil =>
          rw [List.nil_append] at hstack
          subst hstack
          simp only [List.mem_cons, List.cons.injEq, List.not_mem_nil, or_false,
            reduceCtorEq, false_or] at hbottom
          rcases hbottom with ⟨rfl, rfl⟩ | ⟨rfl, rfl⟩ <;> rfl
      | cons t ts =>
          rw [List.cons_append] at hstack
          obtain ⟨rfl, rfl⟩ := List.cons.inj hstack
          rw [hts f (by simp)] at hf
          simp at hf
  | sleep | runWaitingTasks | runWaitingHead =>
      obtain ⟨rfl, rfl⟩ := List.cons.inj hstack
      rfl

end MainStack

/-- The shape of all stacks, and that `start` does not return while there are
block tasks. -/
structure Stacks (s : State τ) : Prop where
  main : MainStack s.main
  workers : ∀ f ∈ s.workers.flatten, f.isLoop = false
  waits : s.Returned → s.blockTaskId = []

namespace Stacks

variable {s s' : State τ} {k : Thread} {f : Frame τ} {rest : List (Frame τ)}

theorem eq_main (h : Stacks s) (hstack : s.stack k = f :: rest)
    (hf : f.isLoop = true) : k = .main ∧ s.main = f :: rest := by
  rcases State.stack_cases hstack with hmain | ⟨seq, rfl, hget⟩
  · exact hmain
  · have hmem : f ∈ s.workers.flatten :=
      List.mem_flatten.mpr ⟨f :: rest, List.mem_of_getElem? hget, by simp⟩
    rw [h.workers f hmem] at hf
    simp at hf

theorem task_step (h : Stacks s) (hstack : s.stack k = f :: rest)
    (hf : f.isLoop = false) (new : List (Frame τ))
    (hnew : ∀ g ∈ new, g.isLoop = false)
    (hmain : s'.main = s.main) (hworkers : s'.workers = s.workers)
    (hids : s.blockTaskId = [] → s'.blockTaskId = []) :
    Stacks (s'.setStack k (new ++ rest)) := by
  rcases State.stack_cases hstack with ⟨rfl, hs⟩ | ⟨seq, rfl, -⟩
  · constructor
    · exact (hs ▸ h.main).replace hf hnew
    · simpa [State.setStack, hworkers] using h.workers
    · intro hreturned
      apply hids
      apply h.waits
      intro g hg
      rw [hs] at hg
      rcases List.mem_cons.mp hg with rfl | hg
      · exact hf
      · exact hreturned g (List.mem_append_right _ hg)
  · constructor
    · simpa [State.setStack, hmain] using h.main
    · intro g hg
      rcases State.mem_workers_setStack hstack hworkers hg with hg | hg
      · exact hnew g hg.2
      · exact h.workers g hg
    · intro hreturned
      have hreturned' : s.Returned := by
        simpa [State.Returned, State.setStack, hmain] using hreturned
      simpa using hids (h.waits hreturned')

variable [DecidableEq τ] [Fintype τ] {A : Arena τ}

omit [DecidableEq τ] [Fintype τ] in
theorem throw (h : Stacks s) (e : TaskError) : Stacks (s.throw k e) :=
  ⟨h.main, h.workers, h.waits⟩

theorem loop_step (h : Stacks s) (hmain : s.main = f :: rest)
    (hf : f.isLoop = true) : Stacks (A.stepFrame s .main f rest) := by
  have hrest := (hmain ▸ h.main).rest_of_isLoop hf
  subst hrest
  have hblock : s.hasBlockTasks = false → s.blockTaskId = [] := by
    simp [State.hasBlockTasks]
  -- the main stack after the test; the rest of the state does not matter
  have hset : ∀ (u : State τ) (fs : List (Frame τ)), u.workers = s.workers →
      MainStack fs → ((∀ g ∈ fs, g.isLoop = false) → u.blockTaskId = []) →
      Stacks (u.setStack .main fs) := by
    intro u fs hworkers hfs hreturned
    refine ⟨hfs, ?_, hreturned⟩
    simpa [State.setStack, hworkers] using h.workers
  cases f with
  | run t | body t | notifyBehindTasks t | forBehindTask t bs =>
      simp [Frame.isLoop] at hf
  | outerWhile =>
      simp only [Arena.stepFrame, Frame.below]
      split
      · exact hset s _ rfl .sleep (by simp [Frame.isLoop])
      · rename_i hids
        apply hset s _ rfl (.tasks [] _ (by simp) (by simp))
        exact fun _ ↦ hblock (by simpa using hids)
  | sleep =>
      exact hset s _ rfl (.tasks [] _ (by simp) (by simp [Frame.below]))
        (by simp [Frame.isLoop])
  | innerWhile =>
      simp only [Arena.stepFrame, Frame.below]
      split
      · exact hset s _ rfl .runWaitingTasks (by simp [Frame.isLoop])
      · exact hset s _ rfl (.tasks [] _ (by simp) (by simp))
          (by simp [Frame.isLoop])
  | runWaitingTasks =>
      simp only [Arena.stepFrame, Frame.below]
      split
      · exact hset _ _ rfl .runWaitingHead (by simp [Frame.isLoop])
      · exact hset s _ rfl (.tasks [] _ (by simp) (by simp))
          (by simp [Frame.isLoop])
  | runWaitingHead =>
      simp only [Arena.stepFrame, Frame.below]
      split
      · split
        · exact h.throw _
        · rename_i head tail _
          exact hset _ _ rfl
            (.tasks [.run head] _ (by simp [Frame.isLoop]) (by simp))
            (by simp [Frame.isLoop])
      · exact hset _ _ rfl (.tasks [] _ (by simp) (by simp))
          (by simp [Frame.isLoop])

theorem step {a : Action} (h : Stacks s) (hstep : A.step s a = some s') :
    Stacks s' := by
  obtain ⟨-, ⟨k, f, rest, rfl, hstack, rfl⟩ | ⟨i, t, rfl, -, rfl⟩ |
    ⟨i, t, rfl, hmain, -, rfl⟩⟩ := Arena.step_cases hstep
  · cases f with
    | run t =>
        exact h.task_step hstack rfl [.body t] (by simp [Frame.isLoop])
          rfl rfl id
    | body t =>
        refine h.task_step hstack rfl [.notifyBehindTasks t]
          (by simp [Frame.isLoop]) rfl rfl ?_
        intro hids
        simp [Arena.toFinish, State.emit, hids]
    | notifyBehindTasks t =>
        exact h.task_step hstack rfl
          [.forBehindTask t (s.sortTasks (s.heap t).behindTasks)]
          (by simp [Frame.isLoop]) rfl rfl id
    | forBehindTask t bs =>
        cases bs with
        | nil => exact h.task_step hstack rfl [] (by simp) rfl rfl id
        | cons b bs =>
            rcases Arena.stepFrame_notify A s t b k rest bs with
              ⟨e, -, he⟩ | ⟨s', calls, hnotice, hs'⟩
            · rw [he]
              exact h.throw e
            · obtain ⟨hids, hmain, hworkers, -⟩ := hnotice.unchanged
              rw [hs']
              apply h.task_step hstack rfl _ ?_ hmain hworkers (by simp [hids])
              rcases hnotice.calls_eq with rfl | rfl <;> simp [Frame.isLoop]
    | outerWhile | sleep | innerWhile | runWaitingTasks | runWaitingHead =>
        obtain ⟨rfl, hmain⟩ := h.eq_main hstack rfl
        exact h.loop_step hmain rfl
  · refine ⟨h.main, ?_, h.waits⟩
    intro f hf
    rw [List.flatten_append, List.mem_append] at hf
    rcases hf with hf | hf
    · exact h.workers f hf
    · obtain rfl : f = .run t := by simpa using hf
      rfl
  · refine ⟨.tasks [.run t] [] (by simp [Frame.isLoop]) (by simp), h.workers, ?_⟩
    intro _
    exact h.waits (by simp [State.Returned, hmain])

end Stacks

/-! ## The account of the waiting queue -/

namespace State

variable [DecidableEq τ]

def added (s : State τ) (t : τ) : ℕ := s.trace.count (.addWaiting t)

/-- How often a task of the waiting queue was run, or posted to the looper. -/
def served (s : State τ) (t : τ) : ℕ :=
  s.trace.count (.runWaiting t) + s.trace.count (.postWaiting t)

end State

section

variable [DecidableEq τ]

/-- Every task that was put into the waiting queue was put there once, and has
been served or is still there. -/
structure Ledger (s : State τ) : Prop where
  once : ∀ t, s.added t ≤ 1
  idle : ∀ t, (s.heap t).state = .idle → s.added t = 0
  account : ∀ t, s.added t = s.served t + s.waitingTasks.count t

namespace Ledger

variable {s s' : State τ} {k : Thread} {f : Frame τ} {rest : List (Frame τ)}

theorem quiet (h : Ledger s) (hadded : ∀ t, s'.added t = s.added t)
    (hserved : ∀ t, s'.served t = s.served t)
    (hwaiting : s'.waitingTasks.Perm s.waitingTasks)
    (hidle : ∀ t, (s'.heap t).state = .idle → (s.heap t).state = .idle) :
    Ledger s' := by
  constructor
  · intro t
    rw [hadded]
    exact h.once t
  · intro t ht
    rw [hadded]
    exact h.idle t (hidle t ht)
  · intro t
    rw [hadded, hserved, hwaiting.count_eq]
    exact h.account t

theorem enter {b : τ} (h : Ledger s) (hidle : (s.heap b).state = .idle)
    (hadded : ∀ t, s'.added t = s.added t + if t = b then 1 else 0)
    (hserved : ∀ t, s'.served t = s.served t)
    (hwaiting : s'.waitingTasks = s.waitingTasks ++ [b])
    (hstate : ∀ t, (s'.heap t).state = .idle →
      t ≠ b ∧ (s.heap t).state = .idle) : Ledger s' := by
  have hzero := h.idle b hidle
  constructor
  · intro t
    have hone := h.once t
    rw [hadded]
    split
    · rename_i ht
      rw [ht, hzero]
    · exact hone
  · intro t ht
    obtain ⟨hne, ht⟩ := hstate t ht
    rw [hadded, if_neg hne, h.idle t ht]
  · intro t
    rw [hadded, hserved, hwaiting, List.count_append, List.count_singleton,
      h.account t]
    by_cases ht : t = b
    · simp [ht]
      omega
    · simp [ht, Ne.symm ht]

theorem leave (h : Ledger s) (left : List τ) (hheap : s'.heap = s.heap)
    (hadded : ∀ t, s'.added t = s.added t)
    (hserved : ∀ t, s'.served t = s.served t + left.count t)
    (hwaiting : s.waitingTasks = left ++ s'.waitingTasks) : Ledger s' := by
  constructor
  · intro t
    rw [hadded]
    exact h.once t
  · intro t ht
    rw [hadded]
    rw [hheap] at ht
    exact h.idle t ht
  · intro t
    rw [hadded, hserved, h.account t, hwaiting, List.count_append]
    omega

variable [Fintype τ] {A : Arena τ} {t b : τ} {calls : List (Frame τ)}

theorem route (h : Ledger s) (hb : (s.heap b).state = .idle)
    (hroute : Route A (s.toStart b) b s' calls) : Ledger s' := by
  -- `onStart` is no event of the queue
  have hstart : ∀ u, (s.toStart b).added u = s.added u ∧
      (s.toStart b).served u = s.served u := by
    intro u
    simp [State.added, State.served, State.toStart, State.emit,
      State.setState, List.count_append]
  have hidle : ∀ u, (s'.heap u).state = .idle → (s.heap u).state = .idle := by
    rw [hroute.heap]
    exact fun u hu ↦ State.idle_of_setState (by simp) hu
  cases hroute with
  | executor | handler | direct =>
      exact h.quiet (fun u ↦ (hstart u).1) (fun u ↦ (hstart u).2) .rfl hidle
  | waiting hsync hpost hblock hother =>
      have hmem : b ∉ (s.toStart b).waitingTasks := by
        intro hmem
        have hpos : 0 < s.waitingTasks.count b := List.count_pos_iff.mpr hmem
        have hzero := h.idle b hb
        have haccount := h.account b
        omega
      unfold State.addWaitingTask at hidle ⊢
      rw [if_neg hmem] at hidle ⊢
      refine h.enter hb ?_ ?_ rfl ?_
      · intro u
        have hu := (hstart u).1
        simp only [State.added, State.emit, List.count_append,
          List.count_singleton] at hu ⊢
        rw [hu]
        by_cases hub : u = b
        · simp [hub]
        · simp [hub, Ne.symm hub]
      · intro u
        have hu := (hstart u).2
        simp only [State.served, State.emit, List.count_append,
          List.count_singleton] at hu ⊢
        simpa using hu
      · intro u hu
        refine ⟨?_, hidle u hu⟩
        rintro rfl
        simp [State.emit, State.toStart] at hu

theorem notice (h : Ledger s) (hnotice : Notice A s b t s' calls) :
    Ledger s' := by
  have hcrossed : Ledger { s with heap := s.heap.removeDepend b t } :=
    h.quiet (fun _ ↦ rfl) (fun _ ↦ rfl) .rfl (by simp)
  cases hnotice with
  | ignored => exact h
  | crossed => exact hcrossed
  | started _ _ hb hroute => exact hcrossed.route (by simpa using hb) hroute

omit [Fintype τ] in
theorem setStack (h : Ledger s) (fs : List (Frame τ)) :
    Ledger (s.setStack k fs) :=
  h.quiet (by simp [State.added]) (by simp [State.served]) (by simp) (by simp)

theorem stepFrame (h : Ledger s) : Ledger (A.stepFrame s k f rest) := by
  cases f with
  | run t =>
      refine setStack (s := A.toRunning s t k) ?_ _
      refine h.quiet ?_ ?_ .rfl ?_
      · simp [Arena.toRunning, State.added, State.emit, State.setState,
          List.count_append]
      · simp [Arena.toRunning, State.served, State.emit, State.setState,
          List.count_append]
      · exact fun u hu ↦ State.idle_of_setState (by simp) hu
  | body t =>
      refine setStack (s := A.toFinish s t) ?_ _
      refine h.quiet ?_ ?_ .rfl ?_
      · simp [Arena.toFinish, State.added, State.emit, State.setState,
          List.count_append]
      · simp [Arena.toFinish, State.served, State.emit, State.setState,
          List.count_append]
      · exact fun u hu ↦ State.idle_of_setState (by simp) hu
  | notifyBehindTasks t =>
      refine setStack (s := s.sortBehindTasks t) ?_ _
      exact h.quiet (fun _ ↦ rfl) (fun _ ↦ rfl) .rfl (by simp)
  | forBehindTask t bs =>
      cases bs with
      | nil =>
          refine setStack (s := s.recycle t) ?_ _
          exact h.quiet (fun _ ↦ rfl) (fun _ ↦ rfl) .rfl (by simp)
      | cons b bs =>
          rcases Arena.stepFrame_notify A s t b k rest bs with
            ⟨e, -, he⟩ | ⟨s', calls, hnotice, hs'⟩
          · rw [he]
            exact ⟨h.once, h.idle, h.account⟩
          · rw [hs']
            exact (h.notice hnotice).setStack _
  | outerWhile | sleep | innerWhile => exact h.setStack _
  | runWaitingTasks =>
      rw [Arena.stepFrame]
      split
      · refine setStack ?_ _
        exact h.quiet (fun _ ↦ rfl) (fun _ ↦ rfl) (s.sortTasks_perm _)
          (fun _ ↦ id)
      · exact h.setStack _
  | runWaitingHead =>
      rw [Arena.stepFrame]
      split
      · split
        · exact ⟨h.once, h.idle, h.account⟩
        · rename_i head tail hwaiting
          refine setStack ?_ _
          refine h.leave [head] rfl ?_ ?_ (by simp [hwaiting, State.emit])
          · simp [State.added, State.emit, List.count_append]
          · intro u
            simp only [State.served, State.emit, List.count_append,
              List.count_singleton]
            by_cases hu : head = u
            · simp [hu]
              omega
            · simp [hu]
      · refine setStack ?_ _
        refine h.leave s.waitingTasks rfl ?_ ?_ (by simp)
        · intro u
          simp [State.added, List.count_append, List.count_eq_zero]
        · intro u
          have hpost : (s.waitingTasks.map Event.postWaiting).count
              (.postWaiting u) = s.waitingTasks.count u := by
            rw [List.count_map_of_injective _ _ (fun _ _ h ↦ by simpa using h)]
          have hrun : (s.waitingTasks.map Event.postWaiting).count
              (.runWaiting u) = 0 := by
            simp [List.count_eq_zero]
          simp only [State.served, List.count_append, hpost, hrun]
          omega

theorem step {a : Action} (h : Ledger s) (hstep : A.step s a = some s') :
    Ledger s' := by
  obtain ⟨-, ⟨k, f, rest, rfl, -, rfl⟩ | ⟨i, t, rfl, -, rfl⟩ |
    ⟨i, t, rfl, -, -, rfl⟩⟩ := Arena.step_cases hstep
  · exact h.stepFrame
  · exact ⟨h.once, h.idle, h.account⟩
  · exact ⟨h.once, h.idle, h.account⟩

end Ledger

/-! ## The state in which the wait loop begins -/

section

variable [Fintype τ] (A : Arena τ) {h : Heap τ} {ids : List String}
  {info : Registry τ} {task : τ} {s₀ : State τ}

theorem stacks_startFlow (hh : Built A h)
    (hstart : A.startFlow h ids info task = .ok s₀) : Stacks s₀ := by
  obtain ⟨h', info', s', calls, -, htask, rfl⟩ := A.startFlow_cases hh hstart
  obtain ⟨-, hroute⟩ := Arena.route_of_taskStart htask
  refine ⟨.tasks calls _ ?_ (by simp), ?_, ?_⟩
  · rcases hroute.calls_eq with rfl | rfl <;> simp [Frame.isLoop]
  · obtain ⟨-, -, hworkers, -⟩ := hroute.unchanged
    simp [hworkers, State.toStart, State.emit, State.setState]
  · intro hreturned
    have hloop := hreturned .outerWhile (by simp)
    simp [Frame.isLoop] at hloop

theorem ledger_startFlow (hh : Built A h)
    (hstart : A.startFlow h ids info task = .ok s₀) : Ledger s₀ := by
  obtain ⟨h', info', s', calls, -, htask, rfl⟩ := A.startFlow_cases hh hstart
  obtain ⟨hidle, hroute⟩ := Arena.route_of_taskStart htask
  have hempty : @Ledger τ _
      { heap := h', blockTaskId := ids, taskRuntimeInfo := info' } :=
    ⟨fun _ ↦ Nat.zero_le _, fun _ _ ↦ rfl, fun _ ↦ rfl⟩
  have hledger := hempty.route hidle hroute
  exact ⟨hledger.once, hledger.idle, hledger.account⟩

end

end

end HiApp.TaskFlow
