import Mathlib.Algebra.Order.Group.Multiset
import Mathlib.Tactic.Abel
import HiApp.Lib.Countdown
import HiApp.Lib.Runs
import HiApp.TaskFlow.Machine

/-!
# The running task flow is a countdown network

The queues and call stacks of the machine hold one token for every task that
is somewhere between `start` and `recycle`.  Read that way, every step of the
machine is a step of the countdown network whose needs and feeds are the edge
lists at the beginning of the run, or no step at all: moving a task from one
queue to another, sorting, and the tests of the wait loop are invisible.
-/

namespace HiApp.TaskFlow

open Relation Countdown Runs

variable {τ : Type*} [DecidableEq τ]

/-- The countdown network of a heap, seen from the start task of a run. -/
def Heap.network {A : Arena τ} (h : Heap τ) (hh : Built A h) (root : τ)
    (hacyclic : ∀ a, ReflTransGen h.Edge root a → ¬ TransGen h.Edge a a) :
    Network τ where
  root := root
  needs t := (h t).dependTasks
  feeds t := (h t).behindTasks
  feeds_le a b hab := by
    rw [Multiset.coe_count, Multiset.coe_count]
    exact hh.behinds_le_depends hab
  acyclic := hacyclic

def Frame.token (N : Network τ) : Frame τ → Option (Token τ)
  | .run t => some (.queued t)
  | .body t => some (.running t)
  | .notifyBehindTasks t => some (.telling t (N.feeds t))
  | .forBehindTask t rest => some (.telling t rest)
  | _ => none

def Frame.tokens (N : Network τ) (fs : List (Frame τ)) : Multiset (Token τ) :=
  (fs.filterMap (Frame.token N) : List (Token τ))

/-- The event says that `t` enters `RUNNING`. -/
def Event.runs (t : τ) : Event τ → Bool
  | .onRunning u _ => decide (u = t)
  | _ => false

namespace State

def queueTokens (s : State τ) : Multiset (Token τ) :=
  ((s.executor ++ s.handler ++ s.waitingTasks).map Token.queued : List (Token τ))

def frames (s : State τ) : List (Frame τ) := s.main ++ s.workers.flatten

def frameTokens (N : Network τ) (s : State τ) : Multiset (Token τ) :=
  Frame.tokens N s.frames

def soup (N : Network τ) (s : State τ) : Multiset (Token τ) :=
  s.queueTokens + s.frameTokens N

/-- How often a task has entered `RUNNING`. -/
def runs (s : State τ) (t : τ) : ℕ :=
  s.trace.countP (Event.runs t)

end State

/-- The state field of a task in a given phase. -/
def stateOf : Phase τ → TaskState
  | .idle => .idle
  | .queued => .start
  | .running => .running
  | .telling _ | .retired => .finished

/-- How often a task in a given phase has entered `RUNNING`. -/
def runsOf : Phase τ → ℕ
  | .idle | .queued => 0
  | _ => 1

/-- A machine state seen as a configuration of its countdown network. -/
structure Refines (N : Network τ) (s : State τ) (c : Config τ) : Prop where
  soup : Represents (s.soup N) c.phase
  state : ∀ t, (s.heap t).state = stateOf (c.phase t)
  depends : ∀ t, c.phase t ≠ .retired →
    ((s.heap t).dependTasks : Multiset τ) = c.waits t
  behinds : ∀ t, c.phase t ≠ .retired →
    ((s.heap t).behindTasks : Multiset τ) = N.feeds t
  recycled : ∀ t, c.phase t = .retired → (s.heap t).behindTasks = []
  runs : ∀ t, s.runs t = runsOf (c.phase t)
  thrown : ∀ k e, s.thrown = some (k, e) → e = .indexOutOfBounds

omit [DecidableEq τ] in
theorem stateOf_eq_finished_iff {p : Phase τ} :
    stateOf p = .finished ↔ p.Finished := by
  cases p <;> simp [stateOf, Phase.Finished]

omit [DecidableEq τ] in
theorem stateOf_eq_idle_iff {p : Phase τ} : stateOf p = .idle ↔ p = .idle := by
  cases p <;> simp [stateOf]

/-! ## Stacks -/

namespace Frame

variable (N : Network τ)

theorem tokens_append (fs gs : List (Frame τ)) :
    tokens N (fs ++ gs) = tokens N fs + tokens N gs := by
  simp [tokens]

@[simp] theorem tokens_nil : tokens N [] = 0 := rfl

@[simp] theorem tokens_run (t : τ) (fs : List (Frame τ)) :
    tokens N (.run t :: fs) = .queued t ::ₘ tokens N fs := rfl

@[simp] theorem tokens_body (t : τ) (fs : List (Frame τ)) :
    tokens N (.body t :: fs) = .running t ::ₘ tokens N fs := rfl

@[simp] theorem tokens_notifyBehindTasks (t : τ) (fs : List (Frame τ)) :
    tokens N (.notifyBehindTasks t :: fs) =
      .telling t (N.feeds t) ::ₘ tokens N fs := rfl

@[simp] theorem tokens_forBehindTask (t : τ) (rest : List τ)
    (fs : List (Frame τ)) :
    tokens N (.forBehindTask t rest :: fs) =
      .telling t rest ::ₘ tokens N fs := rfl

theorem tokens_of_token_eq_none {f : Frame τ} (hf : f.token N = none)
    (fs : List (Frame τ)) : tokens N (f :: fs) = tokens N fs := by
  simp [tokens, hf]

end Frame

namespace State

variable (N : Network τ)

/-- Replacing the top frame of one stack replaces its tokens and leaves those
of all other frames. -/
theorem exists_frameTokens_rest {s : State τ} {k : Thread} {f : Frame τ}
    {rest : List (Frame τ)} (hstack : s.stack k = f :: rest) :
    ∃ R, s.frameTokens N = Frame.tokens N [f] + R ∧
      ∀ (s' : State τ), s'.main = s.main → s'.workers = s.workers →
        ∀ new, (s'.setStack k (new ++ rest)).frameTokens N =
          Frame.tokens N new + R := by
  rcases stack_cases hstack with ⟨rfl, hmain⟩ | ⟨seq, rfl, hget⟩
  · refine ⟨Frame.tokens N (rest ++ s.workers.flatten), ?_, ?_⟩
    · rw [frameTokens, frames, hmain, ← Frame.tokens_append]
      rfl
    · intro s' _ hworkers new
      simp only [frameTokens, frames, setStack, hworkers, ← Frame.tokens_append,
        List.append_assoc]
  · obtain ⟨hlt, hget⟩ := List.getElem?_eq_some_iff.mp hget
    have hsplit : s.workers = s.workers.take seq ++
        (f :: rest) :: s.workers.drop (seq + 1) := by
      rw [← hget, List.getElem_cons_drop, List.take_append_drop]
    refine ⟨Frame.tokens N (s.main ++ (s.workers.take seq).flatten ++ rest ++
      (s.workers.drop (seq + 1)).flatten), ?_, ?_⟩
    · rw [frameTokens, frames]
      nth_rewrite 1 [hsplit]
      have hone : f :: rest = [f] ++ rest := rfl
      simp only [List.flatten_append, List.flatten_cons, Frame.tokens_append,
        hone]
      abel
    · intro s' hmain hworkers new
      simp only [frameTokens, frames, setStack, hmain, hworkers,
        List.set_eq_take_append_cons_drop, hlt, if_true,
        List.flatten_append, List.flatten_cons, Frame.tokens_append]
      abel

theorem exists_soup_rest {s : State τ} {k : Thread} {f : Frame τ}
    {rest : List (Frame τ)} (hstack : s.stack k = f :: rest) :
    ∃ R, s.soup N = Frame.tokens N [f] + (s.queueTokens + R) ∧
      ∀ (s' : State τ), s'.main = s.main → s'.workers = s.workers →
        ∀ new, (s'.setStack k (new ++ rest)).soup N =
          Frame.tokens N new + (s'.queueTokens + R) := by
  obtain ⟨R, hold, hnew⟩ := exists_frameTokens_rest N hstack
  refine ⟨R, ?_, ?_⟩
  · rw [soup, hold]
    abel
  · intro s' hmain hworkers new
    have hqueue : (s'.setStack k (new ++ rest)).queueTokens = s'.queueTokens := by
      simp [queueTokens]
    rw [soup, hnew s' hmain hworkers new, hqueue]
    abel

omit [DecidableEq τ] in
theorem mem_frames_of_stack {s : State τ} {k : Thread} {f : Frame τ}
    {rest : List (Frame τ)} (hstack : s.stack k = f :: rest) : f ∈ s.frames := by
  rcases stack_cases hstack with ⟨-, hmain⟩ | ⟨seq, -, hget⟩
  · simp [frames, hmain]
  · refine List.mem_append_right _ (List.mem_flatten.mpr ?_)
    exact ⟨f :: rest, List.mem_of_getElem? hget, by simp⟩

theorem runs_of_trace_eq_concat {s s' : State τ} {e : Event τ}
    (htrace : s'.trace = s.trace ++ [e]) (u : τ) :
    s'.runs u = s.runs u + if e.runs u then 1 else 0 := by
  rw [runs, runs, htrace, List.countP_append, List.countP_singleton]

end State

/-! ## Steps that are visible in the network -/

namespace Refines

variable {N : Network τ} {s s' : State τ} {c : Config τ} {t : τ}

theorem phase_of_mem_frames {f : Frame τ} {k : Token τ} (hR : Refines N s c)
    (hf : f ∈ s.frames) (hk : f.token N = some k) :
    c.phase k.node = k.phase := by
  have hmem : k ∈ s.soup N := by
    refine Multiset.mem_add.mpr (.inr ?_)
    exact Multiset.mem_coe.mpr (List.mem_filterMap.mpr ⟨f, hf, hk⟩)
  exact (Phase.eq_of_mem_tokens (hR.soup.mem_tokens hmem)).1

theorem setPhase {p : Phase τ} (hR : Refines N s c)
    (hsoup : Represents (s'.soup N) (Function.update c.phase t p))
    (hold : c.phase t ≠ .retired) (hnew : p ≠ .retired)
    (hstate : ∀ u, (s'.heap u).state =
      if u = t then stateOf p else (s.heap u).state)
    (hdepends : ∀ u, (s'.heap u).dependTasks = (s.heap u).dependTasks)
    (hbehinds : ∀ u, (s'.heap u).behindTasks = (s.heap u).behindTasks)
    (hruns : ∀ u, s'.runs u = if u = t then runsOf p else s.runs u)
    (hthrown : s'.thrown = s.thrown) : Refines N s' (c.setPhase t p) := by
  have hphase : ∀ u, u ≠ t → (c.setPhase t p).phase u = c.phase u := by
    intro u hu
    simp [Config.setPhase, hu]
  have hphaseT : (c.setPhase t p).phase t = p := by simp [Config.setPhase]
  constructor
  · exact hsoup
  · intro u
    rw [hstate]
    by_cases hu : u = t
    · rw [if_pos hu, hu, hphaseT]
    · rw [if_neg hu, hphase u hu, hR.state]
  · intro u hretired
    rw [hdepends]
    by_cases hu : u = t
    · exact hR.depends u (hu ▸ hold)
    · exact hR.depends u (hphase u hu ▸ hretired)
  · intro u hretired
    rw [hbehinds]
    by_cases hu : u = t
    · exact hR.behinds u (hu ▸ hold)
    · exact hR.behinds u (hphase u hu ▸ hretired)
  · intro u hretired
    rw [hbehinds]
    by_cases hu : u = t
    · exact (hnew (hphaseT.symm.trans (hu ▸ hretired))).elim
    · exact hR.recycled u (hphase u hu ▸ hretired)
  · intro u
    rw [hruns]
    by_cases hu : u = t
    · rw [if_pos hu, hu, hphaseT]
    · rw [if_neg hu, hphase u hu, hR.runs]
  · exact fun k e hk ↦ hR.thrown k e (hthrown ▸ hk)

theorem stutter (hR : Refines N s c) (hsoup : s'.soup N = s.soup N)
    (hheap : s'.heap = s.heap) (hruns : ∀ u, s'.runs u = s.runs u)
    (hthrown : ∀ k e, s'.thrown = some (k, e) →
      s.thrown = some (k, e) ∨ e = .indexOutOfBounds) :
    Refines N s' c := by
  constructor
  · rw [hsoup]
    exact hR.soup
  · rw [hheap]
    exact hR.state
  · rw [hheap]
    exact hR.depends
  · rw [hheap]
    exact hR.behinds
  · rw [hheap]
    exact hR.recycled
  · intro u
    rw [hruns, hR.runs]
  · intro k e hk
    rcases hthrown k e hk with hk | hk
    · exact hR.thrown k e hk
    · exact hk

variable [Fintype τ] (A : Arena τ) {k : Thread} {rest : List (Frame τ)}

theorem step_run (hR : Refines N s c) (hstack : s.stack k = .run t :: rest) :
    ∃ c', Step N c c' ∧ Refines N (A.stepFrame s k (.run t) rest) c' := by
  obtain ⟨R, hold, hnew⟩ := State.exists_soup_rest N hstack
  have hsoup := hR.soup
  rw [hold, Frame.tokens_run, Frame.tokens_nil, Multiset.cons_add,
    zero_add] at hsoup
  have hphase : c.phase t = .queued := hsoup.phase_eq.1
  refine ⟨c.setPhase t .running, .begin c t hphase, ?_⟩
  refine hR.setPhase ?_ (by simp [hphase]) (by simp) ?_ ?_ ?_ ?_ ?_
  · have hsoup' := hsoup.replace (l := .running t) rfl
    have hstep := hnew (A.toRunning s t k) rfl rfl [.body t]
    rw [Frame.tokens_body, Frame.tokens_nil, Multiset.cons_add, zero_add] at hstep
    rw [Arena.stepFrame]
    exact hstep ▸ hsoup'
  · intro u
    simp [Arena.stepFrame, Arena.toRunning, State.emit, stateOf]
  · intro u
    simp [Arena.stepFrame, Arena.toRunning, State.emit]
  · intro u
    simp [Arena.stepFrame, Arena.toRunning, State.emit]
  · intro u
    have htrace : (A.stepFrame s k (.run t) rest).trace =
        s.trace ++ [.onRunning t k] := by
      simp [Arena.stepFrame, Arena.toRunning, State.emit, State.setState]
    rw [State.runs_of_trace_eq_concat htrace]
    by_cases hu : u = t
    · subst hu
      simp [hR.runs, hphase, runsOf, Event.runs]
    · simp [hu, Ne.symm hu, Event.runs]
  · simp [Arena.stepFrame, Arena.toRunning, State.emit, State.setState]

theorem step_body (hR : Refines N s c) (hstack : s.stack k = .body t :: rest) :
    ∃ c', Step N c c' ∧ Refines N (A.stepFrame s k (.body t) rest) c' := by
  obtain ⟨R, hold, hnew⟩ := State.exists_soup_rest N hstack
  have hsoup := hR.soup
  rw [hold, Frame.tokens_body, Frame.tokens_nil, Multiset.cons_add,
    zero_add] at hsoup
  have hphase : c.phase t = .running := hsoup.phase_eq.1
  refine ⟨c.setPhase t (.telling (N.feeds t)), .finish c t hphase, ?_⟩
  refine hR.setPhase ?_ (by simp [hphase]) (by simp) ?_ ?_ ?_ ?_ ?_
  · have hsoup' := hsoup.replace (l := .telling t (N.feeds t)) rfl
    have hstep := hnew (A.toFinish s t) rfl rfl [.notifyBehindTasks t]
    rw [Frame.tokens_notifyBehindTasks, Frame.tokens_nil, Multiset.cons_add,
      zero_add] at hstep
    rw [Arena.stepFrame]
    exact hstep ▸ hsoup'
  · intro u
    simp [Arena.stepFrame, Arena.toFinish, State.emit, stateOf]
  · intro u
    simp [Arena.stepFrame, Arena.toFinish, State.emit]
  · intro u
    simp [Arena.stepFrame, Arena.toFinish, State.emit]
  · intro u
    have htrace : (A.stepFrame s k (.body t) rest).trace =
        s.trace ++ [.onFinished t] := by
      simp [Arena.stepFrame, Arena.toFinish, State.emit, State.setState]
    rw [State.runs_of_trace_eq_concat htrace]
    by_cases hu : u = t
    · subst hu
      simp [hR.runs, hphase, runsOf, Event.runs]
    · simp [hu, Event.runs]
  · simp [Arena.stepFrame, Arena.toFinish, State.emit, State.setState]

theorem step_notifyBehindTasks (hR : Refines N s c)
    (hstack : s.stack k = .notifyBehindTasks t :: rest) :
    Refines N (A.stepFrame s k (.notifyBehindTasks t) rest) c := by
  obtain ⟨R, hold, hnew⟩ := State.exists_soup_rest N hstack
  have hsoup := hR.soup
  rw [hold, Frame.tokens_notifyBehindTasks, Frame.tokens_nil,
    Multiset.cons_add, zero_add] at hsoup
  have hphase : c.phase t = .telling (N.feeds t) := hsoup.phase_eq.1
  have hsort : ((s.sortTasks (s.heap t).behindTasks : List τ) : Multiset τ) =
      N.feeds t := by
    rw [← hR.behinds t (by simp [hphase])]
    exact Multiset.coe_eq_coe.mpr (s.sortTasks_perm _)
  have hstep := hnew (s.sortBehindTasks t) rfl rfl
    [.forBehindTask t (s.sortTasks (s.heap t).behindTasks)]
  rw [Frame.tokens_forBehindTask, Frame.tokens_nil, Multiset.cons_add,
    zero_add, hsort] at hstep
  rw [Arena.stepFrame]
  constructor
  · exact hstep ▸ hsoup
  · intro u
    simpa using hR.state u
  · intro u hu
    simpa using hR.depends u hu
  · intro u hu
    by_cases hut : u = t
    · subst hut
      simpa using hsort
    · simpa [hut] using hR.behinds u hu
  · intro u hu
    by_cases hut : u = t
    · subst hut
      simp [hphase] at hu
    · simpa [hut] using hR.recycled u hu
  · intro u
    simpa [State.runs, State.sortBehindTasks] using hR.runs u
  · intro k e hk
    exact hR.thrown k e (by simpa [State.sortBehindTasks] using hk)

theorem step_recycle (hR : Refines N s c)
    (hstack : s.stack k = .forBehindTask t [] :: rest) :
    ∃ c', Step N c c' ∧
      Refines N (A.stepFrame s k (.forBehindTask t []) rest) c' := by
  obtain ⟨R, hold, hnew⟩ := State.exists_soup_rest N hstack
  have hsoup := hR.soup
  rw [hold, Frame.tokens_forBehindTask, Frame.tokens_nil, Multiset.cons_add,
    zero_add] at hsoup
  have hphase : c.phase t = .telling 0 := hsoup.phase_eq.1
  have hstep := hnew (s.recycle t) rfl rfl []
  rw [Frame.tokens_nil, zero_add, List.nil_append] at hstep
  have hne : ∀ u, u ≠ t → (c.setPhase t .retired).phase u = c.phase u := by
    intro u hu
    simp [Config.setPhase, hu]
  refine ⟨c.setPhase t .retired, .retire c t hphase, ?_⟩
  rw [Arena.stepFrame]
  constructor
  · exact hstep ▸ hsoup.remove (p := .retired) rfl
  · intro u
    by_cases hu : u = t
    · subst hu
      simp [hR.state, hphase, Config.setPhase, stateOf]
    · simp [hne u hu, hR.state]
  · intro u hretired
    have hu : u ≠ t := by
      rintro rfl
      exact hretired (by simp [Config.setPhase])
    simpa [hu, Config.setPhase] using hR.depends u (hne u hu ▸ hretired)
  · intro u hretired
    have hu : u ≠ t := by
      rintro rfl
      exact hretired (by simp [Config.setPhase])
    simpa [hu] using hR.behinds u (hne u hu ▸ hretired)
  · intro u hretired
    by_cases hu : u = t
    · simp [hu]
    · simpa [hu] using hR.recycled u (hne u hu ▸ hretired)
  · intro u
    have hruns := hR.runs u
    by_cases hu : u = t
    · subst hu
      simpa [State.runs, State.recycle, Config.setPhase, hphase, runsOf]
        using hruns
    · rw [hne u hu, ← hruns]
      simp [State.runs, State.recycle]
  · intro k e hk
    exact hR.thrown k e (by simpa [State.recycle] using hk)

/-! ## Notifications -/

omit [Fintype τ] in
theorem network_edge (hR : Refines N s c) {h : Heap τ}
    (hbehinds : ∀ u, (h u).behindTasks = (s.heap u).behindTasks) {a b : τ}
    (hab : h.Edge a b) : N.Edge a b := by
  have hmem : b ∈ (s.heap a).behindTasks := hbehinds a ▸ hab
  by_cases ha : c.phase a = .retired
  · simp [hR.recycled a ha] at hmem
  · rw [Network.Edge, ← hR.behinds a ha]
    exact hmem

theorem hasBlockBehindTask_ne_none (hR : Refines N s c) {h : Heap τ}
    (hbehinds : ∀ u, (h u).behindTasks = (s.heap u).behindTasks)
    (ht : ReflTransGen N.Edge N.root t) (info : Registry τ) :
    A.hasBlockBehindTask h info (Fintype.card τ) t ≠ none := by
  refine A.hasBlockBehindTask_ne_none fun a ha hcycle ↦ ?_
  have hedge : ∀ x y, h.Edge x y → N.Edge x y :=
    fun x y hxy ↦ hR.network_edge hbehinds hxy
  exact N.acyclic a (ht.trans (ReflTransGen.mono hedge _ _ ha))
    (TransGen.mono hedge _ _ hcycle)

end Refines

/-- `s'` and the calls to come hold one more token than `s`, a queued `t`;
nothing else that the network can see has changed. -/
structure Enqueued (N : Network τ) (s s' : State τ) (t : τ)
    (calls : List (Frame τ)) : Prop where
  heap : s'.heap = s.heap
  main : s'.main = s.main
  workers : s'.workers = s.workers
  thrown : s'.thrown = s.thrown
  runs : ∀ u, s'.runs u = s.runs u
  tokens : s'.queueTokens + Frame.tokens N calls = .queued t ::ₘ s.queueTokens

namespace Arena

variable (A : Arena τ) (N : Network τ)

theorem enqueued_runOrWait {s : State τ} {t : τ} (hwait : t ∉ s.waitingTasks) :
    Enqueued N s (A.runOrWait s t).1 t (A.runOrWait s t).2 := by
  unfold runOrWait
  split
  · refine ⟨rfl, rfl, rfl, rfl, fun _ ↦ rfl, ?_⟩
    rw [Frame.tokens_run, Frame.tokens_nil, ← Multiset.singleton_add,
      ← Multiset.singleton_add]
    abel
  · simp only [State.addWaitingTask, hwait, if_false]
    refine ⟨rfl, rfl, rfl, rfl, ?_, ?_⟩
    · intro u
      simp [State.runs, State.emit, Event.runs]
    · simp only [State.queueTokens, State.emit, Frame.tokens_nil, add_zero,
        List.map_append, List.map_cons, List.map_nil, ← Multiset.coe_add,
        Multiset.coe_singleton, ← Multiset.singleton_add]
      abel

variable [Fintype τ]

/-- `executeTask` puts its task into exactly one of four places. -/
theorem executeTask_spec {s : State τ} {t : τ} (hwait : t ∉ s.waitingTasks)
    (hlook : A.hasBlockBehindTask s.heap s.taskRuntimeInfo (Fintype.card τ) t ≠
      none) :
    ∃ s' calls, A.executeTask s t = .ok (s', calls) ∧
      Enqueued N s s' t calls := by
  have hrun := A.enqueued_runOrWait N hwait
  unfold executeTask
  split
  · refine ⟨_, _, rfl, rfl, rfl, rfl, rfl, fun _ ↦ rfl, ?_⟩
    simp only [State.queueTokens, Frame.tokens_nil, add_zero,
      List.map_append, List.map_cons, List.map_nil, ← Multiset.coe_add,
      Multiset.coe_singleton, ← Multiset.singleton_add]
    abel
  · split
    · split
      · rename_i hnone
        exact (hlook hnone).elim
      · refine ⟨_, _, rfl, rfl, rfl, rfl, rfl, fun _ ↦ rfl, ?_⟩
        simp only [State.queueTokens, Frame.tokens_nil, add_zero,
          List.map_append, List.map_cons, List.map_nil, ← Multiset.coe_add,
          Multiset.coe_singleton, ← Multiset.singleton_add]
        abel
      · exact ⟨_, _, rfl, hrun⟩
    · exact ⟨_, _, rfl, hrun⟩

theorem taskStart_spec {s : State τ} {t : τ} (hidle : (s.heap t).state = .idle)
    (hwait : t ∉ s.waitingTasks)
    (hlook : ∀ info, A.hasBlockBehindTask (s.toStart t).heap info
      (Fintype.card τ) t ≠ none) :
    ∃ s' calls, A.taskStart s t = .ok (s', calls) ∧
      Enqueued N (s.toStart t) s' t calls := by
  unfold taskStart
  rw [if_neg (by simpa using hidle)]
  exact A.executeTask_spec N hwait (hlook _)

end Arena

namespace Refines

variable {N : Network τ} {s s' : State τ} {c : Config τ} {t b : τ}

theorem not_mem_waitingTasks (hR : Refines N s c) (hidle : c.phase t = .idle) :
    t ∉ s.waitingTasks := by
  intro hmem
  have hqueued : Token.queued t ∈ s.soup N := by
    refine Multiset.mem_add.mpr (Or.inl ?_)
    simp [State.queueTokens, hmem]
  have htokens := hR.soup.mem_tokens hqueued
  simp [Token.node, hidle, Phase.tokens] at htokens

/-- A notification that crosses `t` off the dependencies of the idle task `b`. -/
theorem tell {bs : Multiset τ} (hR : Refines N s c) (hidle : c.phase b = .idle)
    (hphase : c.phase t = .telling (b ::ₘ bs))
    (hsoup : Represents (s'.soup N) (c.tell t b bs).phase)
    (hstate : ∀ u, (s'.heap u).state =
      if u = b then stateOf ((c.tell t b bs).phase b) else (s.heap u).state)
    (hdepends : ∀ u, (s'.heap u).dependTasks =
      if u = b then (s.heap b).dependTasks.erase t
      else (s.heap u).dependTasks)
    (hbehinds : ∀ u, (s'.heap u).behindTasks = (s.heap u).behindTasks)
    (hruns : ∀ u, s'.runs u = s.runs u) (hthrown : s'.thrown = s.thrown) :
    Refines N s' (c.tell t b bs) := by
  have hne : t ≠ b := by
    rintro rfl
    simp [hidle] at hphase
  have hphaseT : (c.tell t b bs).phase t = .telling bs :=
    Config.tell_phase_sender hne
  have hphaseU : ∀ u, u ≠ t → u ≠ b → (c.tell t b bs).phase u = c.phase u :=
    fun u hut hub ↦ Config.tell_phase_of_ne hut hub
  have hphaseB : (c.tell t b bs).phase b = .queued ∨
      (c.tell t b bs).phase b = .idle := by
    simp only [Config.tell, Function.update_self]
    split <;> simp
  have hretired : ∀ u, (c.tell t b bs).phase u = .retired ↔
      c.phase u = .retired := by
    intro u
    by_cases hub : u = b
    · subst hub
      rcases hphaseB with hb | hb <;> simp [hb, hidle]
    · by_cases hut : u = t
      · subst hut
        simp [hphaseT, hphase]
      · rw [hphaseU u hut hub]
  constructor
  · exact hsoup
  · intro u
    rw [hstate]
    by_cases hub : u = b
    · rw [if_pos hub, hub]
    · rw [if_neg hub, hR.state]
      by_cases hut : u = t
      · subst hut
        simp [hphaseT, hphase, stateOf]
      · rw [hphaseU u hut hub]
  · intro u hu
    rw [hdepends]
    by_cases hub : u = b
    · subst hub
      have hold := hR.depends u (by simp [hidle])
      simp [Config.tell, ← hold]
    · rw [if_neg hub, hR.depends u (fun h ↦ hu ((hretired u).mpr h))]
      simp [Config.tell, hub]
  · intro u hu
    rw [hbehinds]
    exact hR.behinds u (fun h ↦ hu ((hretired u).mpr h))
  · intro u hu
    rw [hbehinds]
    exact hR.recycled u ((hretired u).mp hu)
  · intro u
    rw [hruns, hR.runs]
    by_cases hub : u = b
    · subst hub
      rcases hphaseB with hb | hb <;> simp [hb, hidle, runsOf]
    · by_cases hut : u = t
      · subst hut
        simp [hphaseT, hphase, runsOf]
      · rw [hphaseU u hut hub]
  · exact fun k e hk ↦ hR.thrown k e (hthrown ▸ hk)

variable {k : Thread} {rest : List (Frame τ)}

/-- The tokens around one notification: those of the rest of the machine, and the
one of `t` with one task less to notify. -/
theorem forBehindTask_soup {bs : List τ} (hR : Refines N s c)
    (hstack : s.stack k = .forBehindTask t (b :: bs) :: rest) :
    c.phase t = .telling (b ::ₘ (bs : Multiset τ)) ∧
    ∃ R, Represents (.telling t (bs : Multiset τ) ::ₘ (s.queueTokens + R))
        (Function.update c.phase t (.telling bs)) ∧
      ∀ s' : State τ, s'.main = s.main → s'.workers = s.workers → ∀ calls,
        (s'.setStack k (calls ++ .forBehindTask t bs :: rest)).soup N =
          .telling t (bs : Multiset τ) ::ₘ
            (s'.queueTokens + Frame.tokens N calls + R) := by
  obtain ⟨R, hold, hnew⟩ := State.exists_soup_rest N hstack
  have hsoup := hR.soup
  rw [hold, Frame.tokens_forBehindTask, Frame.tokens_nil, Multiset.cons_add,
    zero_add] at hsoup
  refine ⟨hsoup.phase_eq.1, R, hsoup.replace (l := .telling t bs) rfl, ?_⟩
  intro s' hmain hworkers calls
  have hstep := hnew s' hmain hworkers (calls ++ [.forBehindTask t bs])
  rw [Frame.tokens_append, Frame.tokens_forBehindTask, Frame.tokens_nil,
    List.append_assoc, List.singleton_append] at hstep
  rw [hstep, Multiset.cons_zero]
  simp only [← Multiset.singleton_add]
  abel

theorem step_forBehindTask_skip {bs : List τ} (hR : Refines N s c)
    (hstack : s.stack k = .forBehindTask t (b :: bs) :: rest) :
    Refines N (s.setStack k (.forBehindTask t bs :: rest))
      (c.setPhase t (.telling bs)) := by
  obtain ⟨hphase, R, htold, hnew⟩ := hR.forBehindTask_soup hstack
  have hsoup := hnew s rfl rfl []
  rw [Frame.tokens_nil, add_zero, List.nil_append] at hsoup
  refine hR.setPhase (hsoup ▸ htold) (by simp [hphase]) (by simp) ?_ ?_ ?_ ?_ ?_
  · intro u
    by_cases hu : u = t
    · subst hu
      simp [hR.state, hphase, stateOf]
    · simp [hu]
  · simp
  · simp
  · intro u
    by_cases hu : u = t
    · subst hu
      simpa [State.runs, hphase, runsOf] using hR.runs u
    · simp [State.runs, hu]
  · simp

theorem step_forBehindTask_cross {bs : List τ} (hR : Refines N s c)
    (hstack : s.stack k = .forBehindTask t (b :: bs) :: rest)
    (hidle : c.phase b = .idle) (hmore : (c.waits b).erase t ≠ 0) :
    Refines N ({ s with heap := s.heap.removeDepend b t }.setStack k
      (.forBehindTask t bs :: rest)) (c.tell t b bs) := by
  obtain ⟨hphase, R, htold, hnew⟩ := hR.forBehindTask_soup hstack
  have hne : b ≠ t := by
    rintro rfl
    simp [hidle] at hphase
  have hsoup := hnew { s with heap := s.heap.removeDepend b t } rfl rfl []
  rw [Frame.tokens_nil, add_zero, List.nil_append] at hsoup
  refine hR.tell hidle hphase ?_ ?_ ?_ ?_ ?_ ?_
  · have hsame : (c.tell t b bs).phase =
        Function.update c.phase t (.telling bs) := by
      funext u
      by_cases hu : u = b
      · subst hu
        simp [Config.tell, hmore, hne, hidle]
      · simp [Config.tell, hu]
    rw [hsame]
    exact hsoup ▸ htold
  · intro u
    by_cases hu : u = b
    · subst hu
      simp [Config.tell, hmore, hR.state, hidle]
    · simp [hu]
  · intro u
    simp
    split <;> simp_all
  · simp
  · intro u
    simp [State.runs]
  · simp

theorem step_forBehindTask_start {bs : List τ} {s' : State τ}
    {calls : List (Frame τ)} (hR : Refines N s c)
    (hstack : s.stack k = .forBehindTask t (b :: bs) :: rest)
    (hidle : c.phase b = .idle) (hlast : (c.waits b).erase t = 0)
    (henq : Enqueued N
      (State.toStart { s with heap := s.heap.removeDepend b t } b) s' b calls) :
    Refines N (s'.setStack k (calls ++ .forBehindTask t bs :: rest))
      (c.tell t b bs) := by
  obtain ⟨hphase, R, htold, hnew⟩ := hR.forBehindTask_soup hstack
  have hne : b ≠ t := by
    rintro rfl
    simp [hidle] at hphase
  have hgone : s'.queueTokens + Frame.tokens N calls =
      .queued b ::ₘ s.queueTokens := henq.tokens
  refine hR.tell hidle hphase ?_ ?_ ?_ ?_ ?_ ?_
  · have hadd := htold.add (k := .queued b)
      (by simp [Token.node, hne, hidle, Phase.tokens])
    rw [hnew s' henq.main henq.workers calls, hgone, Multiset.cons_add,
      Multiset.cons_swap]
    simpa [Config.tell, hlast, Token.node, Token.phase] using hadd
  · intro u
    simp [henq.heap, State.toStart, State.emit, Config.tell, hlast, stateOf]
  · intro u
    simp [henq.heap, State.toStart, State.emit]
    split <;> simp_all
  · intro u
    simp [henq.heap, State.toStart, State.emit]
  · intro u
    have hruns := henq.runs u
    simpa [State.runs, State.toStart, State.emit, State.setState, Event.runs]
      using hruns
  · simpa [State.toStart, State.emit, State.setState] using henq.thrown

variable [Fintype τ] (A : Arena τ)

theorem step_forBehindTask {bs : List τ} (hR : Refines N s c) (hinv : Inv N c)
    (hstack : s.stack k = .forBehindTask t (b :: bs) :: rest) :
    ∃ c', Step N c c' ∧
      Refines N (A.stepFrame s k (.forBehindTask t (b :: bs)) rest) c' := by
  obtain ⟨hphase, -⟩ := hR.forBehindTask_soup hstack
  obtain ⟨hreach, -, -, hidle⟩ := hinv.idle_of_telling hphase
  have hbehinds := hR.behinds b (by simp [hidle])
  rw [Arena.stepFrame, Arena.dependTaskFinished]
  by_cases hsink : (s.heap b).behindTasks = []
  · have hfeeds : N.feeds b = 0 := by rw [← hbehinds, hsink, Multiset.coe_nil]
    rw [if_pos hsink]
    exact ⟨_, .skip c t b bs hphase hfeeds, hR.step_forBehindTask_skip hstack⟩
  have hfeeds : N.feeds b ≠ 0 := by
    rw [← hbehinds]
    simpa using hsink
  have hdepends := hR.depends b (by simp [hidle])
  refine ⟨c.tell t b bs, .tell c t b bs hphase hfeeds hidle, ?_⟩
  rw [if_neg hsink]
  simp only [Heap.removeDepend_dependTasks, if_true]
  by_cases hlast : (s.heap b).dependTasks.erase t = []
  · have hzero : (c.waits b).erase t = 0 := by
      rw [← hdepends, Multiset.coe_erase, hlast, Multiset.coe_nil]
    have hbefore : ∀ u, ((State.toStart
        { s with heap := s.heap.removeDepend b t } b).heap u).behindTasks =
          (s.heap u).behindTasks := by
      intro u
      simp [State.toStart, State.emit]
    obtain ⟨s', calls, hstart, henq⟩ := A.taskStart_spec N
      (s := { s with heap := s.heap.removeDepend b t }) (t := b)
      (by simp [hR.state, hidle, stateOf]) (hR.not_mem_waitingTasks hidle)
      (hR.hasBlockBehindTask_ne_none A hbefore hreach)
    rw [if_pos hlast, hstart]
    exact hR.step_forBehindTask_start hstack hidle hzero henq
  · have hzero : (c.waits b).erase t ≠ 0 := by
      rw [← hdepends, Multiset.coe_erase]
      simpa using hlast
    rw [if_neg hlast]
    exact hR.step_forBehindTask_cross hstack hidle hzero

theorem step_waitLoop {f : Frame τ} (hR : Refines N s c)
    (hf : f.token N = none) (hstack : s.stack k = f :: rest) :
    Refines N (A.stepFrame s k f rest) c := by
  obtain ⟨R, hold, hnew⟩ := State.exists_soup_rest N hstack
  rw [Frame.tokens_of_token_eq_none N hf, Frame.tokens_nil, zero_add] at hold
  have hmove : ∀ new : List (Frame τ), Frame.tokens N new = 0 →
      Refines N (s.setStack k (new ++ rest)) c := by
    intro new htokens
    refine hR.stutter ?_ (by simp) (by simp [State.runs]) (by simp_all)
    rw [hnew s rfl rfl, htokens, zero_add, hold]
  cases f with
  | run t | body t | notifyBehindTasks t | forBehindTask t bs =>
      simp [Frame.token] at hf
  | outerWhile =>
      rw [Arena.stepFrame]
      split
      · exact hmove [.sleep] rfl
      · exact hmove [] rfl
  | sleep => exact hmove [.innerWhile] rfl
  | innerWhile =>
      rw [Arena.stepFrame]
      split
      · exact hmove [.runWaitingTasks, .innerWhile] rfl
      · exact hmove [.outerWhile] rfl
  | runWaitingTasks =>
      rw [Arena.stepFrame]
      split
      · refine hR.stutter ?_ (by simp) (by simp [State.runs]) (by simp_all)
        have hsort : ((s.sortTasks s.waitingTasks : List τ) : Multiset τ) =
            s.waitingTasks := Multiset.coe_eq_coe.mpr (s.sortTasks_perm _)
        have hstep := hnew { s with waitingTasks := s.sortTasks s.waitingTasks }
          rfl rfl [.runWaitingHead]
        rw [List.singleton_append] at hstep
        rw [hstep, hold, Frame.tokens_of_token_eq_none N rfl, Frame.tokens_nil,
          zero_add]
        simp only [State.queueTokens, List.map_append, ← Multiset.coe_add,
          ← Multiset.map_coe, hsort]
      · exact hmove [] rfl
  | runWaitingHead =>
      rw [Arena.stepFrame]
      split
      · split
        · exact hR.stutter rfl rfl (fun _ ↦ rfl) (by simp_all [State.throw])
        · rename_i head tail hwaiting
          refine hR.stutter ?_ (by simp [State.emit]) ?_ (by simp_all [State.emit])
          · have hstep := hnew
              (State.emit { s with waitingTasks := tail } (.runWaiting head))
              rfl rfl [.run head]
            rw [List.singleton_append] at hstep
            rw [hstep, hold, Frame.tokens_run, Frame.tokens_nil]
            simp only [State.queueTokens, State.emit, hwaiting, List.map_append,
              List.map_cons, ← Multiset.coe_add, ← Multiset.cons_coe,
              ← Multiset.singleton_add, add_zero]
            abel
          · intro u
            simp [State.runs, State.emit, Event.runs]
      · refine hR.stutter ?_ (by simp) ?_ (by simp_all)
        · have hstep := hnew
            { s with
              handler := s.handler ++ s.waitingTasks
              waitingTasks := []
              trace := s.trace ++ s.waitingTasks.map Event.postWaiting }
            rfl rfl []
          rw [List.nil_append] at hstep
          rw [hstep, hold, Frame.tokens_nil, zero_add]
          simp only [State.queueTokens, List.map_append, ← Multiset.coe_add,
            List.map_nil, Multiset.coe_nil, add_zero]
          abel
        · intro u
          have hnone : (s.waitingTasks.map Event.postWaiting).countP
              (Event.runs u) = 0 := by
            rw [List.countP_eq_zero]
            simp [Event.runs]
          simp [State.runs, List.countP_append, hnone]

omit [DecidableEq τ] [Fintype τ] in
theorem coe_eq_cons_eraseIdx {l : List τ} {i : ℕ} (hget : l[i]? = some t) :
    (l : Multiset τ) = t ::ₘ (l.eraseIdx i : Multiset τ) := by
  obtain ⟨hlt, rfl⟩ := List.getElem?_eq_some_iff.mp hget
  exact Multiset.coe_eq_coe.mpr (List.getElem_cons_eraseIdx_perm hlt).symm

/-- Every step of the machine is one step of the network or none. -/
theorem step {a : Action} (hR : Refines N s c) (hinv : Inv N c)
    (hstep : A.step s a = some s') :
    ∃ c', ReflGen (Step N) c c' ∧ Refines N s' c' := by
  obtain ⟨-, ⟨k, f, rest, rfl, hstack, rfl⟩ | ⟨i, t, rfl, hget, rfl⟩ |
    ⟨i, t, rfl, hmain, hget, rfl⟩⟩ := Arena.step_cases hstep
  · cases f with
    | run t =>
        obtain ⟨c', hc, hR'⟩ := hR.step_run A hstack
        exact ⟨c', .single hc, hR'⟩
    | body t =>
        obtain ⟨c', hc, hR'⟩ := hR.step_body A hstack
        exact ⟨c', .single hc, hR'⟩
    | notifyBehindTasks t =>
        exact ⟨c, .refl, hR.step_notifyBehindTasks A hstack⟩
    | forBehindTask t bs =>
        cases bs with
        | nil =>
            obtain ⟨c', hc, hR'⟩ := hR.step_recycle A hstack
            exact ⟨c', .single hc, hR'⟩
        | cons b bs =>
            obtain ⟨c', hc, hR'⟩ := hR.step_forBehindTask A hinv hstack
            exact ⟨c', .single hc, hR'⟩
    | outerWhile | sleep | innerWhile | runWaitingTasks | runWaitingHead =>
        exact ⟨c, .refl, hR.step_waitLoop A rfl hstack⟩
  · refine ⟨c, .refl, hR.stutter ?_ rfl (fun _ ↦ rfl) (by simp_all)⟩
    simp only [State.soup, State.queueTokens, State.frameTokens, State.frames,
      Frame.tokens_append, List.flatten_append, List.flatten_cons,
      List.flatten_nil, List.append_nil, Frame.tokens_run, Frame.tokens_nil,
      List.map_append, ← Multiset.coe_add, ← Multiset.map_coe,
      coe_eq_cons_eraseIdx hget, ← Multiset.singleton_add,
      Multiset.map_add, Multiset.map_singleton, add_zero]
    abel
  · refine ⟨c, .refl, hR.stutter ?_ rfl (fun _ ↦ rfl) (by simp_all)⟩
    simp only [State.soup, State.queueTokens, State.frameTokens, State.frames, hmain,
      Frame.tokens_append, Frame.tokens_run, Frame.tokens_nil,
      List.map_append, ← Multiset.coe_add, ← Multiset.map_coe,
      coe_eq_cons_eraseIdx hget, ← Multiset.singleton_add,
      Multiset.map_add, Multiset.map_singleton, add_zero]
    abel

end Refines

/-! ## Whole runs -/

namespace Arena

variable [Fintype τ] (A : Arena τ)

omit [Fintype τ] in
theorem refines_initial {h h' : Heap τ} (hh : Built A h) {ids : List String}
    {info : Registry τ} {root : τ} (hshape : h.SameShape h')
    (hacyclic : ∀ a, ReflTransGen h.Edge root a → ¬ TransGen h.Edge a a) :
    Refines (h.network hh root hacyclic)
      { heap := h', blockTaskId := ids, taskRuntimeInfo := info }
      (h.network hh root hacyclic).initial := by
  constructor
  · intro t
    rfl
  · intro t
    rw [(hshape t).1, hh.state_eq_idle]
    rfl
  · intro t _
    rw [(hshape t).2.1]
    rfl
  · intro t _
    rw [(hshape t).2.2]
    rfl
  · intro t ht
    simp [Network.initial] at ht
  · intro t
    rfl
  · intro k e hk
    simp at hk

/-- What `TaskFlowManager.start` has done when it reaches its wait loop. -/
theorem startFlow_cases {h : Heap τ} (hh : Built A h) {ids : List String}
    {info : Registry τ} {task : τ} {s₀ : State τ}
    (hstart : A.startFlow h ids info task = .ok s₀) :
    ∃ h' info' s' calls,
      A.traversalDependencyTreeAndInit h ids info (A.startOf task) =
        ((h', info'), none) ∧
      A.taskStart { heap := h', blockTaskId := ids, taskRuntimeInfo := info' }
        (A.startOf task) = .ok (s', calls) ∧
      s₀ = { s' with main := calls ++ [.outerWhile] } := by
  unfold startFlow at hstart
  split at hstart
  · simp at hstart
  · rename_i h' info' hinit
    obtain ⟨hshape, hacyclic⟩ := A.accepted_spec hinit
    have hR : Refines (h.network hh (A.startOf task) hacyclic)
        { heap := h', blockTaskId := ids, taskRuntimeInfo := info' } _ :=
      A.refines_initial hh hshape hacyclic
    obtain ⟨s', calls, hs', -⟩ := A.taskStart_spec
      (h.network hh (A.startOf task) hacyclic)
      (s := { heap := h', blockTaskId := ids, taskRuntimeInfo := info' })
      (t := A.startOf task) (hR.state _) (by simp)
      (hR.hasBlockBehindTask_ne_none A
        (by intro u; simp [State.toStart, State.emit]) .refl)
    simp only [hs'] at hstart
    exact ⟨h', info', s', calls, hinit, hs', (Except.ok.inj hstart).symm⟩

/-- The state in which `TaskFlowManager.start` reaches its wait loop is the
network with its root launched. -/
theorem refines_startFlow {h : Heap τ} (hh : Built A h) {ids : List String}
    {info : Registry τ} {task : τ} {s₀ : State τ}
    (hstart : A.startFlow h ids info task = .ok s₀) :
    ∃ (N : Network τ) (c : Config τ), N.root = A.startOf task ∧
      (∀ t, N.needs t = (h t).dependTasks) ∧
      (∀ t, N.feeds t = (h t).behindTasks) ∧
      c.phase N.root ≠ .idle ∧ Inv N c ∧ Refines N s₀ c := by
  obtain ⟨h', info', s', calls, hinit, hs', rfl⟩ := A.startFlow_cases hh hstart
  obtain ⟨hshape, hacyclic⟩ := A.accepted_spec hinit
  let N := h.network hh (A.startOf task) hacyclic
  have hR : Refines N
      { heap := h', blockTaskId := ids, taskRuntimeInfo := info' } N.initial :=
    A.refines_initial hh hshape hacyclic
  obtain ⟨s'', calls', hs'', henq⟩ := A.taskStart_spec N
    (s := { heap := h', blockTaskId := ids, taskRuntimeInfo := info' })
    (t := A.startOf task) (hR.state _) (by simp)
    (hR.hasBlockBehindTask_ne_none A
      (by intro u; simp [State.toStart, State.emit]) .refl)
  obtain ⟨rfl, rfl⟩ := Prod.mk.inj (Except.ok.inj (hs''.symm.trans hs'))
  refine ⟨N, N.initial.setPhase N.root .queued, rfl, fun _ ↦ rfl, fun _ ↦ rfl,
    by simp [Config.setPhase], (inv_initial N).step (.launch _ rfl), ?_⟩
  refine hR.setPhase ?_ (by simp [Network.initial]) (by simp) ?_ ?_ ?_ ?_ ?_
  · have hsoup : State.soup N { s'' with main := calls' ++ [.outerWhile] } =
        {.queued N.root} := by
      have hworkers : s''.workers = [] := henq.workers
      have htokens : s''.queueTokens + Frame.tokens N calls' =
          .queued (A.startOf task) ::ₘ 0 := henq.tokens
      have houter : Frame.tokens N [Frame.outerWhile] = 0 := rfl
      rw [State.soup, State.frameTokens, State.frames]
      simp only [hworkers, List.flatten_nil, List.append_nil,
        Frame.tokens_append, houter, add_zero]
      exact htokens
    rw [hsoup]
    exact (hR.soup.add (k := .queued N.root) rfl)
  · intro u
    simp only [henq.heap]
    exact State.setState_state _ _ _ _
  · intro u
    simp only [henq.heap]
    exact State.setState_dependTasks _ _ _ _
  · intro u
    simp only [henq.heap]
    exact State.setState_behindTasks _ _ _ _
  · intro u
    have hruns : s''.runs u = 0 := henq.runs u
    have hzero : State.runs { s'' with main := calls' ++ [.outerWhile] } u = 0 :=
      hruns
    rw [hzero]
    split <;> rfl
  · exact henq.thrown

end Arena

/-- The machine is in a state of the network whose root has been launched, and
the ledger of the network holds. -/
def Follows (N : Network τ) (s : State τ) : Prop :=
  ∃ c : Config τ, c.phase N.root ≠ .idle ∧ Inv N c ∧ Refines N s c

namespace Follows

variable [Fintype τ] {A : Arena τ} {N : Network τ} {s s' : State τ}

theorem step {a : Action} (h : Follows N s) (hstep : A.step s a = some s') :
    Follows N s' := by
  obtain ⟨c, hroot, hinv, hR⟩ := h
  obtain ⟨c', hc, hR'⟩ := hR.step A hinv hstep
  refine ⟨c', ?_, hinv.steps hc.to_reflTransGen, hR'⟩
  cases hc with
  | refl => exact hroot
  | single hc => exact hc.phase_ne_idle hroot

theorem exists_notice (h : Follows N s) {k : Thread} {t b : τ} {bs : List τ}
    {rest : List (Frame τ)}
    (hstack : s.stack k = .forBehindTask t (b :: bs) :: rest) :
    ∃ s' calls, Notice A s b t s' calls ∧
      A.stepFrame s k (.forBehindTask t (b :: bs)) rest =
        s'.setStack k ((calls ++ [.forBehindTask t bs]) ++ rest) := by
  obtain ⟨c, -, hinv, hR⟩ := h
  rcases Arena.stepFrame_notify A s t b k rest bs with ⟨e, hne, he⟩ | hnotice
  · obtain ⟨c', -, hR'⟩ := hR.step_forBehindTask A hinv hstack
    have herror := hR'.thrown k e (by rw [he]; rfl)
    exact (hne herror).elim
  · exact hnotice

omit [Fintype τ] in
theorem finished_of_notify (h : Follows N s) {k : Thread} {f : Frame τ}
    {rest : List (Frame τ)} {t : τ} (hstack : s.stack k = f :: rest)
    (hf : f = .notifyBehindTasks t ∨ ∃ bs, f = .forBehindTask t bs) :
    (s.heap t).state = .finished := by
  obtain ⟨c, -, -, hR⟩ := h
  have hmem := State.mem_frames_of_stack hstack
  rw [hR.state, stateOf_eq_finished_iff]
  rcases hf with rfl | ⟨bs, rfl⟩
  · have hphase : c.phase t = .telling (N.feeds t) :=
      hR.phase_of_mem_frames hmem rfl
    simp [hphase, Phase.Finished]
  · have hphase : c.phase t = .telling bs := hR.phase_of_mem_frames hmem rfl
    simp [hphase, Phase.Finished]

end Follows

namespace Arena

variable [Fintype τ] (A : Arena τ) {h : Heap τ} {ids : List String}
  {info : Registry τ} {task : τ} {s₀ s : State τ} {as : List Action}

/-- Every state of every run is a state of the network of the heap the run
began with. -/
theorem exists_network (hh : Built A h)
    (hstart : A.startFlow h ids info task = .ok s₀) :
    ∃ N : Network τ, N.root = A.startOf task ∧
      (∀ t, N.needs t = (h t).dependTasks) ∧
      (∀ t, N.feeds t = (h t).behindTasks) ∧
      ∀ as s, run A.step s₀ as = some s → Follows N s := by
  obtain ⟨N, c, hroot, hneeds, hfeeds, hlaunched, hinv, hR⟩ :=
    A.refines_startFlow hh hstart
  refine ⟨N, hroot, hneeds, hfeeds, fun as s hrun ↦ ?_⟩
  exact run_invariant' (fun u a v hu ↦ hu.step) ⟨c, hlaunched, hinv, hR⟩ hrun

end Arena

end HiApp.TaskFlow
