import HiApp.TaskFlow.Refinement

/-!
# What the listeners are told

The listeners of a task are told of its states as it comes to them.  Over a whole run the trace
of what they are told has every state of every task once and in its order, and puts the end of a
task before the start of those that depend on it.
-/

namespace HiApp.TaskFlow

open Relation Countdown Runs

variable {τ : Type*} [DecidableEq τ]

/-- The state of `t` that an event tells of. -/
def Event.tells (t : τ) : Event τ → Option TaskState
  | .onStart u => if u = t then some .start else none
  | .onRunning u _ => if u = t then some .running else none
  | .onFinished u => if u = t then some .finished else none
  | .addWaiting _ | .runWaiting _ | .postWaiting _ => none

/-- The states that a task has come to. -/
def TaskState.history : TaskState → List TaskState
  | .idle => []
  | .start => [.start]
  | .running => [.start, .running]
  | .finished => [.start, .running, .finished]

/-- `setThreadName`, for what an event tells. -/
def Arena.setThreadName (A : Arena τ) (info : Registry τ) : Event τ → Registry τ
  | .onRunning t k =>
      Function.update info (A.decl t).id
        ((info (A.decl t).id).map fun i ↦ { i with threadName := some k })
  | .onStart _ | .onFinished _ | .addWaiting _ | .runWaiting _ | .postWaiting _ => info

/-- What the listeners of `t` were told. -/
def State.told (s : State τ) (t : τ) : List TaskState := s.trace.filterMap (Event.tells t)

/-- What one step may add to the trace: nothing about any task, or the state that one task comes
to. -/
inductive Advance (s s' : State τ) : List (Event τ) → Prop
  | quiet {events : List (Event τ)} (hstate : ∀ u, (s'.heap u).state = (s.heap u).state)
      (hevents : ∀ e ∈ events, ∀ u, e.tells u = none) : Advance s s' events
  | moves {t : τ} {e : Event τ} {rest : List (Event τ)}
      (hhistory : (s'.heap t).state.history =
        (s.heap t).state.history ++ [(s'.heap t).state])
      (htells : ∀ u, e.tells u = if u = t then some (s'.heap t).state else none)
      (hstate : ∀ u, u ≠ t → (s'.heap u).state = (s.heap u).state)
      (hrest : ∀ e ∈ rest, ∀ u, e.tells u = none) : Advance s s' (e :: rest)

section

variable {A : Arena τ} {s s' : State τ} {events : List (Event τ)} {t : τ}

theorem filterMap_tells_eq_nil (h : ∀ e ∈ events, ∀ u, e.tells u = none) :
    events.filterMap (Event.tells t) = [] :=
  List.filterMap_eq_nil_iff.mpr fun e he ↦ h e he t

theorem Advance.told (h : Advance s s' events) (htrace : s'.trace = s.trace ++ events)
    (htold : ∀ u, s.told u = (s.heap u).state.history) (u : τ) :
    s'.told u = (s'.heap u).state.history := by
  have hconcat : s'.told u = (s.heap u).state.history ++ events.filterMap (Event.tells u) := by
    rw [← htold, State.told, htrace, List.filterMap_append]
    rfl
  rw [hconcat]
  cases h with
  | quiet hstate hevents => rw [filterMap_tells_eq_nil hevents, hstate, List.append_nil]
  | moves hhistory htells hstate hrest =>
      rename_i t e rest
      rw [List.filterMap_cons, htells, filterMap_tells_eq_nil hrest]
      by_cases hu : u = t
      · rw [if_pos hu, hu, hhistory]
      · rw [if_neg hu, hstate u hu, List.append_nil]

/-- Where a task has come to its first state it is the first that the step tells of. -/
theorem Advance.eq_cons_of_onStart (h : Advance s s' events) (hmem : .onStart t ∈ events) :
    (s'.heap t).state = .start ∧
      ∃ rest, events = .onStart t :: rest ∧ ∀ e ∈ rest, ∀ u, e.tells u = none := by
  have htells : (Event.onStart t).tells t = some .start := if_pos rfl
  cases h with
  | quiet hstate hevents => cases (hevents _ hmem t).symm.trans htells
  | moves hhistory htold hstate hrest =>
      rename_i u e rest
      rcases List.mem_cons.mp hmem with rfl | hmem
      · rw [htold] at htells
        obtain ⟨rfl, hstart⟩ := Option.ite_none_right_eq_some.mp htells
        exact ⟨Option.some.inj hstart, rest, rfl, hrest⟩
      · cases (hrest _ hmem t).symm.trans htells

theorem Advance.of_setState (t : τ) (state : TaskState) {e : Event τ}
    (hheap : ∀ u, (s'.heap u).state = if u = t then state else (s.heap u).state)
    (hhistory : state.history = (s.heap t).state.history ++ [state])
    (htells : ∀ u, e.tells u = if t = u then some state else none) :
    Advance s s' [e] := by
  refine .moves (t := t) ?_ ?_ ?_ (by simp)
  · rw [hheap, if_pos rfl, hhistory]
  · intro u
    rw [hheap, if_pos rfl, htells]
    exact if_congr eq_comm rfl rfl
  · intro u hu
    rw [hheap, if_neg hu]

theorem Advance.congr {s₁ : State τ} (h : Advance s s₁ events)
    (hstate : ∀ u, (s'.heap u).state = (s₁.heap u).state) : Advance s s' events := by
  cases h with
  | quiet hsame hevents => exact .quiet (fun u ↦ (hstate u).trans (hsame u)) hevents
  | moves hhistory htells hsame hrest =>
      refine .moves ?_ ?_ (fun u hu ↦ (hstate u).trans (hsame u hu)) hrest
      · rw [hstate, hhistory]
      · intro u
        rw [htells, hstate]

/-- The events are added to the trace, and the registry has the names of the threads. -/
def Adds (A : Arena τ) (s s' : State τ) (events : List (Event τ)) : Prop :=
  s'.trace = s.trace ++ events ∧
    s'.taskRuntimeInfo = events.foldl A.setThreadName s.taskRuntimeInfo

omit [DecidableEq τ] in
theorem adds_nil (htrace : s'.trace = s.trace) (hinfo : s'.taskRuntimeInfo = s.taskRuntimeInfo) :
    Adds A s s' [] :=
  ⟨by rw [htrace, List.append_nil], hinfo⟩

end

/-! ## One step -/

section

variable [Fintype τ] {A : Arena τ} {N : Network τ} {c : Config τ} {s s' : State τ} {t b : τ}
  {k : Thread} {calls : List (Frame τ)}

theorem Route.exists_adds (h : Route A s t s' calls) :
    ∃ events, Adds A s s' events ∧ ∀ e ∈ events, ∀ u, e.tells u = none := by
  cases h with
  | executor | handler | direct => exact ⟨[], ⟨by simp, rfl⟩, by simp⟩
  | waiting =>
      unfold State.addWaitingTask
      split
      · exact ⟨[], ⟨by simp, rfl⟩, by simp⟩
      · exact ⟨[.addWaiting t], ⟨rfl, rfl⟩, by simp [Event.tells]⟩

/-- A task is told of as started when its state was `IDLE`. -/
theorem Route.advance_toStart {s₀ : State τ} (h : Route A (s₀.toStart t) t s' calls)
    (hheap : ∀ u, (s₀.heap u).state = (s.heap u).state) (htrace : s₀.trace = s.trace)
    (hinfo : s₀.taskRuntimeInfo = s.taskRuntimeInfo) (hidle : (s.heap t).state = .idle) :
    ∃ events, Adds A s s' events ∧ Advance s s' events := by
  obtain ⟨events, ⟨hevents, hnames⟩, hnone⟩ := h.exists_adds
  have hstate : ∀ u, (s'.heap u).state = if u = t then .start else (s.heap u).state := by
    intro u
    rw [h.heap, State.toStart, State.emit, State.setState_state, hheap]
  refine ⟨.onStart t :: events, ⟨?_, ?_⟩, .moves (t := t) ?_ ?_ ?_ hnone⟩
  · rw [hevents, State.toStart, State.emit, ← htrace, List.append_assoc]
    rfl
  · rw [hnames, List.foldl_cons, ← hinfo]
    rfl
  · rw [hstate, if_pos rfl, hidle]
    rfl
  · intro u
    rw [hstate, if_pos rfl, Event.tells]
    exact if_congr eq_comm rfl rfl
  · intro u hu
    rw [hstate, if_neg hu]

theorem Notice.advance (h : Notice A s b t s' calls) :
    ∃ events, Adds A s s' events ∧ Advance s s' events := by
  cases h with
  | ignored hsink => exact ⟨[], ⟨by simp, rfl⟩, .quiet (fun _ ↦ rfl) (by simp)⟩
  | crossed hbehind hmore => exact ⟨[], ⟨by simp, rfl⟩, .quiet (by simp) (by simp)⟩
  | started hbehind hlast hidle hroute => exact hroute.advance_toStart (by simp) rfl rfl hidle

/-- What the steps of a thread add to the trace. -/
theorem Refines.advance_stepFrame (hR : Refines N s c) {f : Frame τ} {rest : List (Frame τ)}
    (hstack : s.stack k = f :: rest) :
    ∃ events, Adds A s (A.stepFrame s k f rest) events ∧
      Advance s (A.stepFrame s k f rest) events := by
  have hframe := State.mem_frames_of_stack hstack
  cases f with
  | run t =>
      have hphase : c.phase t = .queued := hR.phase_of_mem_frames hframe rfl
      refine ⟨[.onRunning t k], ⟨?_, ?_⟩, .of_setState t .running ?_ ?_ ?_⟩
      · simp [Arena.stepFrame, Arena.toRunning, State.emit, State.setState]
      · simp [Arena.stepFrame, Arena.toRunning, State.emit, Arena.setThreadName]
      · simp [Arena.stepFrame, Arena.toRunning, State.emit]
      · rw [hR.state, hphase]
        rfl
      · exact fun _ ↦ rfl
  | body t =>
      have hphase : c.phase t = .running := hR.phase_of_mem_frames hframe rfl
      refine ⟨[.onFinished t], ⟨?_, ?_⟩, .of_setState t .finished ?_ ?_ ?_⟩
      · simp [Arena.stepFrame, Arena.toFinish, State.emit, State.setState]
      · simp [Arena.stepFrame, Arena.toFinish, State.emit, State.setState, Arena.setThreadName]
      · simp [Arena.stepFrame, Arena.toFinish, State.emit]
      · rw [hR.state, hphase]
        rfl
      · exact fun _ ↦ rfl
  | notifyBehindTasks t =>
      refine ⟨[], adds_nil ?_ ?_, .quiet ?_ (by simp)⟩
      · simp [Arena.stepFrame, State.sortBehindTasks]
      · simp [Arena.stepFrame, State.sortBehindTasks]
      · simp [Arena.stepFrame]
  | forBehindTask t bs =>
      cases bs with
      | nil =>
          refine ⟨[], adds_nil ?_ ?_, .quiet ?_ (by simp)⟩
          · simp [Arena.stepFrame, State.recycle]
          · simp [Arena.stepFrame, State.recycle]
          · simp [Arena.stepFrame]
      | cons b bs =>
          rcases Arena.stepFrame_notify A s t b k rest bs with
            ⟨e, -, heq⟩ | ⟨s₁, calls, hnotice, heq⟩
          · rw [heq]
            exact ⟨[], adds_nil rfl rfl, .quiet (fun _ ↦ rfl) (by simp)⟩
          · rw [heq]
            obtain ⟨events, ⟨htrace, hnames⟩, hadvance⟩ := hnotice.advance
            refine ⟨events, ⟨?_, ?_⟩, hadvance.congr (by simp)⟩
            · rw [State.setStack_trace, htrace]
            · rw [State.setStack_taskRuntimeInfo, hnames]
  | outerWhile | sleep | innerWhile =>
      refine ⟨[], adds_nil ?_ ?_, .quiet ?_ (by simp)⟩
      · simp [Arena.stepFrame]
      · simp [Arena.stepFrame]
      · simp [Arena.stepFrame]
  | runWaitingTasks =>
      rw [Arena.stepFrame]
      split
      · exact ⟨[], adds_nil (by simp) (by simp), .quiet (by simp) (by simp)⟩
      · exact ⟨[], adds_nil (by simp) (by simp), .quiet (by simp) (by simp)⟩
  | runWaitingHead =>
      rw [Arena.stepFrame]
      split
      · split
        · exact ⟨[], adds_nil rfl rfl, .quiet (fun _ ↦ rfl) (by simp)⟩
        · rename_i head tail hwaiting
          refine ⟨[.runWaiting head], ⟨?_, ?_⟩, .quiet ?_ ?_⟩
          · simp [State.emit]
          · simp [State.emit, Arena.setThreadName]
          · simp [State.emit]
          · simp [Event.tells]
      · have hfold : (s.waitingTasks.map .postWaiting).foldl A.setThreadName s.taskRuntimeInfo =
            s.taskRuntimeInfo := by
          rw [List.foldl_map]
          exact List.foldl_fixed' (fun _ ↦ rfl) _
        refine ⟨s.waitingTasks.map .postWaiting, ⟨by simp, ?_⟩, .quiet (by simp) ?_⟩
        · rw [hfold]
          simp
        · intro e he u
          obtain ⟨v, -, rfl⟩ := List.mem_map.mp he
          rfl

theorem Refines.advance {a : Action} (hR : Refines N s c) (hstep : A.step s a = some s') :
    ∃ events, Adds A s s' events ∧ Advance s s' events := by
  obtain ⟨-, ⟨k, f, rest, rfl, hstack, rfl⟩ | ⟨i, t, rfl, hget, rfl⟩ |
    ⟨i, t, rfl, hmain, hget, rfl⟩⟩ := Arena.step_cases hstep
  · exact hR.advance_stepFrame hstack
  · exact ⟨[], adds_nil rfl rfl, .quiet (fun _ ↦ rfl) (by simp)⟩
  · exact ⟨[], adds_nil rfl rfl, .quiet (fun _ ↦ rfl) (by simp)⟩

end

/-! ## Runs -/

section

variable {A : Arena τ} {events : List (Event τ)} {t : τ} {k : Thread}

omit [DecidableEq τ] in
/-- A thread's name stays, or gives way to that of another. -/
theorem threadName_setThreadName {info : Registry τ} {e : Event τ} {id : String}
    (h : ∀ i, info id = some i → i.threadName ≠ none) :
    ∀ i, A.setThreadName info e id = some i → i.threadName ≠ none := by
  cases e with
  | onRunning u k =>
      intro i hi
      rw [Arena.setThreadName, Function.update_apply] at hi
      split at hi
      · obtain ⟨_, -, rfl⟩ := Option.map_eq_some_iff.mp hi
        simp
      · exact h i hi
  | onStart u | onFinished u | addWaiting u | runWaiting u | postWaiting u => exact h

omit [DecidableEq τ] in
theorem threadName_of_mem (info : Registry τ) (hmem : .onRunning t k ∈ events) :
    ∀ i, events.foldl A.setThreadName info (A.decl t).id = some i → i.threadName ≠ none := by
  induction events using List.reverseRecOn with
  | nil => cases hmem
  | append_singleton events e ih =>
      rw [List.foldl_append]
      rcases List.mem_append.mp hmem with hmem | hmem
      · exact threadName_setThreadName (ih hmem)
      · obtain rfl := List.mem_singleton.mp hmem
        intro i hi
        rw [List.foldl_cons, List.foldl_nil, Arena.setThreadName, Function.update_self] at hi
        obtain ⟨_, -, rfl⟩ := Option.map_eq_some_iff.mp hi
        simp

end

/-- The tasks that a task depends on are told of as finished before it is as started. -/
def Ordered (root : τ) (needs : τ → List τ) (trace : List (Event τ)) : Prop :=
  ∀ t front rest, trace = front ++ .onStart t :: rest →
    t = root ∨ ∀ d ∈ needs t, .onFinished d ∈ front

section

variable {root : τ} {needs : τ → List τ} {s s' : State τ} {events : List (Event τ)} {t : τ}

theorem onFinished_mem_of_told (h : .finished ∈ s.told t) : .onFinished t ∈ s.trace := by
  obtain ⟨e, he, htells⟩ := List.mem_filterMap.mp h
  cases e with
  | onFinished u =>
      obtain ⟨rfl, -⟩ := Option.ite_none_right_eq_some.mp htells
      exact he
  | onStart u | onRunning u k =>
      obtain ⟨-, heq⟩ := Option.ite_none_right_eq_some.mp htells
      cases heq
  | addWaiting u | runWaiting u | postWaiting u => cases htells

theorem exists_onRunning_of_told (h : .running ∈ s.told t) : ∃ k, .onRunning t k ∈ s.trace := by
  obtain ⟨e, he, htells⟩ := List.mem_filterMap.mp h
  cases e with
  | onRunning u k =>
      obtain ⟨rfl, -⟩ := Option.ite_none_right_eq_some.mp htells
      exact ⟨k, he⟩
  | onStart u | onFinished u =>
      obtain ⟨-, heq⟩ := Option.ite_none_right_eq_some.mp htells
      cases heq
  | addWaiting u | runWaiting u | postWaiting u => cases htells

/-- A task is told of as started in one step with its dependencies being finished before. -/
theorem Advance.finished_mem (hadvance : Advance s s' events)
    (htrace : s'.trace = s.trace ++ events) (hmem : .onStart t ∈ events)
    (htold : ∀ u, s'.told u = (s'.heap u).state.history)
    (hfinished : ∀ u, (s'.heap u).state ≠ .idle →
      u = root ∨ ∀ d ∈ needs u, (s'.heap d).state = .finished) :
    t = root ∨ ∀ d ∈ needs t, .onFinished d ∈ s.trace := by
  obtain ⟨hstart, rest, rfl, hrest⟩ := hadvance.eq_cons_of_onStart hmem
  refine (hfinished t (by simp [hstart])).imp_right fun hneeds d hd ↦ ?_
  have hdone : .onFinished d ∈ s'.trace := by
    apply onFinished_mem_of_told
    rw [htold, hneeds d hd]
    simp [TaskState.history]
  rw [htrace] at hdone
  rcases List.mem_append.mp hdone with hdone | hdone
  · exact hdone
  rcases List.mem_cons.mp hdone with heq | hdone
  · cases heq
  · have hnone := hrest _ hdone d
    simp [Event.tells] at hnone

theorem Ordered.advance (h : Ordered root needs s.trace) (hadvance : Advance s s' events)
    (htrace : s'.trace = s.trace ++ events) (htold : ∀ u, s'.told u = (s'.heap u).state.history)
    (hfinished : ∀ u, (s'.heap u).state ≠ .idle →
      u = root ∨ ∀ d ∈ needs u, (s'.heap d).state = .finished) :
    Ordered root needs s'.trace := by
  intro t front rest hsplit
  rw [htrace] at hsplit
  rcases List.append_eq_append_iff.mp hsplit with ⟨more, rfl, rfl⟩ | ⟨more, hfront, hmore⟩
  · refine (hadvance.finished_mem htrace (by simp) htold hfinished).imp_right fun hdone d hd ↦ ?_
    exact List.mem_append_left more (hdone d hd)
  · cases more with
    | nil =>
        obtain rfl := hmore
        rw [List.append_nil] at hfront
        rw [← hfront]
        exact hadvance.finished_mem htrace (by simp) htold hfinished
    | cons e more =>
        obtain ⟨rfl, -⟩ := List.cons.inj hmore
        exact h t front more hfront

end

/-- What holds of the trace in every state of a run that began with the registry `info`. -/
structure Listened (A : Arena τ) (root : τ) (needs : τ → List τ) (info : Registry τ)
    (s : State τ) : Prop where
  told : ∀ t, s.told t = (s.heap t).state.history
  names : s.taskRuntimeInfo = s.trace.foldl A.setThreadName info
  ordered : Ordered root needs s.trace

theorem Listened.advance {A : Arena τ} {root : τ} {needs : τ → List τ} {info : Registry τ}
    {s s' : State τ} {events : List (Event τ)} (h : Listened A root needs info s)
    (hadds : Adds A s s' events) (hadvance : Advance s s' events)
    (hfinished : ∀ u, (s'.heap u).state ≠ .idle →
      u = root ∨ ∀ d ∈ needs u, (s'.heap d).state = .finished) :
    Listened A root needs info s' := by
  have htold := hadvance.told hadds.1 h.told
  refine ⟨htold, ?_, h.ordered.advance hadvance hadds.1 htold hfinished⟩
  rw [hadds.2, hadds.1, List.foldl_append, h.names]

/-- A task that has left `IDLE` has its dependencies behind it. -/
theorem Follows.finished_of_ne_idle {N : Network τ} {s : State τ} (h : Follows N s) {t : τ}
    (ht : (s.heap t).state ≠ .idle) :
    t = N.root ∨ ∀ d ∈ N.needs t, (s.heap d).state = .finished := by
  obtain ⟨c, -, hinv, hR⟩ := h
  rw [or_iff_not_imp_left]
  intro hroot d hd
  rw [hR.state, stateOf_eq_finished_iff]
  rw [hR.state, Ne, stateOf_eq_idle_iff] at ht
  exact hinv.finished_of_mem_needs hroot ht hd

section

variable [Fintype τ] (A : Arena τ) {h : Heap τ} {ids : List String} {info : Registry τ}
  {task : τ} {s₀ s : State τ} {as : List Action}

theorem exists_listened (hh : Built A h) (hstart : A.startFlow h ids info task = .ok s₀)
    (hrun : run A.step s₀ as = some s) :
    ∃ info', Listened A (A.startOf task) (fun t ↦ (h t).dependTasks) info' s := by
  obtain ⟨N, hroot, hneeds, -, hfollows⟩ := A.exists_network hh hstart
  have hfinished : ∀ as s, run A.step s₀ as = some s → ∀ u, (s.heap u).state ≠ .idle →
      u = A.startOf task ∨ ∀ d ∈ (h u).dependTasks, (s.heap d).state = .finished := by
    intro as s hrun u hu
    refine ((hfollows as s hrun).finished_of_ne_idle hu).imp hroot.subst fun hdone d hd ↦ ?_
    apply hdone
    rwa [hneeds, Multiset.mem_coe]
  obtain ⟨h', info', s', calls, hinit, hs', rfl⟩ := A.startFlow_cases hh hstart
  obtain ⟨hshape, -⟩ := A.accepted_spec hinit
  obtain ⟨hidle, hroute⟩ := Arena.route_of_taskStart hs'
  refine ⟨info', ?_⟩
  induction as using List.reverseRecOn generalizing s with
  | nil =>
      obtain rfl := Option.some.inj hrun
      obtain ⟨events, hadds, hadvance⟩ := hroute.advance_toStart
        (s := { heap := h', blockTaskId := ids, taskRuntimeInfo := info' })
        (fun _ ↦ rfl) rfl rfl hidle
      have hnew : Listened A (A.startOf task) (fun t ↦ (h t).dependTasks) info'
          { heap := h', blockTaskId := ids, taskRuntimeInfo := info' } := by
        refine ⟨fun t ↦ ?_, rfl, fun t front rest hsplit ↦ by simp at hsplit⟩
        rw [(hshape t).1, hh.state_eq_idle]
        rfl
      exact hnew.advance hadds (hadvance.congr fun _ ↦ rfl) (hfinished [] _ rfl)
  | append_singleton as a ih =>
      obtain ⟨u, hu, hstep⟩ := run_concat_eq_some_iff.mp hrun
      obtain ⟨c, -, -, hR⟩ := hfollows as u hu
      obtain ⟨events, hadds, hadvance⟩ := hR.advance hstep
      exact (ih hu).advance hadds hadvance (hfinished _ _ hrun)

/-- In every run the listeners of each task are told of just the states it has come to, each of
them once and in their order; a task is told of as started only after all that it depended on at
the beginning were told of as finished; and the name of a thread is known of every task that is
finished. -/
theorem listeners_told (hh : Built A h) (hstart : A.startFlow h ids info task = .ok s₀)
    (hrun : run A.step s₀ as = some s) :
    (∀ t, s.told t = (s.heap t).state.history) ∧
    (∀ t front rest, s.trace = front ++ .onStart t :: rest →
      t = A.startOf task ∨ ∀ d ∈ (h t).dependTasks, .onFinished d ∈ front) ∧
    ∀ t i, (s.heap t).state = .finished → s.taskRuntimeInfo (A.decl t).id = some i →
      i.threadName ≠ none := by
  obtain ⟨info', htold, hnames, hordered⟩ := exists_listened A hh hstart hrun
  refine ⟨htold, hordered, fun t i hfinished hi ↦ ?_⟩
  have hran : .running ∈ s.told t := by
    rw [htold, hfinished]
    simp [TaskState.history]
  obtain ⟨k, hmem⟩ := exists_onRunning_of_told hran
  rw [hnames] at hi
  exact threadName_of_mem info' hmem i hi

end

/-- Three tasks in a row, of which the one in the middle runs on a thread of the executor. -/
def asyncTasks : Arena (Fin 3) :=
  .plain (fun t ↦ if t = 0 then "a" else if t = 1 then "b" else "c") fun t ↦ t = 1

def listenedChain : Heap (Fin 3) :=
  [Call.behind 0 1, .behind 1 2].foldl asyncTasks.perform (Heap.fresh fun _ ↦ 0)

def asyncRun : List Action :=
  List.replicate 4 (.thread .main) ++ [.takeJob 0, .thread (.hiExecutor 0)]

theorem listeners_told_async :
    ∃ s₀ s, asyncTasks.startFlow listenedChain [] (fun _ ↦ none) 0 = .ok s₀ ∧
      run asyncTasks.step s₀ asyncRun = some s ∧
      (∀ t, s.told t = (s.heap t).state.history) ∧
      s.told 0 = [.start, .running, .finished] ∧
      s.trace = [.onStart 0, .onRunning 0 .main, .onFinished 0, .onStart 1,
        .onRunning 1 (.hiExecutor 0)] ∧
      (∀ d ∈ (listenedChain 1).dependTasks,
        .onFinished d ∈ [Event.onStart 0, .onRunning 0 .main, .onFinished 0]) ∧
      ∀ i, s.taskRuntimeInfo "a" = some i → i.threadName ≠ none := by
  obtain ⟨s₀, s, hstart, hrun, htrace, hstate⟩ :
      ∃ s₀ s, asyncTasks.startFlow listenedChain [] (fun _ ↦ none) 0 = .ok s₀ ∧
        run asyncTasks.step s₀ asyncRun = some s ∧
        s.trace = [.onStart 0, .onRunning 0 .main, .onFinished 0] ++
          .onStart 1 :: [.onRunning 1 (.hiExecutor 0)] ∧
        (s.heap 0).state = .finished := ⟨_, _, rfl, rfl, rfl, rfl⟩
  obtain ⟨htold, hordered, hnames⟩ := listeners_told asyncTasks
    (built_foldl asyncTasks (.fresh _) _) hstart hrun
  refine ⟨s₀, s, hstart, hrun, htold, ?_, htrace, ?_, fun i hi ↦ hnames 0 i hstate hi⟩
  · rw [htold, hstate]
    rfl
  · exact (hordered 1 _ _ htrace).resolve_left (by decide)

end HiApp.TaskFlow
