import HiApp.TaskFlow.Refinement

/-!
# Dependencies and starts

What the countdown network says about the task flow: a task enters `RUNNING`
at most once and only after everything it depended on, and which of the tasks
whose dependencies have all reported are started.
-/

namespace HiApp.TaskFlow

open Relation Countdown Runs

variable {τ : Type*} [DecidableEq τ]

/-! ## Entering `RUNNING` -/

/-- The only step on which a task is counted as run is the one that takes it
off a queue. -/
theorem queued_of_runsOf_lt {N : Network τ} {c c' : Config τ} {t : τ}
    (hstep : Step N c c')
    (hlt : runsOf (c.phase t) < runsOf (c'.phase t)) :
    c.phase t = .queued := by
  have hset : ∀ (a : τ) (p : Phase τ), runsOf p ≤ runsOf (c.phase a) →
      ¬ runsOf (c.phase t) < runsOf ((c.setPhase a p).phase t) := by
    intro a p hle
    by_cases hta : t = a
    · subst hta
      simpa [Config.setPhase] using hle
    · simp [Config.setPhase, hta]
  cases hstep with
  | begin a ha =>
      by_cases hta : t = a
      · exact hta ▸ ha
      · simp [Config.setPhase, hta] at hlt
  | launch hroot => exact (hset _ _ (by simp [runsOf]) hlt).elim
  | finish a ha | skip a b rest ha hb | retire a ha =>
      exact (hset _ _ (by simp [ha, runsOf]) hlt).elim
  | tell a b rest ha hb hidle =>
      by_cases htb : t = b
      · subst htb
        have hzero : runsOf ((c.tell a t rest).phase t) = 0 := by
          simp only [Config.tell, Function.update_self]
          split <;> rfl
        omega
      · have hsame : (c.tell a b rest).phase t =
            (c.setPhase a (.telling rest)).phase t := by
          simp [Config.tell, Config.setPhase, htb]
        rw [hsame] at hlt
        exact (hset _ _ (by simp [ha, runsOf]) hlt).elim

section

variable [Fintype τ] (A : Arena τ) {h : Heap τ} {ids : List String}
  {info : Registry τ} {task : τ} {s₀ s : State τ} {as : List Action}

/-- In every run, whatever the order of jobs, messages and thread steps: a
task other than the start task enters `RUNNING` only when all the tasks it
depended on at the beginning are finished, no task enters `RUNNING` twice, and
`Task.start` never throws. -/
theorem enters_running_once_after_dependencies (hh : Built A h)
    (hstart : A.startFlow h ids info task = .ok s₀)
    (hrun : run A.step s₀ as = some s) :
    (∀ a s', A.step s a = some s' → ∀ t, s.runs t < s'.runs t →
      t = A.startOf task ∨
        ∀ d ∈ (h t).dependTasks, (s.heap d).state = .finished) ∧
    (∀ t, s.runs t ≤ 1) ∧
    ∀ k id, s.thrown ≠ some (k, .again id) := by
  obtain ⟨N, hroot, hneeds, -, hfollows⟩ := A.exists_network hh hstart
  obtain ⟨c, -, hinv, hR⟩ := hfollows as s hrun
  refine ⟨?_, ?_, ?_⟩
  · intro a s' hstep t hlt
    obtain ⟨c', hc, hR'⟩ := hR.step A hinv hstep
    rw [hR.runs, hR'.runs] at hlt
    cases hc with
    | refl => exact (lt_irrefl _ hlt).elim
    | single hc =>
        have hqueued := queued_of_runsOf_lt hc hlt
        rcases eq_or_ne t (A.startOf task) with htask | htask
        · exact .inl htask
        · right
          intro d hd
          rw [hR.state, stateOf_eq_finished_iff]
          apply hinv.finished_of_mem_needs (b := t)
          · rwa [hroot]
          · simp [hqueued]
          · rwa [hneeds, Multiset.mem_coe]
  · intro t
    rw [hR.runs]
    cases c.phase t <;> simp [runsOf]
  · intro k id hthrown
    have herror := hR.thrown k _ hthrown
    simp at herror

end

def threeTasks : Arena (Fin 3) :=
  .plain fun t ↦ if t = 0 then "a" else if t = 1 then "b" else "c"

def chain : Heap (Fin 3) :=
  [Call.behind 0 1, .behind 1 2].foldl threeTasks.perform (Heap.fresh fun _ ↦ 0)

theorem built_chain : Built threeTasks chain :=
  built_foldl threeTasks (.fresh _) _

/-- `b` enters `RUNNING` on the fifth step of the main thread, after `a`. -/
theorem enters_running_once_after_dependencies_chain :
    ∃ s₀ s s', threeTasks.startFlow chain [] (fun _ ↦ none) 0 = .ok s₀ ∧
      run threeTasks.step s₀ (List.replicate 4 (.thread .main)) = some s ∧
      threeTasks.step s (.thread .main) = some s' ∧
      s.runs 1 < s'.runs 1 ∧ (1 = threeTasks.startOf 0 ∨
        ∀ d ∈ (chain 1).dependTasks, (s.heap d).state = .finished) := by
  refine ⟨_, _, _, rfl, rfl, rfl, by decide, ?_⟩
  exact (@enters_running_once_after_dependencies (Fin 3) _ _ threeTasks chain []
    (fun _ ↦ none) 0 _ _ (List.replicate 4 (.thread .main)) built_chain rfl
    rfl).1 (.thread .main) _ rfl 1 (by decide)

/-! ## Leaving `IDLE` -/

/-- The frame has notifications of `d` still to send. -/
def Frame.notifies (d : τ) : Frame τ → Bool
  | .notifyBehindTasks t => decide (t = d)
  | .forBehindTask t (_ :: _) => decide (t = d)
  | _ => false

/-- `d` is finished and the loop of its `notifyBehindTasks` is done. -/
def State.Notified (s : State τ) (d : τ) : Prop :=
  (s.heap d).state = .finished ∧ ∀ f ∈ s.frames, f.notifies d = false

instance (s : State τ) (d : τ) : Decidable (s.Notified d) :=
  inferInstanceAs (Decidable (_ ∧ _))

theorem Refines.told_of_notified {N : Network τ} {s : State τ} {c : Config τ}
    {d : τ} (hR : Refines N s c) (hd : s.Notified d) : (c.phase d).Told := by
  obtain ⟨hfinished, hframes⟩ := hd
  rw [hR.state, stateOf_eq_finished_iff] at hfinished
  cases hphase : c.phase d with
  | idle | queued | running => simp [hphase, Phase.Finished] at hfinished
  | retired => trivial
  | telling rest =>
      -- the token of `d` is in a frame, and the frame has nothing to send
      have htoken : Token.telling d rest ∈ s.soup N := by
        have htokens : Token.telling d rest ∈ (c.phase d).tokens d := by
          simp [hphase, Phase.tokens]
        rw [← hR.soup d, Multiset.mem_filter] at htokens
        exact htokens.1
      rw [State.soup, Multiset.mem_add] at htoken
      rcases htoken with hqueue | hframe
      · simp [State.queueTokens] at hqueue
      · obtain ⟨f, hf, hfd⟩ := List.mem_filterMap.mp (Multiset.mem_coe.mp hframe)
        have hnone := hframes f hf
        cases f with
        | notifyBehindTasks t =>
            simp_all [Frame.token, Frame.notifies]
        | forBehindTask t bs =>
            cases bs with
            | nil =>
                simp only [Frame.token, Option.some.injEq, Token.telling.injEq] at hfd
                exact hfd.2.symm
            | cons b bs => simp_all [Frame.token, Frame.notifies]
        | _ => simp [Frame.token] at hfd

section

variable [Fintype τ] (A : Arena τ) {h : Heap τ} {ids : List String}
  {info : Registry τ} {task : τ} {s₀ s : State τ} {as : List Action}

/-- In every state of every run, a reachable task whose dependencies have all
sent their notifications has been started exactly when it is the start task,
or it has a successor of its own and every task records it as a successor as
often as it records that task as a dependency. -/
theorem started_iff_of_dependencies_notified (hh : Built A h)
    (hstart : A.startFlow h ids info task = .ok s₀)
    (hrun : run A.step s₀ as = some s) {t : τ}
    (hreach : ReflTransGen h.Edge (A.startOf task) t)
    (hdeps : ∀ d ∈ (h t).dependTasks, s.Notified d) :
    (s.heap t).state ≠ .idle ↔ t = A.startOf task ∨
      (h t).behindTasks ≠ [] ∧ ∀ d, h.behinds d t = h.depends d t := by
  obtain ⟨N, hroot, hneeds, hfeeds, hfollows⟩ := A.exists_network hh hstart
  obtain ⟨c, hlaunched, hinv, hR⟩ := hfollows as s hrun
  rw [Ne, hR.state, stateOf_eq_idle_iff]
  rcases eq_or_ne t (A.startOf task) with htask | htask
  · rw [htask, ← hroot]
    exact iff_of_true hlaunched (.inl rfl)
  · have hedges : N.Edge = h.Edge := by
      funext a b
      simp [Network.Edge, Heap.Edge, hfeeds]
    have hreach' : ReflTransGen N.Edge N.root t := by
      rwa [hedges, hroot]
    have hne : t ≠ N.root := by rwa [hroot]
    have htold : ∀ d ∈ N.needs t, (c.phase d).Told := by
      intro d hd
      rw [hneeds, Multiset.mem_coe] at hd
      exact hR.told_of_notified (hdeps d hd)
    have hiff := hinv.phase_ne_idle_iff hne (N.needs_ne_zero hreach' hne) htold
    simpa [hfeeds, hneeds, htask, Heap.behinds, Heap.depends] using hiff

end

/-- After four steps of the main thread `a` has notified `b`, which has a
successor and is started. -/
theorem started_iff_of_dependencies_notified_chain :
    ∃ s₀ s, threeTasks.startFlow chain [] (fun _ ↦ none) 0 = .ok s₀ ∧
      run threeTasks.step s₀ (List.replicate 4 (.thread .main)) = some s ∧
      ((s.heap 1).state ≠ .idle ↔ 1 = threeTasks.startOf 0 ∨
        (chain 1).behindTasks ≠ [] ∧
          ∀ d, chain.behinds d 1 = chain.depends d 1) := by
  refine ⟨_, _, rfl, rfl, ?_⟩
  exact @started_iff_of_dependencies_notified (Fin 3) _ _ threeTasks chain []
    (fun _ ↦ none) 0 _ _ (List.replicate 4 (.thread .main)) built_chain rfl rfl 1
    (.single (by decide : (1 : Fin 3) ∈ (chain 0).behindTasks)) (by decide)

def pair : Heap (Fin 2) :=
  twoTasks.perform (Heap.fresh fun _ ↦ 0) (.behind 0 1)

/-- `b` is reachable from `a`, which has no dependencies, and has no successor
of its own: `a` runs and notifies `b`, the main thread leaves `start`, and `b`
is still idle. -/
theorem sink_not_started :
    Built twoTasks pair ∧ ReflTransGen pair.Edge 0 1 ∧
    (pair 0).dependTasks = [] ∧ (pair 1).dependTasks = [0] ∧
    ∃ s₀ s, twoTasks.startFlow pair [] (fun _ ↦ none) 0 = .ok s₀ ∧
      run twoTasks.step s₀ (List.replicate 6 (.thread .main)) = some s ∧
      s.Notified 0 ∧ s.main = [] ∧ (s.heap 1).state = .idle := by
  refine ⟨.perform _ (.fresh _), .single ?_, rfl, rfl, _, _, rfl, rfl, ?_⟩
  · exact (by decide : (1 : Fin 2) ∈ (pair 0).behindTasks)
  · exact ⟨by decide, rfl, rfl⟩

end HiApp.TaskFlow
