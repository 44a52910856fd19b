import HiApp.Lib.Runs
import Mathlib.Data.List.Count
import Mathlib.Logic.Function.Basic

/-!
# Callables of the executor

`HiExecutor.Callable.run` posts `onPrepare` to the main thread, computes in the
background and posts `onCompleted`.  In between it removes all messages of the
handler that it shares with every other callable.
-/

namespace HiApp.Executor.Callable

open Runs

/-- Where the `run` of a callable is; `failed` when `onBackground` has thrown. -/
inductive Stage (β : Type*) where
  | created
  | prepared
  | returned (t : β)
  | cleared (t : β)
  | completed (t : β)
  | failed
  deriving DecidableEq

/-- What `onBackground` has returned. -/
def Stage.result {β : Type*} : Stage β → Option β
  | .returned t | .cleared t | .completed t => some t
  | .created | .prepared | .failed => none

/-- The number of completions that are still to be posted. -/
def Stage.unposted {β : Type*} : Stage β → ℕ
  | .returned _ | .cleared _ => 1
  | .created | .prepared | .completed _ | .failed => 0

inductive Message (ι β : Type*) where
  | onPrepare (c : ι)
  | onCompleted (c : ι) (t : β)
  deriving DecidableEq

/-- The callables `ι` that were handed to the executor, the messages of the
handler in the main queue, and those the main looper has delivered. -/
structure State (ι β : Type*) where
  stage : ι → Stage β := fun _ ↦ .created
  queue : List (Message ι β) := []
  delivered : List (Message ι β) := []

/-- A step of the `run` of a callable, or of the main looper. -/
inductive Action (ι β : Type*) where
  | prepare (c : ι)
  | background (c : ι) (t : β)
  | fail (c : ι)
  | clear (c : ι)
  | complete (c : ι)
  | loop
  deriving DecidableEq

variable {ι β : Type*} [DecidableEq ι]

def State.post (s : State ι β) (m : Message ι β) : State ι β :=
  { s with queue := s.queue ++ [m] }

def State.removeCallbacksAndMessages (s : State ι β) : State ι β :=
  { s with queue := [] }

def State.goto (s : State ι β) (c : ι) (stage : Stage β) : State ι β :=
  { s with stage := Function.update s.stage c stage }

def step (s : State ι β) : Action ι β → Option (State ι β)
  | .prepare c =>
      match s.stage c with
      | .created => some ((s.post (.onPrepare c)).goto c .prepared)
      | _ => none
  | .background c t =>
      match s.stage c with
      | .prepared => some (s.goto c (.returned t))
      | _ => none
  | .fail c =>
      match s.stage c with
      | .prepared => some (s.goto c .failed)
      | _ => none
  | .clear c =>
      match s.stage c with
      | .returned t => some (s.removeCallbacksAndMessages.goto c (.cleared t))
      | _ => none
  | .complete c =>
      match s.stage c with
      | .cleared t => some ((s.post (.onCompleted c t)).goto c (.completed t))
      | _ => none
  | .loop =>
      match s.queue with
      | [] => none
      | m :: queue => some { s with queue := queue, delivered := s.delivered ++ [m] }

/-! ## What a step can do -/

variable {s s' : State ι β}

/-- A step moves one callable on, with what it does to the queue, or delivers the
first message. -/
theorem step_cases {a : Action ι β} (hstep : step s a = some s') :
    (∃ c, a = .prepare c ∧ s.stage c = .created ∧
      s' = (s.post (.onPrepare c)).goto c .prepared) ∨
    (∃ c t, a = .background c t ∧ s.stage c = .prepared ∧
      s' = s.goto c (.returned t)) ∨
    (∃ c, a = .fail c ∧ s.stage c = .prepared ∧ s' = s.goto c .failed) ∨
    (∃ c t, a = .clear c ∧ s.stage c = .returned t ∧
      s' = s.removeCallbacksAndMessages.goto c (.cleared t)) ∨
    (∃ c t, a = .complete c ∧ s.stage c = .cleared t ∧
      s' = (s.post (.onCompleted c t)).goto c (.completed t)) ∨
    ∃ m queue, a = .loop ∧ s.queue = m :: queue ∧
      s' = { s with queue := queue, delivered := s.delivered ++ [m] } := by
  cases a with
  | prepare c =>
      simp only [step] at hstep
      split at hstep
      · rename_i hstage
        exact .inl ⟨c, rfl, hstage, (Option.some.inj hstep).symm⟩
      · simp at hstep
  | background c t =>
      simp only [step] at hstep
      split at hstep
      · rename_i hstage
        exact .inr (.inl ⟨c, t, rfl, hstage, (Option.some.inj hstep).symm⟩)
      · simp at hstep
  | fail c =>
      simp only [step] at hstep
      split at hstep
      · rename_i hstage
        exact .inr (.inr (.inl ⟨c, rfl, hstage, (Option.some.inj hstep).symm⟩))
      · simp at hstep
  | clear c =>
      simp only [step] at hstep
      split at hstep
      · rename_i t hstage
        exact .inr (.inr (.inr (.inl
          ⟨c, t, rfl, hstage, (Option.some.inj hstep).symm⟩)))
      · simp at hstep
  | complete c =>
      simp only [step] at hstep
      split at hstep
      · rename_i t hstage
        exact .inr (.inr (.inr (.inr (.inl
          ⟨c, t, rfl, hstage, (Option.some.inj hstep).symm⟩))))
      · simp at hstep
  | loop =>
      simp only [step] at hstep
      split at hstep
      · simp at hstep
      · rename_i m queue hqueue
        exact .inr (.inr (.inr (.inr (.inr
          ⟨m, queue, rfl, hqueue, (Option.some.inj hstep).symm⟩))))

/-! ## Results -/

/-- Of a callable whose `onBackground` has returned, the completion is in one
place: still to be posted, in the queue, or delivered. -/
def ResultsKept [DecidableEq β] (s : State ι β) : Prop :=
  ∀ c t, (s.stage c).result = some t →
    (s.stage c).unposted + s.queue.count (.onCompleted c t) +
      s.delivered.count (.onCompleted c t) = 1

/-- No `onPrepare` is delivered after the `onCompleted` of its callable. -/
def PrepareFirst (s : State ι β) : Prop :=
  s.delivered.Pairwise fun m m' ↦ ∀ c t, m = .onCompleted c t → m' ≠ .onPrepare c

/-- The messages of a callable are found at certain stages only. -/
structure Orderly (s : State ι β) : Prop where
  completed : ∀ c t, .onCompleted c t ∈ s.queue ++ s.delivered →
    s.stage c = .completed t
  prepare : ∀ c, .onPrepare c ∈ s.queue → ∀ t, s.stage c ≠ .completed t ∧
    s.stage c ≠ .cleared t ∧ s.stage c ≠ .created
  prepareFirst : PrepareFirst s

/-- No other completion is in the queue when a callable empties it. -/
def ClearsNoResult (s : State ι β) : Action ι β → Prop
  | .clear _ => ∀ c t, .onCompleted c t ∉ s.queue
  | _ => True

namespace Orderly

theorem goto (h : Orderly s) {c : ι} {stage : Stage β}
    (hcompleted : ∀ t, s.stage c ≠ .completed t)
    (hprepare : .onPrepare c ∈ s.queue → ∀ t, stage ≠ .completed t ∧
      stage ≠ .cleared t ∧ stage ≠ .created) : Orderly (s.goto c stage) := by
  constructor
  · intro d t hmem
    have hstage := h.completed d t hmem
    have hne : d ≠ c := fun hd ↦ hcompleted t (hd ▸ hstage)
    simpa [State.goto, hne] using hstage
  · intro d hmem t
    by_cases hd : d = c
    · subst hd
      simpa [State.goto] using hprepare hmem t
    · simpa [State.goto, hd] using h.prepare d hmem t
  · exact h.prepareFirst

theorem step {a : Action ι β} (h : Orderly s) (hstep : step s a = some s') :
    Orderly s' := by
  obtain ⟨c, -, hstage, rfl⟩ | ⟨c, t, -, hstage, rfl⟩ | ⟨c, -, hstage, rfl⟩ |
    ⟨c, t, -, hstage, rfl⟩ | ⟨c, t, -, hstage, rfl⟩ | ⟨m, queue, -, hqueue, rfl⟩ :=
      step_cases hstep
  · constructor
    · intro d t hmem
      have hstage' := h.completed d t (by simpa [State.goto, State.post] using hmem)
      have hne : d ≠ c := by
        rintro rfl
        simp [hstage] at hstage'
      simpa [State.goto, State.post, hne] using hstage'
    · intro d hmem t
      by_cases hd : d = c
      · simp [State.goto, hd]
      · have hmem' : .onPrepare d ∈ s.queue := by
          simpa [State.goto, State.post, hd] using hmem
        simpa [State.goto, State.post, hd] using h.prepare d hmem' t
    · exact h.prepareFirst
  · apply h.goto
    · simp [hstage]
    · simp
  · apply h.goto
    · simp [hstage]
    · simp
  · constructor
    · intro d u hmem
      have hstage' := h.completed d u (List.mem_append_right _
        (by simpa [State.goto, State.removeCallbacksAndMessages] using hmem))
      have hne : d ≠ c := by
        rintro rfl
        simp [hstage] at hstage'
      simpa [State.goto, State.removeCallbacksAndMessages, hne] using hstage'
    · simp [State.goto, State.removeCallbacksAndMessages]
    · exact h.prepareFirst
  · constructor
    · intro d u hmem
      by_cases hd : d = c
      · subst hd
        have hbefore := mt (h.completed d u) (by simp [hstage])
        have hu : u = t := by
          simp only [List.mem_append, not_or] at hbefore
          simpa [State.goto, State.post, hbefore] using hmem
        simp [State.goto, hu]
      · have hmem' : .onCompleted d u ∈ s.queue ++ s.delivered := by
          simpa [State.goto, State.post, hd] using hmem
        simpa [State.goto, State.post, hd] using h.completed d u hmem'
    · intro d hmem u
      have hmem' : .onPrepare d ∈ s.queue := by
        simpa [State.goto, State.post] using hmem
      have hne : d ≠ c := by
        rintro rfl
        exact (h.prepare d hmem' t).2.1 hstage
      simpa [State.goto, State.post, hne] using h.prepare d hmem' u
    · exact h.prepareFirst
  · constructor
    · intro d u hmem
      apply h.completed d u
      simp only [hqueue, List.mem_append, List.mem_cons, List.not_mem_nil,
        or_false] at hmem ⊢
      tauto
    · intro d hmem
      exact h.prepare d (by simp [hqueue, hmem])
    · -- the message is delivered last, so only those before it matter
      apply List.pairwise_append.mpr
      refine ⟨h.prepareFirst, List.pairwise_singleton _ _, ?_⟩
      rintro m' hm' m₁ hm₁ d u rfl rfl
      obtain rfl : Message.onPrepare d = m := by simpa using hm₁
      have hstage := h.completed d u (List.mem_append_right _ hm')
      exact (h.prepare d (by simp [hqueue]) u).1 hstage

end Orderly

theorem ResultsKept.step [DecidableEq β] {a : Action ι β} (h : ResultsKept s)
    (hord : Orderly s) (hstep : step s a = some s') (hclear : ClearsNoResult s a) :
    ResultsKept s' := by
  have hnone : ∀ c t, s.stage c ≠ .completed t →
      s.queue.count (.onCompleted c t) = 0 ∧ s.delivered.count (.onCompleted c t) = 0 := by
    intro c t hne
    have hmem := mt (hord.completed c t) hne
    simp only [List.mem_append, not_or] at hmem
    exact ⟨List.count_eq_zero_of_not_mem hmem.1, List.count_eq_zero_of_not_mem hmem.2⟩
  intro d u hresult
  obtain ⟨c, -, hstage, rfl⟩ | ⟨c, t, -, hstage, rfl⟩ | ⟨c, -, hstage, rfl⟩ |
    ⟨c, t, rfl, hstage, rfl⟩ | ⟨c, t, -, hstage, rfl⟩ | ⟨m, queue, -, hqueue, rfl⟩ :=
      step_cases hstep
  · by_cases hd : d = c
    · simp [State.goto, hd, Stage.result] at hresult
    · simpa [State.goto, State.post, hd] using
        h d u (by simpa [State.goto, State.post, hd] using hresult)
  · by_cases hd : d = c
    · subst hd
      obtain ⟨hq, hdel⟩ := hnone d u (by simp [hstage])
      simp [State.goto, Stage.unposted, hq, hdel]
    · simpa [State.goto, hd] using h d u (by simpa [State.goto, hd] using hresult)
  · by_cases hd : d = c
    · simp [State.goto, hd, Stage.result] at hresult
    · simpa [State.goto, hd] using h d u (by simpa [State.goto, hd] using hresult)
  · by_cases hd : d = c
    · subst hd
      obtain ⟨-, hdel⟩ := hnone d u (by simp [hstage])
      simp [State.goto, State.removeCallbacksAndMessages, Stage.unposted, hdel]
    · have hq : s.queue.count (.onCompleted d u) = 0 :=
        List.count_eq_zero_of_not_mem (hclear d u)
      have hsum := h d u
        (by simpa [State.goto, State.removeCallbacksAndMessages, hd] using hresult)
      simp only [hq] at hsum
      simpa [State.goto, State.removeCallbacksAndMessages, hd] using hsum
  · by_cases hd : d = c
    · subst hd
      obtain rfl : t = u := by simpa [State.goto, Stage.result] using hresult
      obtain ⟨hq, hdel⟩ := hnone d t (by simp [hstage])
      simp [State.goto, State.post, Stage.unposted, hq, hdel]
    · have hsum := h d u (by simpa [State.goto, State.post, hd] using hresult)
      have hne : ¬ (c = d ∧ t = u) := fun hcd ↦ hd hcd.1.symm
      simpa [State.goto, State.post, hd, hne, List.count_singleton] using hsum
  · have hsum := h d u hresult
    simp only [hqueue, List.count_cons, List.count_append, List.count_nil] at hsum ⊢
    omega

/-- Once the queue is drained and nothing is to be posted, every callable whose
`onBackground` has returned was completed exactly once. -/
theorem ResultsKept.delivered_once [DecidableEq β] (h : ResultsKept s)
    (hqueue : s.queue = []) {c : ι} {t : β} (hstage : s.stage c = .completed t) :
    s.delivered.count (.onCompleted c t) = 1 := by
  simpa [hstage, hqueue, Stage.unposted] using h c t (by simp [hstage, Stage.result])

theorem ResultsKept.clearsNoResult [DecidableEq β] {a : Action ι β}
    (h : ResultsKept s) (hord : Orderly s) (hstep : Callable.step s a = some s')
    (h' : ResultsKept s') : ClearsNoResult s a := by
  obtain ⟨c, rfl, -⟩ | ⟨c, t, rfl, -⟩ | ⟨c, rfl, -⟩ | ⟨c, t, rfl, hc, rfl⟩ |
    ⟨c, t, rfl, -⟩ | ⟨m, queue, rfl, -⟩ := step_cases hstep
  case inr.inr.inr.inl =>
      intro d u hmem
      have hstage := hord.completed d u (List.mem_append_left _ hmem)
      have hne : d ≠ c := by
        rintro rfl
        simp [hstage] at hc
      have hbefore := h d u (by simp [hstage, Stage.result])
      have hafter := h' d u (by
        simp [State.goto, State.removeCallbacksAndMessages, hne, hstage, Stage.result])
      have hpos := List.count_pos_iff.mpr hmem
      simp only [State.goto, State.removeCallbacksAndMessages,
        Function.update_of_ne hne, List.count_nil] at hafter
      omega
  all_goals trivial

omit [DecidableEq ι] in
theorem orderly_initial : Orderly ({} : State ι β) := by
  constructor
  · simp
  · simp
  · exact List.Pairwise.nil

/-- Along every run, every result stays on its way until it is delivered and no
`onPrepare` comes after its `onCompleted`, if and only if no callable empties the
queue while the completion of another is in it; then, with the queue drained,
every completion was delivered exactly once. -/
theorem resultsKept_iff_clearsNoResult [DecidableEq β] {s : State ι β}
    {as : List (Action ι β)} (hrun : run step {} as = some s) :
    (StatesMeet step (fun s ↦ ResultsKept s ∧ PrepareFirst s) {} as ↔
      StepsMeet step ClearsNoResult {} as) ∧
    (StepsMeet step ClearsNoResult {} as → s.queue = [] →
      ∀ c t, s.stage c = .completed t → s.delivered.count (.onCompleted c t) = 1) := by
  have hiff : StatesMeet step (fun s ↦ ResultsKept s ∧ PrepareFirst s) {} as ↔
      StepsMeet step ClearsNoResult {} as := by
    refine statesMeet_iff_stepsMeet (I := Orderly) (D := fun _ _ ↦ True) ?_ ?_
      orderly_initial ⟨?_, List.Pairwise.nil⟩ stepsMeet_true hrun
    · intro u a v hu _ _ _ hstep
      exact hu.step hstep
    · rintro u a v hu ⟨hkept, -⟩ - hstep
      constructor
      · rintro ⟨hkept', -⟩
        exact hkept.clearsNoResult hu hstep hkept'
      · intro hclear
        exact ⟨hkept.step hu hstep hclear, (hu.step hstep).prepareFirst⟩
    · intro c t hresult
      simp [Stage.result] at hresult
  refine ⟨hiff, ?_⟩
  intro hclear hqueue c t hstage
  have hkept := (hiff.mpr hclear as (List.prefix_refl as) s hrun).1
  exact hkept.delivered_once hqueue hstage

/-- Two callables; the second empties the queue when the completion of the first
is in it. -/
def clearedRun : List (Action (Fin 2) ℕ) :=
  [.prepare 0, .prepare 1, .background 0 7, .background 1 8, .clear 0, .complete 0,
    .clear 1, .complete 1, .loop]

theorem resultsKept_iff_clearsNoResult_two :
    ∃ s, run step {} clearedRun = some s ∧
      (StatesMeet step (fun s ↦ ResultsKept s ∧ PrepareFirst s) {} clearedRun ↔
        StepsMeet step ClearsNoResult {} clearedRun) ∧
      (StepsMeet step ClearsNoResult {} clearedRun → s.queue = [] →
        ∀ c t, s.stage c = .completed t →
          s.delivered.count (.onCompleted c t) = 1) := by
  refine ⟨_, rfl, ?_⟩
  exact @resultsKept_iff_clearsNoResult (Fin 2) ℕ _ _ _ clearedRun rfl

/-- The completion of the first callable is never delivered. -/
theorem result_lost :
    ∃ s, run step {} clearedRun = some s ∧ s.stage 0 = .completed 7 ∧ s.queue = [] ∧
      s.delivered.count (.onCompleted 0 7) = 0 ∧ ¬ ResultsKept s := by
  refine ⟨_, rfl, by decide, by decide, by decide, ?_⟩
  intro hkept
  exact absurd (hkept 0 7 (by decide)) (by decide)

end HiApp.Executor.Callable
