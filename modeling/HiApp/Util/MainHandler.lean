import HiApp.Lib.MessageQueue
import HiApp.Lib.Runs

/-!
# The main handler

Runnables are submitted to the queue of the main thread in three ways, and taken out
of it by identity.  `post` does not put the runnable into the queue but a lambda that
mentions it: the lambda does not run it, and it is not found by `remove`.
-/

namespace HiApp.Util

open Runs

variable {ρ : Type*}

/-- What waits in the queue: a runnable, or the new object `{ runnable }`. -/
inductive Callback (ρ : Type*) where
  | runnable (runnable : ρ)
  | lambda (runnable : ρ)
  deriving DecidableEq

namespace Callback

/-- The runnable that was handed over. -/
def submitted : Callback ρ → ρ
  | .runnable r | .lambda r => r

/-- The runnables that run when the callback does. -/
def runs : Callback ρ → List ρ
  | .runnable r => [r]
  | .lambda _ => []

end Callback

/-- A callback in the queue, and whether its submission still holds: no `remove` of its
runnable was called since. -/
structure Submission (ρ : Type*) where
  callback : Callback ρ
  holds : Bool
  deriving DecidableEq

/-- The queue at a time, the runnables that have run, those that were due when their
turn came, and whether every `remove` so far has left no submission of its runnable. -/
structure MainHandler (ρ : Type*) where
  now : ℕ
  queue : List (Message (Submission ρ)) := []
  ran : List ρ := []
  due : List ρ := []
  cancels : Bool := true

namespace MainHandler

inductive Event (ρ : Type*) where
  | post (runnable : ρ)
  | postDelay (delayMills : ℤ) (runnable : ρ)
  | sendAtFrontOfQueue (runnable : ρ)
  | remove (runnable : ρ)
  | elapse (mills : ℕ)
  | dispatch

def Event.isPost : Event ρ → Bool
  | .post _ => true
  | .postDelay _ _ | .sendAtFrontOfQueue _ | .remove _ | .elapse _ | .dispatch => false

def enqueue (s : MainHandler ρ) (callback : Callback ρ) (time : ℕ) : MainHandler ρ :=
  { s with queue := Message.enqueue ⟨⟨callback, true⟩, time⟩ s.queue }

/-- `handler.post { runnable }`. -/
def post (s : MainHandler ρ) (runnable : ρ) : MainHandler ρ :=
  s.enqueue (.lambda runnable) s.now

/-- A negative delay counts as none. -/
def postDelay (s : MainHandler ρ) (delayMills : ℤ) (runnable : ρ) : MainHandler ρ :=
  s.enqueue (.runnable runnable) (s.now + delayMills.toNat)

def sendAtFrontOfQueue (s : MainHandler ρ) (runnable : ρ) : MainHandler ρ :=
  s.enqueue (.runnable runnable) 0

/-- The next message, once its time has come. -/
def dispatch (s : MainHandler ρ) : Option (MainHandler ρ) :=
  match s.queue with
  | [] => none
  | message :: queue =>
      if message.time ≤ s.now then
        some { s with
          queue := queue
          ran := s.ran ++ message.callback.callback.runs
          due := s.due ++
            if message.callback.holds then [message.callback.callback.submitted] else [] }
      else none

section

variable [DecidableEq ρ]

def cancel (runnable : ρ) (message : Message (Submission ρ)) : Message (Submission ρ) :=
  if message.callback.callback.submitted = runnable then
    ⟨⟨message.callback.callback, false⟩, message.time⟩
  else message

/-- `handler.removeCallbacks(runnable)`; the submissions of the runnable that are still
in the queue hold no longer. -/
def remove (s : MainHandler ρ) (runnable : ρ) : MainHandler ρ :=
  let queue :=
    (s.queue.filter fun message ↦ message.callback.callback ≠ .runnable runnable).map
      (cancel runnable)
  { s with
    queue := queue
    cancels := s.cancels &&
      queue.all fun message ↦ message.callback.callback.submitted ≠ runnable }

def step (s : MainHandler ρ) : Event ρ → Option (MainHandler ρ)
  | .post runnable => some (s.post runnable)
  | .postDelay delayMills runnable => some (s.postDelay delayMills runnable)
  | .sendAtFrontOfQueue runnable => some (s.sendAtFrontOfQueue runnable)
  | .remove runnable => some (s.remove runnable)
  | .elapse mills => some { s with now := s.now + mills }
  | .dispatch => s.dispatch

/-- Every runnable has run as often as it was due, and every `remove` has cancelled. -/
def Contract (s : MainHandler ρ) : Prop :=
  (∀ runnable, s.ran.count runnable = s.due.count runnable) ∧ s.cancels = true

end

/-! ## One event -/

section

variable [DecidableEq ρ] {s t : MainHandler ρ} {posted : Bool}

/-- What holds of every run; `posted` says whether `post` was among its calls. -/
structure Inv (posted : Bool) (s : MainHandler ρ) : Prop where
  broken : ∀ m ∈ s.queue, m.callback.holds = false → s.cancels = false
  runnable : ∀ m ∈ s.queue, ∀ r, m.callback.callback = .runnable r → m.callback.holds = true
  le : ∀ r, s.ran.count r ≤ s.due.count r
  clean : posted = false → s.Contract ∧ ∀ m ∈ s.queue, ∀ r, m.callback.callback ≠ .lambda r
  lost : posted = true → s.cancels = false ∨
    (∃ m ∈ s.queue, ∃ r, m.callback.callback = .lambda r) ∨
      ∃ r, s.ran.count r < s.due.count r

theorem Inv.enqueue (h : Inv posted s) (callback : Callback ρ) (time : ℕ) (post : Bool)
    (hpost : post = true ↔ ∃ r, callback = .lambda r) :
    Inv (posted || post) (s.enqueue callback time) := by
  constructor
  · intro m hm hholds
    rcases Message.mem_enqueue.mp hm with rfl | hm
    · simp at hholds
    · exact h.broken m hm hholds
  · intro m hm r hr
    rcases Message.mem_enqueue.mp hm with rfl | hm
    · rfl
    · exact h.runnable m hm r hr
  · exact h.le
  · intro hposted
    obtain ⟨hold, hnew⟩ := Bool.or_eq_false_iff.mp hposted
    obtain ⟨hcontract, hlambda⟩ := h.clean hold
    refine ⟨hcontract, ?_⟩
    intro m hm r hr
    rcases Message.mem_enqueue.mp hm with rfl | hm
    · rw [hpost.mpr ⟨r, hr⟩] at hnew
      simp at hnew
    · exact hlambda m hm r hr
  · intro hposted
    rcases (Bool.or_eq_true _ _).mp hposted with hold | hnew
    · rcases h.lost hold with hcancels | ⟨m, hm, hlambda⟩ | hless
      · exact .inl hcancels
      · exact .inr (.inl ⟨m, Message.mem_enqueue.mpr (.inr hm), hlambda⟩)
      · exact .inr (.inr hless)
    · exact .inr (.inl ⟨_, Message.mem_enqueue.mpr (.inl rfl), hpost.mp hnew⟩)

@[simp] theorem cancel_callback (r : ρ) (m : Message (Submission ρ)) :
    (cancel r m).callback.callback = m.callback.callback := by
  unfold cancel
  split <;> rfl

theorem cancel_of_ne {r : ρ} {m : Message (Submission ρ)}
    (h : m.callback.callback.submitted ≠ r) : cancel r m = m := if_neg h

theorem mem_remove_queue {r : ρ} {m : Message (Submission ρ)} :
    m ∈ (s.remove r).queue ↔
      ∃ m' ∈ s.queue, m'.callback.callback ≠ .runnable r ∧ cancel r m' = m := by
  simp [remove, and_assoc]

theorem remove_cancels {r : ρ} :
    (s.remove r).cancels = true ↔ s.cancels = true ∧
      ∀ m ∈ (s.remove r).queue, m.callback.callback.submitted ≠ r := by
  simp only [remove, Bool.and_eq_true, List.all_eq_true, decide_eq_true_eq]

omit [DecidableEq ρ] in
theorem submitted_ne_of_runnable {callback : Callback ρ} {r r' : ρ}
    (hcallback : callback = .runnable r') (hkept : callback ≠ .runnable r) :
    callback.submitted ≠ r := by
  subst hcallback
  rintro rfl
  exact hkept rfl

theorem Inv.remove (h : Inv posted s) (r : ρ) : Inv posted (s.remove r) := by
  constructor
  · intro m hm hholds
    obtain ⟨m', hm', -, rfl⟩ := mem_remove_queue.mp hm
    rw [← Bool.not_eq_true, remove_cancels]
    rintro ⟨hcancels, hnone⟩
    have hne := hnone _ hm
    rw [cancel_callback] at hne
    rw [cancel_of_ne hne] at hholds
    simp [h.broken m' hm' hholds] at hcancels
  · intro m hm r' hr'
    obtain ⟨m', hm', hkept, rfl⟩ := mem_remove_queue.mp hm
    rw [cancel_callback] at hr'
    rw [cancel_of_ne (submitted_ne_of_runnable hr' hkept)]
    exact h.runnable m' hm' r' hr'
  · exact h.le
  · intro hposted
    obtain ⟨⟨hcount, hcancels⟩, hlambda⟩ := h.clean hposted
    have hnone : ∀ m ∈ (s.remove r).queue, m.callback.callback.submitted ≠ r := by
      intro m hm
      obtain ⟨m', hm', hkept, rfl⟩ := mem_remove_queue.mp hm
      rw [cancel_callback]
      cases hcallback : m'.callback.callback with
      | runnable r' =>
          rw [← hcallback]
          exact submitted_ne_of_runnable hcallback hkept
      | lambda r' => exact absurd hcallback (hlambda m' hm' r')
    refine ⟨⟨hcount, remove_cancels.mpr ⟨hcancels, hnone⟩⟩, ?_⟩
    intro m hm r' hr'
    obtain ⟨m', hm', -, rfl⟩ := mem_remove_queue.mp hm
    rw [cancel_callback] at hr'
    exact hlambda m' hm' r' hr'
  · intro hposted
    rcases h.lost hposted with hcancels | ⟨m, hm, r', hr'⟩ | hless
    · exact .inl (by simp [MainHandler.remove, hcancels])
    · refine .inr (.inl ⟨cancel r m, mem_remove_queue.mpr ⟨m, hm, ?_, rfl⟩, r', ?_⟩)
      · simp [hr']
      · simp [hr']
    · exact .inr (.inr hless)

theorem count_append_le {ran due : List ρ} (h : ∀ r, ran.count r ≤ due.count r)
    (tail : List ρ) (r : ρ) : (ran ++ tail).count r ≤ (due ++ tail).count r := by
  rw [List.count_append, List.count_append]
  exact Nat.add_le_add_right (h r) _

section Dispatch

variable {message : Message (Submission ρ)} {queue : List (Message (Submission ρ))} {r : ρ}

omit [DecidableEq ρ] in
theorem exists_of_dispatch (hstep : s.dispatch = some t) :
    ∃ message queue, s.queue = message :: queue ∧ t = { s with
      queue := queue
      ran := s.ran ++ message.callback.callback.runs
      due := s.due ++
        if message.callback.holds then [message.callback.callback.submitted] else [] } := by
  unfold MainHandler.dispatch at hstep
  split at hstep
  · simp at hstep
  rename_i message queue hqueue
  split at hstep
  · exact ⟨message, queue, hqueue, (Option.some.inj hstep).symm⟩
  · simp at hstep

theorem Inv.dispatch_runnable (h : Inv posted s) (hqueue : s.queue = message :: queue)
    (hcallback : message.callback.callback = .runnable r) :
    Inv posted { s with queue := queue, ran := s.ran ++ [r], due := s.due ++ [r] } := by
  have hrest : ∀ m ∈ queue, m ∈ s.queue := fun m hm ↦ by simp [hqueue, hm]
  constructor
  · exact fun m hm ↦ h.broken m (hrest m hm)
  · exact fun m hm ↦ h.runnable m (hrest m hm)
  · exact count_append_le h.le [r]
  · intro hposted
    obtain ⟨⟨hcount, hcancels⟩, hlambda⟩ := h.clean hposted
    refine ⟨⟨?_, hcancels⟩, fun m hm ↦ hlambda m (hrest m hm)⟩
    intro r'
    rw [List.count_append, List.count_append, hcount]
  · intro hposted
    rcases h.lost hposted with hcancels | ⟨m, hm, r', hr'⟩ | ⟨r', hless⟩
    · exact .inl hcancels
    · rw [hqueue] at hm
      rcases List.mem_cons.mp hm with rfl | hm
      · simp [hcallback] at hr'
      · exact .inr (.inl ⟨m, hm, r', hr'⟩)
    · refine .inr (.inr ⟨r', ?_⟩)
      rw [List.count_append, List.count_append]
      exact Nat.add_lt_add_right hless _

/-- A lambda runs nothing, and what it was submitted for is lost unless it was
cancelled. -/
theorem Inv.dispatch_lambda (h : Inv posted s) (hqueue : s.queue = message :: queue)
    (hcallback : message.callback.callback = .lambda r) :
    Inv posted { s with
      queue := queue
      due := s.due ++ if message.callback.holds then [r] else [] } := by
  have hmem : message ∈ s.queue := by simp [hqueue]
  have hrest : ∀ m ∈ queue, m ∈ s.queue := fun m hm ↦ by simp [hqueue, hm]
  constructor
  · exact fun m hm ↦ h.broken m (hrest m hm)
  · exact fun m hm ↦ h.runnable m (hrest m hm)
  · intro r'
    rw [List.count_append]
    exact Nat.le_add_right_of_le (h.le r')
  · intro hposted
    exact absurd hcallback ((h.clean hposted).2 message hmem r)
  · intro _
    cases hholds : message.callback.holds with
    | false => exact .inl (h.broken message hmem hholds)
    | true =>
        refine .inr (.inr ⟨r, ?_⟩)
        simpa using Nat.lt_succ_of_le (h.le r)

theorem Inv.dispatch (h : Inv posted s) (hstep : s.dispatch = some t) : Inv posted t := by
  obtain ⟨message, queue, hqueue, rfl⟩ := exists_of_dispatch hstep
  cases hcallback : message.callback.callback with
  | runnable r =>
      have hholds := h.runnable message (by simp [hqueue]) r hcallback
      simp only [Callback.runs, Callback.submitted, hholds, if_true]
      exact h.dispatch_runnable hqueue hcallback
  | lambda r =>
      simp only [Callback.runs, Callback.submitted, List.append_nil]
      exact h.dispatch_lambda hqueue hcallback

end Dispatch

theorem Inv.step (h : Inv posted s) {event : Event ρ} (hstep : s.step event = some t) :
    Inv (posted || event.isPost) t := by
  cases event with
  | post r =>
      rw [← Option.some.inj hstep]
      exact h.enqueue (.lambda r) s.now true ⟨fun _ ↦ ⟨r, rfl⟩, fun _ ↦ rfl⟩
  | postDelay delayMills r =>
      rw [← Option.some.inj hstep]
      exact h.enqueue (.runnable r) _ false (by simp)
  | sendAtFrontOfQueue r =>
      rw [← Option.some.inj hstep]
      exact h.enqueue (.runnable r) 0 false (by simp)
  | remove r =>
      rw [← Option.some.inj hstep, Event.isPost, Bool.or_false]
      exact h.remove r
  | elapse mills =>
      rw [← Option.some.inj hstep, Event.isPost, Bool.or_false]
      exact ⟨h.broken, h.runnable, h.le, h.clean, h.lost⟩
  | dispatch =>
      rw [Event.isPost, Bool.or_false]
      exact h.dispatch hstep

/-! ## Runs -/

theorem inv_initial (now : ℕ) : Inv false ({ now := now } : MainHandler ρ) := by
  constructor
  · simp
  · simp
  · simp
  · intro _
    exact ⟨⟨fun _ ↦ rfl, rfl⟩, by simp⟩
  · simp

theorem inv_run {now : ℕ} {events : List (Event ρ)}
    (hrun : run step ({ now := now } : MainHandler ρ) events = some t) :
    Inv (events.any Event.isPost) t := by
  induction events using List.reverseRecOn generalizing t with
  | nil =>
      rw [run_nil, Option.some.injEq] at hrun
      exact hrun ▸ inv_initial now
  | append_singleton events event ih =>
      obtain ⟨u, hu, hstep⟩ := run_concat_eq_some_iff.mp hrun
      simpa using (ih hu).step hstep

/-- Whatever was submitted, the queue can be emptied by waiting and dispatching. -/
theorem exists_drain (s : MainHandler ρ) :
    ∃ events t, (∀ event ∈ events, event = .dispatch ∨ ∃ mills, event = .elapse mills) ∧
      run step s events = some t ∧ t.queue = [] := by
  induction hqueue : s.queue generalizing s with
  | nil => exact ⟨[], s, by simp, rfl, hqueue⟩
  | cons message queue ih =>
      let s' : MainHandler ρ :=
        { s with
          now := s.now + message.time
          queue := queue
          ran := s.ran ++ message.callback.callback.runs
          due := s.due ++
            if message.callback.holds then [message.callback.callback.submitted] else [] }
      have hdispatch : run step s [.elapse message.time, .dispatch] = some s' := by
        simp [run, MainHandler.step, MainHandler.dispatch, hqueue, s']
      obtain ⟨events, t, hevents, hrun, ht⟩ := ih s' rfl
      refine ⟨[.elapse message.time, .dispatch] ++ events, t, ?_, ?_, ht⟩
      · intro event hmem
        rcases List.mem_append.mp hmem with hmem | hmem
        · simp only [List.mem_cons, List.not_mem_nil, or_false] at hmem
          rcases hmem with rfl | rfl
          · exact .inr ⟨_, rfl⟩
          · exact .inl rfl
        · exact hevents event hmem
      · rw [run_append, hdispatch]
        exact hrun

end

/-- Once the queue is empty, every runnable has run as often as it was due and every
`remove` has cancelled, if and only if `post` was never called. -/
theorem contract_iff_no_post [DecidableEq ρ] {now : ℕ} {events : List (Event ρ)}
    {t : MainHandler ρ}
    (hrun : run step ({ now := now } : MainHandler ρ) events = some t)
    (hdrained : t.queue = []) :
    t.Contract ↔ ∀ event ∈ events, event.isPost = false := by
  have h := inv_run hrun
  cases hposted : events.any Event.isPost with
  | false =>
      rw [hposted] at h
      refine iff_of_true (h.clean rfl).1 ?_
      simpa using hposted
  | true =>
      rw [hposted] at h
      refine iff_of_false ?_ ?_
      · rintro ⟨hcount, hcancels⟩
        rcases h.lost rfl with hbroken | ⟨m, hm, -⟩ | ⟨r, hless⟩
        · simp [hcancels] at hbroken
        · simp [hdrained] at hm
        · exact Nat.ne_of_lt hless (hcount r)
      · simpa using hposted

/-- A runnable that is posted never runs, and is still in the queue when it was
removed. -/
theorem posted_runnable_is_lost :
    ∃ t : MainHandler (Fin 2),
      run step { now := 1 } [.post 0, .post 1, .remove 1, .dispatch, .dispatch] = some t ∧
      t.queue = [] ∧ t.ran = [] ∧ t.due = [0] ∧ ¬ t.Contract := by
  refine ⟨_, rfl, rfl, rfl, rfl, ?_⟩
  intro hcontract
  exact absurd (hcontract.1 0) (by decide)

theorem contract_iff_no_post_delayed :
    ∃ t : MainHandler (Fin 2),
      run step { now := 1 } [.postDelay 5 0, .sendAtFrontOfQueue 1, .postDelay 0 1,
        .dispatch, .remove 1, .elapse 5, .dispatch] = some t ∧
      t.ran = [1, 0] ∧ t.Contract := by
  obtain ⟨t, hrun, hqueue, hran⟩ : ∃ t : MainHandler (Fin 2),
      run step { now := 1 } [.postDelay 5 0, .sendAtFrontOfQueue 1, .postDelay 0 1,
        .dispatch, .remove 1, .elapse 5, .dispatch] = some t ∧ t.queue = [] ∧
      t.ran = [1, 0] := ⟨_, rfl, rfl, rfl⟩
  exact ⟨t, hrun, hran, (contract_iff_no_post hrun hqueue).mpr (by simp [Event.isPost])⟩

end MainHandler

end HiApp.Util
