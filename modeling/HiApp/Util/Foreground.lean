import HiApp.Util.ActivityManager
import Mathlib.Data.List.Chain

/-!
# The foreground

The application counts as in front before its first activity is started.  From then
on the flag tells whether some activity is started, and every callback hears of each
change.
-/

namespace HiApp.Util

open Runs

variable {α γ : Type*}

namespace ActivityManager

inductive Event (α γ : Type*) where
  | onActivityCreated (activity : α)
  | onActivityStarted (activity : α)
  | onActivityStopped (activity : α)
  | onActivityDestroyed (activity : α)
  | collected (activity : α)
  | getTopActivity (P : Platform α) (onlyAlive : Bool)
  | addFrontBackCallback (callback : γ)
  | removeFrontBackCallback (callback : γ)

/-- A manager with the activities that are started, the calls its callbacks received
and the times its count left zero or came back to it. -/
structure Tracked (α γ : Type*) where
  manager : ActivityManager α γ
  started : List α := []
  received : List (γ × Bool) := []
  crossings : List Bool := []

/-- Whether the count leaves zero or comes back to it. -/
def crossing (before after : ℤ) : List Bool :=
  if before = 0 ∧ after ≠ 0 then [true]
  else if before ≠ 0 ∧ after = 0 then [false]
  else []

namespace Tracked

variable [DecidableEq α] [DecidableEq γ]

/-- What the callback received. -/
def callsOf (s : Tracked α γ) (callback : γ) : List Bool :=
  (s.received.filter fun e ↦ e.1 = callback).map Prod.snd

def counted (s : Tracked α γ) (r : ActivityManager α γ × List (γ × Bool))
    (started : List α) : Tracked α γ where
  manager := r.1
  started := started
  received := s.received ++ r.2
  crossings := s.crossings ++ crossing s.manager.activityStartCount r.1.activityStartCount

/-- Every stop matches a start. -/
def step (s : Tracked α γ) : Event α γ → Option (Tracked α γ)
  | .onActivityCreated activity =>
      some { s with manager := s.manager.onActivityCreated activity }
  | .onActivityStarted activity =>
      some (s.counted s.manager.onActivityStarted (activity :: s.started))
  | .onActivityStopped activity =>
      if activity ∈ s.started then
        some (s.counted s.manager.onActivityStopped (s.started.erase activity))
      else none
  | .onActivityDestroyed activity =>
      some { s with manager := s.manager.onActivityDestroyed activity }
  | .collected activity =>
      some { s with manager :=
        { s.manager with activityRefs := s.manager.activityRefs.clear activity } }
  | .getTopActivity P onlyAlive =>
      some { s with manager := (s.manager.getTopActivity P onlyAlive).2 }
  | .addFrontBackCallback callback =>
      some { s with manager := s.manager.addFrontBackCallback callback }
  | .removeFrontBackCallback callback =>
      some { s with manager := s.manager.removeFrontBackCallback callback }

end Tracked

/-! ## One event -/

def withFront (m : ActivityManager α γ) (count : ℤ) (front : Bool) : ActivityManager α γ :=
  { m with activityStartCount := count, front := front }

section withFront

variable (m : ActivityManager α γ) (count : ℤ) (front : Bool)

@[simp] theorem withFront_front : (m.withFront count front).front = front := rfl

@[simp] theorem withFront_activityStartCount :
    (m.withFront count front).activityStartCount = count := rfl

@[simp] theorem withFront_frontBackCallbacks :
    (m.withFront count front).frontBackCallbacks = m.frontBackCallbacks := rfl

end withFront

theorem onActivityStarted_of_front {m : ActivityManager α γ} (h : m.front = true) :
    m.onActivityStarted = (m.withFront (m.activityStartCount + 1) true, []) := by
  simp [onActivityStarted, withFront, h]

theorem onActivityStarted_of_back {m : ActivityManager α γ} (h : m.front = false)
    (hzero : m.activityStartCount = 0) :
    m.onActivityStarted = (m.withFront 1 true, (m.withFront 1 true).onFrontBackChanged true) := by
  simp [onActivityStarted, withFront, h, hzero]

theorem onActivityStopped_of_one {m : ActivityManager α γ} (h : m.front = true)
    (hone : m.activityStartCount = 1) :
    m.onActivityStopped =
      (m.withFront 0 false, (m.withFront 0 false).onFrontBackChanged false) := by
  simp [onActivityStopped, withFront, h, hone]

theorem onActivityStopped_of_gt {m : ActivityManager α γ} (h : m.front = true)
    (hgt : 0 < m.activityStartCount - 1) :
    m.onActivityStopped = (m.withFront (m.activityStartCount - 1) true, []) := by
  have hpos : ¬ m.activityStartCount - 1 ≤ 0 := by omega
  simp [onActivityStopped, withFront, h, hpos]

/-- A callback is told once. -/
theorem filter_onFrontBackChanged [DecidableEq γ] {m : ActivityManager α γ}
    (hnodup : m.frontBackCallbacks.Nodup) {callback : γ}
    (hmem : callback ∈ m.frontBackCallbacks) (front : Bool) :
    ((m.onFrontBackChanged front).filter fun e ↦ e.1 = callback).map Prod.snd = [front] := by
  obtain ⟨pre, post, hsplit⟩ := List.append_of_mem hmem
  rw [hsplit, List.nodup_append] at hnodup
  have hpre : ∀ c ∈ pre, c ≠ callback := fun c hc ↦ hnodup.2.2 c hc callback (by simp)
  have hpost : ∀ c ∈ post, c ≠ callback := by
    rintro c hc rfl
    exact (List.nodup_cons.mp hnodup.2.1).1 hc
  have hnone : ∀ l : List γ, (∀ c ∈ l, c ≠ callback) →
      (l.map fun c ↦ (c, front)).filter (fun e ↦ e.1 = callback) = [] := by
    intro l hl
    simpa [List.filter_eq_nil_iff] using hl
  rw [onFrontBackChanged, hsplit, List.map_append, List.map_cons, List.filter_append,
    List.filter_cons, hnone pre hpre, hnone post hpost]
  simp

namespace Tracked

variable {s t : Tracked α γ} {callback : γ}

section

variable [DecidableEq γ]

/-- Once an activity was started the flag is about the count, and the callback has
heard every crossing but the first. -/
structure AfterStart (callback : γ) (s : Tracked α γ) : Prop where
  crossings : s.crossings = true :: s.callsOf callback
  chain : s.crossings.IsChain (· ≠ ·)
  last : s.crossings.getLast? = some s.manager.front
  front : s.manager.front = decide (0 < s.manager.activityStartCount)

/-- Before any start, the flag is set and the callback has heard nothing. -/
structure BeforeStart (callback : γ) (s : Tracked α γ) : Prop where
  crossings : s.crossings = []
  calls : s.callsOf callback = []
  started : s.started = []
  front : s.manager.front = true

structure Tracking (callback : γ) (s : Tracked α γ) : Prop where
  nodup : s.manager.frontBackCallbacks.Nodup
  registered : callback ∈ s.manager.frontBackCallbacks
  count : s.manager.activityStartCount = s.started.length
  phase : BeforeStart callback s ∨ AfterStart callback s

theorem callsOf_counted (r : ActivityManager α γ × List (γ × Bool)) (started : List α) :
    (s.counted r started).callsOf callback =
      s.callsOf callback ++ (r.2.filter fun e ↦ e.1 = callback).map Prod.snd := by
  simp [callsOf, counted]

/-- The callback has heard every crossing but the first, in turn and beginning with the
way to the background. -/
theorem Tracking.calls_eq_tail (h : Tracking callback s) :
    s.callsOf callback = s.crossings.tail ∧ (s.callsOf callback).IsChain (· ≠ ·) ∧
      (s.callsOf callback).head? ≠ some true := by
  rcases h.phase with hs | hs
  · simp [hs.calls, hs.crossings]
  have hchain := hs.chain
  rw [hs.crossings] at hchain ⊢
  refine ⟨rfl, hchain.tail, ?_⟩
  cases hcalls : s.callsOf callback with
  | nil => simp
  | cons first rest =>
      rw [hcalls, List.isChain_cons_cons] at hchain
      simpa using hchain.1.symm

/-- A change of the flag is heard. -/
theorem AfterStart.turn (hs : AfterStart callback s) {m : ActivityManager α γ}
    (hcalls : ((m.onFrontBackChanged m.front).filter fun e ↦ e.1 = callback).map Prod.snd =
      [m.front])
    (hfront : m.front = decide (0 < m.activityStartCount))
    (hturn : s.manager.front = !m.front)
    (hcross : crossing s.manager.activityStartCount m.activityStartCount = [m.front])
    (started : List α) :
    AfterStart callback (s.counted (m, m.onFrontBackChanged m.front) started) := by
  have hnew : (s.counted (m, m.onFrontBackChanged m.front) started).crossings =
      s.crossings ++ [m.front] := congrArg _ hcross
  refine ⟨?_, ?_, ?_, hfront⟩
  · rw [callsOf_counted, hcalls, hnew, hs.crossings]
    rfl
  · rw [hnew, List.isChain_append]
    refine ⟨hs.chain, List.isChain_singleton _, ?_⟩
    intro x hx y hy
    rw [hs.last, hturn] at hx
    obtain rfl := Option.mem_some_iff.mp hx
    obtain rfl : m.front = y := by simpa using hy
    simp
  · rw [hnew, List.getLast?_concat]
    rfl

/-- Nothing is heard while the count stays above zero. -/
theorem AfterStart.stay (hs : AfterStart callback s) {m : ActivityManager α γ}
    (hfront : m.front = decide (0 < m.activityStartCount))
    (hstay : s.manager.front = m.front)
    (hcross : crossing s.manager.activityStartCount m.activityStartCount = [])
    (started : List α) : AfterStart callback (s.counted (m, []) started) := by
  have hnew : (s.counted (m, []) started).crossings = s.crossings := by
    simp [counted, hcross]
  refine ⟨?_, ?_, ?_, hfront⟩
  · simpa [callsOf_counted, hnew] using hs.crossings
  · rw [hnew]
    exact hs.chain
  · rw [hnew, hs.last, hstay]
    rfl

/-- The first start is heard by nobody. -/
theorem BeforeStart.first (hs : BeforeStart callback s) {m : ActivityManager α γ}
    (hzero : s.manager.activityStartCount = 0) (hone : m.activityStartCount = 1)
    (hfront : m.front = true) (started : List α) :
    AfterStart callback (s.counted (m, []) started) := by
  have hnew : (s.counted (m, []) started).crossings = [true] := by
    simp [counted, hs.crossings, hzero, hone, crossing]
  refine ⟨?_, ?_, ?_, ?_⟩
  · simpa [callsOf_counted, hs.calls] using hnew
  · rw [hnew]
    exact List.isChain_singleton _
  · rw [hnew, List.getLast?_singleton]
    exact congrArg some hfront.symm
  · simp [counted, hone, hfront]

theorem crossing_of_pos {before after : ℤ} (hbefore : 0 < before) (hafter : 0 < after) :
    crossing before after = [] := by
  have hbefore' : before ≠ 0 := by omega
  have hafter' : after ≠ 0 := by omega
  simp [crossing, hbefore', hafter']

theorem Tracking.started (h : Tracking callback s) (activity : α) :
    Tracking callback (s.counted s.manager.onActivityStarted (activity :: s.started)) ∧
      s.manager.onActivityStarted.1.front = true := by
  have hcount : s.manager.activityStartCount + 1 = (activity :: s.started).length := by
    simp [h.count]
  cases hfront : s.manager.front with
  | true =>
      rw [onActivityStarted_of_front hfront]
      refine ⟨⟨h.nodup, h.registered, hcount, .inr ?_⟩, rfl⟩
      rcases h.phase with hs | hs
      · have hzero : s.manager.activityStartCount = 0 := by simp [h.count, hs.started]
        exact hs.first hzero (by simp [hzero]) rfl _
      · have hpos : 0 < s.manager.activityStartCount := by simpa [hfront] using hs.front
        have hpos' : 0 < s.manager.activityStartCount + 1 := by omega
        exact hs.stay (decide_eq_true hpos').symm hfront (crossing_of_pos hpos hpos') _
  | false =>
      -- the application comes back: it has been in front before
      have hs : AfterStart callback s := by
        refine h.phase.resolve_left fun hs ↦ ?_
        simp [hs.front] at hfront
      have hzero : s.manager.activityStartCount = 0 := by
        have hle : ¬ 0 < s.manager.activityStartCount := by simpa [hfront] using hs.front
        have hcount := h.count
        omega
      rw [hzero] at hcount
      rw [onActivityStarted_of_back hfront hzero]
      refine ⟨⟨h.nodup, h.registered, hcount, .inr ?_⟩, rfl⟩
      exact hs.turn (m := s.manager.withFront 1 true)
        (filter_onFrontBackChanged h.nodup h.registered true) rfl hfront
        (by simp [hzero, crossing]) _

theorem Tracking.stopped [DecidableEq α] (h : Tracking callback s) {activity : α}
    (hmem : activity ∈ s.started) :
    Tracking callback (s.counted s.manager.onActivityStopped (s.started.erase activity)) ∧
      s.manager.onActivityStopped.1.front =
        decide (0 < s.manager.onActivityStopped.1.activityStartCount) := by
  have hstarted : 0 < s.started.length := List.length_pos_of_mem hmem
  have hpos : 0 < s.manager.activityStartCount := by
    rw [h.count]
    omega
  have hcount : s.manager.activityStartCount - 1 = (s.started.erase activity).length := by
    rw [h.count, List.length_erase_of_mem hmem]
    omega
  have hs : AfterStart callback s := by
    refine h.phase.resolve_left fun hs ↦ ?_
    simp [hs.started] at hmem
  have hfront : s.manager.front = true := by simpa [hpos] using hs.front
  by_cases hone : s.manager.activityStartCount = 1
  · rw [hone] at hcount
    rw [onActivityStopped_of_one hfront hone]
    refine ⟨⟨h.nodup, h.registered, hcount, .inr ?_⟩, rfl⟩
    exact hs.turn (m := s.manager.withFront 0 false)
      (filter_onFrontBackChanged h.nodup h.registered false) rfl hfront
      (by simp [hone, crossing]) _
  · have hpos' : 0 < s.manager.activityStartCount - 1 := by omega
    rw [onActivityStopped_of_gt hfront hpos']
    refine ⟨⟨h.nodup, h.registered, hcount, .inr ?_⟩, (decide_eq_true hpos').symm⟩
    exact hs.stay (decide_eq_true hpos').symm hfront (crossing_of_pos hpos hpos') _

/-- What does not start or stop an activity is not tracked. -/
theorem Tracking.frame (h : Tracking callback s) {m : ActivityManager α γ}
    (hcount : m.activityStartCount = s.manager.activityStartCount)
    (hfront : m.front = s.manager.front) (hnodup : m.frontBackCallbacks.Nodup)
    (hregistered : callback ∈ m.frontBackCallbacks) :
    Tracking callback { s with manager := m } where
  nodup := hnodup
  registered := hregistered
  count := hcount.trans h.count
  phase := by
    rcases h.phase with hs | hs
    · exact .inl ⟨hs.crossings, hs.calls, hs.started, hfront.trans hs.front⟩
    · refine .inr ⟨hs.crossings, hs.chain, ?_, ?_⟩
      · rw [hfront]
        exact hs.last
      · rw [hfront, hcount]
        exact hs.front

theorem nodup_addFrontBackCallback {m : ActivityManager α γ}
    (h : m.frontBackCallbacks.Nodup) (other : γ) :
    (m.addFrontBackCallback other).frontBackCallbacks.Nodup := by
  unfold addFrontBackCallback
  split
  · exact h
  · rename_i hnew
    rw [List.nodup_append]
    refine ⟨h, by simp, ?_⟩
    rintro c hc d hd rfl
    exact hnew (List.mem_singleton.mp hd ▸ hc)

/-- A manager before the first event. -/
theorem tracking_initial {m : ActivityManager α γ} (hnodup : m.frontBackCallbacks.Nodup)
    (hmem : callback ∈ m.frontBackCallbacks) (hcount : m.activityStartCount = 0)
    (hfront : m.front = true) : Tracking callback { manager := m } :=
  ⟨hnodup, hmem, hcount, .inl ⟨rfl, rfl, rfl, hfront⟩⟩

end

/-! ## Runs -/

variable [DecidableEq α] [DecidableEq γ]

theorem Tracking.step (h : Tracking callback s) {event : Event α γ}
    (hevent : event ≠ .removeFrontBackCallback callback) (hstep : s.step event = some t) :
    Tracking callback t := by
  cases event with
  | onActivityStarted activity =>
      rw [← Option.some.inj hstep]
      exact (h.started activity).1
  | onActivityStopped activity =>
      simp only [Tracked.step] at hstep
      split at hstep
      · rename_i hmem
        rw [← Option.some.inj hstep]
        exact (h.stopped hmem).1
      · simp at hstep
  | onActivityDestroyed activity =>
      rw [← Option.some.inj hstep]
      unfold onActivityDestroyed
      split <;> exact h.frame rfl rfl h.nodup h.registered
  | addFrontBackCallback other =>
      rw [← Option.some.inj hstep]
      refine h.frame ?_ ?_ (nodup_addFrontBackCallback h.nodup other) ?_
      · unfold addFrontBackCallback
        split <;> rfl
      · unfold addFrontBackCallback
        split <;> rfl
      · unfold addFrontBackCallback
        split
        · exact h.registered
        · exact List.mem_append_left _ h.registered
  | removeFrontBackCallback other =>
      rw [← Option.some.inj hstep]
      refine h.frame rfl rfl (h.nodup.erase other) ?_
      refine (List.mem_erase_of_ne ?_).mpr h.registered
      rintro rfl
      exact hevent rfl
  | onActivityCreated activity | collected activity | getTopActivity P onlyAlive =>
      rw [← Option.some.inj hstep]
      exact h.frame rfl rfl h.nodup h.registered

theorem Tracking.run {events : List (Event α γ)} (h : Tracking callback s)
    (hevents : ∀ event ∈ events, event ≠ .removeFrontBackCallback callback)
    (hrun : run Tracked.step s events = some t) : Tracking callback t :=
  run_invariant (I := Tracking callback) (C := fun _ event ↦
      event ≠ .removeFrontBackCallback callback)
    (fun _ _ _ hu hevent hstep ↦ hu.step hevent hstep) h
    (stepsMeet_of_forall_mem hevents) hrun

end Tracked

/-- After a start the application is in front, after a stop it is if an activity is
still started, and a callback that was there from the beginning is told of every time
the count leaves zero or comes back to it, but for the first. -/
theorem front_tracks_count [DecidableEq α] [DecidableEq γ] {callbacks : List γ}
    (hnodup : callbacks.Nodup) {callback : γ} (hmem : callback ∈ callbacks)
    {events : List (Event α γ)}
    (hevents : ∀ event ∈ events, event ≠ .removeFrontBackCallback callback)
    {t : Tracked α γ}
    (hrun : run Tracked.step { manager := { frontBackCallbacks := callbacks } } events =
      some t) :
    (∀ init activity, events = init ++ [.onActivityStarted activity] →
      t.manager.front = true) ∧
    (∀ init activity, events = init ++ [.onActivityStopped activity] →
      t.manager.front = decide (0 < t.manager.activityStartCount)) ∧
    t.callsOf callback = t.crossings.tail ∧
    (t.callsOf callback).IsChain (· ≠ ·) ∧ (t.callsOf callback).head? ≠ some true := by
  have hinit : Tracked.Tracking callback
      ({ manager := { frontBackCallbacks := callbacks } } : Tracked α γ) :=
    Tracked.tracking_initial hnodup hmem rfl rfl
  refine ⟨?_, ?_, (hinit.run hevents hrun).calls_eq_tail⟩
  · rintro init activity rfl
    obtain ⟨u, hu, hstep⟩ := run_concat_eq_some_iff.mp hrun
    have htracking := hinit.run (fun event he ↦ hevents event (by simp [he])) hu
    rw [← Option.some.inj hstep]
    exact (htracking.started activity).2
  · rintro init activity rfl
    obtain ⟨u, hu, hstep⟩ := run_concat_eq_some_iff.mp hrun
    have htracking := hinit.run (fun event he ↦ hevents event (by simp [he])) hu
    simp only [Tracked.step] at hstep
    split at hstep
    · rename_i hstarted
      rw [← Option.some.inj hstep]
      exact (htracking.stopped hstarted).2
    · simp at hstep

/-- Two activities that overlap. -/
def overlapRun : List (Event (Fin 2) (Fin 1)) :=
  [.onActivityStarted 0, .onActivityStarted 1, .onActivityStopped 0, .onActivityStopped 1]

theorem front_tracks_count_overlap :
    ∃ t, run Tracked.step { manager := { frontBackCallbacks := [(0 : Fin 1)] } }
        overlapRun = some t ∧
      t.callsOf 0 = [false] ∧ t.manager.front = false := by
  obtain ⟨t, hrun, hcrossings, hcount⟩ : ∃ t,
      run Tracked.step { manager := { frontBackCallbacks := [(0 : Fin 1)] } }
        overlapRun = some t ∧
      t.crossings = [true, false] ∧ t.manager.activityStartCount = 0 :=
    ⟨_, rfl, by decide, by decide⟩
  have hevents : ∀ event ∈ overlapRun, event ≠ .removeFrontBackCallback 0 := by
    simp [overlapRun]
  obtain ⟨-, hstop, hcalls, -⟩ :=
    front_tracks_count (by decide) (by decide) hevents hrun
  refine ⟨t, hrun, ?_, ?_⟩
  · rw [hcalls, hcrossings]
    rfl
  · rw [hstop [.onActivityStarted 0, .onActivityStarted 1, .onActivityStopped 0] 1 rfl, hcount]
    rfl

end ActivityManager

end HiApp.Util
