import HiApp.Fps.FrameMonitor
import HiApp.Util.Foreground

/-!
# The view of the frame rate

`FpsMonitor` shows its view over the other windows.  It is shown and taken away by hand, and
whenever the application comes to the front or leaves it.
-/

namespace HiApp.Fps

open Runs Util

variable {α γ κ : Type*}

inductive WindowException where
  | alreadyAdded
  | notAttached
  deriving DecidableEq, Repr

/-- In the lists of callbacks `none` stands for that of the viewer.  `attached` is what the window
manager knows of the view, and `settings` counts how often the settings were opened. -/
structure FpsViewer (α γ κ : Type*) where
  tracked : ActivityManager.Tracked α (Option γ)
  canDrawOverlays : Bool
  frameMonitor : FrameMonitor (Option κ) := {}
  isPlaying : Bool := false
  attached : Bool := false
  settings : ℕ := 0
  exceptions : List WindowException := []

namespace FpsViewer

inductive Action (α γ κ : Type*) where
  | manager (event : ActivityManager.Event α γ)
  | toggle
  | listener (callback : κ)
  | grant (canDrawOverlays : Bool)
  | doFrame (frameTimeNanos : ℤ)

section

variable (sdkInt : ℕ) (s : FpsViewer α γ κ)

/-- `windowManager!!.addView(fpsView, params)`. -/
def addView : FpsViewer α γ κ :=
  if s.attached then { s with exceptions := s.exceptions ++ [.alreadyAdded] }
  else { s with attached := true }

def removeView : FpsViewer α γ κ :=
  if s.attached then { s with attached := false }
  else { s with exceptions := s.exceptions ++ [.notAttached] }

def hasOverlayPermission : Bool := decide (sdkInt < 23) || s.canDrawOverlays

def startOverlaySettingActivity : FpsViewer α γ κ :=
  if 23 ≤ sdkInt then { s with settings := s.settings + 1 } else s

def stop : FpsViewer α γ κ :=
  let s := { s with frameMonitor := s.frameMonitor.stop }
  if s.isPlaying then removeView { s with isPlaying := false } else s

def play : FpsViewer α γ κ :=
  if !s.hasOverlayPermission sdkInt then s.startOverlaySettingActivity sdkInt
  else
    let s := { s with frameMonitor := s.frameMonitor.start }
    if !s.isPlaying then addView { s with isPlaying := true } else s

def toggle : FpsViewer α γ κ :=
  if s.isPlaying then s.stop else s.play sdkInt

/-- `FrontBackCallback.onChange`. -/
def onChange (front : Bool) : FpsViewer α γ κ :=
  if front then s.play sdkInt else s.stop

end

/-- The events of the application; nobody else has the callback of the viewer. -/
def ofManager : ActivityManager.Event α γ → ActivityManager.Event α (Option γ)
  | .onActivityCreated activity => .onActivityCreated activity
  | .onActivityStarted activity => .onActivityStarted activity
  | .onActivityStopped activity => .onActivityStopped activity
  | .onActivityDestroyed activity => .onActivityDestroyed activity
  | .collected activity => .collected activity
  | .getTopActivity P onlyAlive => .getTopActivity P onlyAlive
  | .addFrontBackCallback callback => .addFrontBackCallback (some callback)
  | .removeFrontBackCallback callback => .removeFrontBackCallback (some callback)

/-- What the viewer is told between two states of the manager. -/
def told (before after : ActivityManager.Tracked α (Option γ)) : List Bool :=
  ((after.received.drop before.received.length).filter fun e ↦ e.1 = none).map Prod.snd

def step [DecidableEq α] [DecidableEq γ] (sdkInt : ℕ) (s : FpsViewer α γ κ) :
    Action α γ κ → Option (FpsViewer α γ κ)
  | .manager event =>
      (s.tracked.step (ofManager event)).map fun tracked ↦
        (told s.tracked tracked).foldl (onChange sdkInt) { s with tracked := tracked }
  | .toggle => some (s.toggle sdkInt)
  | .listener callback =>
      some { s with frameMonitor := s.frameMonitor.addListener (some callback) }
  | .grant canDrawOverlays => some { s with canDrawOverlays := canDrawOverlays }
  | .doFrame frameTimeNanos =>
      if 0 < s.frameMonitor.posted then
        some { s with
          frameMonitor := FrameMonitor.doFrame
            { s.frameMonitor with posted := s.frameMonitor.posted - 1 } frameTimeNanos }
      else none

/-- The viewer is made at the first use, whatever the application did before. -/
def start [DecidableEq γ] (tracked : ActivityManager.Tracked α (Option γ))
    (canDrawOverlays : Bool) : FpsViewer α γ κ where
  tracked := { tracked with manager := tracked.manager.addFrontBackCallback none }
  canDrawOverlays := canDrawOverlays
  frameMonitor := FrameMonitor.addListener {} none

/-- The view is toggled only while the application is in front. -/
def InFront (s : FpsViewer α γ κ) : Action α γ κ → Prop
  | .toggle => s.tracked.manager.front = true
  | .manager _ | .listener _ | .grant _ | .doFrame _ => True

instance (s : FpsViewer α γ κ) : DecidablePred s.InFront
  | .toggle => inferInstanceAs (Decidable (_ = _))
  | .manager _ | .listener _ | .grant _ | .doFrame _ => inferInstanceAs (Decidable True)

/-! ## The application comes and goes -/

section

variable {s t : ActivityManager.Tracked α (Option γ)}

/-- Those who are told are told of a change. -/
theorem onActivityStarted_cases (m : ActivityManager α γ) :
    m.onActivityStarted.1.frontBackCallbacks = m.frontBackCallbacks ∧
      (m.onActivityStarted.2 = [] ∧ m.onActivityStarted.1.front = m.front ∨
        m.front = false ∧ m.onActivityStarted.1.front = true ∧
          m.onActivityStarted.2 = m.onFrontBackChanged true) := by
  unfold ActivityManager.onActivityStarted
  dsimp only
  split
  · rename_i hback
    rw [Bool.and_eq_true, Bool.not_eq_true'] at hback
    exact ⟨rfl, .inr ⟨hback.1, rfl, rfl⟩⟩
  · exact ⟨rfl, .inl ⟨rfl, rfl⟩⟩

theorem onActivityStopped_cases (m : ActivityManager α γ) :
    m.onActivityStopped.1.frontBackCallbacks = m.frontBackCallbacks ∧
      (m.onActivityStopped.2 = [] ∧ m.onActivityStopped.1.front = m.front ∨
        m.front = true ∧ m.onActivityStopped.1.front = false ∧
          m.onActivityStopped.2 = m.onFrontBackChanged false) := by
  unfold ActivityManager.onActivityStopped
  dsimp only
  split
  · rename_i hfront
    rw [Bool.and_eq_true] at hfront
    exact ⟨rfl, .inr ⟨hfront.2, rfl, rfl⟩⟩
  · exact ⟨rfl, .inl ⟨rfl, rfl⟩⟩

/-- The callback of the viewer is registered, and once. -/
structure Registered (s : ActivityManager.Tracked α (Option γ)) : Prop where
  nodup : s.manager.frontBackCallbacks.Nodup
  mem : none ∈ s.manager.frontBackCallbacks

theorem told_counted (r : ActivityManager α (Option γ) × List (Option γ × Bool))
    (started : List α) :
    told s (s.counted r started) = (r.2.filter fun e ↦ e.1 = none).map Prod.snd := by
  rw [told, ActivityManager.Tracked.counted, List.drop_left]

theorem told_of_received_eq (h : t.received = s.received) : told s t = [] := by
  rw [told, h, List.drop_length]
  rfl

/-- A change that is told reaches the viewer. -/
theorem Registered.counted [DecidableEq γ] (h : Registered s)
    {r : ActivityManager α (Option γ) × List (Option γ × Bool)}
    (hcallbacks : r.1.frontBackCallbacks = s.manager.frontBackCallbacks)
    (hr : r.2 = [] ∧ r.1.front = s.manager.front ∨
      s.manager.front = !r.1.front ∧ r.2 = s.manager.onFrontBackChanged r.1.front)
    (started : List α) :
    Registered (s.counted r started) ∧
      (told s (s.counted r started) = [] ∧
          (s.counted r started).manager.front = s.manager.front ∨
        s.manager.front = !(s.counted r started).manager.front ∧
          told s (s.counted r started) = [(s.counted r started).manager.front]) := by
  refine ⟨⟨hcallbacks ▸ h.nodup, hcallbacks ▸ h.mem⟩, ?_⟩
  rw [told_counted]
  obtain ⟨hnil, hfront⟩ | ⟨hturn, hcalls⟩ := hr
  · rw [hnil]
    exact .inl ⟨rfl, hfront⟩
  · rw [hcalls, ActivityManager.filter_onFrontBackChanged h.nodup h.mem]
    exact .inr ⟨hturn, rfl⟩

theorem mem_addFrontBackCallback {δ : Type*} [DecidableEq δ] {m : ActivityManager α δ}
    {callback other : δ} :
    callback ∈ (m.addFrontBackCallback other).frontBackCallbacks ↔
      callback = other ∨ callback ∈ m.frontBackCallbacks := by
  unfold ActivityManager.addFrontBackCallback
  split
  · rename_i hmem
    refine ⟨.inr, ?_⟩
    rintro (rfl | hold)
    · exact hmem
    · exact hold
  · rw [List.mem_append, List.mem_singleton, or_comm]

theorem mem_removeFrontBackCallback {δ : Type*} [DecidableEq δ] {m : ActivityManager α δ}
    (hnodup : m.frontBackCallbacks.Nodup) {callback other : δ} (hne : callback ≠ other)
    (hmem : callback ∈ m.frontBackCallbacks) :
    (m.removeFrontBackCallback other).frontBackCallbacks.Nodup ∧
      callback ∈ (m.removeFrontBackCallback other).frontBackCallbacks :=
  ⟨hnodup.erase other, (List.mem_erase_of_ne hne).mpr hmem⟩

theorem Registered.step [DecidableEq α] [DecidableEq γ] (h : Registered s)
    {event : ActivityManager.Event α γ}
    (hstep : s.step (ofManager event) = some t) :
    Registered t ∧ (told s t = [] ∧ t.manager.front = s.manager.front ∨
      s.manager.front = !t.manager.front ∧ told s t = [t.manager.front]) := by
  cases event with
  | onActivityStarted activity =>
      obtain rfl := Option.some.inj hstep
      obtain ⟨hcallbacks, hcases⟩ := onActivityStarted_cases s.manager
      refine h.counted hcallbacks (hcases.imp_right ?_) _
      rintro ⟨hback, hfront, hcalls⟩
      exact ⟨by rw [hback, hfront]; rfl, by rw [hcalls, hfront]⟩
  | onActivityStopped activity =>
      obtain ⟨-, hsome⟩ := Option.ite_none_right_eq_some.mp hstep
      obtain rfl := Option.some.inj hsome
      obtain ⟨hcallbacks, hcases⟩ := onActivityStopped_cases s.manager
      refine h.counted hcallbacks (hcases.imp_right ?_) _
      rintro ⟨hfront, hback, hcalls⟩
      exact ⟨by rw [hback, hfront]; rfl, by rw [hcalls, hback]⟩
  | onActivityCreated activity | collected activity | getTopActivity P onlyAlive =>
      obtain rfl := Option.some.inj hstep
      exact ⟨⟨h.nodup, h.mem⟩, .inl ⟨told_of_received_eq rfl, rfl⟩⟩
  | onActivityDestroyed activity =>
      obtain rfl := Option.some.inj hstep
      dsimp only
      unfold ActivityManager.onActivityDestroyed
      split <;> exact ⟨⟨h.nodup, h.mem⟩, .inl ⟨told_of_received_eq rfl, rfl⟩⟩
  | addFrontBackCallback callback =>
      obtain rfl := Option.some.inj hstep
      have hmem : none ∈ (s.manager.addFrontBackCallback (some callback)).frontBackCallbacks :=
        mem_addFrontBackCallback.mpr (.inr h.mem)
      have hfront : (s.manager.addFrontBackCallback (some callback)).front =
          s.manager.front := by
        unfold ActivityManager.addFrontBackCallback
        split <;> rfl
      exact ⟨⟨ActivityManager.Tracked.nodup_addFrontBackCallback h.nodup _, hmem⟩,
        .inl ⟨told_of_received_eq rfl, hfront⟩⟩
  | removeFrontBackCallback callback =>
      obtain rfl := Option.some.inj hstep
      obtain ⟨hnodup, hmem⟩ := mem_removeFrontBackCallback h.nodup
        (Option.some_ne_none callback).symm h.mem
      exact ⟨⟨hnodup, hmem⟩, .inl ⟨told_of_received_eq rfl, rfl⟩⟩

end

/-! ## The view -/

section

variable {sdkInt : ℕ} {s s' : FpsViewer α γ κ}

/-- The view is there just while the viewer plays, and just then frames are asked for. -/
structure Shown (s : FpsViewer α γ κ) : Prop where
  exceptions : s.exceptions = []
  attached : s.attached = s.isPlaying
  posted : 0 < s.frameMonitor.posted ↔ s.isPlaying = true

theorem Shown.stop (h : Shown s) : Shown s.stop ∧ s.stop.isPlaying = false := by
  unfold FpsViewer.stop
  dsimp only
  split
  · rename_i hplaying
    have hattached : s.attached = true := h.attached.trans hplaying
    rw [removeView, if_pos hattached]
    exact ⟨⟨h.exceptions, rfl, by simp [FrameMonitor.stop]⟩, rfl⟩
  · rename_i hplaying
    rw [Bool.not_eq_true] at hplaying
    refine ⟨⟨h.exceptions, h.attached, ?_⟩, hplaying⟩
    simp [FrameMonitor.stop, hplaying]

/-- Playing once more asks for frames once more. -/
theorem Shown.play (h : Shown s) (sdkInt : ℕ) :
    Shown (s.play sdkInt) ∧
      ((s.play sdkInt).isPlaying = s.isPlaying ∧
          (s.play sdkInt).frameMonitor = s.frameMonitor ∨
        (s.play sdkInt).isPlaying = true ∧
          (s.play sdkInt).frameMonitor.posted = s.frameMonitor.posted + 1) := by
  unfold FpsViewer.play
  split
  · unfold startOverlaySettingActivity
    split <;> exact ⟨⟨h.exceptions, h.attached, h.posted⟩, .inl ⟨rfl, rfl⟩⟩
  · dsimp only
    split
    · rename_i hplaying
      have hattached : ¬ s.attached = true := by simpa [h.attached] using hplaying
      rw [addView, if_neg hattached]
      exact ⟨⟨h.exceptions, rfl, by simp [FrameMonitor.start]⟩, .inr ⟨rfl, rfl⟩⟩
    · rename_i hplaying
      have hplaying : s.isPlaying = true := by simpa using hplaying
      refine ⟨⟨h.exceptions, h.attached, ?_⟩, .inr ⟨hplaying, rfl⟩⟩
      simp [FrameMonitor.start, hplaying]

theorem Shown.toggle (h : Shown s) : Shown (s.toggle sdkInt) := by
  unfold FpsViewer.toggle
  split
  · exact h.stop.1
  · exact (h.play sdkInt).1

theorem Shown.onChange (h : Shown s) (front : Bool) : Shown (s.onChange sdkInt front) := by
  cases front with
  | true => exact (h.play sdkInt).1
  | false => exact h.stop.1

theorem Shown.foldl_onChange (h : Shown s) (fronts : List Bool) :
    Shown (fronts.foldl (FpsViewer.onChange sdkInt) s) := by
  induction fronts generalizing s with
  | nil => exact h
  | cons front fronts ih => exact ih (h.onChange front)

theorem stop_frame (s : FpsViewer α γ κ) :
    s.stop.tracked = s.tracked ∧ s.stop.frameMonitor.posted = 0 := by
  unfold FpsViewer.stop removeView
  dsimp only
  split
  · split <;> exact ⟨rfl, rfl⟩
  · exact ⟨rfl, rfl⟩

theorem play_tracked (s : FpsViewer α γ κ) : (s.play sdkInt).tracked = s.tracked := by
  unfold FpsViewer.play startOverlaySettingActivity addView
  dsimp only
  split
  · split <;> rfl
  · split
    · split <;> rfl
    · rfl

theorem doFrame_posted (frameMonitor : FrameMonitor (Option κ)) (frameTimeNanos : ℤ) :
    (frameMonitor.doFrame frameTimeNanos).posted = frameMonitor.posted + 1 := by
  unfold FrameMonitor.doFrame
  dsimp only
  split
  · split <;> rfl
  · rfl

/-- Frames are asked for at most once, and in the background not at all. -/
structure Single (s : FpsViewer α γ κ) : Prop where
  registered : Registered s.tracked
  posted : s.frameMonitor.posted = s.isPlaying.toNat
  background : s.tracked.manager.front = false → s.isPlaying = false

theorem Single.stop (hs : Shown s) (h : Registered s.tracked) : Single s.stop := by
  obtain ⟨htracked, hposted⟩ := stop_frame s
  obtain ⟨-, hplaying⟩ := hs.stop
  exact ⟨htracked ▸ h, by rw [hposted, hplaying]; rfl, fun _ ↦ hplaying⟩

theorem Single.play (hs : Shown s) (h : Registered s.tracked)
    (hfront : s.tracked.manager.front = true) (hplaying : s.isPlaying = false) :
    Single (s.play sdkInt) := by
  have hposted : s.frameMonitor.posted = 0 := by
    have hnot : ¬ 0 < s.frameMonitor.posted := by simp [hs.posted, hplaying]
    omega
  refine ⟨(play_tracked s).symm ▸ h, ?_, ?_⟩
  · obtain ⟨-, ⟨hstill, hmonitor⟩ | ⟨hnow, hmonitor⟩⟩ := hs.play sdkInt
    · rw [hmonitor, hstill, hplaying, hposted]
      rfl
    · rw [hmonitor, hnow, hposted]
      rfl
  · rw [play_tracked, hfront]
    exact nofun

end

section

variable [DecidableEq α] [DecidableEq γ] {sdkInt : ℕ} {s s' : FpsViewer α γ κ}
  {a : Action α γ κ}

theorem Shown.step (h : Shown s) (hstep : s.step sdkInt a = some s') : Shown s' := by
  cases a with
  | manager event =>
      obtain ⟨tracked, -, rfl⟩ := Option.map_eq_some_iff.mp hstep
      have htracked : Shown { s with tracked := tracked } :=
        ⟨h.exceptions, h.attached, h.posted⟩
      exact htracked.foldl_onChange _
  | toggle =>
      obtain rfl := Option.some.inj hstep
      exact h.toggle
  | listener callback | grant canDrawOverlays =>
      obtain rfl := Option.some.inj hstep
      exact ⟨h.exceptions, h.attached, h.posted⟩
  | doFrame frameTimeNanos =>
      obtain ⟨hposted, hsome⟩ := Option.ite_none_right_eq_some.mp hstep
      obtain rfl := Option.some.inj hsome
      refine ⟨h.exceptions, h.attached, ?_⟩
      rw [doFrame_posted]
      exact iff_of_true (Nat.succ_pos _) (h.posted.mp hposted)

theorem Single.step (h : Single s) (hs : Shown s) (hfront : InFront s a)
    (hstep : s.step sdkInt a = some s') : Single s' := by
  cases a with
  | manager event =>
      obtain ⟨tracked, htracked, rfl⟩ := Option.map_eq_some_iff.mp hstep
      obtain ⟨hregistered, ⟨htold, heq⟩ | ⟨hturn, htold⟩⟩ := h.registered.step htracked
      · rw [htold]
        exact ⟨hregistered, h.posted, fun hback ↦ h.background (heq ▸ hback)⟩
      · have hshown : Shown { s with tracked := tracked } :=
          ⟨hs.exceptions, hs.attached, hs.posted⟩
        rw [htold, List.foldl_cons, List.foldl_nil]
        cases hnow : tracked.manager.front with
        | true =>
            rw [hnow] at hturn
            exact Single.play hshown hregistered hnow (h.background hturn)
        | false => exact Single.stop hshown hregistered
  | toggle =>
      obtain rfl := Option.some.inj hstep
      unfold FpsViewer.toggle
      split
      · exact Single.stop hs h.registered
      · exact Single.play hs h.registered hfront (Bool.not_eq_true _ ▸ ‹¬ s.isPlaying = true›)
  | listener callback | grant canDrawOverlays =>
      obtain rfl := Option.some.inj hstep
      exact ⟨h.registered, h.posted, h.background⟩
  | doFrame frameTimeNanos =>
      obtain ⟨hposted, hsome⟩ := Option.ite_none_right_eq_some.mp hstep
      obtain rfl := Option.some.inj hsome
      refine ⟨h.registered, ?_, h.background⟩
      rw [doFrame_posted, ← h.posted]
      exact Nat.sub_add_cancel hposted

end

/-- In every run the window manager throws nothing, and the view is there just while frames are
asked for.  If it is toggled only in front, they are asked for once, and in the background it is
never there. -/
theorem viewer_of_run [DecidableEq α] [DecidableEq γ] {sdkInt : ℕ}
    {tracked : ActivityManager.Tracked α (Option γ)}
    (hnodup : tracked.manager.frontBackCallbacks.Nodup) {canDrawOverlays : Bool}
    {actions : List (Action α γ κ)} {s : FpsViewer α γ κ}
    (hrun : run (step sdkInt) (start tracked canDrawOverlays) actions = some s) :
    s.exceptions = [] ∧ s.attached = s.isPlaying ∧
      (0 < s.frameMonitor.posted ↔ s.isPlaying = true) ∧
      (StepsMeet (step sdkInt) InFront (start tracked canDrawOverlays) actions →
        s.frameMonitor.posted ≤ 1 ∧ (s.tracked.manager.front = false → s.attached = false)) := by
  have hstart : Shown (start tracked canDrawOverlays : FpsViewer α γ κ) :=
    ⟨rfl, rfl, by simp [start, FrameMonitor.addListener]⟩
  have hshown : Shown s := run_invariant' (fun _ _ _ h hstep ↦ h.step hstep) hstart hrun
  refine ⟨hshown.exceptions, hshown.attached, hshown.posted, ?_⟩
  intro hfront
  have hregistered : Registered (start tracked canDrawOverlays : FpsViewer α γ κ).tracked :=
    ⟨ActivityManager.Tracked.nodup_addFrontBackCallback hnodup none,
      mem_addFrontBackCallback.mpr (.inl rfl)⟩
  have hsingle : Shown s ∧ Single s :=
    run_invariant (I := fun s ↦ Shown s ∧ Single s)
      (fun _ _ _ h hfront hstep ↦ ⟨h.1.step hstep, h.2.step h.1 hfront hstep⟩)
      ⟨hstart, hregistered, rfl, fun _ ↦ rfl⟩ hfront hrun
  refine ⟨?_, fun hback ↦ hshown.attached.trans (hsingle.2.background hback)⟩
  rw [hsingle.2.posted]
  exact Bool.toNat_le _

/-- The viewer is made in front and shown, the application goes and comes back. -/
def awayAndBack : List (Action (Fin 1) (Fin 1) (Fin 1)) :=
  [.manager (.onActivityStarted 0), .toggle, .doFrame 16000000, .manager (.onActivityStopped 0),
    .manager (.onActivityStarted 0), .doFrame 32000000]

theorem viewer_of_run_awayAndBack :
    ∃ s, run (step 30) (start { manager := {} } true) awayAndBack = some s ∧
      s.attached = true ∧ s.exceptions = [] ∧ s.frameMonitor.posted ≤ 1 := by
  obtain ⟨s, hrun, hattached⟩ : ∃ s, run (step 30) (start { manager := {} } true) awayAndBack =
      some s ∧ s.attached = true := exists_run_of_any (by decide)
  obtain ⟨hexceptions, -, -, hsingle⟩ := viewer_of_run List.nodup_nil hrun
  exact ⟨s, hrun, hattached, hexceptions, (hsingle (by decide)).1⟩

end FpsViewer

end HiApp.Fps
