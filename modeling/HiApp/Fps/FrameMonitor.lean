import HiApp.Lib.Runs
import Mathlib.Data.Rat.Defs

/-!
# Frames in a second

`doFrame` counts frames and reports only while `frameStartTime` is positive, and it sets
`frameStartTime` only then.  Nothing else makes it positive.
-/

namespace HiApp.Fps

open Runs

variable {Callback : Type*}

/-- `posted` counts the callbacks that wait for the next frame, and `reports` has the calls of
`onFrame`. -/
structure FrameMonitor (Callback : Type*) where
  frameStartTime : ℤ := 0
  frameCount : ℕ := 0
  listeners : List Callback := []
  posted : ℕ := 0
  reports : List (Callback × ℚ) := []

namespace FrameMonitor

def start (monitor : FrameMonitor Callback) : FrameMonitor Callback :=
  { monitor with posted := monitor.posted + 1 }

def stop (monitor : FrameMonitor Callback) : FrameMonitor Callback :=
  { monitor with frameStartTime := 0, listeners := [], posted := 0 }

def addListener (monitor : FrameMonitor Callback) (callback : Callback) :
    FrameMonitor Callback :=
  { monitor with listeners := monitor.listeners ++ [callback] }

def doFrame (monitor : FrameMonitor Callback) (frameTimeNanos : ℤ) : FrameMonitor Callback :=
  let currentTimeMills := frameTimeNanos.tdiv 1000000
  let monitor :=
    if monitor.frameStartTime > 0 then
      let timeSpan := currentTimeMills - monitor.frameStartTime
      let frameCount := monitor.frameCount + 1
      if timeSpan > 1000 then
        let fps : ℚ := (frameCount * 1000 : ℕ) / timeSpan
        { monitor with
          reports := monitor.reports ++ monitor.listeners.map fun listener ↦ (listener, fps)
          frameCount := 0
          frameStartTime := currentTimeMills }
      else { monitor with frameCount := frameCount, frameStartTime := currentTimeMills }
    else monitor
  monitor.start

end FrameMonitor

/-! ### What should be reported -/

/-- A window begins with a frame, and `frameCount` counts those after it. -/
structure Window where
  startTimeNanos : ℤ
  frameCount : ℕ := 0

namespace Window

/-- Its length in milliseconds at a frame. -/
def timeSpan (window : Window) (frameTimeNanos : ℤ) : ℚ :=
  (frameTimeNanos - window.startTimeNanos : ℤ) / 1000000

/-- The frame rate, at the first frame that is more than a second after the beginning. -/
def fps (window : Window) (frameTimeNanos : ℤ) : Option ℚ :=
  if 1000 < window.timeSpan frameTimeNanos then
    some ((window.frameCount + 1) * 1000 / window.timeSpan frameTimeNanos)
  else none

/-- The window after a frame, which begins with the first frame and with every report. -/
def next (window : Option Window) (frameTimeNanos : ℤ) : Window :=
  match window with
  | none => { startTimeNanos := frameTimeNanos }
  | some window =>
      if 1000 < window.timeSpan frameTimeNanos then { startTimeNanos := frameTimeNanos }
      else { window with frameCount := window.frameCount + 1 }

end Window

/-- A monitor beside the window that it should have, and the reports that were `due`. -/
structure Session (Callback : Type*) where
  monitor : FrameMonitor Callback := {}
  lastFrameTimeNanos : Option ℤ := none
  window : Option Window := none
  due : List (Callback × ℚ) := []

inductive Action (Callback : Type*) where
  | addListener (callback : Callback)
  | start
  | stop
  | doFrame (frameTimeNanos : ℤ)
  deriving DecidableEq

namespace Session

/-- What a frame makes due. -/
def dueAt (session : Session Callback) (frameTimeNanos : ℤ) : List (Callback × ℚ) :=
  match session.window.bind fun window ↦ window.fps frameTimeNanos with
  | none => []
  | some fps => session.monitor.listeners.map fun listener ↦ (listener, fps)

/-- A posted callback is taken and run at a frame, and frames are not earlier than those
before. -/
def step (session : Session Callback) : Action Callback → Option (Session Callback)
  | .addListener callback =>
      some { session with monitor := session.monitor.addListener callback }
  | .start => some { session with monitor := session.monitor.start }
  | .stop => some { session with monitor := session.monitor.stop, window := none }
  | .doFrame frameTimeNanos =>
      if 0 < session.monitor.posted ∧
          ∀ last ∈ session.lastFrameTimeNanos, last ≤ frameTimeNanos then
        let monitor := { session.monitor with posted := session.monitor.posted - 1 }
        some
          { monitor := monitor.doFrame frameTimeNanos
            lastFrameTimeNanos := some frameTimeNanos
            window := some (Window.next session.window frameTimeNanos)
            due := session.due ++ session.dueAt frameTimeNanos }
      else none

/-- No listener is there, or the frame is in the first second of its window. -/
def Quiet (session : Session Callback) : Action Callback → Prop
  | .doFrame frameTimeNanos => session.monitor.listeners = [] ∨
      ∀ window ∈ session.window, window.timeSpan frameTimeNanos ≤ 1000
  | _ => True

instance (session : Session Callback) [DecidableEq Callback] : DecidablePred session.Quiet
  | .addListener _ => inferInstanceAs (Decidable True)
  | .start => inferInstanceAs (Decidable True)
  | .stop => inferInstanceAs (Decidable True)
  | .doFrame _ => inferInstanceAs (Decidable (_ ∨ _))

/-- The monitor is as new, but for its listeners. -/
structure Idle (session : Session Callback) : Prop where
  frameStartTime : session.monitor.frameStartTime = 0
  reports : session.monitor.reports = []

variable {session session' : Session Callback} {action : Action Callback}

theorem doFrame_of_frameStartTime {monitor : FrameMonitor Callback}
    (h : monitor.frameStartTime = 0) (frameTimeNanos : ℤ) :
    monitor.doFrame frameTimeNanos = monitor.start := by
  have hnot : ¬ monitor.frameStartTime > 0 := by
    omega
  rw [FrameMonitor.doFrame, if_neg hnot]

theorem Idle.step (h : session.Idle) (hstep : session.step action = some session') :
    session'.Idle := by
  cases action with
  | addListener callback =>
      obtain rfl := Option.some.inj hstep
      exact ⟨h.frameStartTime, h.reports⟩
  | start =>
      obtain rfl := Option.some.inj hstep
      exact ⟨h.frameStartTime, h.reports⟩
  | stop =>
      obtain rfl := Option.some.inj hstep
      exact ⟨rfl, h.reports⟩
  | doFrame frameTimeNanos =>
      obtain ⟨-, hsession'⟩ := Option.ite_none_right_eq_some.mp hstep
      obtain rfl := Option.some.inj hsession'
      let monitor := { session.monitor with posted := session.monitor.posted - 1 }
      have hzero : monitor.frameStartTime = 0 := h.frameStartTime
      have hframe := doFrame_of_frameStartTime hzero frameTimeNanos
      refine ⟨?_, ?_⟩
      · exact (congrArg FrameMonitor.frameStartTime hframe).trans h.frameStartTime
      · exact (congrArg FrameMonitor.reports hframe).trans h.reports

theorem dueAt_eq_nil_iff {frameTimeNanos : ℤ} :
    session.dueAt frameTimeNanos = [] ↔ session.Quiet (.doFrame frameTimeNanos) := by
  unfold dueAt Quiet
  cases session.window with
  | none => simp
  | some window =>
      rw [Option.bind_some, Window.fps]
      by_cases hspan : 1000 < window.timeSpan frameTimeNanos
      · simp [hspan, Rat.not_le.mpr hspan]
      · simp [hspan, Rat.not_lt.mp hspan]

/-- A step makes nothing due if and only if it is quiet. -/
theorem due_step_iff (hstep : session.step action = some session') :
    session'.due = [] ↔ session.due = [] ∧ session.Quiet action := by
  cases action with
  | addListener callback =>
      obtain rfl := Option.some.inj hstep
      exact (and_iff_left trivial).symm
  | start =>
      obtain rfl := Option.some.inj hstep
      exact (and_iff_left trivial).symm
  | stop =>
      obtain rfl := Option.some.inj hstep
      exact (and_iff_left trivial).symm
  | doFrame frameTimeNanos =>
      obtain ⟨-, hsession'⟩ := Option.ite_none_right_eq_some.mp hstep
      obtain rfl := Option.some.inj hsession'
      rw [List.append_eq_nil_iff, dueAt_eq_nil_iff]

/-- In a run the reports are those that were due if and only if none was. -/
theorem reports_eq_due_iff_quiet {actions : List (Action Callback)}
    (hrun : run step {} actions = some session) :
    session.monitor.reports = session.due ↔ StepsMeet step Quiet {} actions := by
  refine meets_iff_stepsMeet (I := Idle) (P := fun session ↦ session.monitor.reports = session.due)
    (fun _ _ _ hu hstep ↦ hu.step hstep) ?_ ⟨rfl, rfl⟩ rfl hrun
  intro u action v hu hstep
  rw [hu.reports, (hu.step hstep).reports, eq_comm, due_step_iff hstep, eq_comm (a := [])]

/-- A second of frames, and no more. -/
theorem reports_eq_due_iff_quiet_second :
    ∃ session, run step ({} : Session Unit) [.addListener (), .start, .doFrame 0,
        .doFrame 500000000, .doFrame 1000000000] = some session ∧
      session.monitor.reports = session.due := by
  obtain ⟨session, hrun, -⟩ : ∃ session, run step ({} : Session Unit) [.addListener (), .start,
      .doFrame 0, .doFrame 500000000, .doFrame 1000000000] = some session ∧ session.due = [] :=
    exists_run_of_any (by decide +kernel)
  exact ⟨session, hrun, (reports_eq_due_iff_quiet hrun).mpr (by decide +kernel)⟩

/-- Three frames in two seconds. -/
theorem not_reports_eq_due_second :
    ∃ session, run step ({} : Session Unit) [.addListener (), .start, .doFrame 1000000000,
        .doFrame 2000000000, .doFrame 3000000000] = some session ∧
      session.monitor.reports = [] ∧ session.due = [((), 1)] :=
  exists_run_of_any (by decide +kernel)

end Session

end HiApp.Fps
