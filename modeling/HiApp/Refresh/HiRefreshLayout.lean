import HiApp.Lib.Runs
import Mathlib.Data.Rat.Floor

/-!
# The pull-to-refresh layout

`HiRefreshLayout` moves a header and its content together.  The user drags them while
no automatic scroll is under way; when the user lets go, an `AutoScroller` moves them
back frame by frame, to the refresh position or to the top.
-/

namespace HiApp.Refresh

open Runs

inductive HiRefreshState where
  | init
  | visible
  | over
  | refresh
  | overRelease
  deriving DecidableEq

/-- What the listener and the layout tell each other. -/
inductive Event where
  | onRefresh
  | refreshFinished
  deriving DecidableEq

/-- `mPullRefreshHeight`, whether a listener is set, and what dividing by `minDamp` and
`maxDamp` makes of a distance. -/
structure Config where
  mPullRefreshHeight : ℕ
  listener : Bool
  minDamp : ℤ → ℤ
  maxDamp : ℤ → ℤ

/-- The damping of `HiOverView`, by 1.6 and by 2.2, and a listener. -/
def overViewConfig (mPullRefreshHeight : ℕ) : Config where
  mPullRefreshHeight
  listener := true
  minDamp y := (y * 10).tdiv 16
  maxDamp y := (y * 10).tdiv 22

/-- `reached` is the offset that the present scroll has reported; `currY` is left as it
was when a scroll is started. -/
structure Scroller where
  finished : Bool := true
  currY : ℤ := 0
  finalY : ℤ := 0
  reached : ℤ := 0
  deriving DecidableEq

/-- `callbacks` counts the frames that are posted. -/
structure AutoScroller where
  mScroller : Scroller := {}
  mLastY : ℤ := 0
  mIsFinished : Bool := true
  callbacks : ℕ := 0
  deriving DecidableEq

/-- `mState` is null at first.  `touching` says that a gesture is under way that the
layout has accepted, and `events` are listed with the latest in front. -/
structure HiRefreshLayout where
  mState : Option HiRefreshState := none
  overState : HiRefreshState := .init
  headBottom : ℤ := 0
  childTop : ℤ := 0
  mLastY : ℤ := 0
  disableRefreshScroll : Bool := false
  mAutoScroller : AutoScroller := {}
  touching : Bool := false
  events : List Event := []
  deriving DecidableEq

/-- A call of `onScroll`: the distance, whether the movement is rather horizontal, what
the listener's `enableRefresh` answers, whether the content is scrolled, and the top of
the scrollable view when it is nested in the content. -/
structure Scroll where
  distanceY : ℚ
  horizontal : Bool := false
  enableRefresh : Bool := true
  childScrolled : Bool := false
  nestedTop : Option ℤ := none

namespace AutoScroller

def recover (r : AutoScroller) (dis : ℤ) : AutoScroller :=
  if dis ≤ 0 then r
  else
    { mScroller := { r.mScroller with finished := false, finalY := dis, reached := 0 }
      mLastY := 0
      mIsFinished := false
      callbacks := 1 }

end AutoScroller

namespace HiRefreshLayout

def offsetTopAndBottom (s : HiRefreshLayout) (offset : ℤ) : HiRefreshLayout :=
  { s with headBottom := s.headBottom + offset, childTop := s.childTop + offset }

section

variable (c : Config)

def recover (s : HiRefreshLayout) (dis : ℤ) : HiRefreshLayout :=
  if c.listener = true ∧ c.mPullRefreshHeight < dis then
    { s with
      mAutoScroller := s.mAutoScroller.recover (dis - c.mPullRefreshHeight)
      mState := some .overRelease }
  else { s with mAutoScroller := s.mAutoScroller.recover dis }

def refreshFinished (s : HiRefreshLayout) : HiRefreshLayout :=
  let s₁ := { s with overState := .init, events := .refreshFinished :: s.events }
  let s₂ := if s₁.headBottom > 0 then s₁.recover c s₁.headBottom else s₁
  { s₂ with mState := some .init }

/-- `finishes`: the listener calls `refreshFinished` before its `onRefresh` returns. -/
def refresh (finishes : Bool) (s : HiRefreshLayout) : HiRefreshLayout :=
  if c.listener then
    let s₁ := { s with
      mState := some .refresh, overState := .refresh, events := .onRefresh :: s.events }
    if finishes then s₁.refreshFinished c else s₁
  else s

def moveDown (finishes : Bool) (s : HiRefreshLayout) (offsetY : ℤ) (nonAuto : Bool) :
    HiRefreshLayout :=
  let childTop := s.childTop + offsetY
  if childTop ≤ 0 then
    let s₁ := s.offsetTopAndBottom (-s.childTop)
    if s₁.mState ≠ some .refresh then { s₁ with mState := some .init } else s₁
  else if s.mState = some .refresh ∧ childTop > c.mPullRefreshHeight then s
  else if childTop ≤ c.mPullRefreshHeight then
    let s₁ :=
      if s.overState ≠ .visible ∧ nonAuto = true then
        { s with overState := .visible, mState := some .visible }
      else s
    let s₂ := s₁.offsetTopAndBottom offsetY
    if childTop = c.mPullRefreshHeight ∧ s₂.mState = some .overRelease then
      s₂.refresh c finishes
    else s₂
  else
    let s₁ := if s.overState ≠ .over ∧ nonAuto = true then { s with overState := .over } else s
    s₁.offsetTopAndBottom offsetY

/-- A cast to `int` cuts towards zero. -/
def toInt (q : ℚ) : ℤ := if 0 ≤ q then ⌊q⌋ else ⌈q⌉

/-- The offset that `onScroll` moves down by, if it does. -/
def drag (s : HiRefreshLayout) (e : Scroll) : Option ℤ :=
  if e.horizontal = true ∨ c.listener = true ∧ e.enableRefresh = false then none
  else if s.disableRefreshScroll = true ∧ s.mState = some .refresh then none
  else if e.childScrolled then none
  else if (s.mState ≠ some .refresh ∨ s.headBottom ≤ c.mPullRefreshHeight) ∧
      (s.headBottom > 0 ∨ e.distanceY ≤ 0) then
    if s.mState ≠ some .overRelease then
      some (if e.nestedTop.getD s.childTop < c.mPullRefreshHeight then c.minDamp s.mLastY
        else c.maxDamp s.mLastY)
    else none
  else none

def onScroll (finishes : Bool) (s : HiRefreshLayout) (e : Scroll) : HiRefreshLayout :=
  match s.drag c e with
  | none => s
  | some speed => { s.moveDown c finishes speed true with mLastY := toInt (-e.distanceY) }

/-- The end of a gesture, or its cancellation, in `dispatchTouchEvent`. -/
def release (s : HiRefreshLayout) : HiRefreshLayout :=
  if s.headBottom > 0 ∧ s.mState ≠ some .refresh then s.recover c s.headBottom
  else { s with mLastY := 0 }

def onLayout (s : HiRefreshLayout) : HiRefreshLayout :=
  if s.mState = some .refresh then
    { s with headBottom := c.mPullRefreshHeight, childTop := c.mPullRefreshHeight }
  else { s with headBottom := s.childTop }

/-- A frame of the `AutoScroller` in which the scroller reports `currY`. -/
def frame (finishes : Bool) (s : HiRefreshLayout) (currY : ℤ) (last : Bool) :
    HiRefreshLayout :=
  let scroller := { s.mAutoScroller.mScroller with currY, reached := currY, finished := last }
  let s₁ := { s with mAutoScroller := { s.mAutoScroller with
    mScroller := scroller, callbacks := s.mAutoScroller.callbacks - 1 } }
  let s₂ := s₁.moveDown c finishes (s₁.mAutoScroller.mLastY - currY) false
  { s₂ with mAutoScroller := { s₂.mAutoScroller with
      mLastY := s₂.mAutoScroller.mScroller.currY
      callbacks := s₂.mAutoScroller.callbacks + 1 } }

/-- The frame that finds the scroller finished. -/
def stop (s : HiRefreshLayout) : HiRefreshLayout :=
  { s with mAutoScroller := { s.mAutoScroller with callbacks := 0, mIsFinished := true } }

end

end HiRefreshLayout

inductive Action where
  | down
  | scroll (e : Scroll) (finishes : Bool)
  | up
  | frame (currY : ℤ) (last : Bool) (finishes : Bool)
  | stop
  | refreshFinished
  | onLayout
  | setDisableRefreshScroll (disableRefreshScroll : Bool)

namespace HiRefreshLayout

/-- The scroller may report an offset between the last one and the distance it was
started with, and reports this distance last. -/
def Reports (r : Scroller) (currY : ℤ) (last : Bool) : Prop :=
  r.finished = false ∧ r.reached ≤ currY ∧ currY ≤ r.finalY ∧ (last = true → currY = r.finalY)

instance (r : Scroller) (currY : ℤ) (last : Bool) : Decidable (Reports r currY last) :=
  inferInstanceAs (Decidable (_ ∧ _ ∧ _ ∧ _))

/-- While the `AutoScroller` is at work events are dropped: a gesture that begins then is
not the layout's, and one that ends then ends without effect. -/
def step (c : Config) (s : HiRefreshLayout) : Action → Option HiRefreshLayout
  | .down => some { s with touching := s.touching || s.mAutoScroller.mIsFinished }
  | .scroll e finishes =>
      if s.touching then
        some (if s.mAutoScroller.mIsFinished then s.onScroll c finishes e else s)
      else none
  | .up =>
      if s.touching then
        some { (if s.mAutoScroller.mIsFinished then s.release c else s) with touching := false }
      else none
  | .frame currY last finishes =>
      if 0 < s.mAutoScroller.callbacks ∧ Reports s.mAutoScroller.mScroller currY last then
        some (s.frame c finishes currY last)
      else none
  | .stop =>
      if 0 < s.mAutoScroller.callbacks ∧ s.mAutoScroller.mScroller.finished = true then
        some s.stop
      else none
  | .refreshFinished => some (s.refreshFinished c)
  | .onLayout => some (s.onLayout c)
  | .setDisableRefreshScroll disableRefreshScroll => some { s with disableRefreshScroll }

end HiRefreshLayout

end HiApp.Refresh
