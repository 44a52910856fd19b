import HiApp.Refresh.HiRefreshLayout

/-!
# Where the header comes to rest

A header that is let go beyond the refresh position is moved to this position and then
refreshes.  `refreshFinished` uses the same `recover`, but overwrites the state that
would make the layout refresh there: a header that it finds beyond the refresh position
stops half open.
-/

namespace HiApp.Refresh

open Runs

namespace HiRefreshLayout

/-- With no gesture and no automatic scroll under way the header is closed, or the layout
is refreshing. -/
def AtRest (s : HiRefreshLayout) : Prop :=
  s.mAutoScroller.mIsFinished = true → s.touching = false →
    s.childTop = 0 ∨ s.mState = some .refresh

/-- `refreshFinished` finds the header at the refresh position or above it, and is not
called from within `onRefresh`. -/
def InPlace (c : Config) (s : HiRefreshLayout) : Action → Prop
  | .refreshFinished => s.headBottom ≤ c.mPullRefreshHeight
  | .frame currY _ finishes =>
      finishes = true → ¬ (s.mState = some .overRelease ∧
        s.childTop + (s.mAutoScroller.mLastY - currY) = c.mPullRefreshHeight)
  | _ => True

instance (c : Config) (s : HiRefreshLayout) (a : Action) : Decidable (s.InPlace c a) :=
  match a with
  | .refreshFinished => inferInstanceAs (Decidable (_ ≤ _))
  | .frame _ _ _ => inferInstanceAs (Decidable (_ → _))
  | .down | .scroll _ _ | .up | .stop | .onLayout | .setDisableRefreshScroll _ => isTrue trivial

/-- What a scroll under way still has to do: nothing, when the layout refreshes already;
or to bring the header to the refresh position or to the top. -/
def Aims (c : Config) (s : HiRefreshLayout) : Prop :=
  s.mState = some .refresh ∧ s.mAutoScroller.mScroller.finalY = s.mAutoScroller.mLastY ∨
    s.mState = some .overRelease ∧
      s.childTop - (s.mAutoScroller.mScroller.finalY - s.mAutoScroller.mLastY) =
        c.mPullRefreshHeight ∨
    s.mState ≠ some .refresh ∧ s.mState ≠ some .overRelease ∧
      s.childTop = s.mAutoScroller.mScroller.finalY - s.mAutoScroller.mLastY

/-- A scroll that is under way will close the header or lead to a refresh. -/
structure Closing (c : Config) (s : HiRefreshLayout) : Prop where
  headBottom : s.headBottom = s.childTop
  nonneg : 0 ≤ s.childTop
  rest : s.mAutoScroller.mIsFinished = true →
    s.touching = true ∨ s.childTop = 0 ∨ s.mState = some .refresh
  idle : s.mAutoScroller.mIsFinished = true →
    s.mAutoScroller.callbacks = 0 ∧ s.mState ≠ some .overRelease
  finalY : s.mAutoScroller.mIsFinished = false → 0 < s.mAutoScroller.mScroller.finalY
  reached : s.mAutoScroller.mIsFinished = false → s.mAutoScroller.mScroller.finished = false →
    s.mAutoScroller.mScroller.reached = s.mAutoScroller.mLastY ∧
      s.mAutoScroller.mLastY ≤ s.mAutoScroller.mScroller.finalY ∧ s.Aims c
  arrived : s.mAutoScroller.mIsFinished = false → s.mAutoScroller.mScroller.finished = true →
    s.mState ≠ some .overRelease ∧ (s.childTop = 0 ∨ s.mState = some .refresh)

variable {c : Config} {s s' : HiRefreshLayout}

theorem Closing.atRest (h : s.Closing c) : s.AtRest := by
  intro hfinished htouching
  rcases h.rest hfinished with htouch | hrest
  · rw [htouching] at htouch
    cases htouch
  · exact hrest

/-! What an automatic movement does, by where it leads. -/

theorem moveDown_to_top (hstate : s.mState ≠ some .refresh) {offsetY : ℤ}
    (hle : s.childTop + offsetY ≤ 0) (finishes nonAuto : Bool) :
    s.moveDown c finishes offsetY nonAuto =
      { s.offsetTopAndBottom (-s.childTop) with mState := some .init } := by
  simp only [moveDown, if_pos hle]
  exact if_pos hstate

theorem moveDown_auto (hstate : s.mState ≠ some .refresh) {offsetY : ℤ}
    (hpos : 0 < s.childTop + offsetY)
    (hpass : s.childTop + offsetY ≠ c.mPullRefreshHeight ∨ s.mState ≠ some .overRelease)
    (finishes : Bool) :
    s.moveDown c finishes offsetY false = s.offsetTopAndBottom offsetY := by
  have hpass' : ¬ (s.childTop + offsetY = c.mPullRefreshHeight ∧
      (s.offsetTopAndBottom offsetY).mState = some .overRelease) :=
    fun h ↦ hpass.elim (fun hne ↦ hne h.1) fun hne ↦ hne h.2
  simp only [moveDown, if_neg (not_le.mpr hpos), hstate, false_and, if_false,
    Bool.false_eq_true, and_false, if_neg hpass', ite_self]

theorem moveDown_arrives (hstate : s.mState = some .overRelease) {offsetY : ℤ}
    (hpos : 0 < c.mPullRefreshHeight)
    (hreach : s.childTop + offsetY = c.mPullRefreshHeight) (finishes : Bool) :
    s.moveDown c finishes offsetY false =
      (s.offsetTopAndBottom offsetY).refresh c finishes := by
  have hstate' : (s.offsetTopAndBottom offsetY).mState = some .overRelease := hstate
  simp [moveDown, hreach, hpos.ne', hstate, hstate']

theorem moveDown_refreshing (hstate : s.mState = some .refresh) (hnonneg : 0 ≤ s.childTop)
    (finishes : Bool) : s.moveDown c finishes 0 false = s := by
  have hzero : s.offsetTopAndBottom 0 = s := by
    simp [offsetTopAndBottom]
  simp only [moveDown, add_zero]
  split
  · have htop : s.childTop = 0 := by omega
    rw [htop, neg_zero, hzero, if_neg (by simp [hstate])]
  · split
    · rfl
    · split
      · simp [hzero, hstate]
      · simp [hzero]

/-- The layout as `run` hands it to `moveDown`. -/
def computed (s : HiRefreshLayout) (currY : ℤ) (last : Bool) : HiRefreshLayout :=
  { s with mAutoScroller := { s.mAutoScroller with
      mScroller := { s.mAutoScroller.mScroller with currY, reached := currY, finished := last }
      callbacks := s.mAutoScroller.callbacks - 1 } }

/-- A frame after which the `AutoScroller` is still the one that was asked to move. -/
theorem Closing.frame_of (h : s.Closing c) {currY : ℤ} {last : Bool}
    (hworking : s.mAutoScroller.mIsFinished = false)
    (hle : currY ≤ s.mAutoScroller.mScroller.finalY)
    (hlast : last = true → currY = s.mAutoScroller.mScroller.finalY)
    {finishes : Bool} {v : HiRefreshLayout}
    (hmove : (s.computed currY last).moveDown c finishes (s.mAutoScroller.mLastY - currY) false = v)
    (hauto : v.mAutoScroller = (s.computed currY last).mAutoScroller)
    (hhead : v.headBottom = v.childTop) (hnonneg : 0 ≤ v.childTop)
    (haims : v.mState = some .refresh ∧ currY = s.mAutoScroller.mScroller.finalY ∨
      v.mState = some .overRelease ∧ currY < s.mAutoScroller.mScroller.finalY ∧
        v.childTop - (s.mAutoScroller.mScroller.finalY - currY) = c.mPullRefreshHeight ∨
      v.mState ≠ some .refresh ∧ v.mState ≠ some .overRelease ∧
        v.childTop = s.mAutoScroller.mScroller.finalY - currY) :
    (s.frame c finishes currY last).Closing c := by
  have hframe : s.frame c finishes currY last =
      { v with mAutoScroller := { v.mAutoScroller with
          mLastY := v.mAutoScroller.mScroller.currY
          callbacks := v.mAutoScroller.callbacks + 1 } } := by
    rw [← hmove]
    rfl
  rw [hframe, hauto]
  refine ⟨hhead, hnonneg, ?_, ?_, ?_, ?_, ?_⟩
  · intro hfinished
    exact absurd hfinished (by simp [computed, hworking])
  · intro hfinished
    exact absurd hfinished (by simp [computed, hworking])
  · exact fun _ ↦ h.finalY hworking
  · intro _ _
    refine ⟨rfl, hle, ?_⟩
    rcases haims with ⟨hstate, heq⟩ | ⟨hstate, -, htop⟩ | haims
    · exact .inl ⟨hstate, heq.symm⟩
    · exact .inr (.inl ⟨hstate, htop⟩)
    · exact .inr (.inr haims)
  · intro _ hfinished
    have heq := hlast hfinished
    rcases haims with ⟨hstate, -⟩ | ⟨-, hlt, -⟩ | ⟨hrefresh, hrelease, htop⟩
    · exact ⟨by simp [hstate], .inr hstate⟩
    · omega
    · exact ⟨hrelease, .inl (by simp only; omega)⟩

theorem Closing.frame_to_top (h : s.Closing c) {currY : ℤ} {last : Bool}
    (hworking : s.mAutoScroller.mIsFinished = false)
    (hcurr : currY = s.mAutoScroller.mScroller.finalY) (hstate : s.mState ≠ some .refresh)
    (htop : s.childTop + (s.mAutoScroller.mLastY - currY) ≤ 0) (finishes : Bool) :
    (s.frame c finishes currY last).Closing c := by
  have hhead := h.headBottom
  have hmove := moveDown_to_top (s := s.computed currY last) (c := c) hstate htop finishes false
  refine h.frame_of hworking hcurr.le (fun _ ↦ hcurr) hmove rfl ?_ ?_
    (.inr (.inr ⟨by simp, by simp, ?_⟩))
  · simp only [offsetTopAndBottom, computed]
    omega
  · simp only [offsetTopAndBottom, computed]
    omega
  · simp only [offsetTopAndBottom, computed]
    omega

/-- A frame that moves the header, and has not arrived. -/
theorem Closing.frame_on (h : s.Closing c) {currY : ℤ} {last : Bool}
    (hworking : s.mAutoScroller.mIsFinished = false)
    (hcurr : currY < s.mAutoScroller.mScroller.finalY)
    (hlast : last = true → currY = s.mAutoScroller.mScroller.finalY)
    (hstate : s.mState ≠ some .refresh)
    (hpos : 0 < s.childTop + (s.mAutoScroller.mLastY - currY))
    (hpass : s.childTop + (s.mAutoScroller.mLastY - currY) ≠ c.mPullRefreshHeight ∨
      s.mState ≠ some .overRelease)
    (haims : s.mState = some .overRelease ∧
        s.childTop - (s.mAutoScroller.mScroller.finalY - s.mAutoScroller.mLastY) =
          c.mPullRefreshHeight ∨
      s.mState ≠ some .overRelease ∧
        s.childTop = s.mAutoScroller.mScroller.finalY - s.mAutoScroller.mLastY)
    (finishes : Bool) : (s.frame c finishes currY last).Closing c := by
  have hhead := h.headBottom
  have hmove := moveDown_auto (s := s.computed currY last) (c := c) hstate hpos hpass finishes
  refine h.frame_of hworking hcurr.le hlast hmove rfl ?_ hpos.le ?_
  · simp only [offsetTopAndBottom, computed]
    omega
  · simp only [offsetTopAndBottom, computed]
    rcases haims with ⟨hrelease, htop⟩ | ⟨hrelease, htop⟩
    · exact .inr (.inl ⟨hrelease, hcurr, by omega⟩)
    · exact .inr (.inr ⟨hstate, hrelease, by omega⟩)

theorem Closing.working (h : s.Closing c) (hcallbacks : 0 < s.mAutoScroller.callbacks) :
    s.mAutoScroller.mIsFinished = false := by
  cases hfinished : s.mAutoScroller.mIsFinished with
  | false => rfl
  | true => exact absurd (h.idle hfinished).1 hcallbacks.ne'

theorem Closing.frame (h : s.Closing c) (hlistener : c.listener = true) {currY : ℤ}
    {last finishes : Bool} (hcallbacks : 0 < s.mAutoScroller.callbacks)
    (hreports : Reports s.mAutoScroller.mScroller currY last)
    (hinplace : s.InPlace c (.frame currY last finishes)) :
    (s.frame c finishes currY last).Closing c := by
  obtain ⟨hunfinished, hge, hle, hlast⟩ := hreports
  have hworking := h.working hcallbacks
  obtain ⟨hreached, -, haims⟩ := h.reached hworking hunfinished
  rcases haims with ⟨hstate, hfinal⟩ | ⟨hstate, htop⟩ | ⟨hrefresh, hrelease, htop⟩
  · -- the layout refreshes already, and is not moved
    have hmove := moveDown_refreshing (s := s.computed currY last) (c := c) hstate h.nonneg
      finishes
    have hoffset : s.mAutoScroller.mLastY - currY = 0 := by omega
    rw [← hoffset] at hmove
    exact h.frame_of hworking hle hlast hmove rfl h.headBottom h.nonneg
      (.inl ⟨hstate, by omega⟩)
  · have hrefresh : s.mState ≠ some .refresh := by simp [hstate]
    rcases hle.lt_or_eq with hlt | hcurr
    · exact h.frame_on hworking hlt hlast hrefresh (by omega) (.inl (by omega))
        (.inl ⟨hstate, htop⟩) finishes
    · rcases Nat.eq_zero_or_pos c.mPullRefreshHeight with hzero | hpos
      · exact h.frame_to_top hworking hcurr hrefresh (by omega) finishes
      · -- the refresh position is reached
        have hreach : s.childTop + (s.mAutoScroller.mLastY - currY) =
            c.mPullRefreshHeight := by
          omega
        obtain rfl : finishes = false := by
          by_contra hfinishes
          exact hinplace (by simpa using hfinishes) ⟨hstate, hreach⟩
        have hmove := moveDown_arrives (s := s.computed currY last) hstate hpos hreach false
        simp only [refresh, hlistener, if_true, Bool.false_eq_true, if_false] at hmove
        have hhead := h.headBottom
        refine h.frame_of hworking hle hlast hmove rfl ?_ ?_ (.inl ⟨rfl, hcurr⟩)
        · simp only [offsetTopAndBottom, computed]
          omega
        · simp only [offsetTopAndBottom, computed]
          omega
  · rcases hle.lt_or_eq with hlt | hcurr
    · exact h.frame_on hworking hlt hlast hrefresh (by omega) (.inr hrelease)
        (.inr ⟨hrelease, htop⟩) finishes
    · exact h.frame_to_top hworking hcurr hrefresh (by omega) finishes

theorem Closing.stop (h : s.Closing c) (hcallbacks : 0 < s.mAutoScroller.callbacks)
    (hfinished : s.mAutoScroller.mScroller.finished = true) : s.stop.Closing c := by
  obtain ⟨hrelease, harrived⟩ := h.arrived (h.working hcallbacks) hfinished
  refine ⟨h.headBottom, h.nonneg, fun _ ↦ .inr harrived, fun _ ↦ ⟨rfl, hrelease⟩, ?_, ?_, ?_⟩
  · intro hworking
    cases hworking
  · intro hworking
    cases hworking
  · intro hworking
    cases hworking

/-- A scroll that is started from where the header is. -/
theorem Closing.started (h : s.Closing c) {dis : ℤ} (hpos : 0 < dis) {v : HiRefreshLayout}
    (hauto : v.mAutoScroller = s.mAutoScroller.recover dis)
    (hhead : v.headBottom = s.headBottom) (htop : v.childTop = s.childTop)
    (haims : v.mState = some .overRelease ∧ s.childTop - dis = c.mPullRefreshHeight ∨
      v.mState ≠ some .refresh ∧ v.mState ≠ some .overRelease ∧ s.childTop = dis) :
    v.Closing c := by
  have hrecover : v.mAutoScroller =
      { mScroller :=
          { s.mAutoScroller.mScroller with finished := false, finalY := dis, reached := 0 }
        mLastY := 0, mIsFinished := false, callbacks := 1 } := by
    rw [hauto, AutoScroller.recover, if_neg (not_le.mpr hpos)]
  refine ⟨?_, ?_, ?_, ?_, ?_, ?_, ?_⟩
  · rw [hhead, htop, h.headBottom]
  · rw [htop]
    exact h.nonneg
  · intro hfinished
    rw [hrecover] at hfinished
    cases hfinished
  · intro hfinished
    rw [hrecover] at hfinished
    cases hfinished
  · intro _
    rwa [hrecover]
  · intro _ _
    simp only [Aims, hrecover, htop, sub_zero]
    refine ⟨trivial, hpos.le, ?_⟩
    exact .inr haims
  · intro _ hfinished
    rw [hrecover] at hfinished
    cases hfinished

theorem Closing.refreshFinished (h : s.Closing c)
    (hinplace : s.headBottom ≤ c.mPullRefreshHeight) : (s.refreshFinished c).Closing c := by
  simp only [HiRefreshLayout.refreshFinished]
  split
  · rename_i hpos
    rw [recover, if_neg (by simpa using fun _ ↦ hinplace)]
    exact h.started hpos rfl rfl rfl (.inr ⟨by simp, by simp, h.headBottom.symm⟩)
  · rename_i hle
    have htop : s.childTop = 0 := by
      have hhead := h.headBottom
      have hnonneg := h.nonneg
      omega
    refine ⟨h.headBottom, h.nonneg, fun _ ↦ .inr (.inl htop), ?_, h.finalY, ?_, ?_⟩
    · exact fun hfinished ↦ ⟨(h.idle hfinished).1, by simp⟩
    · intro hworking hunfinished
      obtain ⟨hreached, hlastY, haims⟩ := h.reached hworking hunfinished
      refine ⟨hreached, hlastY, .inr (.inr ⟨by simp, by simp, ?_⟩)⟩
      simp only
      rcases haims with ⟨-, hfinal⟩ | ⟨-, haim⟩ | ⟨-, -, haim⟩ <;> omega
    · exact fun _ _ ↦ ⟨by simp, .inl htop⟩

/-- The gesture plays a part only when nothing is under way. -/
theorem Closing.touch (h : s.Closing c) {touching : Bool}
    (hrest : s.mAutoScroller.mIsFinished = true →
      touching = true ∨ s.childTop = 0 ∨ s.mState = some .refresh) :
    Closing c { s with touching } :=
  ⟨h.headBottom, h.nonneg, hrest, h.idle, h.finalY, h.reached, h.arrived⟩

theorem Closing.release (h : s.Closing c)
    (hfinished : s.mAutoScroller.mIsFinished = true) :
    Closing c { s.release c with touching := false } := by
  have hhead := h.headBottom
  have hnonneg := h.nonneg
  unfold HiRefreshLayout.release
  split
  · rename_i hpos
    unfold recover
    split
    · rename_i hbeyond
      exact h.started (by omega) rfl rfl rfl (.inl ⟨rfl, by omega⟩)
    · exact h.started hpos.1 rfl rfl rfl
        (.inr ⟨hpos.2, (h.idle hfinished).2, h.headBottom.symm⟩)
  · rename_i hstays
    refine ⟨h.headBottom, h.nonneg, fun _ ↦ .inr ?_, h.idle, h.finalY, h.reached, h.arrived⟩
    by_cases hstate : s.mState = some .refresh
    · exact .inr hstate
    · have htop : s.childTop = 0 := by
        by_contra hne
        exact hstays ⟨by omega, hstate⟩
      exact .inl htop

/-- A movement in another state than the one that leads to a refresh. -/
theorem moveDown_frame (hhead : s.headBottom = s.childTop) (hnonneg : 0 ≤ s.childTop)
    (hrelease : s.mState ≠ some .overRelease) (finishes : Bool) (offsetY : ℤ) (nonAuto : Bool) :
    (s.moveDown c finishes offsetY nonAuto).headBottom =
        (s.moveDown c finishes offsetY nonAuto).childTop ∧
      0 ≤ (s.moveDown c finishes offsetY nonAuto).childTop ∧
      (s.moveDown c finishes offsetY nonAuto).mState ≠ some .overRelease ∧
      (s.moveDown c finishes offsetY nonAuto).mAutoScroller = s.mAutoScroller ∧
      (s.moveDown c finishes offsetY nonAuto).touching = s.touching := by
  simp only [moveDown]
  split
  · split
    · refine ⟨?_, ?_, by simp, rfl, rfl⟩ <;> simp only [offsetTopAndBottom] <;> omega
    · refine ⟨?_, ?_, hrelease, rfl, rfl⟩ <;> simp only [offsetTopAndBottom] <;> omega
  · rename_i hpos
    split
    · exact ⟨hhead, hnonneg, hrelease, rfl, rfl⟩
    · split
      · split
        · rw [if_neg (by simp [offsetTopAndBottom])]
          refine ⟨?_, ?_, by simp [offsetTopAndBottom], rfl, rfl⟩ <;>
            simp only [offsetTopAndBottom] <;> omega
        · rw [if_neg fun h ↦ hrelease h.2]
          refine ⟨?_, ?_, hrelease, rfl, rfl⟩ <;> simp only [offsetTopAndBottom] <;> omega
      · split
        · refine ⟨?_, ?_, hrelease, rfl, rfl⟩ <;> simp only [offsetTopAndBottom] <;> omega
        · refine ⟨?_, ?_, hrelease, rfl, rfl⟩ <;> simp only [offsetTopAndBottom] <;> omega

/-- The user moves the header only while nothing is under way. -/
theorem Closing.onScroll (h : s.Closing c) (hfinished : s.mAutoScroller.mIsFinished = true)
    (htouching : s.touching = true) (finishes : Bool) (e : Scroll) :
    (s.onScroll c finishes e).Closing c := by
  unfold HiRefreshLayout.onScroll
  cases s.drag c e with
  | none => exact h
  | some speed =>
      obtain ⟨hhead, hnonneg, hrelease, hauto, htouch⟩ := moveDown_frame (c := c) h.headBottom
        h.nonneg (h.idle hfinished).2 finishes speed true
      refine ⟨hhead, hnonneg, fun _ ↦ .inl (htouch.trans htouching), ?_, ?_, ?_, ?_⟩
      · simp only [hauto]
        exact fun _ ↦ ⟨(h.idle hfinished).1, hrelease⟩
      all_goals
        intro hworking
        simp only [hauto, hfinished] at hworking
        cases hworking

theorem Closing.onLayout (h : s.Closing c) : (s.onLayout c).Closing c := by
  unfold HiRefreshLayout.onLayout
  split
  · rename_i hstate
    refine ⟨rfl, Int.natCast_nonneg _, fun _ ↦ .inr (.inr hstate), h.idle, h.finalY, ?_, ?_⟩
    · intro hworking hunfinished
      obtain ⟨hreached, hlastY, haims⟩ := h.reached hworking hunfinished
      refine ⟨hreached, hlastY, .inl ⟨hstate, ?_⟩⟩
      rcases haims with ⟨-, hfinal⟩ | ⟨hrelease, -⟩ | ⟨hrefresh, -⟩
      · exact hfinal
      · rw [hstate] at hrelease
        cases hrelease
      · exact absurd hstate hrefresh
    · exact fun hworking hfinished ↦ ⟨(h.arrived hworking hfinished).1, .inr hstate⟩
  · exact ⟨rfl, h.nonneg, h.rest, h.idle, h.finalY, h.reached, h.arrived⟩

/-- A step in place keeps the header on its way. -/
theorem Closing.step (h : s.Closing c) (hlistener : c.listener = true) {a : Action}
    (hinplace : s.InPlace c a) (hstep : s.step c a = some s') : s'.Closing c := by
  cases a with
  | down =>
      obtain rfl := Option.some.inj hstep
      exact h.touch fun hfinished ↦ .inl (by simp [hfinished])
  | scroll e finishes =>
      simp only [HiRefreshLayout.step, Option.ite_none_right_eq_some, Option.some.injEq] at hstep
      obtain ⟨htouching, rfl⟩ := hstep
      split
      · rename_i hfinished
        exact h.onScroll hfinished htouching finishes e
      · exact h
  | up =>
      simp only [HiRefreshLayout.step, Option.ite_none_right_eq_some, Option.some.injEq] at hstep
      obtain ⟨-, rfl⟩ := hstep
      split
      · rename_i hfinished
        exact h.release hfinished
      · rename_i hworking
        exact h.touch fun hfinished ↦ absurd hfinished hworking
  | frame currY last finishes =>
      simp only [HiRefreshLayout.step, Option.ite_none_right_eq_some, Option.some.injEq] at hstep
      obtain ⟨⟨hcallbacks, hreports⟩, rfl⟩ := hstep
      exact h.frame hlistener hcallbacks hreports hinplace
  | stop =>
      simp only [HiRefreshLayout.step, Option.ite_none_right_eq_some, Option.some.injEq] at hstep
      obtain ⟨⟨hcallbacks, hfinished⟩, rfl⟩ := hstep
      exact h.stop hcallbacks hfinished
  | refreshFinished =>
      obtain rfl := Option.some.inj hstep
      exact h.refreshFinished hinplace
  | onLayout =>
      obtain rfl := Option.some.inj hstep
      exact h.onLayout
  | setDisableRefreshScroll disableRefreshScroll =>
      obtain rfl := Option.some.inj hstep
      exact ⟨h.headBottom, h.nonneg, h.rest, h.idle, h.finalY, h.reached, h.arrived⟩

theorem closing_new : Closing c {} := by
  refine ⟨rfl, le_rfl, fun _ ↦ .inr (.inl rfl), fun _ ↦ ⟨rfl, by simp⟩, ?_, ?_, ?_⟩ <;> simp

/-- When a scroll under way will not bring the header to the top, and the state is the
initial one, the header stops half open. -/
theorem exists_stuck (hworking : s.mAutoScroller.mIsFinished = false)
    (hcallbacks : 0 < s.mAutoScroller.callbacks)
    (hunfinished : s.mAutoScroller.mScroller.finished = false)
    (hreached : s.mAutoScroller.mScroller.reached ≤ s.mAutoScroller.mScroller.finalY)
    (hstate : s.mState = some .init)
    (hpos : 0 < s.childTop +
      (s.mAutoScroller.mLastY - s.mAutoScroller.mScroller.finalY)) :
    ∃ bs t, run (step c) s bs = some t ∧ ¬ t.AtRest := by
  -- the gesture, if there is one, ends first
  obtain ⟨release, hrelease⟩ : ∃ release,
      run (step c) s release = some { s with touching := false } := by
    cases htouching : s.touching with
    | false => exact ⟨[], by rw [← htouching]; rfl⟩
    | true => exact ⟨[.up], by simp [run, step, htouching, hworking]⟩
  have hmove := moveDown_auto (c := c)
    (s := computed { s with touching := false } s.mAutoScroller.mScroller.finalY true)
    (by simp [computed, hstate]) hpos (.inr (by simp [computed, hstate])) false
  refine ⟨release ++ [.frame s.mAutoScroller.mScroller.finalY true false, .stop],
    HiRefreshLayout.stop (HiRefreshLayout.frame c false { s with touching := false }
      s.mAutoScroller.mScroller.finalY true), ?_, ?_⟩
  · rw [run_append, hrelease]
    have hreports : Reports s.mAutoScroller.mScroller s.mAutoScroller.mScroller.finalY true :=
      ⟨hunfinished, hreached, le_rfl, fun _ ↦ rfl⟩
    have hfinished : (HiRefreshLayout.frame c false { s with touching := false }
        s.mAutoScroller.mScroller.finalY true).mAutoScroller.mScroller.finished = true := by
      exact congrArg (fun v ↦ v.mAutoScroller.mScroller.finished) hmove
    simp only [Option.bind_some, run, step, hcallbacks, hreports, and_self, if_true]
    rw [if_pos ⟨Nat.succ_pos _, hfinished⟩]
    rfl
  · intro hrest
    rcases hrest rfl (congrArg touching hmove) with htop | hrefresh
    · have htop' := (congrArg childTop hmove).symm.trans htop
      exact hpos.ne' htop'
    · have hstate' := hstate.symm.trans ((congrArg mState hmove).symm.trans hrefresh)
      cases hstate'

/-- From every step that is not in place a half open header can be reached. -/
theorem Closing.exists_stuck_of_not_inPlace (h : s.Closing c) (hlistener : c.listener = true)
    (hpull : 0 < c.mPullRefreshHeight) {a : Action} (hinplace : ¬ s.InPlace c a)
    (hstep : s.step c a = some s') : ∃ bs t, run (HiRefreshLayout.step c) s' bs = some t ∧
      ¬ t.AtRest := by
  have hhead := h.headBottom
  cases a with
  | refreshFinished =>
      obtain rfl := Option.some.inj hstep
      have hbeyond : (c.mPullRefreshHeight : ℤ) < s.headBottom := not_le.mp hinplace
      have hauto : (s.refreshFinished c).mAutoScroller =
          s.mAutoScroller.recover (s.headBottom - c.mPullRefreshHeight) := by
        simp only [HiRefreshLayout.refreshFinished]
        rw [if_pos (by omega), recover, if_pos ⟨hlistener, hbeyond⟩]
      have htop : (s.refreshFinished c).childTop = s.childTop := by
        simp only [HiRefreshLayout.refreshFinished]
        rw [if_pos (by omega), recover, if_pos ⟨hlistener, hbeyond⟩]
      rw [AutoScroller.recover, if_neg (by omega)] at hauto
      refine exists_stuck (by rw [hauto]) (by simp [hauto]) (by rw [hauto]) ?_ rfl ?_
      · simp only [hauto]
        omega
      · simp only [hauto, htop]
        omega
  | frame currY last finishes =>
      simp only [HiRefreshLayout.step, Option.ite_none_right_eq_some, Option.some.injEq] at hstep
      obtain ⟨⟨hcallbacks, hreports⟩, rfl⟩ := hstep
      simp only [InPlace, Classical.not_imp, not_not] at hinplace
      obtain ⟨rfl, hstate, hreach⟩ := hinplace
      have hworking := h.working hcallbacks
      obtain ⟨-, -, haims⟩ := h.reached hworking hreports.1
      have hfinal := h.finalY hworking
      -- the scroll from beyond the refresh position is over
      have hcurr : currY = s.mAutoScroller.mScroller.finalY := by
        rcases haims with ⟨hstate', -⟩ | ⟨-, haim⟩ | ⟨-, hrelease, -⟩
        · rw [hstate] at hstate'
          cases hstate'
        · omega
        · exact absurd hstate hrelease
      have hmove := moveDown_arrives (s := s.computed currY last) hstate hpull hreach true
      have hbottom : s.headBottom + (s.mAutoScroller.mLastY - currY) =
          c.mPullRefreshHeight := by omega
      have hpull' : (0 : ℤ) < c.mPullRefreshHeight := by omega
      have hfinish : (s.computed currY last).moveDown c true
            (s.mAutoScroller.mLastY - currY) false =
          { s with
            mState := some .init
            overState := .init
            headBottom := c.mPullRefreshHeight
            childTop := c.mPullRefreshHeight
            events := .refreshFinished :: .onRefresh :: s.events
            mAutoScroller :=
              { mScroller :=
                  { finished := false, currY, finalY := c.mPullRefreshHeight, reached := 0 }
                mLastY := 0, mIsFinished := false, callbacks := 1 } } := by
        rw [hmove]
        simp [refresh, hlistener, HiRefreshLayout.refreshFinished, offsetTopAndBottom, computed,
          recover, AutoScroller.recover, hbottom, hreach, hpull, hpull.ne']
      have hframe : s.frame c true currY last = _ := congrArg (fun v : HiRefreshLayout ↦
        { v with mAutoScroller := { v.mAutoScroller with
            mLastY := v.mAutoScroller.mScroller.currY
            callbacks := v.mAutoScroller.callbacks + 1 } }) hfinish
      rw [hframe]
      refine exists_stuck rfl (by simp) rfl hpull'.le rfl ?_
      simp only
      omega
  | down | scroll | up | stop | onLayout | setDisableRefreshScroll => exact absurd trivial hinplace

end HiRefreshLayout

/-- With a listener, and as long as every step is in place, the header never rests half
open; from the first step that is not, it can come to. -/
theorem atRest_of_inPlace {c : Config} (hlistener : c.listener = true) {as : List Action}
    {s : HiRefreshLayout} (hrun : run (HiRefreshLayout.step c) {} as = some s)
    (hinplace : StepsMeet (HiRefreshLayout.step c) (HiRefreshLayout.InPlace c) {} as) :
    StatesMeet (HiRefreshLayout.step c) HiRefreshLayout.AtRest {} as ∧
      ∀ a v, 0 < c.mPullRefreshHeight → s.step c a = some v → ¬ s.InPlace c a →
        ∃ bs t, run (HiRefreshLayout.step c) {} (as ++ a :: bs) = some t ∧ ¬ t.AtRest := by
  have hclosing : ∀ {pre u}, pre <+: as → run (HiRefreshLayout.step c) {} pre = some u →
      u.Closing c := by
    intro pre u hpre hu
    exact run_invariant (fun u a v hu ha hstep ↦ hu.step hlistener ha hstep)
      HiRefreshLayout.closing_new (hinplace.of_prefix hpre) hu
  constructor
  · intro pre hpre u hu
    exact (hclosing hpre hu).atRest
  · intro a v hpull hstep hnot
    obtain ⟨bs, t, hbs, ht⟩ := (hclosing List.prefix_rfl hrun).exists_stuck_of_not_inPlace
      hlistener hpull hnot hstep
    refine ⟨bs, t, ?_, ht⟩
    rw [run_append, hrun]
    simp [run, hstep, hbs]

/-- The header is pulled beyond the refresh position. -/
def pull : List Action :=
  [.down, .scroll { distanceY := -16 } false, .scroll { distanceY := -44 } false,
    .scroll { distanceY := 16 } false]

theorem atRest_of_inPlace_pull :
    ∃ s, run (HiRefreshLayout.step (overViewConfig 10)) {}
        (pull ++ [.up, .frame 20 true false, .stop]) = some s ∧
      s.mState = some .refresh ∧
      StatesMeet (HiRefreshLayout.step (overViewConfig 10)) HiRefreshLayout.AtRest {}
        (pull ++ [.up, .frame 20 true false, .stop]) := by
  refine ⟨_, rfl, by decide, ?_⟩
  exact (atRest_of_inPlace rfl rfl (by decide)).1

/-- `refreshFinished` arrives while the header is held; after the release it stays at the
refresh position. -/
theorem stuck_half_open :
    ∃ s, run (HiRefreshLayout.step (overViewConfig 10)) {}
        (pull ++ [.refreshFinished, .up, .frame 20 true false, .stop]) = some s ∧
      s.childTop = 10 ∧ s.mState = some .init ∧ ¬ s.AtRest := by
  refine ⟨_, rfl, by decide, by decide, ?_⟩
  intro hrest
  have hopen := hrest (by decide) (by decide)
  revert hopen
  decide

end HiApp.Refresh
