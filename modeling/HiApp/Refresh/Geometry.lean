import HiApp.Refresh.Stability

/-!
# Where the header and the content are

The header ends where the content begins, the content is never above the top, and while
refreshing it is not below the refresh position.
-/

namespace HiApp.Refresh

open Runs

/-- Positions have 32 bits: how far a view at `position` really moves. -/
def wrapped (position offset : ℤ) : ℤ := (position + offset).bmod (2 ^ 32) - position

/-- The layout, and whether its header has been placed since the overlay was set. -/
structure Placement where
  layout : HiRefreshLayout := {}
  placed : Bool := false

/-- What the user and the system do, a call of `moveDown` with any offset, or a new overlay
that may be anywhere and in any state. -/
inductive Movement where
  | act (a : Action)
  | moveDown (offsetY : ℤ) (nonAuto finishes : Bool)
  | setRefreshOverView (headBottom : ℤ) (overState : HiRefreshState)

namespace Placement

def step (c : Config) (s : Placement) : Movement → Option Placement
  | .act .onLayout => some { layout := s.layout.onLayout c, placed := true }
  | .act a => (s.layout.step c a).map fun layout ↦ { s with layout }
  | .moveDown offsetY nonAuto finishes =>
      some { s with layout :=
        s.layout.moveDown c finishes (wrapped s.layout.childTop offsetY) nonAuto }
  | .setRefreshOverView headBottom overState =>
      some { layout := { s.layout with headBottom, overState }, placed := false }

end Placement

namespace HiRefreshLayout

/-- Where the content may be. -/
structure Inside (c : Config) (s : HiRefreshLayout) : Prop where
  nonneg : 0 ≤ s.childTop
  refreshing : s.mState = some .refresh → s.childTop ≤ c.mPullRefreshHeight

/-- The content may be where it is in `s'`, and the header has moved with it. -/
structure Moves (c : Config) (s s' : HiRefreshLayout) : Prop where
  inside : s.Inside c → s'.Inside c
  together : s'.headBottom - s'.childTop = s.headBottom - s.childTop

variable {c : Config} {s s' s'' : HiRefreshLayout}

theorem Moves.trans (h : Moves c s s') (h' : Moves c s' s'') : Moves c s s'' :=
  ⟨h'.inside ∘ h.inside, h'.together.trans h.together⟩

/-- Nothing moves, and the layout is refreshing only if it was before. -/
theorem Moves.of_still (hhead : s'.headBottom = s.headBottom) (hchild : s'.childTop = s.childTop)
    (hstate : s'.mState = some .refresh → s.mState = some .refresh) : Moves c s s' := by
  constructor
  · intro h
    constructor
    · rw [hchild]
      exact h.nonneg
    · intro hrefresh
      rw [hchild]
      exact h.refreshing (hstate hrefresh)
  · rw [hhead, hchild]

theorem moves_offsetTopAndBottom {offset : ℤ} (hnonneg : 0 ≤ s.childTop + offset)
    (hle : s.mState = some .refresh → s.childTop + offset ≤ c.mPullRefreshHeight) :
    Moves c s (s.offsetTopAndBottom offset) := by
  constructor
  · exact fun _ ↦ ⟨hnonneg, hle⟩
  · simp [offsetTopAndBottom]

theorem moves_recover (dis : ℤ) : Moves c s (s.recover c dis) := by
  unfold recover
  split
  · exact .of_still rfl rfl (by simp)
  · exact .of_still rfl rfl id

theorem moves_refreshFinished : Moves c s (s.refreshFinished c) := by
  have hpositions : (s.refreshFinished c).headBottom = s.headBottom ∧
      (s.refreshFinished c).childTop = s.childTop := by
    simp only [refreshFinished, recover]
    split
    · split <;> exact ⟨rfl, rfl⟩
    · exact ⟨rfl, rfl⟩
  refine .of_still hpositions.1 hpositions.2 ?_
  rw [(refreshFinished_events s).1]
  simp

/-- The refreshing state is entered at the refresh position. -/
theorem moves_refresh (hreach : s.childTop = c.mPullRefreshHeight) (finishes : Bool) :
    Moves c s (s.refresh c finishes) := by
  unfold refresh
  split
  · have hstart : Moves c s { s with
        mState := some .refresh, overState := .refresh, events := .onRefresh :: s.events } :=
      ⟨fun h ↦ ⟨h.nonneg, fun _ ↦ hreach.le⟩, rfl⟩
    split
    · exact hstart.trans moves_refreshFinished
    · exact hstart
  · exact .of_still rfl rfl id

/-- A movement that ends between the top and the refresh position, and starts a refresh if
it was to. -/
theorem moves_reach {offsetY : ℤ} (hpos : 0 < s.childTop + offsetY)
    (hle : s.childTop + offsetY ≤ c.mPullRefreshHeight) (finishes : Bool) :
    Moves c s (if s.childTop + offsetY = c.mPullRefreshHeight ∧
        (s.offsetTopAndBottom offsetY).mState = some .overRelease then
      (s.offsetTopAndBottom offsetY).refresh c finishes else s.offsetTopAndBottom offsetY) := by
  have hmove : Moves c s (s.offsetTopAndBottom offsetY) :=
    moves_offsetTopAndBottom hpos.le fun _ ↦ hle
  split
  · rename_i hreach
    exact hmove.trans (moves_refresh hreach.1 finishes)
  · exact hmove

/-- One branch after the other: back to the top, refused, up to the refresh position, and
beyond it. -/
theorem moves_moveDown (finishes : Bool) (offsetY : ℤ) (nonAuto : Bool) :
    Moves c s (s.moveDown c finishes offsetY nonAuto) := by
  simp only [moveDown]
  split
  · have htop : Moves c s (s.offsetTopAndBottom (-s.childTop)) := by
      apply moves_offsetTopAndBottom
      · simp
      · simp
    split
    · exact htop.trans (.of_still rfl rfl (by simp))
    · exact htop
  rename_i hpos
  split
  · exact .of_still rfl rfl id
  rename_i hrefused
  split
  · rename_i hle
    split
    · have hvisible : Moves c s { s with overState := .visible, mState := some .visible } :=
        .of_still rfl rfl (by simp)
      exact hvisible.trans
        (moves_reach (s := { s with overState := .visible, mState := some .visible })
          (not_le.mp hpos) hle finishes)
    · exact moves_reach (not_le.mp hpos) hle finishes
  · rename_i hle
    have hmove : Moves c s (s.offsetTopAndBottom offsetY) := by
      apply moves_offsetTopAndBottom
      · exact (not_le.mp hpos).le
      · exact fun hrefresh ↦ absurd ⟨hrefresh, not_le.mp hle⟩ hrefused
    split
    · refine ⟨fun h ↦ ?_, hmove.together⟩
      exact ⟨(hmove.inside h).nonneg, (hmove.inside h).refreshing⟩
    · exact hmove

theorem moves_release : Moves c s (s.release c) := by
  unfold release
  split
  · exact moves_recover _
  · exact .of_still rfl rfl id

theorem moves_onScroll (finishes : Bool) (e : Scroll) : Moves c s (s.onScroll c finishes e) := by
  unfold onScroll
  split
  · exact .of_still rfl rfl id
  · rename_i speed _
    exact (moves_moveDown finishes speed true).trans (.of_still rfl rfl id)

theorem moves_frame (finishes : Bool) (currY : ℤ) (last : Bool) :
    Moves c s (s.frame c finishes currY last) := by
  have hreported : Moves c s { s with mAutoScroller := { s.mAutoScroller with
      mScroller := { s.mAutoScroller.mScroller with currY, reached := currY, finished := last }
      callbacks := s.mAutoScroller.callbacks - 1 } } := .of_still rfl rfl id
  exact (hreported.trans (moves_moveDown finishes _ false)).trans (.of_still rfl rfl id)

/-- Only `onLayout` may put the header somewhere else. -/
theorem moves_step {a : Action} (ha : a ≠ .onLayout) (hstep : s.step c a = some s') :
    Moves c s s' := by
  cases a with
  | down | setDisableRefreshScroll disableRefreshScroll =>
      obtain rfl := Option.some.inj hstep
      exact .of_still rfl rfl id
  | scroll e finishes =>
      simp only [step, Option.ite_none_right_eq_some, Option.some.injEq] at hstep
      obtain ⟨-, rfl⟩ := hstep
      split
      · exact moves_onScroll finishes e
      · exact .of_still rfl rfl id
  | up =>
      simp only [step, Option.ite_none_right_eq_some, Option.some.injEq] at hstep
      obtain ⟨-, rfl⟩ := hstep
      split
      · exact moves_release.trans (.of_still rfl rfl id)
      · exact .of_still rfl rfl id
  | frame currY last finishes =>
      simp only [step, Option.ite_none_right_eq_some, Option.some.injEq] at hstep
      obtain ⟨-, rfl⟩ := hstep
      exact moves_frame finishes currY last
  | stop =>
      simp only [step, Option.ite_none_right_eq_some, Option.some.injEq] at hstep
      obtain ⟨-, rfl⟩ := hstep
      exact .of_still rfl rfl id
  | refreshFinished =>
      obtain rfl := Option.some.inj hstep
      exact moves_refreshFinished
  | onLayout => exact absurd rfl ha

theorem placed_onLayout (h : s.Inside c) :
    (s.onLayout c).Inside c ∧ (s.onLayout c).headBottom = (s.onLayout c).childTop := by
  unfold onLayout
  split
  · exact ⟨⟨Int.natCast_nonneg _, fun _ ↦ le_rfl⟩, rfl⟩
  · exact ⟨⟨h.nonneg, h.refreshing⟩, rfl⟩

end HiRefreshLayout

namespace Placement

open HiRefreshLayout

variable {c : Config} {s s' : Placement}

/-- A header that has been placed ends where the content begins. -/
structure Inv (c : Config) (s : Placement) : Prop where
  inside : s.layout.Inside c
  joined : s.placed = true → s.layout.headBottom = s.layout.childTop

theorem Inv.moves (h : s.Inv c) {layout : HiRefreshLayout} (hmoves : Moves c s.layout layout) :
    Inv c { s with layout } := by
  refine ⟨hmoves.inside h.inside, ?_⟩
  intro hplaced
  have hdiff := hmoves.together
  rw [h.joined hplaced] at hdiff
  change layout.headBottom = layout.childTop
  omega

theorem Inv.step (h : s.Inv c) {m : Movement} (hstep : s.step c m = some s') : s'.Inv c := by
  cases m with
  | act a =>
      by_cases ha : a = .onLayout
      · subst ha
        obtain rfl := Option.some.inj hstep
        obtain ⟨hinside, hjoined⟩ := placed_onLayout h.inside
        exact ⟨hinside, fun _ ↦ hjoined⟩
      · have hact : (s.layout.step c a).map (fun layout ↦ { s with layout }) = some s' := by
          cases a with
          | onLayout => exact absurd rfl ha
          | _ => exact hstep
        obtain ⟨layout, hlayout, rfl⟩ := Option.map_eq_some_iff.mp hact
        exact h.moves (moves_step ha hlayout)
  | moveDown offsetY nonAuto finishes =>
      obtain rfl := Option.some.inj hstep
      exact h.moves (moves_moveDown finishes _ nonAuto)
  | setRefreshOverView headBottom overState =>
      obtain rfl := Option.some.inj hstep
      exact ⟨⟨h.inside.nonneg, h.inside.refreshing⟩, by simp⟩

theorem inv_new (c : Config) : Inv c {} := ⟨⟨le_rfl, by simp⟩, by simp⟩

/-- Along every run, from the first layout after the overlay was set on. -/
theorem placed_geometry {c : Config} {ms : List Movement} {s : Placement}
    (hrun : run (step c) {} ms = some s) (hplaced : s.placed = true) :
    s.layout.headBottom = s.layout.childTop ∧ 0 ≤ s.layout.childTop ∧
      (s.layout.mState = some .refresh → s.layout.childTop ≤ c.mPullRefreshHeight) := by
  have hinv : s.Inv c := run_invariant' (fun _ _ _ hu ↦ hu.step) (inv_new c) hrun
  exact ⟨hinv.joined hplaced, hinv.inside.nonneg, hinv.inside.refreshing⟩

/-- Pulled beyond the refresh position, let go, and pushed down while refreshing. -/
def pullAndPush : List Movement :=
  [.act .onLayout, .act .down, .moveDown 250 true false, .act .up,
    .act (.frame 150 true false), .moveDown 50 true false, .moveDown (2 ^ 31 - 1) false false]

theorem placed_geometry_pullAndPush :
    ∃ s, run (step (overViewConfig 100)) {} pullAndPush = some s ∧
      s.layout.headBottom = s.layout.childTop ∧ s.layout.childTop ≤ 100 := by
  obtain ⟨s, hrun, hplaced, hrefresh⟩ : ∃ s, run (step (overViewConfig 100)) {} pullAndPush =
      some s ∧ s.placed = true ∧ s.layout.mState = some .refresh :=
    exists_run_of_any (by decide)
  obtain ⟨hjoined, -, hle⟩ := placed_geometry hrun hplaced
  exact ⟨s, hrun, hjoined, hle hrefresh⟩

end Placement

end HiApp.Refresh
