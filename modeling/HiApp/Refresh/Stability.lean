import HiApp.Refresh.HiRefreshLayout
import Mathlib.Data.List.Chain

/-!
# The refreshing state

The layout is refreshing from `onRefresh` on until `refreshFinished` is called.  A drag
that leaves the header between the top and the refresh position ends this state, although
nothing has finished.
-/

namespace HiApp.Refresh

open Runs

namespace HiRefreshLayout

/-- Who was told to refresh is refreshing, and is told again only after it has
finished. -/
structure Stable (s : HiRefreshLayout) : Prop where
  held : s.events.head? = some .onRefresh → s.mState = some .refresh
  alternate : s.events.IsChain fun e e' ↦ ¬ (e = .onRefresh ∧ e' = .onRefresh)

/-- While refreshing, a drag does not stop between the top and the refresh position. -/
def Undisturbed (c : Config) (s : HiRefreshLayout) : Action → Prop
  | .scroll e _ =>
      s.mAutoScroller.mIsFinished = true → s.mState = some .refresh →
        ∀ speed ∈ s.drag c e,
          ¬ (0 < s.childTop + speed ∧ s.childTop + speed ≤ c.mPullRefreshHeight)
  | _ => True

/-- The refreshing state is known to the overlay and to the listener. -/
structure Known (s : HiRefreshLayout) : Prop where
  overlay : s.mState = some .refresh → s.overState = .refresh
  told : s.mState = some .refresh → s.events.head? = some .onRefresh

/-- The step is not about refreshing. -/
structure Aside (s s' : HiRefreshLayout) : Prop where
  mState : s'.mState = some .refresh ↔ s.mState = some .refresh
  overState : s.mState = some .refresh → s'.overState = s.overState
  events : s'.events = s.events

/-- The listener was told to refresh, and has possibly finished at once. -/
def Told (s s' : HiRefreshLayout) : Prop :=
  s.mState ≠ some .refresh ∧
    (s'.mState = some .refresh ∧ s'.overState = .refresh ∧ s'.events = .onRefresh :: s.events ∨
      s'.mState = some .init ∧ s'.events = .refreshFinished :: .onRefresh :: s.events)

variable {c : Config} {s s' : HiRefreshLayout}

theorem Aside.refl (s : HiRefreshLayout) : Aside s s := ⟨Iff.rfl, fun _ ↦ rfl, rfl⟩

theorem Aside.stable (h : Aside s s') (hs : s.Stable) : s'.Stable := by
  constructor
  · rw [h.events, h.mState]
    exact hs.held
  · rw [h.events]
    exact hs.alternate

theorem Aside.known (h : Aside s s') (hs : s.Known) : s'.Known := by
  constructor
  · intro hstate
    have hold := h.mState.mp hstate
    rw [h.overState hold]
    exact hs.overlay hold
  · rw [h.events, h.mState]
    exact hs.told

theorem Told.stable (h : Told s s') (hs : s.Stable) : s'.Stable := by
  obtain ⟨hstate, ⟨hstate', -, hevents⟩ | ⟨-, hevents⟩⟩ := h
  · constructor
    · exact fun _ ↦ hstate'
    · rw [hevents, List.isChain_cons]
      refine ⟨?_, hs.alternate⟩
      rintro e he ⟨-, rfl⟩
      exact hstate (hs.held he)
  · constructor
    · simp [hevents]
    · rw [hevents, List.isChain_cons, List.isChain_cons]
      refine ⟨by simp, ?_, hs.alternate⟩
      rintro e he ⟨-, rfl⟩
      exact hstate (hs.held he)

theorem Told.known (h : Told s s') : s'.Known := by
  obtain ⟨-, ⟨-, hover, hevents⟩ | ⟨hstate', -⟩⟩ := h
  · exact ⟨fun _ ↦ hover, fun _ ↦ by rw [hevents]; rfl⟩
  · constructor <;> simp [hstate']

theorem recover_frame (s : HiRefreshLayout) (dis : ℤ) :
    (s.recover c dis).events = s.events ∧ (s.recover c dis).overState = s.overState ∧
      ((s.recover c dis).mState = s.mState ∨ (s.recover c dis).mState = some .overRelease) := by
  unfold recover
  split
  · exact ⟨rfl, rfl, .inr rfl⟩
  · exact ⟨rfl, rfl, .inl rfl⟩

theorem refreshFinished_events (s : HiRefreshLayout) :
    (s.refreshFinished c).mState = some .init ∧
      (s.refreshFinished c).events = .refreshFinished :: s.events := by
  refine ⟨rfl, ?_⟩
  simp only [refreshFinished]
  split
  · exact (recover_frame _ _).1
  · rfl

theorem stable_refreshFinished (hs : s.Stable) : (s.refreshFinished c).Stable := by
  obtain ⟨-, hevents⟩ := refreshFinished_events (c := c) s
  constructor
  · simp [hevents]
  · rw [hevents, List.isChain_cons]
    exact ⟨by simp, hs.alternate⟩

theorem known_refreshFinished (s : HiRefreshLayout) : (s.refreshFinished c).Known := by
  obtain ⟨hstate, -⟩ := refreshFinished_events (c := c) s
  constructor <;> simp [hstate]

theorem refresh_told (finishes : Bool) (hstate : s.mState = some .overRelease) :
    Aside s (s.refresh c finishes) ∨ Told s (s.refresh c finishes) := by
  unfold refresh
  split
  · right
    refine ⟨by simp [hstate], ?_⟩
    cases finishes with
    | false => exact .inl ⟨rfl, rfl, rfl⟩
    | true => exact .inr (refreshFinished_events _)
  · exact .inl (.refl s)

/-- A movement disturbs the refreshing state, or is none of its business, or starts it. -/
theorem moveDown_cases (hs : s.Known) (finishes : Bool) (offsetY : ℤ) (nonAuto : Bool) :
    (nonAuto = true ∧ s.mState = some .refresh ∧ 0 < s.childTop + offsetY ∧
        s.childTop + offsetY ≤ c.mPullRefreshHeight ∧
        (s.moveDown c finishes offsetY nonAuto).mState = some .visible ∧
        (s.moveDown c finishes offsetY nonAuto).events = s.events) ∨
      ¬ (nonAuto = true ∧ s.mState = some .refresh ∧ 0 < s.childTop + offsetY ∧
          s.childTop + offsetY ≤ c.mPullRefreshHeight) ∧
        (Aside s (s.moveDown c finishes offsetY nonAuto) ∨
          Told s (s.moveDown c finishes offsetY nonAuto)) := by
  simp only [moveDown]
  split
  · rename_i hle
    right
    refine ⟨fun h ↦ absurd h.2.2.1 (not_lt.mpr hle), .inl ?_⟩
    split
    · rename_i hstate
      exact ⟨iff_of_false (by simp) hstate, fun h ↦ absurd h hstate, rfl⟩
    · exact ⟨Iff.rfl, fun _ ↦ rfl, rfl⟩
  · rename_i hpos
    split
    · rename_i hrefused
      right
      exact ⟨fun h ↦ absurd h.2.2.2 (not_le.mpr hrefused.2), .inl (.refl s)⟩
    · split
      · rename_i hle
        split
        · rename_i hvisible
          rw [if_neg (by simp [offsetTopAndBottom])]
          by_cases hstate : s.mState = some .refresh
          · left
            exact ⟨hvisible.2, hstate, not_le.mp hpos, hle, rfl, rfl⟩
          · right
            refine ⟨fun h ↦ hstate h.2.1, .inl ?_⟩
            exact ⟨iff_of_false (by simp [offsetTopAndBottom]) hstate,
              fun h ↦ absurd h hstate, rfl⟩
        · rename_i hvisible
          right
          constructor
          · rintro ⟨hauto, hstate, -⟩
            exact hvisible ⟨by rw [hs.overlay hstate]; decide, hauto⟩
          · split
            · rename_i hreach
              rcases refresh_told finishes hreach.2 with haside | htold
              · exact .inl ⟨haside.mState, haside.overState, haside.events⟩
              · exact .inr htold
            · exact .inl ⟨Iff.rfl, fun _ ↦ rfl, rfl⟩
      · rename_i hrefused hle
        have hstate : s.mState ≠ some .refresh :=
          fun h ↦ hrefused ⟨h, not_le.mp hle⟩
        right
        refine ⟨fun h ↦ hstate h.2.1, .inl ?_⟩
        split
        · exact ⟨Iff.rfl, fun h ↦ absurd h hstate, rfl⟩
        · exact ⟨Iff.rfl, fun _ ↦ rfl, rfl⟩

theorem recover_aside (hstate : s.mState ≠ some .refresh) (dis : ℤ) :
    Aside s (s.recover c dis) := by
  obtain ⟨hevents, hover, hsame | hrelease⟩ := recover_frame (c := c) s dis
  · exact ⟨by rw [hsame], fun _ ↦ hover, hevents⟩
  · exact ⟨iff_of_false (by simp [hrelease]) hstate, fun _ ↦ hover, hevents⟩

theorem release_aside (s : HiRefreshLayout) : Aside s (s.release c) := by
  unfold release
  split
  · rename_i hstate
    exact recover_aside hstate.2 _
  · exact ⟨Iff.rfl, fun _ ↦ rfl, rfl⟩

/-- An automatic movement never disturbs. -/
theorem frame_cases (hk : s.Known) (finishes : Bool) (currY : ℤ) (last : Bool) :
    Aside s (s.frame c finishes currY last) ∨ Told s (s.frame c finishes currY last) := by
  have hk₁ : Known { s with mAutoScroller := { s.mAutoScroller with
      mScroller := { s.mAutoScroller.mScroller with currY, reached := currY, finished := last }
      callbacks := s.mAutoScroller.callbacks - 1 } } := ⟨hk.overlay, hk.told⟩
  rcases moveDown_cases (c := c) hk₁ finishes (s.mAutoScroller.mLastY - currY) false with
    ⟨hauto, -⟩ | ⟨-, haside | htold⟩
  · cases hauto
  · exact .inl ⟨haside.mState, haside.overState, haside.events⟩
  · exact .inr htold

/-- A drag while refreshing that stops between the top and the refresh position makes
the header merely visible. -/
theorem onScroll_iff (hk : s.Known) (hs : s.Stable) (finishes : Bool) {e : Scroll}
    {speed : ℤ} (hspeed : s.drag c e = some speed) :
    ((s.onScroll c finishes e).Stable ↔
      (s.mState = some .refresh →
        ¬ (0 < s.childTop + speed ∧ s.childTop + speed ≤ c.mPullRefreshHeight))) ∧
    ((s.onScroll c finishes e).Stable → (s.onScroll c finishes e).Known) := by
  simp only [onScroll, hspeed]
  rcases moveDown_cases (c := c) hk finishes speed true with
    ⟨-, hstate, hpos, hle, hvisible, hevents⟩ | ⟨hundisturbed, hcases⟩
  · have hunstable : ¬ Stable { s.moveDown c finishes speed true with
        mLastY := toInt (-e.distanceY) } := by
      intro hstable
      have htold := hk.told hstate
      rw [← hevents] at htold
      have hheld := hstable.held htold
      rw [hvisible] at hheld
      cases hheld
    refine ⟨iff_of_false hunstable fun h ↦ h hstate ⟨hpos, hle⟩, fun h ↦ absurd h hunstable⟩
  · have hgood : Stable { s.moveDown c finishes speed true with
          mLastY := toInt (-e.distanceY) } ∧
        Known { s.moveDown c finishes speed true with mLastY := toInt (-e.distanceY) } := by
      rcases hcases with haside | htold
      · have haside' : Aside s { s.moveDown c finishes speed true with
            mLastY := toInt (-e.distanceY) } := ⟨haside.mState, haside.overState, haside.events⟩
        exact ⟨haside'.stable hs, haside'.known hk⟩
      · have htold' : Told s { s.moveDown c finishes speed true with
            mLastY := toInt (-e.distanceY) } := htold
        exact ⟨htold'.stable hs, htold'.known⟩
    exact ⟨iff_of_true hgood.1 fun hstate hbetween ↦ hundisturbed ⟨rfl, hstate, hbetween⟩,
      fun _ ↦ hgood.2⟩

/-- A step keeps the refreshing state stable exactly when it leaves it undisturbed. -/
theorem Known.step_iff (hk : s.Known) (hs : s.Stable) {a : Action}
    (hstep : s.step c a = some s') :
    (s'.Stable ↔ s.Undisturbed c a) ∧ (s'.Stable → s'.Known) := by
  have haside : Aside s s' → (s'.Stable ↔ True) ∧ (s'.Stable → s'.Known) :=
    fun h ↦ ⟨iff_of_true (h.stable hs) trivial, fun _ ↦ h.known hk⟩
  cases a with
  | down =>
      obtain rfl := Option.some.inj hstep
      exact haside ⟨Iff.rfl, fun _ ↦ rfl, rfl⟩
  | scroll e finishes =>
      simp only [step, Option.ite_none_right_eq_some, Option.some.injEq] at hstep
      obtain ⟨-, rfl⟩ := hstep
      simp only [Undisturbed]
      cases hfinished : s.mAutoScroller.mIsFinished with
      | false => simpa [hs] using hk
      | true =>
          simp only [if_true, true_implies]
          cases hspeed : s.drag c e with
          | none => simpa [onScroll, hspeed, hs] using hk
          | some speed =>
              simpa only [Option.mem_some_iff, forall_eq'] using
                onScroll_iff hk hs finishes hspeed
  | up =>
      simp only [step, Option.ite_none_right_eq_some, Option.some.injEq] at hstep
      obtain ⟨-, rfl⟩ := hstep
      refine haside ?_
      split
      · obtain ⟨hstate, hover, hevents⟩ := release_aside (c := c) s
        exact ⟨hstate, hover, hevents⟩
      · exact ⟨Iff.rfl, fun _ ↦ rfl, rfl⟩
  | frame currY last finishes =>
      simp only [step, Option.ite_none_right_eq_some, Option.some.injEq] at hstep
      obtain ⟨-, rfl⟩ := hstep
      rcases frame_cases (c := c) hk finishes currY last with h | h
      · exact haside h
      · exact ⟨iff_of_true (h.stable hs) trivial, fun _ ↦ h.known⟩
  | stop =>
      simp only [step, Option.ite_none_right_eq_some, Option.some.injEq] at hstep
      obtain ⟨-, rfl⟩ := hstep
      exact haside ⟨Iff.rfl, fun _ ↦ rfl, rfl⟩
  | refreshFinished =>
      obtain rfl := Option.some.inj hstep
      exact ⟨iff_of_true (stable_refreshFinished hs) trivial, fun _ ↦ known_refreshFinished s⟩
  | onLayout =>
      obtain rfl := Option.some.inj hstep
      refine haside ?_
      unfold onLayout
      split <;> exact ⟨Iff.rfl, fun _ ↦ rfl, rfl⟩
  | setDisableRefreshScroll disableRefreshScroll =>
      obtain rfl := Option.some.inj hstep
      exact haside ⟨Iff.rfl, fun _ ↦ rfl, rfl⟩

end HiRefreshLayout

/-- In every run the refreshing state is stable if and only if no drag disturbs it. -/
theorem stable_iff_undisturbed (c : Config) {as : List Action} {s : HiRefreshLayout}
    (hrun : run (HiRefreshLayout.step c) {} as = some s) :
    StatesMeet (HiRefreshLayout.step c) HiRefreshLayout.Stable {} as ↔
      StepsMeet (HiRefreshLayout.step c) (HiRefreshLayout.Undisturbed c) {} as := by
  refine statesMeet_iff_stepsMeet (I := HiRefreshLayout.Known) (D := fun _ _ ↦ True) ?_ ?_
    ⟨by simp, by simp⟩ ⟨by simp, by simp⟩ stepsMeet_true hrun
  · intro u a v hu hP hv _ hstep
    exact (hu.step_iff hP hstep).2 hv
  · intro u a v hu hP _ hstep
    exact (hu.step_iff hP hstep).1

/-- The header is pulled down and let go; while the layout refreshes, it is pushed up a
little. -/
def pushRun : List Action :=
  [.down, .scroll { distanceY := -16 } false, .scroll { distanceY := -44 } false,
    .scroll { distanceY := 16 } false, .up, .frame 20 true false, .stop,
    .down, .scroll { distanceY := 8 } false]

theorem stable_iff_undisturbed_push :
    ∃ s, run (HiRefreshLayout.step (overViewConfig 10)) {} pushRun = some s ∧
      (StatesMeet (HiRefreshLayout.step (overViewConfig 10)) HiRefreshLayout.Stable {} pushRun ↔
        StepsMeet (HiRefreshLayout.step (overViewConfig 10))
          (HiRefreshLayout.Undisturbed (overViewConfig 10)) {} pushRun) :=
  ⟨_, rfl, stable_iff_undisturbed (overViewConfig 10) rfl⟩

/-- The layout is no longer refreshing, and nothing has finished. -/
theorem refreshing_lost :
    ∃ s, run (HiRefreshLayout.step (overViewConfig 10)) {} pushRun = some s ∧
      s.mState = some .visible ∧ s.events = [.onRefresh] ∧ ¬ s.Stable := by
  refine ⟨_, rfl, by decide, by decide, ?_⟩
  intro hstable
  have hheld := hstable.held (by decide)
  revert hheld
  decide

end HiApp.Refresh
