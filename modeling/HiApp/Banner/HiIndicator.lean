import HiApp.Banner.HiBanner

/-!
# The indicator of a banner

An indicator is inflated with the data of the banner and told of every page that is selected.
The delegate tells the indicator it was given last, the banner shows the one it was given with
the last data.
-/

namespace HiApp.Banner

open Runs

variable {μ : Type} {ι : Type*}

inductive HiIndicator where
  | hiCircleIndicator
  | hiNumIndicator
  deriving DecidableEq

/-- What is in the view of an indicator: the points with whether they are drawn as selected, or
the texts of the index and the count. -/
inductive GroupView where
  | points (selected : List Bool)
  | numbers (indexTv countTv : String)
  deriving DecidableEq

namespace HiIndicator

/-- A number has no view for no pages. -/
def onInflate (count : ℕ) : HiIndicator → Option GroupView
  | hiCircleIndicator => some (.points ((List.range count).map (· = 0)))
  | hiNumIndicator => if count = 0 then none else some (.numbers "1" (toString count))

/-- What is to be seen for one of the pages. -/
def display (current count : ℕ) : HiIndicator → GroupView
  | hiCircleIndicator => .points ((List.range count).map (· = current))
  | hiNumIndicator => .numbers (toString (current + 1)) (toString count)

end HiIndicator

def GroupView.onPointChange (current count : ℕ) : GroupView → GroupView
  | .points selected => .points ((List.range selected.length).map (· = current))
  | .numbers _ _ => .numbers (toString (current + 1)) (toString count)

/-- An indicator is `some` one of the caller's or the one the delegate makes.  `groupViews` are
their views, and `child` is the one that the banner shows. -/
structure HiBanner (μ : Type) (ι : Type*) where
  delegate : HiBannerDelegate μ
  mHiIndicator : Option (Option ι) := none
  groupViews : Option ι → Option GroupView := fun _ ↦ none
  child : Option (Option ι) := none

namespace HiBanner

inductive Action (μ : Type) (ι : Type*) where
  | setHiIndicator (hiIndicator : ι)
  | delegate (action : HiBannerDelegate.Action μ)
  deriving DecidableEq

variable [DecidableEq ι]

/-- Throws for an indicator without a view. -/
def onPageSelected (b : HiBanner μ ι) (position : ℕ) : Option (HiBanner μ ι) :=
  b.delegate.mAdapter.bind fun a ↦
    if a.getRealCount = 0 then some b
    else
      match b.mHiIndicator with
      | none => some b
      | some i =>
          (b.groupViews i).map fun groupView ↦
            { b with
              groupViews := Function.update b.groupViews i (some
                (groupView.onPointChange (position % a.getRealCount) a.getRealCount)) }

/-- The listener of the pager is called when the page changes. -/
def select (b : HiBanner μ ι) (currentItem : ℕ) : Option (HiBanner μ ι) :=
  match b.delegate.mHiViewPager with
  | none => some b
  | some p => if p.currentItem = currentItem then some b else b.onPageSelected p.currentItem

variable (v : ViewPager) (kind : Option ι → HiIndicator)

/-- `init`: the pager is a new one, on its first page. -/
def setBannerData (b : HiBanner μ ι) (models : List μ) : Option (HiBanner μ ι) :=
  let i := b.mHiIndicator.getD none
  (b.delegate.init v models).bind fun delegate ↦
    (select
      { b with
        delegate := delegate
        mHiIndicator := some i
        groupViews := Function.update b.groupViews i ((kind i).onInflate models.length) } 0).map
      fun b ↦ { b with child := some i }

def step (b : HiBanner μ ι) : Action μ ι → Option (HiBanner μ ι)
  | .setHiIndicator hiIndicator => some { b with mHiIndicator := some (some hiIndicator) }
  | .delegate (.setBannerData models) => b.setBannerData v kind models
  | .delegate action =>
      (b.delegate.step v action).bind fun delegate ↦
        select { b with delegate := delegate } (b.delegate.mHiViewPager.elim 0 (·.currentItem))

/-- There is data and the number of pages is kept; and when the page may change, the banner shows
the indicator that is told of it. -/
def Told (b : HiBanner μ ι) : Action μ ι → Prop
  | .setHiIndicator _ => True
  | .delegate .run | .delegate (.move _) => b.child = b.mHiIndicator
  | .delegate action => b.delegate.KeepsCount action

/-- The indicator that the banner shows is that of the current page. -/
def ShowsPage (b : HiBanner μ ι) : Prop :=
  ∀ a p, b.delegate.mAdapter = some a → b.delegate.mHiViewPager = some p →
    ∃ i, b.child = some i ∧ b.groupViews i = some
      ((kind i).display (p.currentItem % a.getRealCount) a.getRealCount)

end HiBanner

/-! ## One indicator -/

theorem HiIndicator.onPointChange_display (i : HiIndicator) (current current' count : ℕ) :
    (i.display current count).onPointChange current' count = i.display current' count := by
  cases i with
  | hiCircleIndicator => simp [display, GroupView.onPointChange]
  | hiNumIndicator => rfl

theorem HiIndicator.onInflate_of_ne_zero (i : HiIndicator) {count : ℕ} (h : count ≠ 0) :
    i.onInflate count = some (i.display 0 count) := by
  cases i with
  | hiCircleIndicator => rfl
  | hiNumIndicator => exact if_neg h

/-! ## One step of the delegate -/

namespace HiBannerDelegate

variable {v : ViewPager} {b c : HiBannerDelegate μ} {a : HiBannerAdapter μ} {p : HiViewPager}
  {action : Action μ}

theorem withPager_cases {f : HiBannerAdapter μ → HiViewPager → Option HiViewPager}
    (h : b.withPager f = some c) (ha : b.mAdapter = some a) (hp : b.mHiViewPager = some p) :
    ∃ q, f a p = some q ∧ c = { b with mHiViewPager := some q } := by
  simp only [withPager, ha, hp, Option.bind_eq_bind, Option.bind_some,
    Option.bind_eq_some_iff] at h
  obtain ⟨q, hq, hc⟩ := h
  refine ⟨q, hq, ?_⟩
  rw [← Option.some.inj hc, ← ha]

/-- The models stay, and so does the page when the pager is not asked to move. -/
theorem step_frame (hdata : ∀ models, action ≠ .setBannerData models)
    (hstep : b.step v action = some c) (ha : b.mAdapter = some a)
    (hp : b.mHiViewPager = some p) :
    ∃ a' p', c.mAdapter = some a' ∧ c.mHiViewPager = some p' ∧ a'.models = a.models ∧
      (p'.currentItem = p.currentItem ∨ action = .run ∨ ∃ item, action = .move item) := by
  cases action with
  | setBannerData models => exact absurd rfl (hdata models)
  | setAutoPlay autoPlay =>
      obtain rfl := Option.some.inj hstep
      refine ⟨{ a with mAutoPlay := autoPlay }, p.setAutoPlay autoPlay, ?_, ?_, rfl, .inl rfl⟩
      · rw [setAutoPlay, ha, Option.map_some]
      · rw [setAutoPlay, hp, Option.map_some]
  | setLoop loop =>
      obtain rfl := Option.some.inj hstep
      exact ⟨a, p, ha, hp, rfl, .inl rfl⟩
  | start =>
      obtain ⟨q, hq, rfl⟩ := withPager_cases hstep ha hp
      obtain rfl := Option.some.inj hq
      exact ⟨a, _, ha, rfl, rfl, .inl rfl⟩
  | stop =>
      obtain ⟨q, hq, rfl⟩ := withPager_cases hstep ha hp
      obtain rfl := Option.some.inj hq
      exact ⟨a, _, ha, rfl, rfl, .inl rfl⟩
  | run =>
      obtain ⟨q, -, rfl⟩ := withPager_cases hstep ha hp
      exact ⟨a, q, ha, rfl, rfl, .inr (.inl rfl)⟩
  | move item =>
      obtain ⟨q, -, rfl⟩ := withPager_cases hstep ha hp
      exact ⟨a, q, ha, rfl, rfl, .inr (.inr ⟨item, rfl⟩)⟩

theorem exists_init (v : ViewPager) (b : HiBannerDelegate μ) {models : List μ} (hne : models ≠ []) :
    ∃ c p, b.init v models = some c ∧ c.mAdapter = some (b.adapter models) ∧
      c.mHiViewPager = some p := by
  have hcount : (b.adapter models).getRealCount ≠ 0 := mt List.length_eq_zero_iff.mp hne
  by_cases hplays : (b.mLoop ∨ b.mAutoPlay) ∧ (b.adapter models).getRealCount ≠ 0
  · have hfirst : (b.adapter models).getFirstItem = some _ := if_neg hcount
    rw [init, if_pos hplays, hfirst, Option.map_some]
    exact ⟨_, _, rfl, rfl, rfl⟩
  · rw [init, if_neg hplays]
    exact ⟨_, _, rfl, rfl, rfl⟩

theorem withPager_eq_none {f : HiBannerAdapter μ → HiViewPager → Option HiViewPager}
    (ha : b.mAdapter = none) : b.withPager f = none := by
  rw [withPager, ha]
  rfl

/-- There is no pager before there is data. -/
theorem mHiViewPager_step_of_none (hdata : ∀ models, action ≠ .setBannerData models)
    (hstep : b.step v action = some c) (ha : b.mAdapter = none) (hp : b.mHiViewPager = none) :
    c.mHiViewPager = none := by
  cases action with
  | setBannerData models => exact absurd rfl (hdata models)
  | setAutoPlay autoPlay =>
      obtain rfl := Option.some.inj hstep
      rw [setAutoPlay, hp, Option.map_none]
  | setLoop loop =>
      obtain rfl := Option.some.inj hstep
      exact hp
  | start | stop | run | move =>
      rw [step, withPager_eq_none ha] at hstep
      cases hstep

end HiBannerDelegate

/-! ## The banner -/

namespace HiBanner

variable [DecidableEq ι] {v : ViewPager} {kind : Option ι → HiIndicator} {b c : HiBanner μ ι}
  {a : HiBannerAdapter μ} {p : HiViewPager}

/-- The page that is selected is shown by the indicator that the delegate has. -/
theorem exists_select {i : Option ι} {currentItem : ℕ} (hpos : 0 < a.getRealCount)
    (ha : b.delegate.mAdapter = some a) (hp : b.delegate.mHiViewPager = some p)
    (hi : b.mHiIndicator = some i) (hview : b.groupViews i = some
      ((kind i).display (currentItem % a.getRealCount) a.getRealCount)) :
    ∃ c, b.select currentItem = some c ∧ c.delegate = b.delegate ∧ c.child = b.child ∧
      c.mHiIndicator = some i ∧ c.groupViews i = some
        ((kind i).display (p.currentItem % a.getRealCount) a.getRealCount) := by
  by_cases hsame : p.currentItem = currentItem
  · refine ⟨b, ?_, rfl, rfl, hi, hsame ▸ hview⟩
    rw [select, hp]
    exact if_pos hsame
  · have hselected : b.select currentItem = some { b with
        groupViews := Function.update b.groupViews i (some
          ((kind i).display (p.currentItem % a.getRealCount) a.getRealCount)) } := by
      rw [select, hp]
      dsimp only
      rw [if_neg hsame, onPageSelected, ha, Option.bind_some, if_neg (Nat.ne_of_gt hpos), hi]
      dsimp only
      rw [hview, Option.map_some, HiIndicator.onPointChange_display]
    exact ⟨_, hselected, rfl, rfl, hi, Function.update_self _ _ _⟩

structure Inv (kind : Option ι → HiIndicator) (b : HiBanner μ ι) : Prop where
  delegate : b.delegate.Inv
  shows : b.ShowsPage kind

/-- New data inflate the indicator, which is told of the page the pager begins with. -/
theorem exists_setBannerData (b : HiBanner μ ι) {models : List μ} (hne : models ≠ []) :
    ∃ c, b.setBannerData v kind models = some c ∧ c.Inv kind := by
  obtain ⟨d, p, hinit, ha, hp⟩ := b.delegate.exists_init v hne
  have hpos : 0 < (b.delegate.adapter models).getRealCount := List.length_pos_iff.mpr hne
  let i := b.mHiIndicator.getD none
  let t : HiBanner μ ι := { b with
    delegate := d
    mHiIndicator := some i
    groupViews := Function.update b.groupViews i ((kind i).onInflate models.length) }
  have hview : t.groupViews i = some ((kind i).display
      (0 % (b.delegate.adapter models).getRealCount)
      (b.delegate.adapter models).getRealCount) := by
    rw [Nat.zero_mod]
    exact (Function.update_self _ _ _).trans
      ((kind i).onInflate_of_ne_zero (Nat.ne_of_gt hpos))
  obtain ⟨c, hselect, hdelegate, -, -, hshows⟩ := exists_select (b := t) hpos ha hp rfl hview
  refine ⟨{ c with child := some i }, ?_, ?_, ?_⟩
  · rw [HiBanner.setBannerData, hinit, Option.bind_some]
    exact Option.map_eq_some_iff.mpr ⟨c, hselect, rfl⟩
  · dsimp only
    rw [hdelegate]
    exact .init hne hinit
  · intro a' p' ha' hp'
    dsimp only at ha' hp'
    rw [hdelegate] at ha' hp'
    obtain rfl := Option.some.inj (ha.symm.trans ha')
    obtain rfl := Option.some.inj (hp.symm.trans hp')
    exact ⟨i, rfl, hshows⟩

omit [DecidableEq ι] in
theorem Told.keepsCount {action : HiBannerDelegate.Action μ} (h : b.Told (.delegate action)) :
    b.delegate.KeepsCount action := by
  cases action with
  | setBannerData | setAutoPlay => exact h
  | setLoop | start | stop | run | move => trivial

omit [DecidableEq ι] in
theorem Told.child_eq {action : HiBannerDelegate.Action μ} (h : b.Told (.delegate action))
    (hturns : action = .run ∨ ∃ item, action = .move item) : b.child = b.mHiIndicator := by
  rcases hturns with rfl | ⟨item, rfl⟩
  · exact h
  · exact h

/-- Whatever else the delegate does, the page that it comes to is shown. -/
theorem Inv.exists_select (h : b.Inv kind) {action : HiBannerDelegate.Action μ}
    {d : HiBannerDelegate μ} (hstep : b.delegate.step v action = some d)
    (hdata : ∀ models, action ≠ .setBannerData models) (htold : b.Told (.delegate action)) :
    ∃ c, select { b with delegate := d } (b.delegate.mHiViewPager.elim 0 (·.currentItem)) =
      some c ∧ c.Inv kind := by
  have hd : d.Inv := h.delegate.step htold.keepsCount hstep
  rcases h.delegate with ⟨ha, hp⟩ | ⟨a, p, ha, hp, hready⟩
  · have hnone := HiBannerDelegate.mHiViewPager_step_of_none hdata hstep ha hp
    refine ⟨{ b with delegate := d }, ?_, hd, fun a' p' _ hp' ↦ ?_⟩
    · rw [select, hnone]
    · cases hnone.symm.trans hp'
  · obtain ⟨a', p', ha', hp', hmodels, hsame⟩ :=
      HiBannerDelegate.step_frame hdata hstep ha hp
    have hcount : a'.getRealCount = a.getRealCount := congrArg List.length hmodels
    obtain ⟨i, hchild, hview⟩ := h.shows a p ha hp
    rw [hp, Option.elim_some]
    rcases hsame with hsame | hturns
    · refine ⟨{ b with delegate := d }, ?_, hd, fun a'' p'' ha'' hp'' ↦ ?_⟩
      · rw [select, hp']
        exact if_pos hsame
      · obtain rfl := Option.some.inj (ha'.symm.trans ha'')
        obtain rfl := Option.some.inj (hp'.symm.trans hp'')
        rw [hcount, hsame]
        exact ⟨i, hchild, hview⟩
    · have hi : b.mHiIndicator = some i := (htold.child_eq hturns).symm.trans hchild
      obtain ⟨c, hselect, hdelegate, hchild', -, hshows⟩ := HiBanner.exists_select
        (b := { b with delegate := d }) (hcount ▸ hready.pos) ha' hp' hi (hcount.symm ▸ hview)
      refine ⟨c, hselect, hdelegate ▸ hd, fun a'' p'' ha'' hp'' ↦ ?_⟩
      rw [hdelegate] at ha'' hp''
      obtain rfl := Option.some.inj (ha'.symm.trans ha'')
      obtain rfl := Option.some.inj (hp'.symm.trans hp'')
      exact ⟨i, hchild'.trans hchild, hshows⟩

/-- What the delegate can do is not stopped by the indicator. -/
theorem Inv.exists_step (h : b.Inv kind) {action : HiBannerDelegate.Action μ}
    {d : HiBannerDelegate μ} (htold : b.Told (.delegate action))
    (hstep : b.delegate.step v action = some d) :
    ∃ c, b.step v kind (.delegate action) = some c ∧ c.Inv kind := by
  cases action with
  | setBannerData models => exact b.exists_setBannerData htold
  | setAutoPlay | setLoop | start | stop | run | move =>
      obtain ⟨c, hselect, hinv⟩ := h.exists_select hstep (by simp) htold
      refine ⟨c, ?_, hinv⟩
      simp only [HiBanner.step, hstep, Option.bind_some]
      exact hselect

/-- A step of the banner is one of its delegate. -/
theorem exists_of_step {action : HiBannerDelegate.Action μ}
    (hstep : b.step v kind (.delegate action) = some c) :
    ∃ d, b.delegate.step v action = some d := by
  cases action with
  | setAutoPlay | setLoop => exact ⟨_, rfl⟩
  | setBannerData | start | stop | run | move =>
      obtain ⟨d, hd, -⟩ := Option.bind_eq_some_iff.mp hstep
      exact ⟨d, hd⟩

theorem Inv.step (h : b.Inv kind) {action : Action μ ι} (htold : b.Told action)
    (hstep : b.step v kind action = some c) : c.Inv kind := by
  cases action with
  | setHiIndicator hiIndicator =>
      obtain rfl := Option.some.inj hstep
      exact ⟨h.delegate, h.shows⟩
  | delegate action =>
      obtain ⟨d, hd⟩ := exists_of_step hstep
      obtain ⟨c', hstep', hinv⟩ := h.exists_step htold hd
      obtain rfl := Option.some.inj (hstep'.symm.trans hstep)
      exact hinv

instance (b : HiBanner μ ι) : DecidablePred b.Told
  | .setHiIndicator _ => isTrue trivial
  | .delegate .run | .delegate (.move _) => inferInstanceAs (Decidable (b.child = b.mHiIndicator))
  | .delegate (.setBannerData models) =>
      inferInstanceAs (Decidable (b.delegate.KeepsCount (.setBannerData models)))
  | .delegate (.setAutoPlay autoPlay) =>
      inferInstanceAs (Decidable (b.delegate.KeepsCount (.setAutoPlay autoPlay)))
  | .delegate (.setLoop _) | .delegate .start | .delegate .stop => isTrue trivial

/-- A banner with numbers is turned to its third page, and given other data. -/
def thirdPage : List (Action String Unit) :=
  [.setHiIndicator (), .delegate (.setBannerData ["a", "b", "c", "d"]), .delegate (.move 2),
    .delegate (.setBannerData ["e", "f"]), .delegate (.move 1)]

end HiBanner

end HiApp.Banner
