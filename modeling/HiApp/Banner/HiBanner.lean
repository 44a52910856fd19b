import HiApp.Lib.Runs
import HiApp.Lib.SparseArray

/-!
# Banners

A banner that plays on its own or loops has almost `Integer.MAX_VALUE` pages, which show its
models over and over, and begins in the middle of them.  The flags of its adapter change at
once with `setAutoPlay`, and only with the next data after `setLoop`.
-/

namespace HiApp.Banner

open Runs

variable {μ : Type}

def Integer.MAX_VALUE : ℕ := 2147483647

/-- What is relied on of a pager that is sent to a page: it goes there if there is such a
page, and to some page otherwise. -/
structure ViewPager where
  setCurrentItem : (count current item : ℕ) → ℕ
  eq_of_lt : ∀ {count current item}, item < count → setCurrentItem count current item = item
  lt : ∀ {count current item}, 0 < count → setCurrentItem count current item < count

/-- A holder of a view is the number of those made before it with the same data. -/
structure HiBannerAdapter (μ : Type) where
  models : List μ := []
  mCachedViews : SparseArray ℕ := .empty
  mAutoPlay : Bool := true
  mLoop : Bool := false

namespace HiBannerAdapter

def initCachedView (models : List μ) : SparseArray ℕ :=
  (List.range models.length).foldl (fun views (i : ℕ) ↦ views.put i i) .empty

def setBannerData (a : HiBannerAdapter μ) (models : List μ) : HiBannerAdapter μ :=
  { a with models := models, mCachedViews := initCachedView models }

def getRealCount (a : HiBannerAdapter μ) : ℕ := a.models.length

def getCount (a : HiBannerAdapter μ) : ℕ :=
  if a.mAutoPlay then Integer.MAX_VALUE
  else if a.mLoop then Integer.MAX_VALUE
  else a.getRealCount

/-- `none` where a number is divided by zero. -/
def getFirstItem (a : HiBannerAdapter μ) : Option ℕ :=
  if a.getRealCount = 0 then none
  else some (Integer.MAX_VALUE / 2 - Integer.MAX_VALUE / 2 % a.getRealCount)

/-- The holder and the model that are bound, or `none` where there is no such holder or
model. -/
def instantiateItem (a : HiBannerAdapter μ) (position : ℕ) : Option (ℕ × μ) := do
  let realPosition := if 0 < a.getRealCount then position % a.getRealCount else position
  let viewHolder ← a.mCachedViews.get realPosition
  let model ← a.models[realPosition]?
  return (viewHolder, model)

end HiBannerAdapter

/-- `expectedCount` is the count that the pager was last notified of; `posted` that the next
automatic step is waiting. -/
structure HiViewPager where
  currentItem : ℕ := 0
  expectedCount : ℕ
  mAutoPlay : Bool := true
  posted : Bool := false

namespace HiViewPager

/-- A pager throws when it finds another count than it expects. -/
def setCurrentItem (v : ViewPager) (p : HiViewPager) (count item : ℕ) : Option HiViewPager :=
  if count = p.expectedCount then
    some { p with currentItem := v.setCurrentItem count p.currentItem item }
  else none

def start (p : HiViewPager) : HiViewPager := { p with posted := p.mAutoPlay }

def stop (p : HiViewPager) : HiViewPager := { p with posted := false }

def setAutoPlay (p : HiViewPager) (autoPlay : Bool) : HiViewPager :=
  { p with mAutoPlay := autoPlay, posted := p.posted && autoPlay }

def next (v : ViewPager) (a : HiBannerAdapter μ) (p : HiViewPager) : Option HiViewPager :=
  if a.getCount ≤ 1 then some p.stop
  else
    let nextPosition := p.currentItem + 1
    if a.getCount ≤ nextPosition then
      a.getFirstItem.bind fun nextPosition ↦ p.setCurrentItem v a.getCount nextPosition
    else p.setCurrentItem v a.getCount nextPosition

/-- `mRunnable`, which posts itself again. -/
def run (v : ViewPager) (a : HiBannerAdapter μ) (p : HiViewPager) : Option HiViewPager :=
  (p.next v a).map fun p ↦ { p with posted := true }

end HiViewPager

structure HiBannerDelegate (μ : Type) where
  mAutoPlay : Bool
  mLoop : Bool
  mAdapter : Option (HiBannerAdapter μ) := none
  mHiViewPager : Option HiViewPager := none

namespace HiBannerDelegate

/-- The adapter of the new pager gets the flags after its data. -/
def adapter (b : HiBannerDelegate μ) (models : List μ) : HiBannerAdapter μ :=
  { (b.mAdapter.getD {}).setBannerData models with mAutoPlay := b.mAutoPlay, mLoop := b.mLoop }

def init (v : ViewPager) (b : HiBannerDelegate μ) (models : List μ) :
    Option (HiBannerDelegate μ) :=
  let mAdapter := b.adapter models
  let mHiViewPager : HiViewPager :=
    { expectedCount := mAdapter.getCount, mAutoPlay := b.mAutoPlay }
  if (b.mLoop ∨ b.mAutoPlay) ∧ mAdapter.getRealCount ≠ 0 then
    mAdapter.getFirstItem.map fun firstItem ↦
      { b with
        mAdapter := some mAdapter
        mHiViewPager := some { mHiViewPager with
          currentItem := v.setCurrentItem mAdapter.getCount mHiViewPager.currentItem firstItem } }
  else some { b with mAdapter := some mAdapter, mHiViewPager := some mHiViewPager }

def setAutoPlay (b : HiBannerDelegate μ) (autoPlay : Bool) : HiBannerDelegate μ :=
  { b with
    mAutoPlay := autoPlay
    mAdapter := b.mAdapter.map fun a ↦ { a with mAutoPlay := autoPlay }
    mHiViewPager := b.mHiViewPager.map fun p ↦ p.setAutoPlay autoPlay }

def setLoop (b : HiBannerDelegate μ) (loop : Bool) : HiBannerDelegate μ := { b with mLoop := loop }

/-- The pager starts when it is attached or let go, and stops when it is touched or
detached. -/
inductive Action (μ : Type) where
  | setBannerData (models : List μ)
  | setAutoPlay (autoPlay : Bool)
  | setLoop (loop : Bool)
  | start
  | stop
  | run
  | move (item : ℕ)
  deriving DecidableEq

/-- Something the pager does. -/
def withPager (b : HiBannerDelegate μ)
    (f : HiBannerAdapter μ → HiViewPager → Option HiViewPager) : Option (HiBannerDelegate μ) := do
  let a ← b.mAdapter
  let p ← b.mHiViewPager
  let p ← f a p
  return { b with mHiViewPager := some p }

def step (v : ViewPager) (b : HiBannerDelegate μ) : Action μ → Option (HiBannerDelegate μ)
  | .setBannerData models => b.init v models
  | .setAutoPlay autoPlay => some (b.setAutoPlay autoPlay)
  | .setLoop loop => some (b.setLoop loop)
  | .start => b.withPager fun _ p ↦ some p.start
  | .stop => b.withPager fun _ p ↦ some p.stop
  | .run => b.withPager fun a p ↦ if p.posted then p.run v a else none
  | .move item => b.withPager fun a p ↦ p.setCurrentItem v a.getCount item

/-- The pager is on one of its pages, each of which has a holder and a model, and an
automatic step that does not wrap takes it to the next model. -/
structure OnPage (v : ViewPager) (a : HiBannerAdapter μ) (p : HiViewPager) : Prop where
  current : p.currentItem < a.getCount
  page : ∀ position < a.getCount, ∃ viewHolder model,
    a.instantiateItem position = some (viewHolder, model) ∧
      a.mCachedViews.get (position % a.getRealCount : ℕ) = some viewHolder ∧
      a.models[position % a.getRealCount]? = some model
  next : p.currentItem + 1 < a.getCount → ∃ q, p.next v a = some q ∧
    q.currentItem % a.getRealCount = (p.currentItem % a.getRealCount + 1) % a.getRealCount

def Valid (v : ViewPager) (b : HiBannerDelegate μ) : Prop :=
  ∀ a p, b.mAdapter = some a → b.mHiViewPager = some p → OnPage v a p

/-- There is data, and the number of pages stays as it is until there is new data. -/
def KeepsCount (b : HiBannerDelegate μ) : Action μ → Prop
  | .setBannerData models => models ≠ []
  | .setAutoPlay autoPlay =>
      ∀ a, b.mAdapter = some a → { a with mAutoPlay := autoPlay }.getCount = a.getCount
  | _ => True

instance {b : HiBannerDelegate μ} : DecidablePred b.KeepsCount
  | .setBannerData models => inferInstanceAs (Decidable (models ≠ []))
  | .setAutoPlay autoPlay =>
      decidable_of_iff
        (b.mAdapter.all fun a ↦ decide ({ a with mAutoPlay := autoPlay }.getCount = a.getCount)) (by
        simp [KeepsCount, Option.all_eq_true])
  | .setLoop _ | .start | .stop | .run | .move _ => isTrue trivial

end HiBannerDelegate

/-! ## The pages of an adapter -/

namespace HiBannerAdapter

variable {a : HiBannerAdapter μ} {models : List μ} {position : ℕ}

/-- One holder for each model, in order. -/
theorem entries_initCachedView (models : List μ) :
    (initCachedView models).entries =
      (List.range models.length).map fun i : ℕ ↦ ((i : ℤ), i) := by
  unfold initCachedView
  generalize models.length = n
  induction n with
  | zero => rfl
  | succ n ih =>
      rw [List.range_succ, List.foldl_append, List.foldl_cons, List.foldl_nil,
        SparseArray.entries_put_of_lt, ih, List.map_append, List.map_singleton]
      intro key hkey
      rw [SparseArray.keys, ih, List.map_map, List.mem_map] at hkey
      obtain ⟨i, hi, rfl⟩ := hkey
      exact Int.ofNat_lt.mpr (List.mem_range.mp hi)

theorem get_initCachedView (h : position < models.length) :
    (initCachedView models).get position = some position := by
  rw [SparseArray.get_eq_some_iff, entries_initCachedView]
  exact List.mem_map_of_mem (List.mem_range.mpr h)

theorem instantiateItem_eq (hcached : a.mCachedViews = initCachedView a.models)
    (hpos : 0 < a.getRealCount) (position : ℕ) :
    ∃ viewHolder model, a.instantiateItem position = some (viewHolder, model) ∧
      a.mCachedViews.get (position % a.getRealCount : ℕ) = some viewHolder ∧
      a.models[position % a.getRealCount]? = some model := by
  have hlt : position % a.getRealCount < a.models.length := Nat.mod_lt _ hpos
  have hget : a.models[position % a.getRealCount]? = some a.models[position % a.getRealCount] :=
    List.getElem?_eq_getElem hlt
  have hholder := get_initCachedView hlt
  rw [← hcached] at hholder
  refine ⟨_, _, ?_, hholder, hget⟩
  simp only [instantiateItem, if_pos hpos, hholder, hget, Option.bind_eq_bind, Option.bind_some]
  rfl

theorem getCount_pos (hpos : 0 < a.getRealCount) : 0 < a.getCount := by
  unfold getCount
  split
  · decide
  · split
    · decide
    · exact hpos

end HiBannerAdapter

namespace HiBannerDelegate

variable {v : ViewPager} {b c : HiBannerDelegate μ} {a : HiBannerAdapter μ} {p q : HiViewPager}

/-- There is data in the adapter, and the pager is on a page and knows how many there are. -/
structure Ready (a : HiBannerAdapter μ) (p : HiViewPager) : Prop where
  pos : 0 < a.getRealCount
  cached : a.mCachedViews = HiBannerAdapter.initCachedView a.models
  current : p.currentItem < a.getCount
  expected : a.getCount = p.expectedCount

/-- There is a pager just when there is an adapter. -/
def Inv (b : HiBannerDelegate μ) : Prop :=
  b.mAdapter = none ∧ b.mHiViewPager = none ∨
    ∃ a p, b.mAdapter = some a ∧ b.mHiViewPager = some p ∧ Ready a p

namespace Ready

theorem setCurrentItem (h : Ready a p) (v : ViewPager) (item : ℕ) :
    ∃ q, p.setCurrentItem v a.getCount item = some q ∧ Ready a q ∧
      (item < a.getCount → q.currentItem = item) :=
  ⟨_, if_pos h.expected,
    ⟨h.pos, h.cached, v.lt (HiBannerAdapter.getCount_pos h.pos), h.expected⟩, v.eq_of_lt⟩

theorem next (h : Ready a p) (v : ViewPager) :
    ∃ q, p.next v a = some q ∧ Ready a q ∧
      (p.currentItem + 1 < a.getCount → q.currentItem = p.currentItem + 1) := by
  unfold HiViewPager.next
  split
  · exact ⟨_, rfl, ⟨h.pos, h.cached, h.current, h.expected⟩, fun hlt ↦ by omega⟩
  · simp only
    split
    · rename_i hwrap
      have hfirst : a.getFirstItem = some _ := if_neg (Nat.ne_of_gt h.pos)
      obtain ⟨q, hq, hready, -⟩ := h.setCurrentItem v
        (Integer.MAX_VALUE / 2 - Integer.MAX_VALUE / 2 % a.getRealCount)
      rw [hfirst, Option.bind_some]
      exact ⟨q, hq, hready, fun hlt ↦ absurd hwrap (Nat.not_le_of_lt hlt)⟩
    · exact h.setCurrentItem v (p.currentItem + 1)

theorem onPage (h : Ready a p) (v : ViewPager) : OnPage v a p := by
  refine ⟨h.current, fun position _ ↦ ?_, fun hlt ↦ ?_⟩
  · exact HiBannerAdapter.instantiateItem_eq h.cached h.pos position
  · obtain ⟨q, hq, -, hitem⟩ := h.next v
    refine ⟨q, hq, ?_⟩
    rw [hitem hlt, Nat.mod_add_mod]

end Ready

theorem Inv.valid (h : b.Inv) (v : ViewPager) : Valid v b := by
  rintro a p ha hp
  rcases h with ⟨hnone, -⟩ | ⟨a', p', ha', hp', hready⟩
  · rw [hnone] at ha
    cases ha
  · obtain rfl := Option.some.inj (ha'.symm.trans ha)
    obtain rfl := Option.some.inj (hp'.symm.trans hp)
    exact hready.onPage v

theorem Inv.init {models : List μ} (hne : models ≠ []) (hinit : b.init v models = some c) :
    c.Inv := by
  have hpos : 0 < (b.adapter models).getRealCount := List.length_pos_iff.mpr hne
  simp only [HiBannerDelegate.init] at hinit
  split at hinit
  · rename_i hloop
    obtain ⟨firstItem, hfirst, rfl⟩ := Option.map_eq_some_iff.mp hinit
    exact .inr ⟨_, _, rfl, rfl, hpos, rfl, v.lt (HiBannerAdapter.getCount_pos hpos), rfl⟩
  · obtain rfl := Option.some.inj hinit
    exact .inr ⟨_, _, rfl, rfl, hpos, rfl, HiBannerAdapter.getCount_pos hpos, rfl⟩

theorem Inv.setAutoPlay (h : b.Inv) {autoPlay : Bool}
    (hkeeps : b.KeepsCount (.setAutoPlay autoPlay)) : (b.setAutoPlay autoPlay).Inv := by
  rcases h with ⟨ha, hp⟩ | ⟨a, p, ha, hp, hready⟩
  · left
    simp [HiBannerDelegate.setAutoPlay, ha, hp]
  · right
    have hcount := hkeeps a ha
    refine ⟨{ a with mAutoPlay := autoPlay }, p.setAutoPlay autoPlay, ?_, ?_, hready.pos,
      hready.cached, ?_, ?_⟩
    · simp [HiBannerDelegate.setAutoPlay, ha]
    · simp [HiBannerDelegate.setAutoPlay, hp]
    · rw [hcount]
      exact hready.current
    · rw [hcount]
      exact hready.expected

/-- What the pager does leaves the adapter. -/
theorem Inv.withPager (h : b.Inv)
    {f : HiBannerAdapter μ → HiViewPager → Option HiViewPager}
    (hf : ∀ a p q, Ready a p → f a p = some q → Ready a q) (hpager : b.withPager f = some c) :
    c.Inv := by
  rcases h with ⟨ha, -⟩ | ⟨a, p, ha, hp, hready⟩
  · simp [HiBannerDelegate.withPager, ha] at hpager
  · simp only [HiBannerDelegate.withPager, ha, hp, Option.bind_eq_bind, Option.bind_some,
      Option.bind_eq_some_iff] at hpager
    obtain ⟨q, hq, hc⟩ := hpager
    obtain rfl := Option.some.inj hc
    exact .inr ⟨a, q, rfl, rfl, hf a p q hready hq⟩

theorem Inv.step (h : b.Inv) {action : Action μ} (hkeeps : b.KeepsCount action)
    (hstep : b.step v action = some c) : c.Inv := by
  cases action with
  | setBannerData models => exact .init hkeeps hstep
  | setAutoPlay autoPlay =>
      obtain rfl := Option.some.inj hstep
      exact h.setAutoPlay hkeeps
  | setLoop loop =>
      obtain rfl := Option.some.inj hstep
      exact h
  | start =>
      apply h.withPager _ hstep
      rintro a p q hready hq
      obtain rfl := Option.some.inj hq
      exact ⟨hready.pos, hready.cached, hready.current, hready.expected⟩
  | stop =>
      apply h.withPager _ hstep
      rintro a p q hready hq
      obtain rfl := Option.some.inj hq
      exact ⟨hready.pos, hready.cached, hready.current, hready.expected⟩
  | run =>
      apply h.withPager _ hstep
      rintro a p q hready hq
      obtain ⟨-, hrun⟩ := Option.ite_none_right_eq_some.mp hq
      obtain ⟨r, hr, rfl⟩ := Option.map_eq_some_iff.mp hrun
      obtain ⟨r', hr', hready', -⟩ := hready.next v
      obtain rfl := Option.some.inj (hr'.symm.trans hr)
      exact ⟨hready'.pos, hready'.cached, hready'.current, hready'.expected⟩
  | move item =>
      apply h.withPager _ hstep
      rintro a p q hready hq
      obtain ⟨q', hq', hready', -⟩ := hready.setCurrentItem v item
      obtain rfl := Option.some.inj (hq'.symm.trans hq)
      exact hready'

/-- As long as there is data and the number of pages is kept, the pager is on a page. -/
theorem valid_of_keepsCount (v : ViewPager) {autoPlay loop : Bool} {actions : List (Action μ)}
    (hkeeps : StepsMeet (step v) KeepsCount ⟨autoPlay, loop, none, none⟩ actions) :
    StatesMeet (step v) (Valid v) ⟨autoPlay, loop, none, none⟩ actions := by
  have hinit : (⟨autoPlay, loop, none, none⟩ : HiBannerDelegate μ).Inv := .inl ⟨rfl, rfl⟩
  exact statesMeet_of_stepsMeet (fun _ _ _ hu hC hstep ↦ hu.step hC hstep)
    (fun _ hu ↦ hu.valid v) hinit hkeeps

/-- A pager that stops at the last page. -/
def lastPage : ViewPager where
  setCurrentItem count _ item := min item (count - 1)
  eq_of_lt h := Nat.min_eq_left (Nat.le_sub_one_of_lt h)
  lt h := Nat.lt_of_le_of_lt (Nat.min_le_right _ _) (Nat.sub_lt h Nat.one_pos)

theorem valid_of_keepsCount_threeModels :
    StatesMeet (step lastPage) (Valid lastPage) ⟨true, false, none, none⟩
      [.setLoop true, .setBannerData ["a", "b", "c"], .setAutoPlay true, .start, .run,
        .move 7] := by
  apply valid_of_keepsCount lastPage
  decide

/-- Without models a banner that plays has pages, but no model for them. -/
theorem not_valid_noModels :
    ∃ b, run (step lastPage) ⟨true, false, none, none⟩ [.setBannerData ([] : List String)] =
        some b ∧ ¬ Valid lastPage b := by
  refine ⟨_, rfl, fun hvalid ↦ ?_⟩
  obtain ⟨viewHolder, model, -, -, hmodel⟩ := (hvalid _ _ rfl rfl).page 0 (by decide)
  simp [HiBannerDelegate.adapter, HiBannerAdapter.setBannerData] at hmodel

/-- A banner that stops playing is on a page far behind its last. -/
theorem not_valid_setAutoPlay :
    ∃ b, run (step lastPage) ⟨true, false, none, none⟩
        [.setBannerData ["a", "b", "c"], .setAutoPlay false] = some b ∧ ¬ Valid lastPage b := by
  refine ⟨_, rfl, fun hvalid ↦ ?_⟩
  exact absurd (hvalid _ _ rfl rfl).current (by decide)

end HiBannerDelegate

end HiApp.Banner
