import HiApp.Lib.Runs
import Mathlib.Data.Int.Notation

/-!
# Loading more at the end of a list

A scroll listener calls for the next page when the list comes to rest near its end, once until
`loadFinished`.  It is `enableLoadMore` that should give the view this listener, and it only
takes one away.
-/

namespace HiApp.Adapter

open Runs

inductive ScrollState
  | idle
  | dragging
  | settling
  deriving DecidableEq

/-- A staggered layout counts with the positions of its first span. -/
inductive LayoutManager
  | linearLayoutManager (firstVisibleItem lastVisibleItem : ℤ)
  | staggeredGridLayoutManager (firstVisibleItem lastVisibleItem : ℤ)
  | other
  deriving DecidableEq

def findLastVisibleItem : LayoutManager → ℤ
  | .linearLayoutManager _ lastVisibleItem => lastVisibleItem
  | .staggeredGridLayoutManager _ lastVisibleItem => lastVisibleItem
  | .other => -1

def findFirstVisibleItem : LayoutManager → ℤ
  | .linearLayoutManager firstVisibleItem _ => firstVisibleItem
  | .staggeredGridLayoutManager firstVisibleItem _ => firstVisibleItem
  | .other => -1

/-- What a listener sees at a change of the scroll state. -/
structure ScrollEvent where
  newState : ScrollState
  totalItemCount : ℤ
  canScrollVertical : Bool
  layoutManager : LayoutManager
  deriving DecidableEq

namespace ScrollEvent

def lastVisibleItem (event : ScrollEvent) : ℤ := findLastVisibleItem event.layoutManager

def firstVisibleItem (event : ScrollEvent) : ℤ := findFirstVisibleItem event.layoutManager

def arriveBottom (event : ScrollEvent) : Bool :=
  event.totalItemCount - 1 ≤ event.lastVisibleItem && 0 < event.firstVisibleItem

/-- The list is at rest with its end near. -/
def NearEnd (event : ScrollEvent) (prefetchSize : ℤ) : Prop :=
  event.newState = .idle ∧ 0 < event.totalItemCount ∧ 0 < event.lastVisibleItem ∧
    event.totalItemCount - event.lastVisibleItem ≤ prefetchSize

instance (event : ScrollEvent) (prefetchSize : ℤ) : Decidable (event.NearEnd prefetchSize) :=
  inferInstanceAs (Decidable (_ ∧ _))

end ScrollEvent

structure LoadMoreScrollListener where
  prefetchSize : ℤ
  deriving DecidableEq

/-- It is among the adapter's footers at once, and has a parent after the next layout. -/
structure FooterView where
  isFooter : Bool := false
  hasParent : Bool := false
  deriving DecidableEq

/-- `posted` counts the runnables that will try to add the footer again, and `calls` those of
the callback.  `enabled` is the last prefetch size that loading more was enabled with, and
`outstanding` says that the callback was called after the last `loadFinished`. -/
structure HiRecyclerView where
  hasHiAdapter : Bool := false
  scrollListeners : List LoadMoreScrollListener := []
  loadMoreScrollListener : Option LoadMoreScrollListener := none
  footerView : Option FooterView := none
  isLoadingMore : Bool := false
  posted : ℕ := 0
  calls : ℕ := 0
  enabled : Option ℤ := none
  outstanding : Bool := false
  deriving DecidableEq

namespace HiRecyclerView

def addFooterView (view : HiRecyclerView) : HiRecyclerView :=
  let footerView := view.footerView.getD {}
  if footerView.hasParent then
    { view with footerView := some footerView, posted := view.posted + 1 }
  else { view with footerView := some { footerView with isFooter := true } }

/-- The footer leaves the adapter when it has a parent. -/
def removeFooterView (view : HiRecyclerView) : HiRecyclerView :=
  { view with
    footerView := view.footerView.map fun footerView ↦
      if footerView.hasParent then { footerView with isFooter := false } else footerView }

def addFooterOnDrag (event : ScrollEvent) (view : HiRecyclerView) : HiRecyclerView :=
  if event.newState = .dragging ∧ (event.canScrollVertical || event.arriveBottom) = true then
    view.addFooterView
  else view

def onScrollStateChanged (event : ScrollEvent) (listener : LoadMoreScrollListener)
    (view : HiRecyclerView) : HiRecyclerView :=
  if view.isLoadingMore then view
  else if event.totalItemCount ≤ 0 then view
  else if event.lastVisibleItem ≤ 0 then view
  else
    let view := view.addFooterOnDrag event
    if event.newState ≠ .idle then view
    else if ¬ event.totalItemCount - event.lastVisibleItem ≤ listener.prefetchSize then view
    else { view with isLoadingMore := true, calls := view.calls + 1, outstanding := true }

/-- The listeners hear of it from the last to the first. -/
def dispatchOnScrollStateChanged (event : ScrollEvent) (view : HiRecyclerView) :
    HiRecyclerView :=
  view.scrollListeners.foldr (onScrollStateChanged event) view

def enableLoadMore (prefetchSize : ℤ) (view : HiRecyclerView) : HiRecyclerView :=
  if view.hasHiAdapter then
    let view := { view.removeFooterView with enabled := some prefetchSize }
    match view.loadMoreScrollListener with
    | none => view
    | some listener =>
        { view with
          scrollListeners := view.scrollListeners.erase listener
          loadMoreScrollListener := none
          footerView := none
          isLoadingMore := false }
  else view

def loadFinished (success : Bool) (view : HiRecyclerView) : HiRecyclerView :=
  if view.hasHiAdapter then
    let view := { view with isLoadingMore := false, outstanding := false }
    if success then view else view.removeFooterView
  else view

/-- A layout gives the adapter's footer its parent, and takes it from another. -/
def layout (view : HiRecyclerView) : HiRecyclerView :=
  { view with
    footerView := view.footerView.map fun footerView ↦
      { footerView with hasParent := footerView.isFooter } }

/-- One of the runnables is run. -/
def runPost (view : HiRecyclerView) : HiRecyclerView :=
  { view with posted := view.posted - 1 }.addFooterView

inductive Action
  | setAdapter (isHiAdapter : Bool)
  | enableLoadMore (prefetchSize : ℤ)
  | scroll (event : ScrollEvent)
  | loadFinished (success : Bool)
  | layout
  | runPost
  deriving DecidableEq

def step (view : HiRecyclerView) : Action → Option HiRecyclerView
  | .setAdapter isHiAdapter => some { view with hasHiAdapter := isHiAdapter }
  | .enableLoadMore prefetchSize => some (view.enableLoadMore prefetchSize)
  | .scroll event => some (view.dispatchOnScrollStateChanged event)
  | .loadFinished success => some (view.loadFinished success)
  | .layout => some view.layout
  | .runPost =>
      if 0 < view.posted then some view.runPost else none

/-- With loading more enabled, the callback is due at an event. -/
def Due (view : HiRecyclerView) (event : ScrollEvent) : Prop :=
  view.outstanding = false ∧ ∃ prefetchSize ∈ view.enabled, event.NearEnd prefetchSize

instance (view : HiRecyclerView) (event : ScrollEvent) : Decidable (view.Due event) :=
  inferInstanceAs (Decidable (_ ∧ _))

/-- How often the callback should be called in a step. -/
def callsDue (view : HiRecyclerView) : Action → ℕ
  | .scroll event => if view.Due event then 1 else 0
  | _ => 0

/-- The callback is called once where it is due, and nowhere else. -/
def CallsWhenDue (view : HiRecyclerView) (action : Action) : Prop :=
  ∀ view', step view action = some view' → view'.calls = view.calls + view.callsDue action

instance (view : HiRecyclerView) (action : Action) :
    Decidable (view.CallsWhenDue action) :=
  decidable_of_iff
    ((step view action).all fun view' ↦ view'.calls = view.calls + view.callsDue action) (by
    simp [CallsWhenDue, Option.all_eq_true])

/-- The list does not come to rest with its end near. -/
def Quiet (view : HiRecyclerView) : Action → Prop
  | .scroll event => ∀ prefetchSize ∈ view.enabled, ¬ event.NearEnd prefetchSize
  | _ => True

/-! ### The listener, where a view has it -/

/-- The listener is there for the size that loading more was enabled with. -/
structure Installed (view : HiRecyclerView) : Prop where
  hasHiAdapter : view.hasHiAdapter = true
  listeners : ∃ prefetchSize, view.enabled = some prefetchSize ∧
    view.scrollListeners = [{ prefetchSize := prefetchSize }]
  outstanding : view.outstanding = view.isLoadingMore

/-- What happens after loading more was enabled. -/
def IsEvent : Action → Prop
  | .setAdapter _ => False
  | .enableLoadMore _ => False
  | _ => True

/-- The footer is of no matter for the calls. -/
structure SameLoad (view view' : HiRecyclerView) : Prop where
  hasHiAdapter : view'.hasHiAdapter = view.hasHiAdapter
  scrollListeners : view'.scrollListeners = view.scrollListeners
  loadMoreScrollListener : view'.loadMoreScrollListener = view.loadMoreScrollListener
  isLoadingMore : view'.isLoadingMore = view.isLoadingMore
  calls : view'.calls = view.calls
  enabled : view'.enabled = view.enabled
  outstanding : view'.outstanding = view.outstanding

namespace SameLoad

theorem refl (view : HiRecyclerView) : view.SameLoad view := ⟨rfl, rfl, rfl, rfl, rfl, rfl, rfl⟩

variable (view : HiRecyclerView)

theorem addFooterView : view.SameLoad view.addFooterView := by
  unfold HiRecyclerView.addFooterView
  dsimp only
  split
  · exact ⟨rfl, rfl, rfl, rfl, rfl, rfl, rfl⟩
  · exact ⟨rfl, rfl, rfl, rfl, rfl, rfl, rfl⟩

theorem addFooterOnDrag (event : ScrollEvent) : view.SameLoad (view.addFooterOnDrag event) := by
  unfold HiRecyclerView.addFooterOnDrag
  split
  · exact addFooterView view
  · exact refl view

theorem removeFooterView : view.SameLoad view.removeFooterView :=
  ⟨rfl, rfl, rfl, rfl, rfl, rfl, rfl⟩

theorem layout : view.SameLoad view.layout := ⟨rfl, rfl, rfl, rfl, rfl, rfl, rfl⟩

theorem runPost : view.SameLoad view.runPost := by
  obtain ⟨hadapter, hlisteners, hlistener, hloading, hcalls, henabled, houtstanding⟩ :=
    addFooterView { view with posted := view.posted - 1 }
  exact ⟨hadapter, hlisteners, hlistener, hloading, hcalls, henabled, houtstanding⟩

end SameLoad

variable {view view' : HiRecyclerView} {action : Action} {event : ScrollEvent}

/-- A listener either does nothing to the loading, or starts it. -/
theorem onScrollStateChanged_cases (event : ScrollEvent) (listener : LoadMoreScrollListener)
    (view : HiRecyclerView) :
    (¬ (view.isLoadingMore = false ∧ event.NearEnd listener.prefetchSize) ∧
      view.SameLoad (view.onScrollStateChanged event listener)) ∨
    (view.isLoadingMore = false ∧ event.NearEnd listener.prefetchSize) ∧
      view.onScrollStateChanged event listener =
        { view.addFooterOnDrag event with
          isLoadingMore := true, calls := view.calls + 1, outstanding := true } := by
  have hsame := SameLoad.addFooterOnDrag view event
  unfold onScrollStateChanged
  by_cases hloading : view.isLoadingMore = true
  · rw [if_pos hloading]
    exact .inl ⟨fun hdue ↦ Bool.false_ne_true (hdue.1.symm.trans hloading), .refl view⟩
  rw [if_neg hloading]
  by_cases htotal : event.totalItemCount ≤ 0
  · rw [if_pos htotal]
    exact .inl ⟨fun hdue ↦ Int.not_lt.mpr htotal hdue.2.2.1, .refl view⟩
  rw [if_neg htotal]
  by_cases hlast : event.lastVisibleItem ≤ 0
  · rw [if_pos hlast]
    exact .inl ⟨fun hdue ↦ Int.not_lt.mpr hlast hdue.2.2.2.1, .refl view⟩
  rw [if_neg hlast]
  by_cases hidle : event.newState = .idle
  · rw [if_neg (not_not_intro hidle)]
    by_cases hnear : event.totalItemCount - event.lastVisibleItem ≤ listener.prefetchSize
    · rw [if_neg (not_not_intro hnear), hsame.calls]
      exact .inr ⟨⟨eq_false_of_ne_true hloading, hidle, Int.not_le.mp htotal,
        Int.not_le.mp hlast, hnear⟩, rfl⟩
    · rw [if_pos hnear]
      exact .inl ⟨fun hdue ↦ hnear hdue.2.2.2.2, hsame⟩
  · rw [if_pos hidle]
    exact .inl ⟨fun hdue ↦ hidle hdue.2.1, hsame⟩

namespace Installed

theorem of_sameLoad (hinstalled : view.Installed) (hsame : view.SameLoad view') :
    view'.Installed where
  hasHiAdapter := hsame.hasHiAdapter.trans hinstalled.hasHiAdapter
  listeners := by
    rw [hsame.enabled, hsame.scrollListeners]
    exact hinstalled.listeners
  outstanding := by rw [hsame.outstanding, hsame.isLoadingMore, hinstalled.outstanding]

theorem due_iff (hinstalled : view.Installed) {prefetchSize : ℤ}
    (henabled : view.enabled = some prefetchSize) :
    view.Due event ↔ view.isLoadingMore = false ∧ event.NearEnd prefetchSize := by
  simp [Due, henabled, hinstalled.outstanding]

/-- An event keeps the listener and calls the callback when it is due. -/
theorem dispatch (hinstalled : view.Installed) (event : ScrollEvent) :
    (view.dispatchOnScrollStateChanged event).Installed ∧
      (view.dispatchOnScrollStateChanged event).calls =
        view.calls + if view.Due event then 1 else 0 := by
  obtain ⟨prefetchSize, henabled, hlisteners⟩ := hinstalled.listeners
  have hdispatch : view.dispatchOnScrollStateChanged event =
      view.onScrollStateChanged event { prefetchSize := prefetchSize } := by
    rw [dispatchOnScrollStateChanged, hlisteners, List.foldr_cons, List.foldr_nil]
  rw [hdispatch]
  obtain ⟨hnot, hsame⟩ | ⟨hdue, heq⟩ := onScrollStateChanged_cases event
    { prefetchSize := prefetchSize } view
  · rw [if_neg (fun hdue ↦ hnot ((hinstalled.due_iff henabled).mp hdue))]
    exact ⟨hinstalled.of_sameLoad hsame, hsame.calls⟩
  · rw [heq, if_pos ((hinstalled.due_iff henabled).mpr hdue)]
    obtain ⟨hadapter, hlisteners, -⟩ :=
      hinstalled.of_sameLoad (SameLoad.addFooterOnDrag view event)
    exact ⟨⟨hadapter, hlisteners, rfl⟩, rfl⟩

theorem loadFinished (hinstalled : view.Installed) (success : Bool) :
    (view.loadFinished success).Installed := by
  obtain ⟨hadapter, hlisteners, -⟩ := hinstalled
  rw [HiRecyclerView.loadFinished, if_pos hadapter]
  cases success with
  | true => exact ⟨hadapter, hlisteners, rfl⟩
  | false => exact ⟨hadapter, hlisteners, rfl⟩

/-- With the listener there, the callback is called just when it is due. -/
theorem step (hinstalled : view.Installed) (hevent : IsEvent action)
    (hstep : step view action = some view') :
    view'.Installed ∧ view'.calls = view.calls + view.callsDue action := by
  cases action with
  | setAdapter isHiAdapter => exact hevent.elim
  | enableLoadMore prefetchSize => exact hevent.elim
  | scroll event =>
      obtain rfl := Option.some.inj hstep
      exact hinstalled.dispatch event
  | loadFinished success =>
      obtain rfl := Option.some.inj hstep
      refine ⟨hinstalled.loadFinished success, ?_⟩
      rw [HiRecyclerView.loadFinished, if_pos hinstalled.hasHiAdapter]
      cases success with
      | true => rfl
      | false => rfl
  | layout =>
      obtain rfl := Option.some.inj hstep
      exact ⟨hinstalled.of_sameLoad (.layout view), rfl⟩
  | runPost =>
      obtain ⟨-, hrun⟩ := Option.ite_none_right_eq_some.mp hstep
      obtain rfl := Option.some.inj hrun
      exact ⟨hinstalled.of_sameLoad (.runPost view), (SameLoad.runPost view).calls⟩

end Installed

/-- Had `enableLoadMore` given the view its listener, the next page would be called for just
when it should be, in every run. -/
theorem callsWhenDue_of_installed (hinstalled : view.Installed) {actions : List Action}
    (hevents : ∀ action ∈ actions, IsEvent action) :
    StepsMeet step CallsWhenDue view actions := by
  refine stepsMeet_of_imp (I := Installed) (C := fun _ _ ↦ True) (E := fun _ ↦ IsEvent)
    (fun _ _ _ hu hevent hstep ↦ (hu.step hevent hstep).1) ?_ hinstalled
    (stepsMeet_of_forall_mem hevents) stepsMeet_true
  intro u action hu hevent _ v hstep
  exact (hu.step hevent hstep).2

/-! ### The view as it is -/

/-- No listener is there, and so nothing is ever called. -/
structure NotInstalled (view : HiRecyclerView) : Prop where
  scrollListeners : view.scrollListeners = []
  loadMoreScrollListener : view.loadMoreScrollListener = none
  outstanding : view.outstanding = false

theorem notInstalled_init : NotInstalled {} := ⟨rfl, rfl, rfl⟩

namespace NotInstalled

theorem of_sameLoad (hnot : view.NotInstalled) (hsame : view.SameLoad view') :
    view'.NotInstalled where
  scrollListeners := hsame.scrollListeners.trans hnot.scrollListeners
  loadMoreScrollListener := hsame.loadMoreScrollListener.trans hnot.loadMoreScrollListener
  outstanding := hsame.outstanding.trans hnot.outstanding

theorem enableLoadMore (hnot : view.NotInstalled) (prefetchSize : ℤ) :
    (view.enableLoadMore prefetchSize).NotInstalled ∧
      (view.enableLoadMore prefetchSize).calls = view.calls := by
  obtain ⟨hlisteners, hlistener, houtstanding⟩ := hnot.of_sameLoad (.removeFooterView view)
  unfold HiRecyclerView.enableLoadMore
  split
  · simp only [hlistener]
    exact ⟨⟨hlisteners, rfl, houtstanding⟩, rfl⟩
  · exact ⟨hnot, rfl⟩

theorem loadFinished (hnot : view.NotInstalled) (success : Bool) :
    (view.loadFinished success).NotInstalled ∧
      (view.loadFinished success).calls = view.calls := by
  unfold HiRecyclerView.loadFinished
  split
  · cases success with
    | true => exact ⟨⟨hnot.scrollListeners, hnot.loadMoreScrollListener, rfl⟩, rfl⟩
    | false => exact ⟨⟨hnot.scrollListeners, hnot.loadMoreScrollListener, rfl⟩, rfl⟩
  · exact ⟨hnot, rfl⟩

theorem step (hnot : view.NotInstalled) (hstep : step view action = some view') :
    view'.NotInstalled ∧ view'.calls = view.calls := by
  cases action with
  | setAdapter isHiAdapter =>
      obtain rfl := Option.some.inj hstep
      obtain ⟨hlisteners, hlistener, houtstanding⟩ := hnot
      exact ⟨⟨hlisteners, hlistener, houtstanding⟩, rfl⟩
  | enableLoadMore prefetchSize =>
      obtain rfl := Option.some.inj hstep
      exact hnot.enableLoadMore prefetchSize
  | scroll event =>
      obtain rfl := Option.some.inj hstep
      rw [dispatchOnScrollStateChanged, hnot.scrollListeners, List.foldr_nil]
      exact ⟨hnot, rfl⟩
  | loadFinished success =>
      obtain rfl := Option.some.inj hstep
      exact hnot.loadFinished success
  | layout =>
      obtain rfl := Option.some.inj hstep
      exact ⟨hnot.of_sameLoad (.layout view), rfl⟩
  | runPost =>
      obtain ⟨-, hrun⟩ := Option.ite_none_right_eq_some.mp hstep
      obtain rfl := Option.some.inj hrun
      exact ⟨hnot.of_sameLoad (.runPost view), (SameLoad.runPost view).calls⟩

/-- A call that is due is missing. -/
theorem callsWhenDue_iff (hnot : view.NotInstalled) :
    CallsWhenDue view action ↔ Quiet view action := by
  cases action with
  | scroll event =>
      constructor
      · intro hcalls prefetchSize henabled hnear
        have hstep : HiRecyclerView.step view (.scroll event) =
          some (view.dispatchOnScrollStateChanged event) := rfl
        have hcalled := hcalls _ hstep
        rw [(hnot.step hstep).2, callsDue,
          if_pos ⟨hnot.outstanding, prefetchSize, henabled, hnear⟩] at hcalled
        omega
      · intro hquiet v hstep
        rw [(hnot.step hstep).2, callsDue, if_neg, Nat.add_zero]
        rintro ⟨-, prefetchSize, henabled, hnear⟩
        exact hquiet prefetchSize henabled hnear
  | setAdapter isHiAdapter => exact iff_of_true (fun _ hstep ↦ (hnot.step hstep).2) trivial
  | enableLoadMore prefetchSize => exact iff_of_true (fun _ hstep ↦ (hnot.step hstep).2) trivial
  | loadFinished success => exact iff_of_true (fun _ hstep ↦ (hnot.step hstep).2) trivial
  | layout => exact iff_of_true (fun _ hstep ↦ (hnot.step hstep).2) trivial
  | runPost => exact iff_of_true (fun _ hstep ↦ (hnot.step hstep).2) trivial

end NotInstalled

/-- In a run of a new view the callback is called just when it is due if and only if the list
never comes to rest with its end near. -/
theorem callsWhenDue_iff_quiet (actions : List Action) :
    StepsMeet step CallsWhenDue {} actions ↔ StepsMeet step Quiet {} actions := by
  have hkeeps : ∀ u action v, NotInstalled u → True → step u action = some v → NotInstalled v :=
    fun _ _ _ hu _ hstep ↦ (hu.step hstep).1
  constructor
  · refine stepsMeet_of_imp hkeeps ?_ notInstalled_init stepsMeet_true
    intro u action hu _
    exact hu.callsWhenDue_iff.mp
  · refine stepsMeet_of_imp hkeeps ?_ notInstalled_init stepsMeet_true
    intro u action hu _
    exact hu.callsWhenDue_iff.mpr

/-- The last of ten items is to be seen at rest, and the next page is not called for. -/
theorem not_callsWhenDue_atEnd :
    ¬ StepsMeet step CallsWhenDue {}
      [.setAdapter true, .enableLoadMore 5,
        .scroll ⟨.idle, 10, false, .linearLayoutManager 3 9⟩] := by
  decide

end HiRecyclerView

end HiApp.Adapter
