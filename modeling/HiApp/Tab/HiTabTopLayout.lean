import Mathlib.Data.Int.Order.Basic
import Mathlib.Data.List.Basic
import Mathlib.Logic.Function.Basic

/-!
# The tabs at the top of a page

The layout keeps its tabs in the same list as the listeners from outside.  It tells all of
them about a selection, and each tab draws itself.
-/

namespace HiApp.Tab

variable {ι : Type*}

/-- One of the tabs, or a listener from outside. -/
inductive Listener (ι : Type*) where
  | tab (tabInfo : ι)
  | outside
  deriving DecidableEq

/-- `shown` says which infos have a tab that is drawn as selected. -/
structure HiTabTopLayout (ι : Type*) where
  infoList : List ι := []
  listeners : List (Listener ι) := []
  selectedInfo : Option ι := none
  shown : ι → Bool := fun _ ↦ false

namespace HiTabTopLayout

def addTabSelectedChangeListener (l : HiTabTopLayout ι) (listener : Listener ι) :
    HiTabTopLayout ι :=
  { l with listeners := l.listeners ++ [listener] }

variable [DecidableEq ι]

/-- The listeners from outside stay in front of the new tabs. -/
def inflateInfo (l : HiTabTopLayout ι) (infoList : List ι) : HiTabTopLayout ι :=
  if infoList = [] then l
  else
    { infoList := infoList
      listeners := l.listeners.filter (· = .outside) ++ infoList.map .tab
      selectedInfo := none
      shown := fun info ↦ decide (info ∉ infoList) && l.shown info }

def indexOf (l : HiTabTopLayout ι) (info : ι) : ℤ :=
  match l.infoList.idxOf? info with
  | none => -1
  | some index => index

/-- `HiTabTop.onTabSelectedChange` for the tab of `tabInfo`. -/
def onTabSelectedChange (l : HiTabTopLayout ι) (tabInfo : ι) (prevInfo : Option ι)
    (nextInfo : ι) : HiTabTopLayout ι :=
  if prevInfo ≠ some tabInfo ∧ nextInfo ≠ tabInfo ∨ prevInfo = some nextInfo then l
  else if prevInfo = some tabInfo then { l with shown := Function.update l.shown tabInfo false }
  else { l with shown := Function.update l.shown tabInfo true }

/-- What the tabs of a list look like after a selection. -/
def redraw (shown : ι → Bool) (tabs : List ι) (prevInfo : Option ι) (nextInfo : ι)
    (info : ι) : Bool :=
  if info ∉ tabs ∨ prevInfo = some nextInfo then shown info
  else if prevInfo = some info then false
  else if nextInfo = info then true
  else shown info

/-- What they look like when one of them is no longer selected and no other one is. -/
def unselect (shown : ι → Bool) (tabs : List ι) (prevInfo : Option ι) (info : ι) : Bool :=
  if info ∈ tabs ∧ prevInfo = some info then false else shown info

theorem redraw_singleton_of_ne {shown : ι → Bool} {tabInfo info : ι} (h : info ≠ tabInfo)
    (prevInfo : Option ι) (nextInfo : ι) :
    redraw shown [tabInfo] prevInfo nextInfo info = shown info := by
  simp [redraw, h]

theorem onTabSelectedChange_eq (l : HiTabTopLayout ι) (tabInfo : ι) (prevInfo : Option ι)
    (nextInfo : ι) :
    l.onTabSelectedChange tabInfo prevInfo nextInfo =
      { l with shown := redraw l.shown [tabInfo] prevInfo nextInfo } := by
  have hshown : (l.onTabSelectedChange tabInfo prevInfo nextInfo).shown =
      redraw l.shown [tabInfo] prevInfo nextInfo := by
    funext info
    unfold onTabSelectedChange
    by_cases hinfo : info = tabInfo
    · rw [hinfo]
      by_cases hprev : prevInfo = some tabInfo
      · by_cases hnext : nextInfo = tabInfo
        · simp [redraw, hprev, hnext]
        · simp [redraw, hprev, Ne.symm hnext]
      · by_cases hnext : nextInfo = tabInfo
        · simp [redraw, hprev, hnext]
        · simp [redraw, hprev, hnext]
    · rw [redraw_singleton_of_ne hinfo]
      split
      · rfl
      · split
        · exact Function.update_of_ne hinfo _ _
        · exact Function.update_of_ne hinfo _ _
  rw [← hshown]
  unfold onTabSelectedChange
  split
  · rfl
  · split <;> rfl

theorem redraw_redraw (shown : ι → Bool) (tabs tabs' : List ι) (prevInfo : Option ι)
    (nextInfo : ι) :
    redraw (redraw shown tabs prevInfo nextInfo) tabs' prevInfo nextInfo =
      redraw shown (tabs ++ tabs') prevInfo nextInfo := by
  funext info
  unfold redraw
  by_cases hsame : prevInfo = some nextInfo
  · simp [hsame]
  · by_cases hprev : prevInfo = some info
    · by_cases htabs : info ∈ tabs <;> by_cases htabs' : info ∈ tabs' <;>
        simp [hprev, htabs, htabs']
    · by_cases htabs : info ∈ tabs <;> by_cases htabs' : info ∈ tabs' <;>
        simp [hsame, hprev, htabs, htabs']

theorem redraw_self (shown : ι → Bool) (tabs : List ι) (prevInfo : Option ι) (nextInfo : ι) :
    redraw (redraw shown tabs prevInfo nextInfo) tabs prevInfo nextInfo =
      redraw shown tabs prevInfo nextInfo := by
  rw [redraw_redraw]
  funext info
  simp [redraw]

theorem redraw_of_notMem {nextInfo : ι} {tabs : List ι} (h : nextInfo ∉ tabs)
    (shown : ι → Bool) (prevInfo : Option ι) :
    redraw shown tabs prevInfo nextInfo = unselect shown tabs prevInfo := by
  funext info
  unfold redraw unselect
  by_cases hmem : info ∈ tabs
  · have hne : nextInfo ≠ info := fun heq ↦ h (heq ▸ hmem)
    by_cases hprev : prevInfo = some info
    · simp [hmem, hprev, Ne.symm hne]
    · simp [hmem, hprev, hne]
  · simp [hmem]

@[simp] theorem unselect_none (shown : ι → Bool) (tabs : List ι) :
    unselect shown tabs none = shown := by
  funext info
  simp [unselect]

theorem unselect_of_notMem {prevInfo : ι} {tabs : List ι} (h : prevInfo ∉ tabs)
    (shown : ι → Bool) : unselect shown tabs (some prevInfo) = shown := by
  funext info
  unfold unselect
  rw [if_neg]
  rintro ⟨hmem, hprev⟩
  exact h (Option.some.inj hprev ▸ hmem)

end HiTabTopLayout

end HiApp.Tab
