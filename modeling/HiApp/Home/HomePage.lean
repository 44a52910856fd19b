import HiApp.Lib.Runs
import HiApp.Tab.HiTabTopLayout

/-!
# The tabs and the pager of the home page

The page is filled twice, with cached data and with data from the network.  A selected tab
moves the pager, and the pager, once it has moved, selects a tab: the listener that does this
is installed with the first data and keeps the tabs of that time.
-/

namespace HiApp.Home

open Runs Tab

/-- A `HiTabTopInfo`: each update makes new ones. -/
structure Info where
  update : ℕ
  index : ℕ
  deriving DecidableEq

inductive Thrown where
  | indexOutOfBounds
  | stackOverflow
  deriving DecidableEq

/-- `count` is the number of pages of the adapter, if there is one.  `topTabs` are the tabs
that the page listener refers to. -/
structure HomePage where
  topTabLayout : HiTabTopLayout Info := {}
  count : Option ℕ := none
  currentItem : ℕ := 0
  topTabs : List Info := []
  topTabSelectIndex : ℕ := 0
  updates : ℕ := 0
  crashed : Bool := false

namespace HomePage

section

/-! `select` is what the listeners call when they select a tab in turn. -/

variable (select : HomePage → Info → Except Thrown HomePage)

def onPageSelected (s : HomePage) (position : ℕ) : Except Thrown HomePage :=
  if position ≠ s.topTabSelectIndex then
    match s.topTabs[position]? with
    | none => .error .indexOutOfBounds
    | some info => (select s info).map fun s ↦ { s with topTabSelectIndex := position }
  else .ok s

/-- The pager has no use for an index that is out of range: it takes the nearest page. -/
def setCurrentItem (s : HomePage) (item : ℤ) : Except Thrown HomePage :=
  match s.count with
  | none | some 0 => .ok s
  | some (last + 1) =>
      if min item.toNat last = s.currentItem then .ok s
      else
        onPageSelected select { s with currentItem := min item.toNat last } (min item.toNat last)

def onTabSelected (s : HomePage) (index : ℤ) : Except Thrown HomePage :=
  if s.currentItem ≠ index then setCurrentItem select s index else .ok s

def notify (nextInfo : Info) (s : HomePage) : Listener Info → Except Thrown HomePage
  | .tab tabInfo =>
      .ok { s with topTabLayout :=
        s.topTabLayout.onTabSelectedChange tabInfo s.topTabLayout.selectedInfo nextInfo }
  | .outside => onTabSelected select s (s.topTabLayout.indexOf nextInfo)

end

def setSelectedInfo (s : HomePage) (info : Info) : HomePage :=
  { s with topTabLayout := { s.topTabLayout with selectedInfo := some info } }

/-- `HiTabTopLayout.onSelected`.  The calls are nested up to a depth. -/
def onSelected : ℕ → HomePage → Info → Except Thrown HomePage
  | 0 => fun _ _ ↦ .error .stackOverflow
  | depth + 1 => fun s nextInfo ↦
      (s.topTabLayout.listeners.foldlM (notify (onSelected depth) nextInfo) s).map
        fun s ↦ s.setSelectedInfo nextInfo

/-- The infos for so many categories. -/
def infos (update size : ℕ) : List Info := (List.range size).map (Info.mk update)

/-- When the adapter's data change, the pager keeps its current item in range. -/
def updateUI (depth : ℕ) (s : HomePage) (size : ℕ) : Except Thrown HomePage := do
  let topTabs := infos (s.updates + 1) size
  let s := { s with
    updates := s.updates + 1
    topTabLayout := s.topTabLayout.inflateInfo topTabs }
  match topTabs[0]? with
  | none => .error .indexOutOfBounds
  | some info =>
      let s ← onSelected depth s info
      let s := { s with
        topTabLayout := s.topTabLayout.addTabSelectedChangeListener .outside
        topTabs := if s.count = none then topTabs else s.topTabs
        count := some size }
      setCurrentItem (onSelected depth) s s.currentItem

end HomePage

/-- A click is on a tab of the layout; a swipe leads to any page. -/
inductive Action where
  | updateUI (isAlive : Bool) (size : ℕ)
  | onClick (index : ℕ)
  | swipe (position : ℕ)

namespace HomePage

/-- An exception that nobody catches ends the app. -/
def settle (s : HomePage) : Except Thrown HomePage → HomePage
  | .ok s => s
  | .error _ => { s with crashed := true }

def step (depth : ℕ) (s : HomePage) (a : Action) : Option HomePage :=
  if s.crashed then none
  else
    match a with
    | .updateUI isAlive size => some (if isAlive then s.settle (s.updateUI depth size) else s)
    | .onClick index =>
        (s.topTabLayout.infoList[index]?).map fun info ↦ s.settle (onSelected depth s info)
    | .swipe position =>
        if position < s.count.getD 0 then
          some (if position = s.currentItem then s
            else s.settle
              (onPageSelected (onSelected depth) { s with currentItem := position } position))
        else none

/-- The selected tab is the one of the current page, and it alone is drawn so. -/
structure Agrees (s : HomePage) : Prop where
  crashed : s.crashed = false
  selected : s.topTabLayout.infoList ≠ [] → ∃ info, s.topTabLayout.selectedInfo = some info ∧
    s.topTabLayout.infoList.idxOf? info = some s.currentItem
  shown : s.topTabLayout.infoList ≠ [] → ∃ tab ∈ s.topTabLayout.infoList,
    ∀ info ∈ s.topTabLayout.infoList, s.topTabLayout.shown info = true ↔ info = tab

end HomePage

end HiApp.Home
