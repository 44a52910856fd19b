import HiApp.Lib.Runs
import HiApp.Tab.HiTabTopLayout
import Mathlib.Data.List.Chain
import Mathlib.Data.List.Nodup

/-!
# The tabs of a layout

The layouts at the top and at the bottom of a page make their tabs anew with every list of
infos, register them with the listeners from outside and show them.  They differ in the
views that the tabs are put in.  Nothing says which tab is selected but the tabs, each of
which draws itself when it is told of a selection.
-/

namespace HiApp.TabLayout

open Runs

variable {ι : Type*}

/-- A `HiTabBottom` or `HiTabTop`; `selected` is how it was last inflated. -/
structure HiTab (ι : Type*) where
  tabInfo : ι
  selected : Bool
  deriving DecidableEq

namespace HiTab

def setHiTabInfo (info : ι) : HiTab ι := ⟨info, false⟩

variable [DecidableEq ι]

def onTabSelectedChange (tab : HiTab ι) (prevInfo : Option ι) (nextInfo : ι) : HiTab ι :=
  if prevInfo ≠ some tab.tabInfo ∧ nextInfo ≠ tab.tabInfo ∨ prevInfo = some nextInfo then tab
  else if prevInfo = some tab.tabInfo then { tab with selected := false }
  else { tab with selected := true }

variable {tab : HiTab ι} {prevInfo : Option ι} {nextInfo : ι}

@[simp] theorem tabInfo_onTabSelectedChange :
    (tab.onTabSelectedChange prevInfo nextInfo).tabInfo = tab.tabInfo := by
  unfold onTabSelectedChange
  split
  · rfl
  · split <;> rfl

theorem onTabSelectedChange_self :
    (tab.onTabSelectedChange prevInfo nextInfo).onTabSelectedChange prevInfo nextInfo =
      tab.onTabSelectedChange prevInfo nextInfo := by
  by_cases hkeep : prevInfo ≠ some tab.tabInfo ∧ nextInfo ≠ tab.tabInfo ∨ prevInfo = some nextInfo
  · have hsame : tab.onTabSelectedChange prevInfo nextInfo = tab := if_pos hkeep
    rw [hsame, hsame]
  · by_cases hprev : prevInfo = some tab.tabInfo
    · have hoff : tab.onTabSelectedChange prevInfo nextInfo = { tab with selected := false } := by
        rw [onTabSelectedChange, if_neg hkeep, if_pos hprev]
      rw [hoff, onTabSelectedChange, if_neg hkeep, if_pos hprev]
    · have hon : tab.onTabSelectedChange prevInfo nextInfo = { tab with selected := true } := by
        rw [onTabSelectedChange, if_neg hkeep, if_neg hprev]
      rw [hon, onTabSelectedChange, if_neg hkeep, if_neg hprev]

/-- A tab that is drawn as the previous selection says is then drawn as the next one says. -/
theorem selected_onTabSelectedChange
    (h : tab.selected = decide (prevInfo = some tab.tabInfo)) :
    (tab.onTabSelectedChange prevInfo nextInfo).selected = decide (nextInfo = tab.tabInfo) := by
  by_cases hprev : prevInfo = some tab.tabInfo
  · by_cases hnext : nextInfo = tab.tabInfo
    · simp [onTabSelectedChange, hprev, hnext, h]
    · simp [onTabSelectedChange, hprev, hnext, Ne.symm hnext]
  · by_cases hnext : nextInfo = tab.tabInfo
    · simp [onTabSelectedChange, hprev, hnext]
    · simp [onTabSelectedChange, hprev, hnext, h]

end HiTab

/-- What a listener from outside has been told, and when there were new tabs. -/
inductive Heard (ι : Type*) where
  | inflated
  | told (index : ℤ) (prevInfo : Option ι) (nextInfo : ι)

namespace Heard

/-- The info that is selected then. -/
def selectedInfo : Heard ι → Option ι
  | .inflated => none
  | .told _ _ nextInfo => some nextInfo

/-- The info that is said to have been selected is the one that was. -/
def Follows : Heard ι → Heard ι → Prop
  | _, .inflated => True
  | before, .told _ prevInfo _ => prevInfo = before.selectedInfo

end Heard

/-- One of the tabs, by its number, or a listener from outside. -/
inductive OnTabSelectedListener (ι : Type*) where
  | tab (id : ℕ)
  | outside (heard : List (Heard ι))

/-- Views that tabs are put in, in place of those that were there. -/
structure TabViews (V : Type*) where
  inflate : V → List ℕ → V
  tabs : V → List ℕ
  tabs_inflate : ∀ views ids, tabs (inflate views ids) = ids

/-- `tabs` has all tabs that were ever made. -/
structure Layout (V ι : Type*) where
  views : V
  infoList : List ι := []
  listeners : List (OnTabSelectedListener ι) := []
  selectedInfo : Option ι := none
  tabs : List (HiTab ι) := []

namespace Layout

variable {V : Type*} (w : TabViews V)

def addTabSelectedChangeListener (l : Layout V ι) : Layout V ι :=
  { l with listeners := l.listeners ++ [.outside []] }

/-- Tabs of before are no longer told of selections. -/
def remaining : List (OnTabSelectedListener ι) → List (OnTabSelectedListener ι)
  | [] => []
  | .tab _ :: listeners => remaining listeners
  | .outside heard :: listeners => .outside (heard ++ [.inflated]) :: remaining listeners

def inflateInfo (l : Layout V ι) (infoList : List ι) : Layout V ι :=
  if infoList = [] then l
  else
    let ids := List.range' l.tabs.length infoList.length
    { views := w.inflate l.views ids
      infoList := infoList
      listeners := remaining l.listeners ++ ids.map .tab
      selectedInfo := none
      tabs := l.tabs ++ infoList.map HiTab.setHiTabInfo }

variable [DecidableEq ι]

def indexOf (infoList : List ι) (info : ι) : ℤ :=
  match infoList.idxOf? info with
  | none => -1
  | some index => index

/-- The listeners are told one after another. -/
def notify (index : ℤ) (prevInfo : Option ι) (nextInfo : ι) :
    List (OnTabSelectedListener ι) → List (HiTab ι) →
      List (OnTabSelectedListener ι) × List (HiTab ι)
  | [], tabs => ([], tabs)
  | .tab id :: listeners, tabs =>
      let r := notify index prevInfo nextInfo listeners
        (tabs.modify id fun tab ↦ tab.onTabSelectedChange prevInfo nextInfo)
      (.tab id :: r.1, r.2)
  | .outside heard :: listeners, tabs =>
      let r := notify index prevInfo nextInfo listeners tabs
      (.outside (heard ++ [.told index prevInfo nextInfo]) :: r.1, r.2)

def onSelected (l : Layout V ι) (nextInfo : ι) : Layout V ι :=
  let r := notify (indexOf l.infoList nextInfo) l.selectedInfo nextInfo l.listeners l.tabs
  { l with listeners := r.1, tabs := r.2, selectedInfo := some nextInfo }

def defaultSelected (l : Layout V ι) (defaultInfo : ι) : Layout V ι := l.onSelected defaultInfo

/-- The listener of a tab has the info that it was made with. -/
def onClick (l : Layout V ι) (id : ℕ) : Option (Layout V ι) :=
  l.tabs[id]?.map fun tab ↦ l.onSelected tab.tabInfo

end Layout

/-- A click is on a tab that is shown; other selections are of an info of the list. -/
inductive Action (ι : Type*) where
  | addTabSelectedChangeListener
  | inflateInfo (infoList : List ι)
  | onClick (id : ℕ)
  | defaultSelected (defaultInfo : ι)

namespace Layout

variable {V : Type*} (w : TabViews V) [DecidableEq ι]

def step (l : Layout V ι) : Action ι → Option (Layout V ι)
  | .addTabSelectedChangeListener => some l.addTabSelectedChangeListener
  | .inflateInfo infoList => if infoList.Nodup then some (l.inflateInfo w infoList) else none
  | .onClick id => if id ∈ w.tabs l.views then l.onClick id else none
  | .defaultSelected defaultInfo =>
      if defaultInfo ∈ l.infoList then some (l.defaultSelected defaultInfo) else none

/-- With a selected info just the tab of this info is drawn as selected; to select it again
changes no tab; and what listeners from outside are told fits together. -/
structure ShowsSelected (l : Layout V ι) : Prop where
  one : ∀ info, l.selectedInfo = some info → ∃ id ∈ w.tabs l.views,
    ∃ tab, l.tabs[id]? = some tab ∧ tab.tabInfo = info ∧
      ∀ other ∈ w.tabs l.views,
        l.tabs[other]?.map HiTab.selected = some (decide (other = id))
  selects : ∀ info, (l.onSelected info).selectedInfo = some info
  again : ∀ info, l.selectedInfo = some info → (l.onSelected info).tabs = l.tabs ∧
    (l.onSelected info).views = l.views ∧ (l.onSelected info).infoList = l.infoList
  chain : ∀ heard, .outside heard ∈ l.listeners → heard.IsChain Heard.Follows

end Layout

/-! ## What is kept -/

namespace Layout

theorem tab_notMem_remaining {id : ℕ} (listeners : List (OnTabSelectedListener ι)) :
    .tab id ∉ remaining listeners := by
  induction listeners with
  | nil => exact List.not_mem_nil
  | cons listener listeners ih =>
      cases listener with
      | tab other => exact ih
      | outside heard => simpa [remaining] using ih

theorem outside_mem_remaining {heard : List (Heard ι)}
    (listeners : List (OnTabSelectedListener ι)) (h : .outside heard ∈ remaining listeners) :
    ∃ before, .outside before ∈ listeners ∧ heard = before ++ [.inflated] := by
  induction listeners with
  | nil => simp [remaining] at h
  | cons listener listeners ih =>
      cases listener with
      | tab other =>
          obtain ⟨before, hbefore, rfl⟩ := ih h
          exact ⟨before, List.mem_cons_of_mem _ hbefore, rfl⟩
      | outside first =>
          rcases List.mem_cons.mp h with heq | hmem
          · obtain rfl := OnTabSelectedListener.outside.inj heq
            exact ⟨first, List.mem_cons_self, rfl⟩
          · obtain ⟨before, hbefore, rfl⟩ := ih hmem
            exact ⟨before, List.mem_cons_of_mem _ hbefore, rfl⟩

theorem getElem?_made (tabs : List (HiTab ι)) (infoList : List ι) (i : ℕ) :
    (tabs ++ infoList.map HiTab.setHiTabInfo)[tabs.length + i]? =
      infoList[i]?.map HiTab.setHiTabInfo := by
  rw [List.getElem?_append_right (Nat.le_add_right _ i), Nat.add_sub_cancel_left,
    List.getElem?_map]

/-- The new tabs are those of the infos. -/
theorem map_getElem?_made {β : Type*} (f : HiTab ι → β) (tabs : List (HiTab ι))
    (infoList : List ι) :
    (List.range' tabs.length infoList.length).map
        (fun id ↦ (tabs ++ infoList.map HiTab.setHiTabInfo)[id]?.map f) =
      infoList.map fun info ↦ some (f (HiTab.setHiTabInfo info)) := by
  apply List.ext_getElem?
  intro i
  rw [List.getElem?_map, List.getElem?_map]
  by_cases hi : i < infoList.length
  · rw [List.getElem?_range' hi, Option.map_some, Nat.one_mul, getElem?_made,
      List.getElem?_eq_getElem hi]
    rfl
  · rw [List.getElem?_eq_none (by simpa using hi), List.getElem?_eq_none (by simpa using hi)]
    rfl

theorem mem_made {tabs : List (HiTab ι)} {infoList : List ι} {id : ℕ} {tab : HiTab ι}
    (hid : id ∈ List.range' tabs.length infoList.length)
    (htab : (tabs ++ infoList.map HiTab.setHiTabInfo)[id]? = some tab) :
    ∃ info ∈ infoList, tab = HiTab.setHiTabInfo info := by
  obtain ⟨i, rfl⟩ := Nat.exists_eq_add_of_le (List.mem_range'_1.mp hid).1
  obtain ⟨info, hinfo, rfl⟩ := Option.map_eq_some_iff.mp ((getElem?_made _ _ i).symm.trans htab)
  exact ⟨info, List.mem_of_getElem? hinfo, rfl⟩

section

variable [DecidableEq ι] {index : ℤ} {prevInfo : Option ι} {nextInfo : ι} {id : ℕ}

theorem tab_mem_notify (listeners : List (OnTabSelectedListener ι)) (tabs : List (HiTab ι)) :
    .tab id ∈ (notify index prevInfo nextInfo listeners tabs).1 ↔ .tab id ∈ listeners := by
  induction listeners generalizing tabs with
  | nil => rfl
  | cons listener listeners ih =>
      cases listener with
      | tab other => simp [notify, ih]
      | outside heard => simp [notify, ih]

theorem outside_mem_notify {heard : List (Heard ι)}
    (listeners : List (OnTabSelectedListener ι)) (tabs : List (HiTab ι))
    (h : .outside heard ∈ (notify index prevInfo nextInfo listeners tabs).1) :
    ∃ before, .outside before ∈ listeners ∧
      heard = before ++ [.told index prevInfo nextInfo] := by
  induction listeners generalizing tabs with
  | nil => simp [notify] at h
  | cons listener listeners ih =>
      cases listener with
      | tab other =>
          have hmem : .outside heard ∈ (notify index prevInfo nextInfo listeners
              (tabs.modify other fun tab ↦ tab.onTabSelectedChange prevInfo nextInfo)).1 := by
            simpa [notify] using h
          obtain ⟨before, hbefore, rfl⟩ := ih _ hmem
          exact ⟨before, List.mem_cons_of_mem _ hbefore, rfl⟩
      | outside first =>
          rcases List.mem_cons.mp h with heq | hmem
          · obtain rfl := OnTabSelectedListener.outside.inj heq
            exact ⟨first, List.mem_cons_self, rfl⟩
          · obtain ⟨before, hbefore, rfl⟩ := ih _ hmem
            exact ⟨before, List.mem_cons_of_mem _ hbefore, rfl⟩

theorem getElem?_notify_of_notMem (listeners : List (OnTabSelectedListener ι))
    (tabs : List (HiTab ι)) (h : .tab id ∉ listeners) :
    (notify index prevInfo nextInfo listeners tabs).2[id]? = tabs[id]? := by
  induction listeners generalizing tabs with
  | nil => rfl
  | cons listener listeners ih =>
      rw [List.mem_cons, not_or] at h
      obtain ⟨hne, hnot⟩ := h
      cases listener with
      | tab other =>
          have hother : other ≠ id := fun heq ↦ hne (heq ▸ rfl)
          rw [notify, ih _ hnot, List.getElem?_modify_ne _ _ hother]
      | outside heard => exact ih _ hnot

/-- However often a tab is told of one selection. -/
theorem getElem?_notify_of_mem (listeners : List (OnTabSelectedListener ι))
    (tabs : List (HiTab ι)) (h : .tab id ∈ listeners) :
    (notify index prevInfo nextInfo listeners tabs).2[id]? =
      tabs[id]?.map fun tab ↦ tab.onTabSelectedChange prevInfo nextInfo := by
  induction listeners generalizing tabs with
  | nil => simp at h
  | cons listener listeners ih =>
      cases listener with
      | tab other =>
          rw [notify]
          by_cases hmem : .tab id ∈ listeners
          · rw [ih _ hmem, List.getElem?_modify]
            cases tabs[id]? with
            | none => rfl
            | some tab =>
                by_cases hother : other = id
                · simp [hother, HiTab.onTabSelectedChange_self]
                · simp [hother]
          · have hother : id = other := by simpa [hmem] using h
            rw [getElem?_notify_of_notMem _ _ hmem, hother, List.getElem?_modify_eq]
            rfl
      | outside heard =>
          have hmem : .tab id ∈ listeners := by simpa using h
          exact ih _ hmem

end

/-- What was heard fits together, and its last part to what is selected now. -/
structure UpToDate (selectedInfo : Option ι) (heard : List (Heard ι)) : Prop where
  chain : heard.IsChain Heard.Follows
  last : ∀ before ∈ heard.getLast?, before.selectedInfo = selectedInfo

theorem UpToDate.concat {selectedInfo : Option ι} {heard : List (Heard ι)}
    (h : UpToDate selectedInfo heard) (news : Heard ι)
    (hnews : ∀ before : Heard ι, before.selectedInfo = selectedInfo → before.Follows news) :
    UpToDate news.selectedInfo (heard ++ [news]) := by
  constructor
  · rw [List.isChain_append]
    refine ⟨h.chain, List.isChain_singleton news, fun before hbefore after hafter ↦ ?_⟩
    obtain rfl := Option.some.inj hafter
    exact hnews before (h.last before hbefore)
  · intro before hbefore
    rw [List.getLast?_concat] at hbefore
    obtain rfl := Option.some.inj hbefore
    rfl

/-- The tabs that are shown are told of selections, are there for the infos one by one, and
are drawn as the selected info says. -/
structure Inv {V : Type*} [DecidableEq ι] (w : TabViews V) (l : Layout V ι) : Prop where
  told : ∀ id, .tab id ∈ l.listeners ↔ id ∈ w.tabs l.views
  infos : (w.tabs l.views).map (fun id ↦ l.tabs[id]?.map HiTab.tabInfo) = l.infoList.map some
  nodup : l.infoList.Nodup
  selected : ∀ id ∈ w.tabs l.views, ∀ tab, l.tabs[id]? = some tab →
    tab.selected = decide (l.selectedInfo = some tab.tabInfo)
  mem : ∀ info, l.selectedInfo = some info → info ∈ l.infoList
  upToDate : ∀ heard, .outside heard ∈ l.listeners → UpToDate l.selectedInfo heard

namespace Inv

variable {V : Type*} {w : TabViews V} [DecidableEq ι] {l l' : Layout V ι}

theorem addTabSelectedChangeListener (h : l.Inv w) : l.addTabSelectedChangeListener.Inv w := by
  refine ⟨fun id ↦ ?_, h.infos, h.nodup, h.selected, h.mem, fun heard hmem ↦ ?_⟩
  · simpa [Layout.addTabSelectedChangeListener] using h.told id
  · rcases List.mem_append.mp hmem with hmem | hmem
    · exact h.upToDate heard hmem
    · obtain rfl := OnTabSelectedListener.outside.inj (List.mem_singleton.mp hmem)
      exact ⟨List.isChain_nil, by simp⟩

/-- Whatever the tabs were before, the new ones are not selected. -/
theorem inflateInfo {infoList : List ι} (h : l.Inv w) (hnodup : infoList.Nodup) :
    (l.inflateInfo w infoList).Inv w := by
  unfold Layout.inflateInfo
  split
  · exact h
  constructor
  · intro id
    simp [w.tabs_inflate, tab_notMem_remaining]
  · rw [w.tabs_inflate]
    exact map_getElem?_made HiTab.tabInfo l.tabs infoList
  · exact hnodup
  · intro id hid tab htab
    rw [w.tabs_inflate] at hid
    obtain ⟨info, -, rfl⟩ := mem_made hid htab
    rfl
  · rintro info hinfo
    cases hinfo
  · intro heard hmem
    rcases List.mem_append.mp hmem with hmem | hmem
    · obtain ⟨before, hbefore, rfl⟩ := outside_mem_remaining _ hmem
      exact (h.upToDate before hbefore).concat .inflated fun _ _ ↦ trivial
    · simp at hmem

theorem onSelected {nextInfo : ι} (h : l.Inv w) (hmem : nextInfo ∈ l.infoList) :
    (l.onSelected nextInfo).Inv w := by
  have hget : ∀ id ∈ w.tabs l.views, (l.onSelected nextInfo).tabs[id]? =
      l.tabs[id]?.map fun tab ↦ tab.onTabSelectedChange l.selectedInfo nextInfo :=
    fun id hid ↦ getElem?_notify_of_mem _ _ ((h.told id).mpr hid)
  constructor
  · intro id
    exact (tab_mem_notify _ _).trans (h.told id)
  · refine Eq.trans (List.map_congr_left fun id hid ↦ ?_) h.infos
    rw [hget id hid, Option.map_map]
    congr 1
    funext tab
    exact HiTab.tabInfo_onTabSelectedChange
  · exact h.nodup
  · intro id hid tab htab
    rw [hget id hid] at htab
    obtain ⟨before, hbefore, rfl⟩ := Option.map_eq_some_iff.mp htab
    rw [HiTab.selected_onTabSelectedChange (h.selected id hid before hbefore),
      HiTab.tabInfo_onTabSelectedChange]
    exact decide_eq_decide.mpr (Option.some_inj (a := nextInfo)).symm
  · rintro info hinfo
    obtain rfl := Option.some.inj hinfo
    exact hmem
  · intro heard hheard
    obtain ⟨before, hbefore, rfl⟩ := outside_mem_notify _ _ hheard
    exact (h.upToDate before hbefore).concat (.told _ _ nextInfo) fun _ hlast ↦ hlast.symm

theorem mem_infoList (h : l.Inv w) {id : ℕ} (hid : id ∈ w.tabs l.views) :
    ∃ tab, l.tabs[id]? = some tab ∧ tab.tabInfo ∈ l.infoList := by
  have hmem : l.tabs[id]?.map HiTab.tabInfo ∈ l.infoList.map some :=
    h.infos ▸ List.mem_map_of_mem hid
  obtain ⟨info, hinfo, heq⟩ := List.mem_map.mp hmem
  obtain ⟨tab, htab, rfl⟩ := Option.map_eq_some_iff.mp heq.symm
  exact ⟨tab, htab, hinfo⟩

/-- Different tabs are of different infos. -/
theorem eq_of_tabInfo_eq (h : l.Inv w) {id other : ℕ} {tab tab' : HiTab ι}
    (hid : id ∈ w.tabs l.views) (hother : other ∈ w.tabs l.views)
    (htab : l.tabs[id]? = some tab) (htab' : l.tabs[other]? = some tab')
    (heq : tab.tabInfo = tab'.tabInfo) : id = other := by
  have hnodup : ((w.tabs l.views).map fun id ↦ l.tabs[id]?.map HiTab.tabInfo).Nodup :=
    h.infos ▸ h.nodup.map fun _ _ ↦ Option.some.inj
  apply List.inj_on_of_nodup_map hnodup hid hother
  rw [htab, htab', Option.map_some, Option.map_some, heq]

theorem step {action : Action ι} (h : l.Inv w) (hstep : l.step w action = some l') :
    l'.Inv w := by
  cases action with
  | addTabSelectedChangeListener =>
      obtain rfl := Option.some.inj hstep
      exact h.addTabSelectedChangeListener
  | inflateInfo infoList =>
      obtain ⟨hnodup, heq⟩ := Option.ite_none_right_eq_some.mp hstep
      obtain rfl := Option.some.inj heq
      exact h.inflateInfo hnodup
  | onClick id =>
      obtain ⟨hid, hclick⟩ := Option.ite_none_right_eq_some.mp hstep
      obtain ⟨tab, htab, rfl⟩ := Option.map_eq_some_iff.mp hclick
      obtain ⟨tab', htab', hmem⟩ := h.mem_infoList hid
      obtain rfl := Option.some.inj (htab.symm.trans htab')
      exact h.onSelected hmem
  | defaultSelected defaultInfo =>
      obtain ⟨hmem, heq⟩ := Option.ite_none_right_eq_some.mp hstep
      obtain rfl := Option.some.inj heq
      exact h.onSelected hmem

end Inv

theorem notify_self [DecidableEq ι] {index : ℤ} {info : ι}
    (listeners : List (OnTabSelectedListener ι)) (tabs : List (HiTab ι)) :
    (notify index (some info) info listeners tabs).2 = tabs := by
  induction listeners generalizing tabs with
  | nil => rfl
  | cons listener listeners ih =>
      cases listener with
      | tab other =>
          have hsame : (fun tab : HiTab ι ↦ tab.onTabSelectedChange (some info) info) = id := by
            funext tab
            exact if_pos (.inr rfl)
          rw [notify, ih, hsame, List.modify_id]
      | outside heard => exact ih tabs

theorem Inv.showsSelected {V : Type*} {w : TabViews V} [DecidableEq ι] {l : Layout V ι}
    (h : l.Inv w) : l.ShowsSelected w := by
  refine ⟨fun info hinfo ↦ ?_, fun _ ↦ rfl, fun info hinfo ↦ ⟨?_, rfl, rfl⟩,
    fun heard hmem ↦ (h.upToDate heard hmem).chain⟩
  · have hthere : some info ∈ (w.tabs l.views).map fun id ↦ l.tabs[id]?.map HiTab.tabInfo :=
      h.infos ▸ List.mem_map_of_mem (h.mem info hinfo)
    obtain ⟨id, hid, heq⟩ := List.mem_map.mp hthere
    obtain ⟨tab, htab, rfl⟩ := Option.map_eq_some_iff.mp heq
    refine ⟨id, hid, tab, htab, rfl, fun other hother ↦ ?_⟩
    obtain ⟨tab', htab', -⟩ := h.mem_infoList hother
    rw [htab', Option.map_some, h.selected other hother tab' htab', hinfo]
    congr 1
    apply decide_eq_decide.mpr
    constructor
    · intro hsame
      exact h.eq_of_tabInfo_eq hother hid htab' htab (Option.some.inj hsame).symm
    · rintro rfl
      rw [Option.some.inj (htab.symm.trans htab')]
  · rw [Layout.onSelected, hinfo]
    exact notify_self _ _

/-! ### The tabs by their infos -/

/-- A listener by its info. -/
def summarize (tabs : List (HiTab ι)) : OnTabSelectedListener ι → Option (Tab.Listener ι)
  | .tab id => tabs[id]?.map fun tab ↦ .tab tab.tabInfo
  | .outside _ => some .outside

/-- A layout of different infos that says of infos, not of tabs, which are drawn as selected. -/
structure Summarizes {V : Type*} (w : TabViews V) (a : Tab.HiTabTopLayout ι)
    (l : Layout V ι) : Prop where
  infoList : a.infoList = l.infoList
  selectedInfo : a.selectedInfo = l.selectedInfo
  listeners : l.listeners.map (summarize l.tabs) = a.listeners.map some
  shown : ∀ id ∈ w.tabs l.views, ∀ tab, l.tabs[id]? = some tab →
    a.shown tab.tabInfo = tab.selected

theorem map_summarize_remaining [DecidableEq ι] {tabs tabs' : List (HiTab ι)}
    {listeners : List (OnTabSelectedListener ι)} {summary : List (Tab.Listener ι)}
    (h : listeners.map (summarize tabs) = summary.map some) :
    (remaining listeners).map (summarize tabs') =
      (summary.filter (· = .outside)).map some := by
  induction listeners generalizing summary with
  | nil =>
      rw [List.map_nil, eq_comm, List.map_eq_nil_iff] at h
      rw [h]
      rfl
  | cons listener listeners ih =>
      obtain ⟨first, rest, rfl, hfirst, hrest⟩ := List.map_eq_cons_iff.mp h.symm
      cases listener with
      | tab id =>
          obtain ⟨tab, -, heq⟩ := Option.map_eq_some_iff.mp hfirst.symm
          subst heq
          simpa [remaining] using ih hrest.symm
      | outside heard =>
          obtain rfl := Option.some.inj hfirst
          simpa [remaining, summarize] using ih hrest.symm

theorem summarize_modify {tabs : List (HiTab ι)} {id : ℕ} {f : HiTab ι → HiTab ι}
    (hf : ∀ tab, (f tab).tabInfo = tab.tabInfo) :
    summarize (tabs.modify id f) = summarize tabs := by
  funext listener
  cases listener with
  | tab other =>
      rw [summarize, summarize, List.getElem?_modify]
      cases tabs[other]? with
      | none => rfl
      | some tab =>
          by_cases hother : id = other
          · simp [hother, hf]
          · simp [hother]
  | outside heard => rfl

namespace Summarizes

variable {V : Type*} {w : TabViews V} [DecidableEq ι] {a : Tab.HiTabTopLayout ι}
  {l : Layout V ι}

theorem inflateInfo (h : Summarizes w a l) (infoList : List ι) :
    Summarizes w (a.inflateInfo infoList) (l.inflateInfo w infoList) := by
  unfold Tab.HiTabTopLayout.inflateInfo Layout.inflateInfo
  split
  · exact h
  refine ⟨rfl, rfl, ?_, ?_⟩
  · rw [List.map_append, List.map_append, map_summarize_remaining h.listeners, List.map_map]
    congr 1
    rw [List.map_map]
    exact map_getElem?_made (fun tab ↦ Tab.Listener.tab tab.tabInfo) l.tabs infoList
  · intro id hid tab htab
    rw [w.tabs_inflate] at hid
    obtain ⟨info, hinfo, rfl⟩ := mem_made hid htab
    simp [HiTab.setHiTabInfo, hinfo]

/-- A tab is told of a selection, whatever was selected. -/
theorem onTabSelectedChange (h : Summarizes w a l) (hinv : l.Inv w) {id : ℕ} {tab : HiTab ι}
    (hid : id ∈ w.tabs l.views) (htab : l.tabs[id]? = some tab) (prevInfo : Option ι)
    (nextInfo : ι) :
    Summarizes w (a.onTabSelectedChange tab.tabInfo prevInfo nextInfo)
      { l with tabs := l.tabs.modify id fun tab ↦ tab.onTabSelectedChange prevInfo nextInfo } := by
  have hshown := h.shown id hid tab htab
  rw [Tab.HiTabTopLayout.onTabSelectedChange_eq]
  refine ⟨h.infoList, h.selectedInfo, ?_, fun other hother tab' htab' ↦ ?_⟩
  · rw [summarize_modify fun _ ↦ HiTab.tabInfo_onTabSelectedChange]
    exact h.listeners
  · by_cases hsame : id = other
    · subst hsame
      rw [List.getElem?_modify_eq, htab] at htab'
      obtain rfl := Option.some.inj htab'
      rw [HiTab.tabInfo_onTabSelectedChange]
      show Tab.HiTabTopLayout.redraw a.shown [tab.tabInfo] prevInfo nextInfo tab.tabInfo = _
      unfold Tab.HiTabTopLayout.redraw HiTab.onTabSelectedChange
      by_cases hprev : prevInfo = some tab.tabInfo
      · by_cases hnext : nextInfo = tab.tabInfo
        · simp [hprev, hnext, hshown]
        · simp [hprev, hnext, Ne.symm hnext]
      · by_cases hnext : nextInfo = tab.tabInfo
        · simp [hprev, hnext]
        · simp [hprev, hnext, hshown]
    · rw [List.getElem?_modify_ne _ _ hsame] at htab'
      have hne : tab'.tabInfo ≠ tab.tabInfo := by
        intro heq
        exact hsame (hinv.eq_of_tabInfo_eq hid hother htab htab' heq.symm)
      show Tab.HiTabTopLayout.redraw a.shown [tab.tabInfo] prevInfo nextInfo tab'.tabInfo = _
      rw [Tab.HiTabTopLayout.redraw_singleton_of_ne hne, h.shown other hother tab' htab']

end Summarizes

end Layout

/-! ## The two layouts -/

/-- Of the views of a `HiTabBottomLayout` the first one is never that of the tabs. -/
inductive BottomView where
  | content
  | background
  | bottomLine
  | tabs (ids : List ℕ)
  deriving DecidableEq

def BottomView.ids : BottomView → List ℕ
  | .tabs ids => ids
  | .content | .background | .bottomLine => []

structure BottomViews where
  children : List BottomView
  head : ∀ ids, children.head? ≠ some (.tabs ids)

namespace BottomViews

/-- All children but the first make room for the new ones. -/
def inflateChildren (children : List BottomView) (ids : List ℕ) : List BottomView :=
  children.take 1 ++ [.background, .bottomLine, .tabs ids]

theorem head?_inflateChildren {children : List BottomView}
    (h : ∀ ids, children.head? ≠ some (.tabs ids)) (ids other : List ℕ) :
    (inflateChildren children ids).head? ≠ some (.tabs other) := by
  cases children with
  | nil => simp [inflateChildren]
  | cons child children => simpa [inflateChildren] using h other

def inflate (views : BottomViews) (ids : List ℕ) : BottomViews :=
  ⟨inflateChildren views.children ids, head?_inflateChildren views.head ids⟩

def tabs (views : BottomViews) : List ℕ := views.children.flatMap BottomView.ids

theorem tabs_inflate (views : BottomViews) (ids : List ℕ) : (views.inflate ids).tabs = ids := by
  obtain ⟨children, hhead⟩ := views
  cases children with
  | nil => simp [tabs, inflate, inflateChildren, BottomView.ids]
  | cons child children =>
      cases child with
      | tabs other => exact absurd rfl (hhead other)
      | content => simp [tabs, inflate, inflateChildren, BottomView.ids]
      | background => simp [tabs, inflate, inflateChildren, BottomView.ids]
      | bottomLine => simp [tabs, inflate, inflateChildren, BottomView.ids]

end BottomViews

/-- A `HiTabTopLayout` has one child, which is made when it is first needed. -/
structure TopViews where
  rootView : Option (List ℕ)

namespace TopViews

def getRootLayout (views : TopViews) (clear : Bool) : List ℕ :=
  match views.rootView with
  | none => []
  | some tabs => if clear then [] else tabs

def inflate (views : TopViews) (ids : List ℕ) : TopViews :=
  ⟨some (views.getRootLayout true ++ ids)⟩

def tabs (views : TopViews) : List ℕ := views.getRootLayout false

theorem tabs_inflate (views : TopViews) (ids : List ℕ) : (views.inflate ids).tabs = ids := by
  unfold tabs inflate getRootLayout
  cases views.rootView with
  | none => rfl
  | some tabs => rfl

end TopViews

def bottomViews : TabViews BottomViews := ⟨BottomViews.inflate, BottomViews.tabs,
  BottomViews.tabs_inflate⟩

def topViews : TabViews TopViews := ⟨TopViews.inflate, TopViews.tabs, TopViews.tabs_inflate⟩

abbrev HiTabBottomLayout (ι : Type*) := Layout BottomViews ι

abbrev HiTabTopLayout (ι : Type*) := Layout TopViews ι

namespace Layout

section

variable {V : Type*} (w : TabViews V) [DecidableEq ι] {l : Layout V ι}

/-- A layout that has not been inflated. -/
structure Fresh (l : Layout V ι) : Prop where
  infoList : l.infoList = []
  listeners : l.listeners = []
  selectedInfo : l.selectedInfo = none
  tabs : w.tabs l.views = []

theorem Fresh.inv (h : l.Fresh w) : l.Inv w := by
  constructor
  · simp [h.listeners, h.tabs]
  · rw [h.tabs, h.infoList]
    rfl
  · rw [h.infoList]
    exact List.nodup_nil
  · simp [h.tabs]
  · simp [h.selectedInfo]
  · simp [h.listeners]

end

/-- Both layouts show the selected tab, whatever happens to them. -/
theorem showsSelected_of_run [DecidableEq ι] :
    (∀ (l l' : HiTabBottomLayout ι) (actions : List (Action ι)), l.Fresh bottomViews →
      run (step bottomViews) l actions = some l' → l'.ShowsSelected bottomViews) ∧
    (∀ (l l' : HiTabTopLayout ι) (actions : List (Action ι)), l.Fresh topViews →
      run (step topViews) l actions = some l' → l'.ShowsSelected topViews) := by
  constructor
  · intro l l' actions hfresh hrun
    have h : l'.Inv bottomViews :=
      run_invariant' (fun _ _ _ hu hstep ↦ hu.step hstep) hfresh.inv hrun
    exact h.showsSelected
  · intro l l' actions hfresh hrun
    have h : l'.Inv topViews :=
      run_invariant' (fun _ _ _ hu hstep ↦ hu.step hstep) hfresh.inv hrun
    exact h.showsSelected

theorem head?_content (ids : List ℕ) : [BottomView.content].head? ≠ some (.tabs ids) := by
  simp

/-- New tabs while one is selected. -/
theorem showsSelected_of_run_twice :
    (∃ l' : HiTabBottomLayout ℕ,
      run (step bottomViews) ⟨⟨[.content], head?_content⟩, [], [], none, []⟩
        [.addTabSelectedChangeListener, .inflateInfo [1, 2], .defaultSelected 1, .onClick 1,
          .inflateInfo [2, 3], .onClick 2, .onClick 2] = some l' ∧
        l'.selectedInfo = some 2 ∧ l'.ShowsSelected bottomViews) ∧
    ∃ l' : HiTabTopLayout ℕ, run (step topViews) ⟨⟨none⟩, [], [], none, []⟩
        [.addTabSelectedChangeListener, .inflateInfo [1, 2], .defaultSelected 1, .onClick 1,
          .inflateInfo [2, 3], .onClick 2, .onClick 2] = some l' ∧
      l'.selectedInfo = some 2 ∧ l'.ShowsSelected topViews := by
  constructor
  · have hruns : (run (step bottomViews)
        (⟨⟨[.content], head?_content⟩, [], [], none, []⟩ : HiTabBottomLayout ℕ)
        [.addTabSelectedChangeListener, .inflateInfo [1, 2], .defaultSelected 1, .onClick 1,
          .inflateInfo [2, 3], .onClick 2, .onClick 2]).any
        (fun l ↦ decide (l.selectedInfo = some 2)) = true := by
      decide
    obtain ⟨l', hrun, hselected⟩ := exists_run_of_any hruns
    exact ⟨l', hrun, hselected, showsSelected_of_run.1 _ l' _ ⟨rfl, rfl, rfl, rfl⟩ hrun⟩
  · have hruns : (run (step topViews) (⟨⟨none⟩, [], [], none, []⟩ : HiTabTopLayout ℕ)
        [.addTabSelectedChangeListener, .inflateInfo [1, 2], .defaultSelected 1, .onClick 1,
          .inflateInfo [2, 3], .onClick 2, .onClick 2]).any
        (fun l ↦ decide (l.selectedInfo = some 2)) = true := by
      decide
    obtain ⟨l', hrun, hselected⟩ := exists_run_of_any hruns
    exact ⟨l', hrun, hselected, showsSelected_of_run.2 _ l' _ ⟨rfl, rfl, rfl, rfl⟩ hrun⟩

end Layout

end HiApp.TabLayout
