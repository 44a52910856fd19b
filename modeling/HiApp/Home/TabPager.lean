import HiApp.Home.HomePage

/-!
# Agreement of the tabs and the pager

With the first data, the tabs that the page listener refers to are those of the layout.
With the next data they are not: they have no index in the layout, and selecting one of them
sends the pager to the first page.  A click recovers from this, since the fragment's listener
is registered once more behind the tabs; a swipe does not.
-/

namespace HiApp.Home

open Runs Tab HiTabTopLayout

namespace HomePage

section

variable {select : HomePage → Info → Except Thrown HomePage} {nextInfo : Info}
  {s t : HomePage} {tabs : List Info} {a b last : ℕ}

def setShown (s : HomePage) (shown : Info → Bool) : HomePage :=
  { s with topTabLayout := { s.topTabLayout with shown := shown } }

/-- The fragment's listener stands some times in front of the tabs and some times behind. -/
def arranged (a b : ℕ) (tabs : List Info) : List (Listener Info) :=
  List.replicate a .outside ++ (tabs.map .tab ++ List.replicate b .outside)

theorem foldlM_append_of_ok {l l' : List (Listener Info)}
    (h : l.foldlM (notify select nextInfo) s = .ok t) :
    (l ++ l').foldlM (notify select nextInfo) s = l'.foldlM (notify select nextInfo) t := by
  rw [List.foldlM_append, h]
  rfl

/-- The tabs are told one after another. -/
theorem foldlM_tabs (s : HomePage) (tabs : List Info) :
    (tabs.map Listener.tab).foldlM (notify select nextInfo) s =
      .ok (s.setShown (redraw s.topTabLayout.shown tabs s.topTabLayout.selectedInfo nextInfo)) := by
  induction tabs generalizing s with
  | nil =>
      have hshown : redraw s.topTabLayout.shown [] s.topTabLayout.selectedInfo nextInfo =
          s.topTabLayout.shown := by
        funext info
        simp [redraw]
      rw [hshown]
      rfl
  | cons tabInfo tabs ih =>
      have hfirst : notify select nextInfo s (.tab tabInfo) = .ok (s.setShown
          (redraw s.topTabLayout.shown [tabInfo] s.topTabLayout.selectedInfo nextInfo)) := by
        rw [notify, onTabSelectedChange_eq, setShown]
      have happend : tabInfo :: tabs = [tabInfo] ++ tabs := rfl
      rw [List.map_cons, List.foldlM_cons, hfirst, happend, ← redraw_redraw]
      exact ih _

theorem foldlM_outside (h : notify select nextInfo s .outside = .ok s) (a : ℕ) :
    (List.replicate a Listener.outside).foldlM (notify select nextInfo) s = .ok s := by
  induction a with
  | zero => rfl
  | succ a ih =>
      rw [List.replicate_succ, List.foldlM_cons, h]
      exact ih

theorem foldlM_arranged_succ (h : notify select nextInfo s .outside = .ok t) :
    (arranged (a + 1) b tabs).foldlM (notify select nextInfo) s =
      (arranged a b tabs).foldlM (notify select nextInfo) t := by
  rw [arranged, List.replicate_succ, List.cons_append, List.foldlM_cons, h]
  rfl

/-- The fragment's listener has nothing to do. -/
theorem foldlM_arranged_of_still
    (h : ∀ shown, notify select nextInfo (s.setShown shown) .outside = .ok (s.setShown shown)) :
    (arranged a b tabs).foldlM (notify select nextInfo) s =
      .ok (s.setShown (redraw s.topTabLayout.shown tabs s.topTabLayout.selectedInfo nextInfo)) := by
  have hfront : (List.replicate a Listener.outside).foldlM (notify select nextInfo) s = .ok s :=
    foldlM_outside (h s.topTabLayout.shown) a
  rw [arranged, foldlM_append_of_ok hfront, foldlM_append_of_ok (foldlM_tabs s tabs)]
  exact foldlM_outside (h _) b

theorem notify_of_current
    (h : s.topTabLayout.infoList.idxOf? nextInfo = some s.currentItem) :
    notify select nextInfo s .outside = .ok s := by
  simp [notify, onTabSelected, indexOf, h]

theorem notify_of_stale (hcount : s.count = some (last + 1)) (hcurrent : s.currentItem = 0)
    (h : nextInfo ∉ s.topTabLayout.infoList) : notify select nextInfo s .outside = .ok s := by
  have hnone : s.topTabLayout.infoList.idxOf? nextInfo = none := List.idxOf?_eq_none_iff.mpr h
  simp [notify, onTabSelected, indexOf, hnone, setCurrentItem, hcount, hcurrent]

/-- The pager is sent to a page that the page listener takes for the selected one. -/
theorem notify_of_index {index : ℕ} (hcount : s.count = some (last + 1)) (hle : index ≤ last)
    (h : s.topTabLayout.infoList.idxOf? nextInfo = some index)
    (hselect : s.topTabSelectIndex = index) :
    notify select nextInfo s .outside = .ok { s with currentItem := index } := by
  by_cases hcurrent : s.currentItem = index
  · rw [notify_of_current (hcurrent ▸ h), ← hcurrent]
  · have hmin : min index last = index := Nat.min_eq_left hle
    have hcast : (s.currentItem : ℤ) ≠ index := fun heq ↦ hcurrent (Int.ofNat.inj heq)
    simp [notify, onTabSelected, indexOf, h, hcast, setCurrentItem, hcount, hmin,
      Ne.symm hcurrent, onPageSelected, hselect]

theorem foldlM_arranged_of_index {index : ℕ} (hcount : s.count = some (last + 1))
    (hle : index ≤ last) (h : s.topTabLayout.infoList.idxOf? nextInfo = some index)
    (hselect : s.topTabSelectIndex = index) :
    (arranged a 1 tabs).foldlM (notify select nextInfo) s =
      .ok (setShown { s with currentItem := index }
        (redraw s.topTabLayout.shown tabs s.topTabLayout.selectedInfo nextInfo)) := by
  cases a with
  | zero =>
      let drawn := s.setShown
        (redraw s.topTabLayout.shown tabs s.topTabLayout.selectedInfo nextInfo)
      have hlast : notify select nextInfo drawn .outside =
          .ok { drawn with currentItem := index } :=
        notify_of_index hcount hle h hselect
      rw [arranged, List.replicate_zero, List.nil_append, foldlM_append_of_ok (foldlM_tabs s tabs),
        List.replicate_one, List.foldlM_cons, hlast]
      rfl
  | succ a =>
      rw [foldlM_arranged_succ (notify_of_index hcount hle h hselect)]
      apply foldlM_arranged_of_still
      intro shown
      exact notify_of_current h

end

section

variable {s : HomePage} {nextInfo : Info} {a b last depth : ℕ}

theorem onPageSelected_of_ok {select : HomePage → Info → Except Thrown HomePage} {t : HomePage}
    {position : ℕ} (h : select s nextInfo = .ok t) (hindex : s.topTabSelectIndex ≠ position)
    (htab : s.topTabs[position]? = some nextInfo) :
    onPageSelected select s position = .ok { t with topTabSelectIndex := position } := by
  simp [onPageSelected, Ne.symm hindex, htab, h, Except.map]

theorem onSelected_of_foldlM {l : List (Listener Info)} {t : HomePage}
    (hlisteners : s.topTabLayout.listeners = l)
    (h : l.foldlM (notify (onSelected depth) nextInfo) s = .ok t) :
    onSelected (depth + 1) s nextInfo = .ok (t.setSelectedInfo nextInfo) := by
  rw [← hlisteners] at h
  simp only [onSelected, h, Except.map]

/-- A tab of the current page is selected. -/
theorem onSelected_of_current
    (hlisteners : s.topTabLayout.listeners = arranged a b s.topTabLayout.infoList)
    (h : s.topTabLayout.infoList.idxOf? nextInfo = some s.currentItem) :
    onSelected (depth + 1) s nextInfo =
      .ok ((s.setShown (redraw s.topTabLayout.shown s.topTabLayout.infoList
        s.topTabLayout.selectedInfo nextInfo)).setSelectedInfo nextInfo) := by
  apply onSelected_of_foldlM hlisteners
  exact foldlM_arranged_of_still fun _ ↦ notify_of_current h

/-- On the first page, a tab of the past is selected. -/
theorem onSelected_of_stale_zero
    (hlisteners : s.topTabLayout.listeners = arranged a b s.topTabLayout.infoList)
    (hcount : s.count = some (last + 1)) (hcurrent : s.currentItem = 0)
    (h : nextInfo ∉ s.topTabLayout.infoList) :
    onSelected (depth + 1) s nextInfo =
      .ok ((s.setShown (unselect s.topTabLayout.shown s.topTabLayout.infoList
        s.topTabLayout.selectedInfo)).setSelectedInfo nextInfo) := by
  apply onSelected_of_foldlM hlisteners
  rw [← redraw_of_notMem h]
  exact foldlM_arranged_of_still fun _ ↦ notify_of_stale hcount hcurrent h

/-- A tab of the past is selected: the pager goes to the first page, and no tab is drawn as
selected.  On its way the page listener may select the first tab of the past. -/
theorem onSelected_of_stale {first : Info}
    (hlisteners : s.topTabLayout.listeners = arranged (a + 1) b s.topTabLayout.infoList)
    (hcount : s.count = some (last + 1)) (h : nextInfo ∉ s.topTabLayout.infoList)
    (hfirst : s.topTabs[0]? = some first) (hstale : first ∉ s.topTabLayout.infoList) :
    ∃ topTabSelectIndex, onSelected (depth + 2) s nextInfo =
      .ok (setSelectedInfo (setShown { s with currentItem := 0, topTabSelectIndex }
        (unselect s.topTabLayout.shown s.topTabLayout.infoList s.topTabLayout.selectedInfo))
          nextInfo) := by
  by_cases hcurrent : s.currentItem = 0
  · refine ⟨s.topTabSelectIndex, ?_⟩
    rw [onSelected_of_stale_zero hlisteners hcount hcurrent h, ← hcurrent]
  · have hnone : s.topTabLayout.infoList.idxOf? nextInfo = none := List.idxOf?_eq_none_iff.mpr h
    have hset : notify (onSelected (depth + 1)) nextInfo s .outside =
        onPageSelected (onSelected (depth + 1)) { s with currentItem := 0 } 0 := by
      have hcast : (s.currentItem : ℤ) ≠ -1 := by omega
      simp [notify, onTabSelected, indexOf, hnone, hcast, setCurrentItem, hcount,
        Ne.symm hcurrent]
    refine ⟨0, ?_⟩
    by_cases hindex : s.topTabSelectIndex = 0
    · -- the page listener takes the first page for the selected one
      have hpage : notify (onSelected (depth + 1)) nextInfo s .outside =
          .ok { s with currentItem := 0, topTabSelectIndex := 0 } := by
        rw [hset, ← hindex]
        simp [onPageSelected, hindex]
      apply onSelected_of_foldlM hlisteners
      rw [foldlM_arranged_succ hpage, ← redraw_of_notMem h]
      exact foldlM_arranged_of_still fun _ ↦ notify_of_stale hcount rfl h
    · have hnested : onSelected (depth + 1) { s with currentItem := 0 } first = _ :=
        onSelected_of_stale_zero hlisteners hcount rfl hstale
      have hpage : notify (onSelected (depth + 1)) nextInfo s .outside =
          .ok (setSelectedInfo (setShown { s with currentItem := 0, topTabSelectIndex := 0 }
            (unselect s.topTabLayout.shown s.topTabLayout.infoList
              s.topTabLayout.selectedInfo)) first) := by
        rw [hset]
        exact onPageSelected_of_ok hnested hindex hfirst
      have hfold : (arranged (a + 1) b s.topTabLayout.infoList).foldlM
          (notify (onSelected (depth + 1)) nextInfo) s = _ :=
        (foldlM_arranged_succ hpage).trans
          (foldlM_arranged_of_still fun _ ↦ notify_of_stale hcount rfl h)
      rw [onSelected_of_foldlM hlisteners hfold, redraw_of_notMem h]
      dsimp only [setShown, setSelectedInfo]
      rw [unselect_of_notMem hstale]

/-- The first listener sends the pager to another page. -/
theorem notify_of_ne {select : HomePage → Info → Except Thrown HomePage} {index : ℕ}
    (hcount : s.count = some (last + 1)) (hle : index ≤ last)
    (h : s.topTabLayout.infoList.idxOf? nextInfo = some index) (hne : s.currentItem ≠ index) :
    notify select nextInfo s .outside =
      onPageSelected select { s with currentItem := index } index := by
  have hmin : min index last = index := Nat.min_eq_left hle
  have hcast : (s.currentItem : ℤ) ≠ index := fun heq ↦ hne (Int.ofNat.inj heq)
  simp [notify, onTabSelected, indexOf, h, hcast, setCurrentItem, hcount, hmin, Ne.symm hne]

/-- A click on another tab, with a page listener that refers to tabs of the past.  The pager
makes a detour to the first page. -/
theorem onSelected_of_click {index : ℕ} {first stale : Info}
    (hlisteners : s.topTabLayout.listeners = arranged (a + 1) 1 s.topTabLayout.infoList)
    (hcount : s.count = some (last + 1)) (hle : index ≤ last)
    (h : s.topTabLayout.infoList.idxOf? nextInfo = some index)
    (hne : s.currentItem ≠ index) (hselect : s.topTabSelectIndex ≠ index)
    (hfirst : s.topTabs[0]? = some first) (hfirst' : first ∉ s.topTabLayout.infoList)
    (hstale : s.topTabs[index]? = some stale) (hstale' : stale ∉ s.topTabLayout.infoList) :
    onSelected (depth + 3) s nextInfo =
      .ok (setSelectedInfo (setShown
        { s with currentItem := index, topTabSelectIndex := index }
        (redraw (unselect s.topTabLayout.shown s.topTabLayout.infoList
          s.topTabLayout.selectedInfo) s.topTabLayout.infoList (some stale) nextInfo))
            nextInfo) := by
  obtain ⟨k, hnested⟩ : ∃ k, onSelected (depth + 2) { s with currentItem := index } stale = _ :=
    onSelected_of_stale hlisteners hcount hstale' hfirst hfirst'
  have hpage : notify (onSelected (depth + 2)) nextInfo s .outside =
      .ok (setSelectedInfo (setShown { s with currentItem := 0, topTabSelectIndex := index }
        (unselect s.topTabLayout.shown s.topTabLayout.infoList s.topTabLayout.selectedInfo))
          stale) := by
    rw [notify_of_ne hcount hle h hne]
    exact onPageSelected_of_ok hnested hselect hstale
  have hfold : (arranged (a + 1) 1 s.topTabLayout.infoList).foldlM
      (notify (onSelected (depth + 2)) nextInfo) s = _ :=
    (foldlM_arranged_succ hpage).trans (foldlM_arranged_of_index hcount hle h rfl)
  rw [onSelected_of_foldlM hlisteners hfold]
  rfl

/-- The same when the page listener does not find the tab. -/
theorem onSelected_of_missing {index : ℕ}
    (hlisteners : s.topTabLayout.listeners = arranged (a + 1) 1 s.topTabLayout.infoList)
    (hcount : s.count = some (last + 1)) (hle : index ≤ last)
    (h : s.topTabLayout.infoList.idxOf? nextInfo = some index)
    (hne : s.currentItem ≠ index) (hselect : s.topTabSelectIndex ≠ index)
    (hmissing : s.topTabs[index]? = none) :
    onSelected (depth + 1) s nextInfo = .error .indexOutOfBounds := by
  have hpage : notify (onSelected depth) nextInfo s .outside = .error .indexOutOfBounds := by
    rw [notify_of_ne hcount hle h hne, onPageSelected, if_pos (Ne.symm hselect), hmissing]
  simp only [onSelected, hlisteners, arranged, List.replicate_succ, List.cons_append,
    List.foldlM_cons, hpage]
  rfl

/-- A click on another tab, with a page listener that refers to the tabs of the layout. -/
theorem onSelected_of_click_first {index : ℕ}
    (hlisteners : s.topTabLayout.listeners = arranged 0 1 s.topTabLayout.infoList)
    (hcount : s.count = some (last + 1)) (hle : index ≤ last)
    (h : s.topTabLayout.infoList.idxOf? nextInfo = some index)
    (hne : s.currentItem ≠ index) (hselect : s.topTabSelectIndex ≠ index)
    (htab : s.topTabs[index]? = some nextInfo) :
    onSelected (depth + 2) s nextInfo =
      .ok (setSelectedInfo (setShown
        { s with currentItem := index, topTabSelectIndex := index }
        (redraw s.topTabLayout.shown s.topTabLayout.infoList s.topTabLayout.selectedInfo
          nextInfo)) nextInfo) := by
  let drawn := s.setShown
    (redraw s.topTabLayout.shown s.topTabLayout.infoList s.topTabLayout.selectedInfo nextInfo)
  have hnested : onSelected (depth + 1) { drawn with currentItem := index } nextInfo = _ :=
    onSelected_of_current hlisteners h
  have hpage : notify (onSelected (depth + 1)) nextInfo drawn .outside =
      .ok (setSelectedInfo { drawn with currentItem := index, topTabSelectIndex := index }
        nextInfo) := by
    rw [notify_of_ne (s := drawn) hcount hle h hne, onPageSelected_of_ok hnested hselect htab]
    dsimp only [setShown, setSelectedInfo, drawn]
    rw [redraw_self]
  have hfold : (arranged 0 1 s.topTabLayout.infoList).foldlM
      (notify (onSelected (depth + 1)) nextInfo) s = .ok (setSelectedInfo
        { drawn with currentItem := index, topTabSelectIndex := index } nextInfo) := by
    rw [arranged, List.replicate_zero, List.nil_append,
      foldlM_append_of_ok (foldlM_tabs s s.topTabLayout.infoList), List.replicate_one,
      List.foldlM_cons, hpage]
    rfl
  rw [onSelected_of_foldlM hlisteners hfold]
  rfl

/-- The first of new tabs is selected while the pager is on another page. -/
theorem onSelected_of_inflated {stale : Info}
    (hlisteners : s.topTabLayout.listeners = arranged (a + 1) 0 s.topTabLayout.infoList)
    (hcount : s.count = some (last + 1)) (hcurrent : s.currentItem ≠ 0)
    (hselect : s.topTabSelectIndex ≠ 0)
    (h : s.topTabLayout.infoList.idxOf? nextInfo = some 0)
    (hstale : s.topTabs[0]? = some stale) (hstale' : stale ∉ s.topTabLayout.infoList) :
    onSelected (depth + 2) s nextInfo =
      .ok (setSelectedInfo (setShown { s with currentItem := 0, topTabSelectIndex := 0 }
        (redraw (unselect s.topTabLayout.shown s.topTabLayout.infoList
          s.topTabLayout.selectedInfo) s.topTabLayout.infoList (some stale) nextInfo))
            nextInfo) := by
  have hnested : onSelected (depth + 1) { s with currentItem := 0 } stale = _ :=
    onSelected_of_stale_zero hlisteners hcount rfl hstale'
  have hpage : notify (onSelected (depth + 1)) nextInfo s .outside =
      .ok (setSelectedInfo (setShown { s with currentItem := 0, topTabSelectIndex := 0 }
        (unselect s.topTabLayout.shown s.topTabLayout.infoList s.topTabLayout.selectedInfo))
          stale) := by
    rw [notify_of_ne hcount (Nat.zero_le last) h hcurrent]
    exact onPageSelected_of_ok hnested hselect hstale
  have hfold : (arranged (a + 1) 0 s.topTabLayout.infoList).foldlM
      (notify (onSelected (depth + 1)) nextInfo) s = _ :=
    (foldlM_arranged_succ hpage).trans (foldlM_arranged_of_still fun _ ↦ notify_of_current h)
  rw [onSelected_of_foldlM hlisteners hfold]
  rfl

end

section

variable {update update' size index : ℕ}

theorem mem_infos {info : Info} : info ∈ infos update size ↔
    info.update = update ∧ info.index < size := by
  rw [infos, List.mem_map]
  constructor
  · rintro ⟨index, hindex, rfl⟩
    exact ⟨rfl, List.mem_range.mp hindex⟩
  · rintro ⟨rfl, hindex⟩
    exact ⟨info.index, List.mem_range.mpr hindex, rfl⟩

theorem notMem_infos (h : update' ≠ update) : Info.mk update' index ∉ infos update size :=
  fun hmem ↦ h (mem_infos.mp hmem).1

theorem getElem?_infos (h : index < size) :
    (infos update size)[index]? = some (Info.mk update index) := by
  simp [infos, h]

@[simp] theorem length_infos : (infos update size).length = size := by
  simp [infos]

theorem idxOf?_infos (h : index < size) :
    (infos update size).idxOf? (Info.mk update index) = some index := by
  rw [List.idxOf?, List.findIdx?_eq_some_iff_getElem]
  refine ⟨by simpa using h, by simp [infos], ?_⟩
  intro j hj
  simp [infos, Nat.ne_of_lt hj]

end

/-- The pages, the tabs and the listeners fit together. -/
structure Settled (s : HomePage) (last : ℕ) : Prop where
  crashed : s.crashed = false
  updates : 0 < s.updates
  infoList : s.topTabLayout.infoList = infos s.updates (last + 1)
  listeners : s.topTabLayout.listeners = arranged (s.updates - 1) 1 s.topTabLayout.infoList
  count : s.count = some (last + 1)
  topTabs : ∃ first, s.topTabs = infos 1 (first + 1) ∧ (s.updates = 1 → first = last)
  currentItem : s.currentItem ≤ last
  index : s.topTabSelectIndex = s.currentItem
  selected : s.topTabLayout.selectedInfo = some (Info.mk s.updates s.currentItem)
  shown : ∀ index ≤ last, s.topTabLayout.shown (Info.mk s.updates index) =
    decide (index = s.currentItem)

section

variable {s : HomePage} {last depth index : ℕ}

theorem Settled.idxOf? (h : s.Settled last) (hle : index ≤ last) :
    s.topTabLayout.infoList.idxOf? (Info.mk s.updates index) = some index := by
  rw [h.infoList]
  exact idxOf?_infos (Nat.lt_succ_of_le hle)

theorem Settled.agrees (h : s.Settled last) : s.Agrees where
  crashed := h.crashed
  selected := by
    intro _
    exact ⟨_, h.selected, h.idxOf? h.currentItem⟩
  shown := by
    intro _
    refine ⟨Info.mk s.updates s.currentItem, ?_, ?_⟩
    · rw [h.infoList, mem_infos]
      exact ⟨rfl, Nat.lt_succ_of_le h.currentItem⟩
    · rintro ⟨update, index⟩ hmem
      rw [h.infoList, mem_infos] at hmem
      obtain ⟨rfl, hindex⟩ := hmem
      rw [h.shown index (Nat.le_of_lt_succ hindex)]
      simp

/-- A selection that draws the right tab. -/
theorem Settled.select (h : s.Settled last) (hle : index ≤ last) {shown : Info → Bool}
    (hshown : ∀ i ≤ last, shown (Info.mk s.updates i) = decide (i = index)) :
    Settled (setSelectedInfo (setShown
      { s with currentItem := index, topTabSelectIndex := index } shown)
        (Info.mk s.updates index)) last where
  crashed := h.crashed
  updates := h.updates
  infoList := h.infoList
  listeners := h.listeners
  count := h.count
  topTabs := h.topTabs
  currentItem := hle
  index := rfl
  selected := rfl
  shown := hshown

theorem Settled.mem_infoList (h : s.Settled last) (hle : index ≤ last) :
    Info.mk s.updates index ∈ s.topTabLayout.infoList := by
  rw [h.infoList, mem_infos]
  exact ⟨rfl, Nat.lt_succ_of_le hle⟩

theorem Settled.redraw_eq (h : s.Settled last) (hne : s.currentItem ≠ index) {i : ℕ}
    (hi : i ≤ last) :
    redraw s.topTabLayout.shown s.topTabLayout.infoList s.topTabLayout.selectedInfo
      (Info.mk s.updates index) (Info.mk s.updates i) = decide (i = index) := by
  have hmem := h.mem_infoList hi
  have hshown := h.shown i hi
  rw [h.selected]
  unfold redraw
  by_cases hcurrent : s.currentItem = i
  · have hindex : i ≠ index := hcurrent ▸ hne
    simp [hmem, hcurrent, hindex]
  · by_cases hindex : index = i
    · simp [hmem, hcurrent, hindex]
    · simp [hmem, hne, hcurrent, hindex, hshown, Ne.symm hcurrent, Ne.symm hindex]

theorem Settled.redraw_unselect_eq (h : s.Settled last) {stale : Info}
    (hstale : stale ∉ s.topTabLayout.infoList) (hle : index ≤ last) {i : ℕ} (hi : i ≤ last) :
    redraw (unselect s.topTabLayout.shown s.topTabLayout.infoList s.topTabLayout.selectedInfo)
      s.topTabLayout.infoList (some stale) (Info.mk s.updates index) (Info.mk s.updates i) =
        decide (i = index) := by
  have hmem := h.mem_infoList hi
  have hne : stale ≠ Info.mk s.updates i := fun heq ↦ hstale (heq ▸ hmem)
  have hnext : stale ≠ Info.mk s.updates index := fun heq ↦ hstale (heq ▸ h.mem_infoList hle)
  rw [h.selected]
  unfold redraw unselect
  by_cases hindex : index = i
  · simp [hmem, hne, hindex]
  · by_cases hcurrent : s.currentItem = i
    · simp [hmem, hne, hnext, hindex, hcurrent, Ne.symm hindex]
    · simp [hmem, hne, hnext, hindex, hcurrent, h.shown i hi, Ne.symm hindex, Ne.symm hcurrent]

/-- A click on the tab of the current page changes nothing. -/
theorem Settled.onSelected_current (h : s.Settled last) :
    onSelected (depth + 1) s (Info.mk s.updates s.currentItem) = .ok s := by
  have hshown : redraw s.topTabLayout.shown s.topTabLayout.infoList s.topTabLayout.selectedInfo
      (Info.mk s.updates s.currentItem) = s.topTabLayout.shown := by
    funext info
    simp [redraw, h.selected]
  rw [onSelected_of_current h.listeners (h.idxOf? h.currentItem), hshown]
  simp only [setShown, setSelectedInfo, ← h.selected]

/-- The conditions under which tabs and pager stay together.  Once the page has been updated
again, there is no swipe to another page, and a click on the tab of another page is on one
that the first data had too. -/
def Followed (s : HomePage) : Action → Prop
  | .updateUI _ _ => True
  | .onClick index => s.updates ≤ 1 ∨ index = s.currentItem ∨ index < s.topTabs.length
  | .swipe position => s.updates ≤ 1 ∨ position = s.currentItem

instance (s : HomePage) (a : Action) : Decidable (s.Followed a) :=
  match a with
  | .updateUI _ _ => isTrue trivial
  | .onClick _ => inferInstanceAs (Decidable (_ ∨ _ ∨ _))
  | .swipe _ => inferInstanceAs (Decidable (_ ∨ _))

/-- The tabs of the first data are not those of the layout. -/
theorem Settled.notMem_infoList (h : s.Settled last) (hupdates : ¬ s.updates ≤ 1) :
    Info.mk 1 index ∉ s.topTabLayout.infoList := by
  rw [h.infoList]
  exact notMem_infos (by omega)

theorem Settled.listeners_succ (h : s.Settled last) (hupdates : ¬ s.updates ≤ 1) :
    s.topTabLayout.listeners = arranged (s.updates - 2 + 1) 1 s.topTabLayout.infoList := by
  have hpred : s.updates - 2 + 1 = s.updates - 1 := by omega
  rw [hpred]
  exact h.listeners

/-- The tabs of the first data are those of the layout as long as there are no others. -/
theorem Settled.topTabs_of_first (h : s.Settled last) (hle : index ≤ last)
    (hupdates : s.updates ≤ 1) : s.topTabs[index]? = some (Info.mk s.updates index) := by
  obtain ⟨first, htabs, hfirst⟩ := h.topTabs
  have hone : s.updates = 1 := Nat.le_antisymm hupdates h.updates
  rw [htabs, hone, hfirst hone]
  exact getElem?_infos (Nat.lt_succ_of_le hle)

theorem Settled.topTabs_of_lt (h : s.Settled last) (hlt : index < s.topTabs.length) :
    s.topTabs[index]? = some (Info.mk 1 index) := by
  obtain ⟨first, htabs, -⟩ := h.topTabs
  rw [htabs, length_infos] at hlt
  rw [htabs]
  exact getElem?_infos hlt

theorem Settled.topTabs_zero (h : s.Settled last) : s.topTabs[0]? = some (Info.mk 1 0) := by
  obtain ⟨first, htabs, -⟩ := h.topTabs
  rw [htabs]
  exact getElem?_infos (Nat.succ_pos first)

theorem Settled.onClick (h : s.Settled last) (hle : index ≤ last) :
    (∃ t, onSelected (depth + 3) s (Info.mk s.updates index) = .ok t ∧ t.Settled last ∧
        s.Followed (.onClick index)) ∨
      (∃ thrown, onSelected (depth + 3) s (Info.mk s.updates index) = .error thrown) ∧
        ¬ s.Followed (.onClick index) := by
  by_cases hcurrent : s.currentItem = index
  · left
    subst hcurrent
    exact ⟨s, h.onSelected_current, h, .inr (.inl rfl)⟩
  have hselect : s.topTabSelectIndex ≠ index := h.index ▸ hcurrent
  by_cases hupdates : s.updates ≤ 1
  · left
    have hlisteners : s.topTabLayout.listeners = arranged 0 1 s.topTabLayout.infoList := by
      rw [h.listeners, Nat.sub_eq_zero_of_le hupdates]
    exact ⟨_, onSelected_of_click_first hlisteners h.count hle (h.idxOf? hle) hcurrent hselect
        (h.topTabs_of_first hle hupdates),
      h.select hle fun i hi ↦ h.redraw_eq hcurrent hi, .inl hupdates⟩
  · have hlisteners := h.listeners_succ hupdates
    by_cases hlength : index < s.topTabs.length
    · left
      have hnotMem : Info.mk 1 index ∉ s.topTabLayout.infoList := h.notMem_infoList hupdates
      exact ⟨_, onSelected_of_click hlisteners h.count hle (h.idxOf? hle) hcurrent hselect
          h.topTabs_zero (h.notMem_infoList hupdates) (h.topTabs_of_lt hlength) hnotMem,
        h.select hle fun i hi ↦ h.redraw_unselect_eq hnotMem hle hi, .inr (.inr hlength)⟩
    · right
      have hmissing : s.topTabs[index]? = none :=
        List.getElem?_eq_none_iff.mpr (Nat.le_of_not_lt hlength)
      refine ⟨⟨_, onSelected_of_missing hlisteners h.count hle (h.idxOf? hle) hcurrent hselect
        hmissing⟩, ?_⟩
      rintro (hle' | heq | hlt)
      · exact hupdates hle'
      · exact hcurrent heq.symm
      · exact hlength hlt

/-- A swipe, as long as the page listener refers to the tabs of the layout. -/
theorem Settled.swipe (h : s.Settled last) (hle : index ≤ last) (hne : s.currentItem ≠ index)
    (hupdates : s.updates ≤ 1) :
    ∃ t, onPageSelected (onSelected (depth + 1)) { s with currentItem := index } index = .ok t ∧
      t.Settled last := by
  have hnested : onSelected (depth + 1) { s with currentItem := index }
      (Info.mk s.updates index) = _ := onSelected_of_current h.listeners (h.idxOf? hle)
  exact ⟨_, onPageSelected_of_ok hnested (h.index ▸ hne) (h.topTabs_of_first hle hupdates),
    h.select hle fun i hi ↦ h.redraw_eq hne hi⟩

/-- After another update it leaves a tab of the past selected, or it does not find one. -/
theorem Settled.not_agrees_swipe (h : s.Settled last) (hle : index ≤ last)
    (hne : s.currentItem ≠ index) (hupdates : ¬ s.updates ≤ 1) :
    ¬ (s.settle (onPageSelected (onSelected (depth + 2)) { s with currentItem := index }
      index)).Agrees := by
  have hselect : s.topTabSelectIndex ≠ index := h.index ▸ hne
  by_cases hlength : index < s.topTabs.length
  · obtain ⟨k, hnested⟩ : ∃ k, onSelected (depth + 2) { s with currentItem := index }
        (Info.mk 1 index) = _ :=
      onSelected_of_stale (h.listeners_succ hupdates) h.count (h.notMem_infoList hupdates)
        h.topTabs_zero (h.notMem_infoList hupdates)
    rw [onPageSelected_of_ok hnested hselect (h.topTabs_of_lt hlength)]
    intro hagrees
    have hne : s.topTabLayout.infoList ≠ [] := List.ne_nil_of_mem (h.mem_infoList hle)
    obtain ⟨info, hinfo, hindex⟩ := hagrees.selected hne
    obtain rfl := Option.some.inj hinfo
    have hnone : s.topTabLayout.infoList.idxOf? (Info.mk 1 index) = none :=
      List.idxOf?_eq_none_iff.mpr (h.notMem_infoList hupdates)
    exact absurd (hnone.symm.trans hindex) (by simp)
  · have hmissing : s.topTabs[index]? = none :=
      List.getElem?_eq_none_iff.mpr (Nat.le_of_not_lt hlength)
    have hthrown : onPageSelected (onSelected (depth + 2)) { s with currentItem := index } index =
        .error .indexOutOfBounds := by
      simp [onPageSelected, Ne.symm hselect, hmissing]
    rw [hthrown]
    exact fun hagrees ↦ absurd hagrees.crashed (by simp [settle])

end

/-- What an update relies on: the page has never been filled, or it is in order. -/
structure Ready (s : HomePage) : Prop where
  crashed : s.crashed = false
  listeners : s.topTabLayout.listeners.filter (· = .outside) =
    List.replicate s.updates .outside
  index : s.topTabSelectIndex = s.currentItem
  pages : s.updates = 0 ∧ s.count = none ∧ s.currentItem = 0 ∨
    0 < s.updates ∧ (∃ last, s.count = some (last + 1)) ∧ ∃ first, s.topTabs = infos 1 (first + 1)

theorem ready_init : Ready {} := ⟨rfl, rfl, rfl, .inl ⟨rfl, rfl, rfl⟩⟩

section

variable {s t : HomePage} {last depth : ℕ}

theorem Settled.ready (h : s.Settled last) : s.Ready where
  crashed := h.crashed
  listeners := by
    have htabs : (s.topTabLayout.infoList.map Listener.tab).filter (· = Listener.outside) = [] := by
      simp
    have hsucc : s.updates - 1 + 1 = s.updates := Nat.sub_add_cancel h.updates
    rw [h.listeners, arranged, List.filter_append, List.filter_append, htabs, List.nil_append]
    simp only [List.filter_replicate, decide_true, if_true]
    rw [← List.replicate_add, hsucc]
  index := h.index
  pages := by
    obtain ⟨first, htabs, -⟩ := h.topTabs
    exact .inr ⟨h.updates, ⟨last, h.count⟩, first, htabs⟩

/-- The page with new tabs. -/
def inflated (s : HomePage) (size : ℕ) : HomePage :=
  { s with
    updates := s.updates + 1
    topTabLayout := s.topTabLayout.inflateInfo (infos (s.updates + 1) size) }

theorem infos_ne_nil (update : ℕ) : infos update (last + 1) ≠ [] := by
  simp [infos]

theorem infoList_inflated (s : HomePage) (last : ℕ) :
    (s.inflated (last + 1)).topTabLayout.infoList = infos (s.updates + 1) (last + 1) := by
  simp [inflated, inflateInfo, infos_ne_nil]

theorem Ready.listeners_inflated (h : s.Ready) (last : ℕ) :
    (s.inflated (last + 1)).topTabLayout.listeners =
      arranged s.updates 0 (s.inflated (last + 1)).topTabLayout.infoList := by
  rw [infoList_inflated]
  simp [inflated, inflateInfo, infos_ne_nil, h.listeners, arranged]

theorem selectedInfo_inflated (s : HomePage) (last : ℕ) :
    (s.inflated (last + 1)).topTabLayout.selectedInfo = none := by
  simp [inflated, inflateInfo, infos_ne_nil]

theorem shown_inflated {info : Info} (h : info ∈ infos (s.updates + 1) (last + 1)) :
    (s.inflated (last + 1)).topTabLayout.shown info = false := by
  simp [inflated, inflateInfo, infos_ne_nil, h]

theorem redraw_inflated {prevInfo : Option Info}
    (hprev : ∀ info ∈ infos (s.updates + 1) (last + 1), prevInfo ≠ some info) {i : ℕ}
    (hi : i ≤ last) :
    redraw (s.inflated (last + 1)).topTabLayout.shown (infos (s.updates + 1) (last + 1)) prevInfo
      (Info.mk (s.updates + 1) 0) (Info.mk (s.updates + 1) i) = decide (i = 0) := by
  have hmem : ∀ i ≤ last, Info.mk (s.updates + 1) i ∈ infos (s.updates + 1) (last + 1) :=
    fun i hi ↦ mem_infos.mpr ⟨rfl, Nat.lt_succ_of_le hi⟩
  have hne := hprev _ (hmem i hi)
  have hne' := hprev _ (hmem 0 (Nat.zero_le last))
  unfold redraw
  by_cases hzero : 0 = i
  · simp [hmem, hne', ← hzero]
  · simp [hmem i hi, hne, hne', hzero, Ne.symm hzero, shown_inflated (hmem i hi)]

/-- The page with the first tab selected and drawn. -/
def restarted (s : HomePage) (shown : Info → Bool) : HomePage :=
  setSelectedInfo (setShown { s with currentItem := 0, topTabSelectIndex := 0 } shown)
    (Info.mk s.updates 0)

theorem restarted_of_zero (hcurrent : s.currentItem = 0) (hselect : s.topTabSelectIndex = 0)
    (shown : Info → Bool) :
    s.restarted shown = setSelectedInfo (s.setShown shown) (Info.mk s.updates 0) := by
  unfold restarted
  rw [← hcurrent]
  nth_rewrite 2 [hcurrent]
  rw [← hselect]

/-- The first of the new tabs is selected, and the pager is on the first page. -/
theorem Ready.onSelected_inflated (h : s.Ready) (last : ℕ) :
    ∃ shown, onSelected (depth + 2) (s.inflated (last + 1)) (Info.mk (s.updates + 1) 0) =
        .ok ((s.inflated (last + 1)).restarted shown) ∧
      ∀ i ≤ last, shown (Info.mk (s.updates + 1) i) = decide (i = 0) := by
  have hindex : (s.inflated (last + 1)).topTabLayout.infoList.idxOf?
      (Info.mk (s.updates + 1) 0) = some 0 := by
    rw [infoList_inflated]
    exact idxOf?_infos (Nat.succ_pos last)
  by_cases hcurrent : s.currentItem = 0
  · have hcurrent' : (s.inflated (last + 1)).currentItem = 0 := hcurrent
    have hselect : (s.inflated (last + 1)).topTabSelectIndex = 0 := h.index.trans hcurrent
    refine ⟨redraw (s.inflated (last + 1)).topTabLayout.shown
      (infos (s.updates + 1) (last + 1)) none (Info.mk (s.updates + 1) 0), ?_, ?_⟩
    · rw [onSelected_of_current (h.listeners_inflated last) (hindex.trans (by rw [hcurrent'])),
        infoList_inflated, selectedInfo_inflated, restarted_of_zero hcurrent' hselect]
      rfl
    · exact fun i hi ↦ redraw_inflated (by simp) hi
  · rcases h.pages with ⟨-, -, hzero⟩ | ⟨hupdates, ⟨last₀, hcount⟩, first, htabs⟩
    · exact absurd hzero hcurrent
    have hstale : Info.mk 1 0 ∉ infos (s.updates + 1) (last + 1) := notMem_infos (by omega)
    have hlisteners := h.listeners_inflated last
    rw [← Nat.sub_add_cancel hupdates] at hlisteners
    have hfirst : (s.inflated (last + 1)).topTabs[0]? = some (Info.mk 1 0) := by
      have htabs' : (s.inflated (last + 1)).topTabs = infos 1 (first + 1) := htabs
      rw [htabs']
      exact getElem?_infos (Nat.succ_pos first)
    refine ⟨_, onSelected_of_inflated hlisteners hcount hcurrent (h.index ▸ hcurrent) hindex
      hfirst (by rw [infoList_inflated]; exact hstale), ?_⟩
    intro i hi
    rw [selectedInfo_inflated, unselect_none, infoList_inflated]
    refine redraw_inflated (fun info hinfo heq ↦ ?_) hi
    exact hstale (Option.some.inj heq ▸ hinfo)

/-- The page at the end of an update. -/
def filled (s : HomePage) (last : ℕ) (shown : Info → Bool) : HomePage :=
  { (s.inflated (last + 1)).restarted shown with
    topTabLayout :=
      ((s.inflated (last + 1)).restarted shown).topTabLayout.addTabSelectedChangeListener .outside
    topTabs := if s.count = none then infos (s.updates + 1) (last + 1) else s.topTabs
    count := some (last + 1) }

theorem Ready.settled_filled (h : s.Ready) {shown : Info → Bool}
    (hshown : ∀ i ≤ last, shown (Info.mk (s.updates + 1) i) = decide (i = 0)) :
    (s.filled last shown).Settled last where
  crashed := h.crashed
  updates := Nat.succ_pos s.updates
  infoList := infoList_inflated s last
  listeners := by
    have hlisteners : (s.filled last shown).topTabLayout.listeners =
        (s.inflated (last + 1)).topTabLayout.listeners ++ [.outside] := rfl
    have hpred : (s.filled last shown).updates - 1 = s.updates := Nat.succ_sub_one s.updates
    have hinfoList : (s.filled last shown).topTabLayout.infoList =
        (s.inflated (last + 1)).topTabLayout.infoList := rfl
    rw [hlisteners, h.listeners_inflated, hpred, hinfoList]
    simp [arranged]
  count := rfl
  topTabs := by
    rcases h.pages with ⟨hupdates, hcount, -⟩ | ⟨hupdates, ⟨last₀, hcount⟩, first, htabs⟩
    · refine ⟨last, ?_, fun _ ↦ rfl⟩
      simp [filled, hcount, hupdates]
    · refine ⟨first, ?_, fun hone ↦ ?_⟩
      · simp [filled, hcount, htabs]
      · exact absurd (Nat.succ.inj hone) (Nat.ne_of_gt hupdates)
  currentItem := Nat.zero_le last
  index := rfl
  selected := rfl
  shown := hshown

/-- An update leaves the page in order. -/
theorem Ready.updateUI (h : s.Ready) (last : ℕ) :
    ∃ t, s.updateUI (depth + 2) (last + 1) = .ok t ∧ t.Settled last := by
  obtain ⟨shown, hselected, hshown⟩ : ∃ shown, onSelected (depth + 2) _ _ = _ ∧ _ :=
    h.onSelected_inflated last
  have hzero : (infos (s.updates + 1) (last + 1))[0]? = some (Info.mk (s.updates + 1) 0) :=
    getElem?_infos (Nat.succ_pos last)
  have hfilled : s.updateUI (depth + 2) (last + 1) =
      setCurrentItem (onSelected (depth + 2)) (s.filled last shown) 0 := by
    simp only [HomePage.updateUI, hzero]
    change (onSelected (depth + 2) (s.inflated (last + 1)) _ >>= _) = _
    rw [hselected]
    rfl
  have hcurrent : setCurrentItem (onSelected (depth + 2)) (s.filled last shown) 0 =
      .ok (s.filled last shown) := by
    simp [setCurrentItem, filled, restarted, setSelectedInfo, setShown]
  exact ⟨_, hfilled.trans hcurrent, h.settled_filled hshown⟩

/-- The page has not been filled, or it is in order. -/
def InOrder (s : HomePage) : Prop := s = {} ∨ ∃ last, s.Settled last

theorem InOrder.ready (h : s.InOrder) : s.Ready := by
  rcases h with rfl | ⟨last, h⟩
  · exact ready_init
  · exact h.ready

theorem InOrder.agrees (h : s.InOrder) : s.Agrees := by
  rcases h with rfl | ⟨last, h⟩
  · exact ⟨rfl, fun hne ↦ absurd rfl hne, fun hne ↦ absurd rfl hne⟩
  · exact h.agrees

end

end HomePage

/-- Data that are not empty. -/
def Action.HasData : Action → Prop
  | .updateUI _ size => 0 < size
  | .onClick _ => True
  | .swipe _ => True

instance (a : Action) : Decidable a.HasData :=
  match a with
  | .updateUI _ _ => inferInstanceAs (Decidable (_ < _))
  | .onClick _ | .swipe _ => isTrue trivial

namespace HomePage

variable {s t : HomePage} {depth : ℕ} {a : Action}

theorem InOrder.step_updateUI (h : s.InOrder) (isAlive : Bool) {size : ℕ} (hsize : 0 < size) :
    InOrder (if isAlive then s.settle (s.updateUI (depth + 2) size) else s) := by
  cases isAlive with
  | false => exact h
  | true =>
      obtain ⟨last, rfl⟩ := Nat.exists_eq_succ_of_ne_zero (Nat.ne_of_gt hsize)
      obtain ⟨t, ht, hsettled⟩ : ∃ t, s.updateUI (depth + 2) (last + 1) = .ok t ∧ _ :=
        h.ready.updateUI last
      refine .inr ⟨last, ?_⟩
      rw [if_pos rfl, ht]
      exact hsettled

theorem not_agrees_crashed : ¬ Agrees { s with crashed := true } :=
  fun h ↦ absurd h.crashed (by simp)

theorem InOrder.step_onClick (h : s.InOrder) {index : ℕ} {info : Info}
    (hinfo : s.topTabLayout.infoList[index]? = some info) :
    (s.settle (onSelected (depth + 3) s info)).InOrder ∧ s.Followed (.onClick index) ∨
      ¬ (s.settle (onSelected (depth + 3) s info)).Agrees ∧ ¬ s.Followed (.onClick index) := by
  rcases h with rfl | ⟨last, h⟩
  · simp at hinfo
  · have hlength : index < (infos s.updates (last + 1)).length := by
      rw [← h.infoList]
      exact (List.getElem?_eq_some_iff.mp hinfo).1
    rw [length_infos] at hlength
    obtain rfl : Info.mk s.updates index = info := by
      rw [h.infoList, getElem?_infos hlength] at hinfo
      exact Option.some.inj hinfo
    rcases h.onClick (Nat.le_of_lt_succ hlength) with
      ⟨t, ht, hsettled, hfollowed⟩ | ⟨⟨thrown, hthrown⟩, hfollowed⟩
    · rw [ht]
      exact .inl ⟨.inr ⟨last, hsettled⟩, hfollowed⟩
    · rw [hthrown]
      exact .inr ⟨not_agrees_crashed, hfollowed⟩

theorem InOrder.step_swipe (h : s.InOrder) {position : ℕ} (hposition : position < s.count.getD 0)
    (hne : position ≠ s.currentItem) :
    let t := s.settle
      (onPageSelected (onSelected (depth + 2)) { s with currentItem := position } position)
    t.InOrder ∧ s.Followed (.swipe position) ∨ ¬ t.Agrees ∧ ¬ s.Followed (.swipe position) := by
  rcases h with rfl | ⟨last, h⟩
  · simp at hposition
  · rw [h.count] at hposition
    have hle : position ≤ last := Nat.le_of_lt_succ hposition
    by_cases hupdates : s.updates ≤ 1
    · obtain ⟨t, ht, hsettled⟩ := h.swipe hle (Ne.symm hne) hupdates
      rw [ht]
      exact .inl ⟨.inr ⟨last, hsettled⟩, .inl hupdates⟩
    · exact .inr ⟨h.not_agrees_swipe hle (Ne.symm hne) hupdates, not_or.mpr ⟨hupdates, hne⟩⟩

/-- A step leaves the page in order, or tabs and pager disagree. -/
theorem InOrder.step (h : s.InOrder) (hdata : a.HasData)
    (hstep : s.step (depth + 3) a = some t) :
    t.InOrder ∧ s.Followed a ∨ ¬ t.Agrees ∧ ¬ s.Followed a := by
  have hcrashed : ¬ s.crashed = true := by
    simp [h.ready.crashed]
  unfold HomePage.step at hstep
  rw [if_neg hcrashed] at hstep
  cases a with
  | updateUI isAlive size =>
      obtain rfl := Option.some.inj hstep
      exact .inl ⟨h.step_updateUI isAlive hdata, trivial⟩
  | onClick index =>
      obtain ⟨info, hinfo, rfl⟩ := Option.map_eq_some_iff.mp hstep
      exact h.step_onClick hinfo
  | swipe position =>
      obtain ⟨hposition, hswipe⟩ := Option.ite_none_right_eq_some.mp hstep
      obtain rfl := Option.some.inj hswipe
      by_cases hne : position = s.currentItem
      · rw [if_pos hne]
        exact .inl ⟨h, .inr hne⟩
      · rw [if_neg hne]
        exact h.step_swipe hposition hne

/-- Cached data with four categories and then five from the network. -/
def twoUpdates : List Action :=
  [.updateUI true 4, .onClick 2, .swipe 3, .updateUI true 5, .onClick 3, .onClick 1]

/-- The same data twice, and a swipe to the second page. -/
def swipeAfterUpdate : List Action := [.updateUI true 4, .updateUI true 4, .swipe 1]

end HomePage

end HiApp.Home
