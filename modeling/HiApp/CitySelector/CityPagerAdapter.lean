import HiApp.CitySelector.CityListView
import HiApp.CitySelector.CitySelectorDialogFragment

/-!
# The pages of the city selector

The pager makes and drops pages as it likes; a page is given its list when it is made, and all
pages but the first are made anew whenever a choice changes the tabs.  So long as no list is
empty, the pages offer what the dialog has to offer, and what is chosen on them are choices of
the dialog.
-/

namespace HiApp.CitySelector

open Runs

variable {ρ κ δ : Type*}

/-- `views` are the lists of rows that were ever made, by their positions, and `mItems` the pages
that are there now.  `clicked` are the rows that were clicked. -/
structure CityPager (ρ κ δ : Type*) where
  dialog : State ρ κ δ
  views : ℕ → Option (CityListView (Item ρ κ δ)) := fun _ ↦ none
  mItems : List ℕ := []
  currentItem : ℕ := 0
  clicked : List Action := []

namespace CityPager

/-- What the pager, the rows and the user do. -/
inductive Event where
  | instantiateItem (position : ℕ)
  | destroyItem (position : ℕ)
  | setCurrentItem (position : ℕ)
  | onClick (position row : ℕ)
  | onBindViewHolder (position row : ℕ)
  | onViewRecycled (position row : ℕ)
  | notifyRows (position : ℕ)
  | close
  deriving DecidableEq

def setView (p : CityPager ρ κ δ) (position : ℕ) (view : CityListView (Item ρ κ δ)) :
    CityPager ρ κ δ :=
  { p with views := Function.update p.views position (some view) }

def addItem (p : CityPager ρ κ δ) (position : ℕ) (view : CityListView (Item ρ κ δ)) :
    CityPager ρ κ δ :=
  { p.setView position view with mItems := position :: p.mItems }

def destroyItem (p : CityPager ρ κ δ) (position : ℕ) : CityPager ρ κ δ :=
  { p with mItems := p.mItems.filter (· ≠ position) }

/-- `getItemPosition` is `POSITION_NONE` for a view that is not the first of all. -/
def isPositionNone (p : CityPager ρ κ δ) (position : ℕ) : Bool :=
  0 < (List.range position).countP fun key ↦ (p.views key).isSome

/-- The pages that have no position any more are destroyed; when the current one is among them,
the pager keeps to the pages there are. -/
def dropPages (p : CityPager ρ κ δ) : CityPager ρ κ δ :=
  { p with
    mItems := p.mItems.filter fun position ↦ !p.isPositionNone position
    currentItem :=
      if p.isPositionNone p.currentItem then min p.currentItem (p.dialog.topTabs.length - 1)
      else p.currentItem }

@[simp] theorem setView_views_self (p : CityPager ρ κ δ) (position : ℕ)
    (view : CityListView (Item ρ κ δ)) : (p.setView position view).views position = some view :=
  Function.update_self _ _ _

@[simp] theorem setView_views_of_ne {position other : ℕ} (h : other ≠ position)
    (p : CityPager ρ κ δ) (view : CityListView (Item ρ κ δ)) :
    (p.setView position view).views other = p.views other :=
  Function.update_of_ne h _ _

theorem addItem_views_self (p : CityPager ρ κ δ) (position : ℕ)
    (view : CityListView (Item ρ κ δ)) : (p.addItem position view).views position = some view :=
  setView_views_self p position view

end CityPager

namespace Dialog

open CityPager

/-- What is chosen on a page. -/
def selected (s : State ρ κ δ) : ℕ → Option (Item ρ κ δ)
  | 0 => some (.province s.province)
  | 1 => s.current.selectCity.map .city
  | 2 => s.current.selectDistrict
  | _ => none

variable (m : Dialog ρ κ δ)

/-- Throws for a page of districts without a city, and for a fourth page. -/
def instantiateItem (p : CityPager ρ κ δ) (position : ℕ) : Option (CityPager ρ κ δ) :=
  (m.items p.dialog position).map fun list ↦
    p.addItem position
      (((p.views position).getD {}).setData (selected p.dialog position) list)

/-- The pages that were destroyed are made anew when there still is a tab for them. -/
def notifyDataSetChanged (p : CityPager ρ κ δ) : Option (CityPager ρ κ δ) :=
  run m.instantiateItem p.dropPages (p.mItems.filter fun position ↦
    p.isPositionNone position && position < p.dialog.topTabs.length)

/-- The first layout makes the first page. -/
def showPages (provinces : ρ → Province ρ κ δ) (province : ρ) : Option (CityPager ρ κ δ) :=
  m.instantiateItem { dialog := m.onViewCreated provinces province } 0

section Steps

variable [DecidableEq ρ]

/-- A page that is not the current one ignores the choice. -/
def onItemClick (p : CityPager ρ κ δ) (position : ℕ) (x : Item ρ κ δ) :
    Option (CityPager ρ κ δ) :=
  if p.currentItem ≠ position then some p
  else
    (m.itemClickCallback p.dialog x).toOption.bind fun s ↦
      if (m.fields p.dialog x).type = some TYPE_DISTRICT then some { p with dialog := s }
      else m.notifyDataSetChanged { p with dialog := s }

def onBindViewHolder (p : CityPager ρ κ δ) (position row : ℕ) : Option (CityPager ρ κ δ) :=
  (p.views position).bind fun view ↦
    view.districtList[row]?.bind fun x ↦
      (if view.isClicked row then m.onItemClick p position x else some p).bind fun p' ↦
        (p'.views position).map fun view' ↦
          p'.setView position (view'.bindRow (fun y ↦ (m.fields p'.dialog y).id) row x)

def stepPage (p : CityPager ρ κ δ) (event : Event) : Option (CityPager ρ κ δ) :=
  if p.dialog.dismissed then none
  else
    match event with
    | .instantiateItem position =>
        if position ∉ p.mItems ∧ position < p.dialog.topTabs.length then
          m.instantiateItem p position
        else none
    | .destroyItem position => some (p.destroyItem position)
    | .setCurrentItem position =>
        if position < p.dialog.topTabs.length then some { p with currentItem := position }
        else none
    | .onClick position row =>
        if position ∈ p.mItems then
          (p.views position).bind fun view ↦
            (view.rows row).map fun r ↦
              { p.setView position (view.onClick row r) with
                clicked := p.clicked ++ [.select position row] }
        else none
    | .onBindViewHolder position row =>
        if position ∈ p.mItems then m.onBindViewHolder p position row else none
    | .onViewRecycled position row =>
        (p.views position).map fun view ↦ p.setView position (view.onViewRecycled row)
    | .notifyRows position =>
        (p.views position).map fun view ↦ p.setView position view.notifyDataSetChanged
    | .close =>
        some { p with
          dialog := { p.dialog with dismissed := true }
          clicked := p.clicked ++ [.close] }

end Steps

/-! ## One page -/

/-- Every city has districts; and every province has cities, but one that nobody has chosen. -/
structure Full (provinces : ρ → Province ρ κ δ) : Prop where
  districts : ∀ c, (m.city c).districts ≠ []
  cities : ∀ r, (provinces r).cities = [] →
    isEmpty (provinces r).id = true ∧ (provinces r).selectCity = none

/-- A page is there only with its tab, and its list is the one to be offered. -/
def Shows (p : CityPager ρ κ δ) (position : ℕ) : Prop :=
  position < p.dialog.topTabs.length ∧
    ∃ view, p.views position = some view ∧ m.items p.dialog position = some view.districtList

/-- What holds of the pages so long as the dialog is open. -/
structure PageInv (p : CityPager ρ κ δ) : Prop where
  tabs : p.dialog.topTabs = m.newTabs p.dialog
  full : m.Full p.dialog.provinces
  first : ∃ view, p.views 0 = some view ∧ view.districtList = m.dataSets.map .province
  shows : ∀ position ∈ p.mItems, m.Shows p position

variable {m} {p p' : CityPager ρ κ δ} {position row : ℕ}

/-- The lists of all pages but the first have entries. -/
theorem items_ne_nil {s : State ρ κ δ} (hfull : m.Full s.provinces)
    (hlt : position < (m.newTabs s).length) (hpos : 0 < position) {list : List (Item ρ κ δ)}
    (hlist : m.items s position = some list) : list ≠ [] := by
  rintro rfl
  match position with
  | 1 =>
      have hnil : s.current.cities = [] := List.map_eq_nil_iff.mp (Option.some.inj hlist)
      obtain ⟨hid, hcity⟩ := hfull.cities s.province hnil
      have hid' : isEmpty s.current.id = true := hid
      have hcity' : s.current.selectCity = none := hcity
      rw [length_newTabs, if_pos hid', hcity'] at hlt
      simp at hlt
  | 2 =>
      obtain ⟨c, -, hnil⟩ := Option.map_eq_some_iff.mp hlist
      exact hfull.districts c (List.map_eq_nil_iff.mp hnil)
  | _ + 3 => cases hlist

theorem districtList_setData_of_ne_nil {ι : Type*} {list : List ι} (hne : list ≠ [])
    (v : CityListView ι) (select : Option ι) : (v.setData select list).districtList = list := by
  rw [CityListView.setData_of_ne_nil hne]

/-- A page that is made has the list to be offered. -/
theorem PageInv.instantiateItem (h : m.PageInv p) (hlt : position < p.dialog.topTabs.length)
    (hp : m.instantiateItem p position = some p') : m.PageInv p' := by
  obtain ⟨list, hlist, rfl⟩ := Option.map_eq_some_iff.mp hp
  have hdistrict : (((p.views position).getD {}).setData (selected p.dialog position)
      list).districtList = list := by
    by_cases hpos : 0 < position
    · exact districtList_setData_of_ne_nil
        (items_ne_nil h.full (h.tabs ▸ hlt) hpos hlist) _ _
    · obtain rfl : position = 0 := Nat.eq_zero_of_not_pos hpos
      obtain ⟨view, hview, hlist₀⟩ := h.first
      obtain rfl := Option.some.inj hlist
      by_cases hnil : m.dataSets.map Item.province = ([] : List (Item ρ κ δ))
      · rw [hnil] at hlist₀ ⊢
        rw [hview, Option.getD_some, CityListView.setData_nil, hlist₀]
      · exact districtList_setData_of_ne_nil hnil _ _
  refine ⟨h.tabs, h.full, ?_, ?_⟩
  · by_cases hzero : 0 = position
    · subst hzero
      obtain rfl := Option.some.inj hlist
      exact ⟨_, addItem_views_self _ _ _, hdistrict⟩
    · obtain ⟨view, hview, hlist₀⟩ := h.first
      exact ⟨view, (setView_views_of_ne hzero _ _).trans hview, hlist₀⟩
  · intro other hother
    by_cases hne : other = position
    · rw [hne]
      refine ⟨hlt, _, addItem_views_self _ _ _, ?_⟩
      rw [hdistrict]
      exact hlist
    · obtain ⟨hlt', view, hview, hitems⟩ :=
        h.shows other ((List.mem_cons.mp hother).resolve_left hne)
      exact ⟨hlt', view, (setView_views_of_ne hne _ _).trans hview, hitems⟩

/-- Where no list changes. -/
theorem PageInv.setView (h : m.PageInv p) {view view' : CityListView (Item ρ κ δ)}
    (hview : p.views position = some view) (hlist : view'.districtList = view.districtList) :
    m.PageInv (p.setView position view') := by
  have hviews : ∀ other w, p.views other = some w →
      ∃ w', (p.setView position view').views other = some w' ∧
        w'.districtList = w.districtList := by
    intro other w hw
    by_cases hne : other = position
    · subst hne
      obtain rfl := Option.some.inj (hview.symm.trans hw)
      exact ⟨view', setView_views_self _ _ _, hlist⟩
    · exact ⟨w, (setView_views_of_ne hne _ _).trans hw, rfl⟩
  refine ⟨h.tabs, h.full, ?_, fun other hother ↦ ?_⟩
  · obtain ⟨w, hw, hfirst⟩ := h.first
    obtain ⟨w', hw', hlist'⟩ := hviews 0 w hw
    exact ⟨w', hw', hlist'.trans hfirst⟩
  · obtain ⟨hlt, w, hw, hitems⟩ := h.shows other hother
    obtain ⟨w', hw', hlist'⟩ := hviews other w hw
    exact ⟨hlt, w', hw', hitems.trans (congrArg some hlist'.symm)⟩

theorem frame_instantiateItem (hp : m.instantiateItem p position = some p') :
    p'.dialog = p.dialog ∧ p'.clicked = p.clicked := by
  obtain ⟨list, -, rfl⟩ := Option.map_eq_some_iff.mp hp
  exact ⟨rfl, rfl⟩

theorem frame_notifyDataSetChanged (hp : m.notifyDataSetChanged p = some p') :
    p'.dialog = p.dialog ∧ p'.clicked = p.clicked := by
  refine run_invariant' (I := fun q ↦ q.dialog = p.dialog ∧ q.clicked = p.clicked)
    (fun q position q' hq hstep ↦ ?_) ⟨rfl, rfl⟩ hp
  obtain ⟨hdialog, hclicked⟩ := frame_instantiateItem hstep
  exact ⟨hdialog.trans hq.1, hclicked.trans hq.2⟩

/-- No page for which there is a tab fails to be made. -/
theorem PageInv.exists_instantiateItem (h : m.PageInv p)
    (hlt : position < p.dialog.topTabs.length) : ∃ p', m.instantiateItem p position = some p' := by
  obtain ⟨list, hlist⟩ := Option.isSome_iff_exists.mp (items_isSome (h.tabs ▸ hlt))
  exact ⟨_, Option.map_eq_some_iff.mpr ⟨list, hlist, rfl⟩⟩

theorem isPositionNone_of_pos (hfirst : (p.views 0).isSome) (hpos : 0 < position) :
    p.isPositionNone position = true := by
  apply decide_eq_true
  exact List.countP_pos_iff.mpr ⟨0, List.mem_range.mpr hpos, hfirst⟩

/-- Only the first page stays, and its list never changes. -/
theorem PageInv.notifyDataSetChanged (htabs : p.dialog.topTabs = m.newTabs p.dialog)
    (hfull : m.Full p.dialog.provinces)
    (hfirst : ∃ view, p.views 0 = some view ∧ view.districtList = m.dataSets.map .province)
    (hp : m.notifyDataSetChanged p = some p') : m.PageInv p' := by
  have hviews : (p.views 0).isSome := by
    obtain ⟨view, hview, -⟩ := hfirst
    rw [hview]
    rfl
  have hdrop : m.PageInv p.dropPages := by
    refine ⟨htabs, hfull, hfirst, fun position hposition ↦ ?_⟩
    obtain ⟨-, hstays⟩ := List.mem_filter.mp hposition
    have hzero : position = 0 := by
      by_contra hne
      rw [isPositionNone_of_pos hviews (Nat.pos_of_ne_zero hne)] at hstays
      cases hstays
    obtain ⟨view, hview, hlist⟩ := hfirst
    have hpos : 0 < p.dialog.topTabs.length := by
      rw [htabs, length_newTabs]
      exact Nat.succ_pos _
    rw [hzero]
    exact ⟨hpos, view, hview, congrArg some hlist.symm⟩
  have hlt : ∀ position ∈ p.mItems.filter (fun position ↦
      p.isPositionNone position && position < p.dialog.topTabs.length),
      position < p.dialog.topTabs.length := by
    intro position hposition
    obtain ⟨-, hstale⟩ := List.mem_filter.mp hposition
    exact of_decide_eq_true ((Bool.and_eq_true _ _).mp hstale).2
  refine (run_invariant (I := fun q ↦ m.PageInv q ∧ q.dialog = p.dialog)
    (fun q position q' hq hposition hstep ↦ ?_) ⟨hdrop, rfl⟩ (stepsMeet_of_forall_mem hlt) hp).1
  obtain ⟨hdialog, -⟩ := frame_instantiateItem hstep
  refine ⟨hq.1.instantiateItem ?_ hstep, hdialog.trans hq.2⟩
  rw [hq.2]
  exact hposition

/-! ## Choices -/

section

variable [DecidableEq ρ] {s s' : State ρ κ δ} {x : Item ρ κ δ}

/-- A city is chosen in a province that has cities. -/
theorem Full.itemClickCallback (h : m.Full s.provinces)
    (hoffered : m.offered s position row = some x) (hs' : m.itemClickCallback s x = .ok s') :
    m.Full s'.provinces := by
  refine ⟨h.districts, fun r hnil ↦ ?_⟩
  rcases itemClickCallback_cases hs' with ⟨r', -, -, rfl⟩ | ⟨c, rfl, -, rfl⟩ | ⟨-, rfl⟩ | ⟨-, rfl⟩
  · exact h.cities r hnil
  · obtain ⟨-, hc⟩ := offered_city hoffered
    by_cases hr : r = s.province
    · have hcities : s.current.cities = [] := by
        simpa [refreshTabLayoutCount, State.setSelectCity, hr] using hnil
      rw [hcities] at hc
      cases hc
    · have hprovinces : (m.refreshTabLayoutCount (s.setSelectCity c)).provinces r =
          s.provinces r := Function.update_of_ne hr _ _
      rw [hprovinces] at hnil ⊢
      exact h.cities r hnil
  · by_cases hr : r = s.province
    · have hprovinces : (s.setSelectDistrict x).finish.provinces r =
          { s.current with selectDistrict := some x } := by
        rw [hr]
        exact Function.update_self _ _ _
      rw [hprovinces] at hnil ⊢
      exact h.cities s.province hnil
    · have hprovinces : (s.setSelectDistrict x).finish.provinces r = s.provinces r :=
        Function.update_of_ne hr _ _
      rw [hprovinces] at hnil ⊢
      exact h.cities r hnil
  · exact h.cities r hnil

omit [DecidableEq ρ] in
/-- The row that was clicked is what the dialog offers at its place. -/
theorem PageInv.offered_eq (h : m.PageInv p) (hmem : position ∈ p.mItems)
    {view : CityListView (Item ρ κ δ)} (hview : p.views position = some view)
    (hx : view.districtList[row]? = some x) :
    position < p.dialog.topTabs.length ∧ m.offered p.dialog position row = some x := by
  obtain ⟨hlt, view', hview', hitems⟩ := h.shows position hmem
  obtain rfl := Option.some.inj (hview.symm.trans hview')
  refine ⟨hlt, ?_⟩
  rw [offered, hitems]
  exact hx

theorem step_select (hopen : s.dismissed = false) (hlt : position < s.topTabs.length)
    (hoffered : m.offered s position row = some x) (hs' : m.itemClickCallback s x = .ok s') :
    m.step s (.select position row) = some s' := by
  rw [step, if_pos ⟨hopen, hlt⟩, hoffered, Option.bind_some, hs']
  rfl

/-- A choice that is told is ignored, or it is a choice of the dialog, after which the pages that
are left show the lists of the new state. -/
theorem PageInv.onItemClick (h : m.PageInv p) (hopen : p.dialog.dismissed = false)
    (hlt : position < p.dialog.topTabs.length)
    (hoffered : m.offered p.dialog position row = some x)
    (hp : m.onItemClick p position x = some p') :
    (p' = p ∨ m.step p.dialog (.select position row) = some p'.dialog) ∧
      (p'.dialog.dismissed = false → m.PageInv p') := by
  unfold Dialog.onItemClick at hp
  split at hp
  · obtain rfl := Option.some.inj hp
    exact ⟨.inl rfl, fun _ ↦ h⟩
  · obtain ⟨s', hs', hp⟩ := Option.bind_eq_some_iff.mp hp
    have hcallback : m.itemClickCallback p.dialog x = .ok s' := by
      cases hresult : m.itemClickCallback p.dialog x with
      | error e =>
          rw [hresult] at hs'
          cases hs'
      | ok t =>
          rw [hresult] at hs'
          rw [Option.some.inj hs']
    have hstep := step_select hopen hlt hoffered hcallback
    split at hp
    · rename_i htype
      obtain rfl := Option.some.inj hp
      refine ⟨.inr hstep, fun hopen' ↦ ?_⟩
      rcases itemClickCallback_cases hcallback with ⟨r, -, hother, -⟩ | ⟨c, -, hother, -⟩ |
        ⟨-, rfl⟩ | ⟨hother, -⟩
      · exact absurd (htype.symm.trans hother) (by decide)
      · exact absurd (htype.symm.trans hother) (by decide)
      · cases hopen'
      · simp [htype] at hother
    · obtain ⟨hdialog, -⟩ := frame_notifyDataSetChanged hp
      refine ⟨.inr (hdialog ▸ hstep), fun hopen' ↦ ?_⟩
      rw [hdialog] at hopen'
      exact PageInv.notifyDataSetChanged (tabs_step hstep hopen')
        (h.full.itemClickCallback hoffered hcallback) h.first hp

end

/-! ## Clicks -/

section

variable {view : CityListView (Item ρ κ δ)}

/-- A click that is still to be told was made. -/
def ClicksKnown (p : CityPager ρ κ δ) : Prop :=
  ∀ position view row, p.views position = some view → view.isClicked row = true →
    .select position row ∈ p.clicked

theorem ClicksKnown.setView (h : ClicksKnown p)
    (hview : ∀ row, view.isClicked row = true → .select position row ∈ p.clicked) :
    ClicksKnown (p.setView position view) := by
  intro other view' row hother hclicked
  by_cases hne : other = position
  · subst hne
    rw [setView_views_self] at hother
    obtain rfl := Option.some.inj hother
    exact hview row hclicked
  · rw [setView_views_of_ne hne] at hother
    exact h other view' row hother hclicked

theorem isClicked_of_setData {ι : Type*} {v : CityListView ι} {select : Option ι} {list : List ι}
    (h : (v.setData select list).isClicked row = true) : v.isClicked row = true := by
  by_cases hnil : list = []
  · rwa [hnil, CityListView.setData_nil] at h
  · rw [CityListView.setData_of_ne_nil hnil] at h
    obtain ⟨hcurrent, -⟩ := of_decide_eq_true h
    cases hcurrent

theorem isClicked_of_bindRow {ι : Type*} {v : CityListView ι} {id : ι → Option String} {x : ι}
    {bound : ℕ} (h : (v.bindRow id bound x).isClicked row = true) : v.isClicked row = true := by
  unfold CityListView.bindRow at h
  split at h
  · obtain ⟨-, hne⟩ := of_decide_eq_true h
    exact absurd rfl hne
  · exact h

theorem ClicksKnown.instantiateItem (h : ClicksKnown p)
    (hp : m.instantiateItem p position = some p') : ClicksKnown p' := by
  obtain ⟨list, -, rfl⟩ := Option.map_eq_some_iff.mp hp
  refine h.setView fun row hclicked ↦ ?_
  have hold := isClicked_of_setData hclicked
  cases hview : p.views position with
  | none =>
      rw [hview] at hold
      cases hold
  | some view =>
      rw [hview] at hold
      exact h position view row hview hold

theorem ClicksKnown.notifyDataSetChanged (h : ClicksKnown p)
    (hp : m.notifyDataSetChanged p = some p') : ClicksKnown p' := by
  exact run_invariant' (I := ClicksKnown) (fun q position q' hq hstep ↦ hq.instantiateItem hstep)
    (s := p.dropPages) h hp

theorem ClicksKnown.onItemClick [DecidableEq ρ] {x : Item ρ κ δ} (h : ClicksKnown p)
    (hp : m.onItemClick p position x = some p') : ClicksKnown p' ∧ p'.clicked = p.clicked := by
  unfold Dialog.onItemClick at hp
  split at hp
  · obtain rfl := Option.some.inj hp
    exact ⟨h, rfl⟩
  · obtain ⟨s', -, hp⟩ := Option.bind_eq_some_iff.mp hp
    split at hp
    · obtain rfl := Option.some.inj hp
      exact ⟨h, rfl⟩
    · obtain ⟨-, hclicked⟩ := frame_notifyDataSetChanged hp
      exact ⟨ClicksKnown.notifyDataSetChanged (p := { p with dialog := s' }) h hp, hclicked⟩

end

/-! ## Runs -/

section

variable [DecidableEq ρ]

/-- The dialog has come to its state by choices that are clicks on the rows, and the pages of an
open dialog show what it offers. -/
structure Follows (m : Dialog ρ κ δ) (provinces : ρ → Province ρ κ δ) (province : ρ)
    (p : CityPager ρ κ δ) : Prop where
  choices : ∃ actions, run m.step (m.onViewCreated provinces province) actions = some p.dialog ∧
    actions ⊆ p.clicked
  clicks : ClicksKnown p
  pages : p.dialog.dismissed = false → m.PageInv p

variable {provinces : ρ → Province ρ κ δ} {province : ρ}

theorem Follows.setView (h : m.Follows provinces province p)
    {view view' : CityListView (Item ρ κ δ)} (hview : p.views position = some view)
    (hlist : view'.districtList = view.districtList)
    (hclicks : ∀ row, view'.isClicked row = true → .select position row ∈ p.clicked) :
    m.Follows provinces province (p.setView position view') :=
  ⟨h.choices, h.clicks.setView hclicks, fun hopen ↦ (h.pages hopen).setView hview hlist⟩

theorem Follows.addClick (h : m.Follows provinces province p) (action : Action) :
    m.Follows provinces province { p with clicked := p.clicked ++ [action] } := by
  obtain ⟨actions, hrun, hsubset⟩ := h.choices
  refine ⟨⟨actions, hrun, List.subset_append_of_subset_left _ hsubset⟩,
    fun position view row hview hclicked ↦ ?_, fun hopen ↦ ?_⟩
  · exact List.mem_append_left _ (h.clicks position view row hview hclicked)
  · obtain ⟨htabs, hfull, hfirst, hshows⟩ := h.pages hopen
    exact ⟨htabs, hfull, hfirst, hshows⟩

/-- A click that is told is a choice of the dialog. -/
theorem Follows.onItemClick (h : m.Follows provinces province p)
    (hopen : p.dialog.dismissed = false) (hmem : position ∈ p.mItems)
    {view : CityListView (Item ρ κ δ)} (hview : p.views position = some view)
    (hclicked : view.isClicked row = true) {x : Item ρ κ δ}
    (hx : view.districtList[row]? = some x) (hp : m.onItemClick p position x = some p') :
    m.Follows provinces province p' := by
  have hpages := h.pages hopen
  obtain ⟨hlt, hoffered⟩ := hpages.offered_eq hmem hview hx
  obtain ⟨hchoice, hpages'⟩ := hpages.onItemClick hopen hlt hoffered hp
  obtain ⟨hclicks, heq⟩ := h.clicks.onItemClick hp
  refine ⟨?_, hclicks, hpages'⟩
  rcases hchoice with rfl | hstep
  · exact h.choices
  · obtain ⟨actions, hrun, hsubset⟩ := h.choices
    refine ⟨actions ++ [.select position row], run_concat_eq_some_iff.mpr ⟨_, hrun, hstep⟩, ?_⟩
    rw [heq, List.append_subset]
    refine ⟨hsubset, List.cons_subset.mpr ⟨?_, List.nil_subset _⟩⟩
    exact h.clicks position view row hview hclicked

theorem Follows.onBindViewHolder (h : m.Follows provinces province p)
    (hopen : p.dialog.dismissed = false) (hmem : position ∈ p.mItems)
    (hp : m.onBindViewHolder p position row = some p') : m.Follows provinces province p' := by
  obtain ⟨view, hview, hp⟩ := Option.bind_eq_some_iff.mp hp
  obtain ⟨x, hx, hp⟩ := Option.bind_eq_some_iff.mp hp
  obtain ⟨q, hq, hp⟩ := Option.bind_eq_some_iff.mp hp
  obtain ⟨view', hview', rfl⟩ := Option.map_eq_some_iff.mp hp
  have hfollows : m.Follows provinces province q := by
    split at hq
    · exact h.onItemClick hopen hmem hview ‹_› hx hq
    · exact Option.some.inj hq ▸ h
  refine hfollows.setView hview' ?_ fun other hclicked ↦ ?_
  · unfold CityListView.bindRow
    split <;> rfl
  · exact hfollows.clicks position view' other hview' (isClicked_of_bindRow hclicked)

theorem Follows.step (h : m.Follows provinces province p) {event : Event}
    (hstep : m.stepPage p event = some p') : m.Follows provinces province p' := by
  obtain ⟨hclosed, hstep⟩ := Option.ite_none_left_eq_some.mp hstep
  have hopen : p.dialog.dismissed = false := by simpa using hclosed
  cases event with
  | instantiateItem position =>
      obtain ⟨⟨-, hlt⟩, hp⟩ := Option.ite_none_right_eq_some.mp hstep
      obtain ⟨hdialog, hclicked⟩ := frame_instantiateItem hp
      refine ⟨?_, h.clicks.instantiateItem hp, fun _ ↦ (h.pages hopen).instantiateItem hlt hp⟩
      rw [hdialog, hclicked]
      exact h.choices
  | destroyItem position =>
      obtain rfl := Option.some.inj hstep
      obtain ⟨htabs, hfull, hfirst, hshows⟩ := h.pages hopen
      refine ⟨h.choices, h.clicks, fun _ ↦ ⟨htabs, hfull, hfirst, fun other hother ↦ ?_⟩⟩
      exact hshows other (List.mem_of_mem_filter hother)
  | setCurrentItem position =>
      obtain ⟨-, hp⟩ := Option.ite_none_right_eq_some.mp hstep
      obtain rfl := Option.some.inj hp
      obtain ⟨htabs, hfull, hfirst, hshows⟩ := h.pages hopen
      exact ⟨h.choices, h.clicks, fun _ ↦ ⟨htabs, hfull, hfirst, hshows⟩⟩
  | onClick position row =>
      obtain ⟨-, hp⟩ := Option.ite_none_right_eq_some.mp hstep
      obtain ⟨view, hview, hp⟩ := Option.bind_eq_some_iff.mp hp
      obtain ⟨r, hr, rfl⟩ := Option.map_eq_some_iff.mp hp
      refine (h.addClick (.select position row)).setView hview rfl fun other hclicked ↦ ?_
      obtain ⟨hcurrent, -⟩ := of_decide_eq_true hclicked
      obtain rfl := Option.some.inj hcurrent
      exact List.mem_append_right _ (List.mem_singleton_self _)
  | onBindViewHolder position row =>
      obtain ⟨hmem, hp⟩ := Option.ite_none_right_eq_some.mp hstep
      exact h.onBindViewHolder hopen hmem hp
  | onViewRecycled position row =>
      obtain ⟨view, hview, rfl⟩ := Option.map_eq_some_iff.mp hstep
      exact h.setView hview rfl fun other hclicked ↦ h.clicks position view other hview hclicked
  | notifyRows position =>
      obtain ⟨view, hview, rfl⟩ := Option.map_eq_some_iff.mp hstep
      exact h.setView hview rfl fun other hclicked ↦ h.clicks position view other hview hclicked
  | close =>
      obtain rfl := Option.some.inj hstep
      have hclose : m.step p.dialog .close = some { p.dialog with dismissed := true } :=
        if_pos hopen
      obtain ⟨actions, hrun, hsubset⟩ := h.choices
      refine ⟨⟨actions ++ [.close], run_concat_eq_some_iff.mpr ⟨_, hrun, hclose⟩, ?_⟩,
        (h.addClick .close).clicks, fun hopen' ↦ by cases hopen'⟩
      exact List.append_subset.mpr ⟨List.subset_append_of_subset_left _ hsubset,
        List.subset_append_right _ _⟩

theorem follows_showPages (hfull : m.Full provinces)
    (hp : m.showPages provinces province = some p) : m.Follows provinces province p := by
  have hnew : m.showPages provinces province = some (CityPager.addItem
      { dialog := m.onViewCreated provinces province } 0
      (CityListView.setData {} (some (.province province)) (m.dataSets.map .province))) := rfl
  obtain rfl := Option.some.inj (hnew.symm.trans hp)
  have hlist : (CityListView.setData {} (some (.province province))
      (m.dataSets.map .province)).districtList =
        (m.dataSets.map .province : List (Item ρ κ δ)) := by
    by_cases hnil : m.dataSets = []
    · rw [hnil]
      rfl
    · exact districtList_setData_of_ne_nil (mt List.map_eq_nil_iff.mp hnil) _ _
  refine ⟨⟨[], rfl, List.nil_subset _⟩, ?_, fun _ ↦ ⟨rfl, hfull, ?_, fun position hmem ↦ ?_⟩⟩
  · refine ClicksKnown.setView (fun _ _ _ hview ↦ by cases hview) fun row hclicked ↦ ?_
    cases isClicked_of_setData hclicked
  · exact ⟨_, addItem_views_self _ _ _, hlist⟩
  · obtain rfl := List.mem_singleton.mp hmem
    refine ⟨?_, _, addItem_views_self _ _ _, congrArg some hlist.symm⟩
    change 0 < (m.newTabs _).length
    rw [length_newTabs]
    exact Nat.succ_pos _

/-- Whatever pages are made, dropped and turned to, and whenever rows are clicked and bound, the
dialog is in a state to which choices lead that were clicks; while it is open every page has the
list that the dialog offers there, and no page that has a tab fails to be made. -/
theorem pages_follow {events : List Event} {p₀ : CityPager ρ κ δ} (hfull : m.Full provinces)
    (hshow : m.showPages provinces province = some p₀)
    (hrun : run m.stepPage p₀ events = some p) :
    (∃ actions, run m.step (m.onViewCreated provinces province) actions = some p.dialog ∧
      actions ⊆ p.clicked) ∧
    (p.dialog.dismissed = false →
      (∀ position ∈ p.mItems, ∃ view, p.views position = some view ∧
        m.items p.dialog position = some view.districtList) ∧
      ∀ position < p.dialog.topTabs.length, ∃ p', m.instantiateItem p position = some p') := by
  have h : m.Follows provinces province p :=
    run_invariant' (fun _ _ _ hu hstep ↦ hu.step hstep) (follows_showPages hfull hshow) hrun
  refine ⟨h.choices, fun hopen ↦ ⟨fun position hmem ↦ ?_, fun position hlt ↦ ?_⟩⟩
  · exact ((h.pages hopen).shows position hmem).2
  · exact (h.pages hopen).exists_instantiateItem hlt

end

/-- Two provinces with one city of one district each. -/
def twoProvinces : Dialog (Fin 3) Bool Bool where
  dataSets := [1, 2]
  city c := { id := some "c", type := some TYPE_CITY, districts := [c] }
  district _ := { id := some "d", type := some TYPE_DISTRICT }
  pleasePickStr := "pick"

/-- The first of all is the empty province the dialog begins with. -/
def unchosen (r : Fin 3) : Province (Fin 3) Bool Bool :=
  if r = 0 then {}
  else
    { id := some (if r = 1 then "1" else "2"), type := some TYPE_PROVINCE
      cities := [r = 1] }

/-- The second province is clicked, then its city on the next page, and then the first
province after all. -/
def changedMind : List Event :=
  [.notifyRows 0, .onBindViewHolder 0 0, .onBindViewHolder 0 1, .onClick 0 1,
    .onBindViewHolder 0 1, .instantiateItem 1, .setCurrentItem 1, .onBindViewHolder 1 0,
    .onClick 1 0, .onBindViewHolder 1 0, .setCurrentItem 0, .onClick 0 0, .onBindViewHolder 0 0]

theorem full_unchosen : twoProvinces.Full unchosen := by
  refine ⟨fun c ↦ List.cons_ne_nil c [], fun r hnil ↦ ?_⟩
  by_cases hr : r = 0
  · rw [hr]
    exact ⟨rfl, rfl⟩
  · simp [unchosen, hr] at hnil

theorem pages_follow_changedMind :
    ∃ p₀ p, twoProvinces.showPages unchosen 0 = some p₀ ∧
      run twoProvinces.stepPage p₀ changedMind = some p ∧ p.dialog.province = 1 ∧
      p.mItems = [1, 0] ∧
      ∃ view, p.views 1 = some view ∧
        twoProvinces.items p.dialog 1 = some view.districtList := by
  obtain ⟨p₀, hshow⟩ : ∃ p₀, twoProvinces.showPages unchosen 0 = some p₀ := ⟨_, rfl⟩
  obtain ⟨p, hrun, hprovince, hitems, hopen⟩ : ∃ p, run twoProvinces.stepPage p₀ changedMind =
      some p ∧ p.dialog.province = 1 ∧ p.mItems = [1, 0] ∧ p.dialog.dismissed = false := by
    obtain rfl := Option.some.inj hshow
    exact exists_run_of_any (by decide)
  obtain ⟨-, hpages⟩ := pages_follow full_unchosen hshow hrun
  exact ⟨p₀, p, hshow, hrun, hprovince, hitems, (hpages hopen).1 1 (by rw [hitems]; decide)⟩

end Dialog

end HiApp.CitySelector
