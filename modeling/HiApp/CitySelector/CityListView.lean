import Mathlib.Data.List.Nodup
import HiApp.Lib.Runs

/-!
# The rows of a page

A page of the city selector is a list of rows of which one is checked.  A click only says which
rows have to be bound again, and it is while the row is bound that the choice is told.
-/

namespace HiApp.CitySelector

open Runs

variable {ι : Type*}

/-- What a row shows; its click listener keeps the district. -/
structure Row (ι : Type*) where
  district : ι
  isChecked : Bool
  deriving DecidableEq

/-- An index of `-1` is `none`.  `rows` are the rows in view by their positions, `changed` says
where they have to be bound again, and `posted` is how often `notifyDataSetChanged` is still to
be called. -/
structure CityListView (ι : Type*) where
  selectDistrict : Option ι := none
  districtList : List ι := []
  lastSelectIndex : Option ℕ := none
  currentSelectIndex : Option ℕ := none
  rows : ℕ → Option (Row ι) := fun _ ↦ none
  changed : ℕ → Bool := fun _ ↦ false
  posted : ℕ := 0

namespace CityListView

def setData (v : CityListView ι) (select : Option ι) (list : List ι) : CityListView ι :=
  if list.isEmpty then v
  else
    { v with
      lastSelectIndex := none
      currentSelectIndex := none
      selectDistrict := select
      districtList := list
      posted := v.posted + 1 }

def notifyItemChanged (v : CityListView ι) (index : Option ℕ) : CityListView ι :=
  { v with changed := fun position ↦ v.changed position || index = some position }

/-- What was posted by `setData`. -/
def notifyDataSetChanged (v : CityListView ι) : CityListView ι :=
  { v with changed := fun _ ↦ true, posted := v.posted - 1 }

/-- The click listener of a row. -/
def onClick (v : CityListView ι) (position : ℕ) (row : Row ι) : CityListView ι :=
  ({ v with selectDistrict := some row.district, currentSelectIndex := some position }
    |>.notifyItemChanged v.lastSelectIndex).notifyItemChanged (some position)

/-- Whether `onBindViewHolder` tells the choice: the row was clicked. -/
def isClicked (v : CityListView ι) (position : ℕ) : Bool :=
  v.currentSelectIndex = some position ∧ v.currentSelectIndex ≠ v.lastSelectIndex

def onViewRecycled (v : CityListView ι) (position : ℕ) : CityListView ι :=
  { v with rows := Function.update v.rows position none }

variable (id : ι → Option String)

/-- `onBindViewHolder` from where the choice has been told. -/
def bindRow (v : CityListView ι) (position : ℕ) (district : ι) : CityListView ι :=
  let v := if v.selectDistrict.bind id = id district then
      { v with currentSelectIndex := some position, lastSelectIndex := some position }
    else v
  { v with
    rows := Function.update v.rows position
      (some ⟨district, v.currentSelectIndex = some position⟩)
    changed := Function.update v.changed position false }

end CityListView

/-- A list of rows, with the districts that were clicked and those that were told. -/
structure Clicks (ι : Type*) where
  view : CityListView ι := {}
  clicked : List ι := []
  told : List ι := []

namespace Clicks

/-- Whoever is told of a choice may call `setData` right then. -/
inductive Action (ι : Type*) where
  | setData (select : Option ι) (list : List ι)
  | notifyDataSetChanged
  | onClick (position : ℕ)
  | onBindViewHolder (position : ℕ) (meanwhile : Option (Option ι × List ι))
  | onViewRecycled (position : ℕ)

variable (id : ι → Option String)

def onBindViewHolder (s : Clicks ι) (position : ℕ) (meanwhile : Option (Option ι × List ι))
    (district : ι) : Clicks ι :=
  if s.view.isClicked position then
    { s with
      view := CityListView.bindRow id
        (meanwhile.elim s.view fun data ↦ s.view.setData data.1 data.2) position district
      told := s.told ++ [district] }
  else { s with view := s.view.bindRow id position district }

def step (s : Clicks ι) : Action ι → Option (Clicks ι)
  | .setData select list => some { s with view := s.view.setData select list }
  | .notifyDataSetChanged =>
      if 0 < s.view.posted then some { s with view := s.view.notifyDataSetChanged } else none
  | .onClick position =>
      (s.view.rows position).map fun row ↦
        { s with view := s.view.onClick position row, clicked := s.clicked ++ [row.district] }
  | .onBindViewHolder position meanwhile =>
      s.view.districtList[position]?.map (s.onBindViewHolder id position meanwhile)
  | .onViewRecycled position => some { s with view := s.view.onViewRecycled position }

end Clicks

/-! ## The view alone -/

namespace CityListView

variable (id : ι → Option String)

/-- The ids of a list tell its districts apart. -/
def Distinct (list : List ι) : Prop := (list.map id).Nodup ∧ ∀ x ∈ list, id x ≠ none

/-- The row is not to be bound again. -/
def UpToDate (v : CityListView ι) (position : ℕ) (row : Row ι) : Prop :=
  v.rows position = some row ∧ v.changed position = false ∧ v.posted = 0

/-- The rows show the list, and the one that is checked is that of the selected district. -/
structure Inv (v : CityListView ι) : Prop where
  distinct : Distinct id v.districtList
  current : ∀ position, v.currentSelectIndex = some position →
    ∃ x, v.districtList[position]? = some x ∧ v.selectDistrict.bind id = id x
  shows : ∀ position row, v.UpToDate position row →
    v.districtList[position]? = some row.district ∧
      (row.isChecked = true ↔ v.selectDistrict.bind id = id row.district) ∧
      (row.isChecked = true → v.lastSelectIndex = some position)

variable {id} {v : CityListView ι} {position : ℕ} {row : Row ι} {x : ι}

theorem Distinct.eq_of_id_eq {list : List ι} (h : Distinct id list) {i j : ℕ} {x y : ι}
    (hi : list[i]? = some x) (hj : list[j]? = some y) (heq : id x = id y) : i = j := by
  have hi' : (list.map id)[i]? = some (id x) := by
    rw [List.getElem?_map, hi, Option.map_some]
  have hj' : (list.map id)[j]? = some (id y) := by
    rw [List.getElem?_map, hj, Option.map_some]
  obtain ⟨hlt, -⟩ := List.getElem?_eq_some_iff.mp hi'
  apply (List.getElem?_inj hlt h.1).mp
  rw [hi', hj', heq]

theorem inv_new : ({} : CityListView ι).Inv id where
  distinct := ⟨List.nodup_nil, by simp⟩
  current _ hcurrent := by cases hcurrent
  shows _ _ hrow := by cases hrow.1

theorem setData_of_ne_nil {list : List ι} (hne : list ≠ []) (select : Option ι) :
    v.setData select list =
      { v with
        lastSelectIndex := none
        currentSelectIndex := none
        selectDistrict := select
        districtList := list
        posted := v.posted + 1 } :=
  if_neg (by simpa using hne)

@[simp] theorem setData_nil (select : Option ι) : v.setData select [] = v := rfl

theorem Inv.setData (h : v.Inv id) (select : Option ι) {list : List ι}
    (hdistinct : Distinct id list) : (v.setData select list).Inv id := by
  by_cases hnil : list = []
  · rw [hnil, setData_nil]
    exact h
  · rw [setData_of_ne_nil hnil]
    constructor
    · exact hdistinct
    · intro position hcurrent
      cases hcurrent
    · rintro position row ⟨-, -, hposted⟩
      cases hposted

theorem Inv.notifyDataSetChanged (h : v.Inv id) : v.notifyDataSetChanged.Inv id := by
  refine ⟨h.distinct, h.current, ?_⟩
  rintro position row ⟨-, hchanged, -⟩
  cases hchanged

theorem Inv.onViewRecycled (h : v.Inv id) (position : ℕ) : (v.onViewRecycled position).Inv id := by
  refine ⟨h.distinct, h.current, ?_⟩
  rintro other row ⟨hrow, hchanged, hposted⟩
  simp only [CityListView.onViewRecycled, Function.update_apply] at hrow
  split at hrow
  · cases hrow
  · exact h.shows other row ⟨hrow, hchanged, hposted⟩

/-- A click on a row that shows the list: the row checked so far is to be bound again. -/
theorem Inv.onClick (h : v.Inv id) (hfresh : v.districtList[position]? = some row.district) :
    (v.onClick position row).Inv id := by
  refine ⟨h.distinct, ?_, ?_⟩
  · intro other hcurrent
    obtain rfl := Option.some.inj hcurrent
    exact ⟨row.district, hfresh, rfl⟩
  · rintro other row' ⟨hrow, hchanged, hposted⟩
    have hsplit : (v.changed other || decide (v.lastSelectIndex = some other) ||
        decide (some position = some other)) = false := hchanged
    rw [Bool.or_eq_false_iff, Bool.or_eq_false_iff, decide_eq_false_iff_not,
      decide_eq_false_iff_not] at hsplit
    obtain ⟨⟨hchanged, hlast⟩, hother⟩ := hsplit
    obtain ⟨hshows, hchecked, hindex⟩ := h.shows other row' ⟨hrow, hchanged, hposted⟩
    refine ⟨hshows, iff_of_false (fun hc ↦ hlast (hindex hc)) fun hid ↦ hother ?_,
      fun hc ↦ absurd (hindex hc) hlast⟩
    exact congrArg some (h.distinct.eq_of_id_eq hfresh hshows hid)

/-- The row that is bound is checked exactly when its district is selected. -/
theorem Inv.bindRow (h : v.Inv id) (hx : v.districtList[position]? = some x) :
    (v.bindRow id position x).Inv id := by
  by_cases hselect : v.selectDistrict.bind id = id x
  · rw [CityListView.bindRow, if_pos hselect]
    refine ⟨h.distinct, ?_, ?_⟩
    · intro other hcurrent
      obtain rfl := Option.some.inj hcurrent
      exact ⟨x, hx, hselect⟩
    · rintro other row ⟨hrow, hchanged, hposted⟩
      dsimp only at hrow hchanged
      by_cases hother : other = position
      · rw [hother, Function.update_self] at hrow
        obtain rfl := Option.some.inj hrow
        rw [hother]
        exact ⟨hx, iff_of_true (by simp) hselect, fun _ ↦ rfl⟩
      · rw [Function.update_of_ne hother] at hrow hchanged
        obtain ⟨hshows, hchecked, hindex⟩ := h.shows other row ⟨hrow, hchanged, hposted⟩
        refine ⟨hshows, hchecked, fun hc ↦ ?_⟩
        exact absurd (h.distinct.eq_of_id_eq hshows hx ((hchecked.mp hc).symm.trans hselect)) hother
  · have hcurrent : v.currentSelectIndex ≠ some position := by
      intro hcurrent
      obtain ⟨y, hy, hid⟩ := h.current position hcurrent
      obtain rfl := Option.some.inj (hx.symm.trans hy)
      exact hselect hid
    rw [CityListView.bindRow, if_neg hselect]
    refine ⟨h.distinct, h.current, ?_⟩
    rintro other row ⟨hrow, hchanged, hposted⟩
    dsimp only at hrow hchanged
    by_cases hother : other = position
    · rw [hother, Function.update_self] at hrow
      obtain rfl := Option.some.inj hrow
      rw [hother]
      refine ⟨hx, iff_of_false (by simpa using hcurrent) hselect, fun hc ↦ ?_⟩
      exact absurd (of_decide_eq_true hc) hcurrent
    · rw [Function.update_of_ne hother] at hrow hchanged
      exact h.shows other row ⟨hrow, hchanged, hposted⟩

/-- No two rows are checked. -/
theorem Inv.eq_of_isChecked (h : v.Inv id) {other : ℕ} {row' : Row ι}
    (hrow : v.UpToDate position row) (hrow' : v.UpToDate other row')
    (hchecked : row.isChecked = true) (hchecked' : row'.isChecked = true) : position = other := by
  obtain ⟨-, -, hindex⟩ := h.shows position row hrow
  obtain ⟨-, -, hindex'⟩ := h.shows other row' hrow'
  exact Option.some.inj ((hindex hchecked).symm.trans (hindex' hchecked'))

/-- The click whose row is still to be bound. -/
def pending (v : CityListView ι) : List ι :=
  if v.currentSelectIndex = v.lastSelectIndex then []
  else (v.currentSelectIndex.bind (v.districtList[·]?)).toList

theorem pending_of_eq (h : v.currentSelectIndex = v.lastSelectIndex) : v.pending = [] := if_pos h

theorem pending_setData (select : Option ι) {list : List ι} (hne : list ≠ []) :
    (v.setData select list).pending = [] := by
  rw [setData_of_ne_nil hne]
  exact pending_of_eq rfl

theorem pending_setData_sublist (select : Option ι) (list : List ι) :
    (v.setData select list).pending.Sublist v.pending := by
  by_cases hnil : list = []
  · rw [hnil, setData_nil]
  · rw [pending_setData select hnil]
    exact List.nil_sublist _

theorem pending_of_isClicked (h : v.isClicked position = true)
    (hx : v.districtList[position]? = some x) : v.pending = [x] := by
  obtain ⟨hcurrent, hne⟩ := of_decide_eq_true h
  rw [pending, if_neg hne, hcurrent, Option.bind_some, hx, Option.toList_some]

theorem pending_onClick_sublist (hfresh : v.districtList[position]? = some row.district) :
    (v.onClick position row).pending.Sublist [row.district] := by
  have hpending : (v.onClick position row).pending =
      if some position = v.lastSelectIndex then [] else [row.district] := by
    change (if some position = v.lastSelectIndex then [] else
      (v.districtList[position]?).toList) = _
    rw [hfresh, Option.toList_some]
  rw [hpending]
  split
  · exact List.nil_sublist _
  · exact List.Sublist.refl _

theorem pending_bindRow_sublist : (v.bindRow id position x).pending.Sublist v.pending := by
  by_cases hselect : v.selectDistrict.bind id = id x
  · rw [bindRow, if_pos hselect, pending_of_eq rfl]
    exact List.nil_sublist _
  · rw [bindRow, if_neg hselect]
    exact List.Sublist.refl _

theorem pending_bindRow_of_eq_nil (h : v.pending = []) :
    (v.bindRow id position x).pending = [] :=
  List.sublist_nil.mp (h ▸ pending_bindRow_sublist)

/-- After the row that was clicked is bound, no click is pending. -/
theorem Inv.pending_bindRow (h : v.Inv id) (hx : v.districtList[position]? = some x)
    (hclicked : v.isClicked position = true) : (v.bindRow id position x).pending = [] := by
  obtain ⟨hcurrent, -⟩ := of_decide_eq_true hclicked
  obtain ⟨y, hy, hid⟩ := h.current position hcurrent
  obtain rfl := Option.some.inj (hx.symm.trans hy)
  rw [CityListView.bindRow, if_pos hid]
  exact pending_of_eq rfl

end CityListView

/-! ## Runs -/

namespace Clicks

open CityListView

variable (id : ι → Option String)

/-- The lists have distinct districts, a click is on a row that shows the list, and who is told
of a choice may set the data anew for the same list only. -/
def Fresh (s : Clicks ι) : Action ι → Prop
  | .setData _ list => Distinct id list
  | .onClick position => ∀ row, s.view.rows position = some row →
      s.view.districtList[position]? = some row.district
  | .onBindViewHolder _ meanwhile => ∀ data, meanwhile = some data →
      data.2 = s.view.districtList
  | .notifyDataSetChanged | .onViewRecycled _ => True

instance (s : Clicks ι) [DecidableEq ι] : ∀ a, Decidable (s.Fresh id a)
  | .setData _ list => inferInstanceAs (Decidable (_ ∧ ∀ x ∈ list, id x ≠ none))
  | .onClick position => inferInstanceAs (Decidable (∀ row ∈ s.view.rows position,
      s.view.districtList[position]? = some row.district))
  | .onBindViewHolder _ meanwhile =>
      inferInstanceAs (Decidable (∀ data ∈ meanwhile, data.2 = s.view.districtList))
  | .notifyDataSetChanged | .onViewRecycled _ => isTrue trivial

/-- Every choice that was told or is pending is one of the clicks, in their order. -/
structure Inv (s : Clicks ι) : Prop where
  view : s.view.Inv id
  told : (s.told ++ s.view.pending).Sublist s.clicked

variable {id} {s s' : Clicks ι} {a : Action ι}

theorem Inv.told_of_sublist (h : s.Inv id) {pending : List ι}
    (hpending : pending.Sublist s.view.pending) : (s.told ++ pending).Sublist s.clicked :=
  (hpending.append_left s.told).trans h.told

theorem Inv.onBindViewHolder (h : s.Inv id) {position : ℕ}
    {meanwhile : Option (Option ι × List ι)} {x : ι}
    (hfresh : ∀ data, meanwhile = some data → data.2 = s.view.districtList)
    (hx : s.view.districtList[position]? = some x) :
    (s.onBindViewHolder id position meanwhile x).Inv id := by
  by_cases hclicked : s.view.isClicked position = true
  · rw [Clicks.onBindViewHolder, if_pos hclicked]
    have htold := h.told
    rw [pending_of_isClicked hclicked hx] at htold
    cases meanwhile with
    | none =>
        refine ⟨h.view.bindRow hx, ?_⟩
        rw [Option.elim_none, h.view.pending_bindRow hx hclicked, List.append_nil]
        exact htold
    | some data =>
        rw [Option.elim_some, hfresh data rfl]
        have hne : s.view.districtList ≠ [] := List.ne_nil_of_mem (List.mem_of_getElem? hx)
        have hlist : (s.view.setData data.1 s.view.districtList).districtList =
            s.view.districtList := by rw [setData_of_ne_nil hne]
        refine ⟨(h.view.setData data.1 h.view.distinct).bindRow (hlist.symm ▸ hx), ?_⟩
        rw [pending_bindRow_of_eq_nil (pending_setData data.1 hne), List.append_nil]
        exact htold
  · rw [Clicks.onBindViewHolder, if_neg hclicked]
    exact ⟨h.view.bindRow hx, h.told_of_sublist pending_bindRow_sublist⟩

theorem Inv.onClick (h : s.Inv id) {position : ℕ} {row : Row ι}
    (hfresh : s.view.districtList[position]? = some row.district) :
    Inv id { s with
      view := s.view.onClick position row
      clicked := s.clicked ++ [row.district] } := by
  refine ⟨h.view.onClick hfresh, List.Sublist.append ?_ (pending_onClick_sublist hfresh)⟩
  exact (List.sublist_append_left _ _).trans h.told

theorem Inv.step (h : s.Inv id) (hfresh : s.Fresh id a) (hstep : s.step id a = some s') :
    s'.Inv id := by
  cases a with
  | setData select list =>
      obtain rfl := Option.some.inj hstep
      exact ⟨h.view.setData select hfresh, h.told_of_sublist (pending_setData_sublist _ _)⟩
  | notifyDataSetChanged =>
      obtain ⟨-, hstep⟩ := Option.ite_none_right_eq_some.mp hstep
      obtain rfl := Option.some.inj hstep
      exact ⟨h.view.notifyDataSetChanged, h.told⟩
  | onClick position =>
      obtain ⟨row, hrow, rfl⟩ := Option.map_eq_some_iff.mp hstep
      exact h.onClick (hfresh row hrow)
  | onBindViewHolder position meanwhile =>
      obtain ⟨x, hx, rfl⟩ := Option.map_eq_some_iff.mp hstep
      exact h.onBindViewHolder hfresh hx
  | onViewRecycled position =>
      obtain rfl := Option.some.inj hstep
      exact ⟨h.view.onViewRecycled position, h.told⟩

/-- In every run of clicks, bindings and new data, in any order, each row that is not to be bound
again shows its district and is checked exactly when that is the selected one, so that one row
at most is checked; and what was told are clicks, each of them once and in their order. -/
theorem rows_of_run {actions : List (Action ι)}
    (hfresh : StepsMeet (Clicks.step id) (Fresh id) {} actions)
    (hrun : run (Clicks.step id) {} actions = some s) :
    (∀ position row, s.view.UpToDate position row →
      s.view.districtList[position]? = some row.district ∧
        (row.isChecked = true ↔ s.view.selectDistrict.bind id = id row.district)) ∧
    (∀ position row other row', s.view.UpToDate position row → s.view.UpToDate other row' →
      row.isChecked = true → row'.isChecked = true → position = other) ∧
    (s.told ++ s.view.pending).Sublist s.clicked := by
  have h : s.Inv id := run_invariant (fun _ _ _ hu hC hstep ↦ hu.step hC hstep)
    ⟨inv_new, List.Sublist.refl _⟩ hfresh hrun
  refine ⟨fun position row hrow ↦ ?_, fun _ _ _ _ hrow hrow' ↦ h.view.eq_of_isChecked hrow hrow',
    h.told⟩
  obtain ⟨hshows, hchecked, -⟩ := h.view.shows position row hrow
  exact ⟨hshows, hchecked⟩

/-- Two rows, of which the second is clicked; its page is given the same list again. -/
def secondRow : List (Action String) :=
  [.setData none ["Haidian", "Chaoyang"], .notifyDataSetChanged, .onBindViewHolder 0 none,
    .onBindViewHolder 1 none, .onClick 1,
    .onBindViewHolder 1 (some (some "Chaoyang", ["Haidian", "Chaoyang"])),
    .notifyDataSetChanged, .onBindViewHolder 0 none, .onBindViewHolder 1 none]

theorem rows_of_run_second :
    ∃ s, run (Clicks.step some) {} secondRow = some s ∧ s.told = ["Chaoyang"] ∧
      s.view.UpToDate 1 ⟨"Chaoyang", true⟩ ∧
      (∀ other row, s.view.UpToDate other row → row.isChecked = true → 1 = other) ∧
      (["Chaoyang"] ++ s.view.pending).Sublist s.clicked := by
  obtain ⟨s, hrun, htold, hrow⟩ : ∃ s, run (Clicks.step some) {} secondRow = some s ∧
      s.told = ["Chaoyang"] ∧ s.view.rows 1 = some ⟨"Chaoyang", true⟩ ∧
      s.view.changed 1 = false ∧ s.view.posted = 0 := exists_run_of_any (by decide)
  obtain ⟨-, hone, hclicks⟩ := rows_of_run (by decide) hrun
  refine ⟨s, hrun, htold, hrow, fun other row hother hchecked ↦ ?_, htold ▸ hclicks⟩
  exact hone 1 _ other row hrow hother rfl hchecked

end Clicks

end HiApp.CitySelector
