import HiApp.Adapter.HiAdapter
import Mathlib.Data.Int.Basic

/-!
# Positions of the adapter

The functions that split a position into header, item and footer allow for headers
and footers; `getItemCount` does not, and `onBindViewHolder` casts its holder to a
type without values.
-/

namespace HiApp.Adapter

open Runs

variable {ι β : Type*}

namespace Element

def isHeader : Element ι β → Bool
  | .header _ => true
  | _ => false

def isFooter : Element ι β → Bool
  | .footer _ => true
  | _ => false

def dataItem? : Element ι β → Option ι
  | .item dataItem => some dataItem
  | _ => none

end Element

namespace HiAdapter

/-- The view types of what is displayed. -/
def viewTypes (hashCode : ι → ℤ) (a : HiAdapter ι β) : List ℤ :=
  a.headers.keys ++ a.dataSets.map hashCode ++ a.footers.keys

/-- The positions are those of the headers, the items and the footers in this order,
and are treated as such. -/
structure Mapped (hashCode : ι → ℤ) (a : HiAdapter ι β) : Prop where
  count : a.getItemCount = a.getHeaderSize + a.getOriginalItemSize + a.getFooterSize
  kind : ∀ position : ℕ, position < a.getItemCount → ∃ e, a.displayed[position]? = some e ∧
    a.isHeaderPosition position = e.isHeader ∧ a.isFooterPosition position = e.isFooter
  viewType : ∀ position : ℕ, position < a.getItemCount →
    ∃ type a', (a.viewTypes hashCode)[position]? = some type ∧
      a.getItemViewType hashCode position = .ok (a', type)

/-- The element at each position can be bound to its data. -/
def Bound (a : HiAdapter ι β) : Prop :=
  ∀ position : ℕ, position < a.getItemCount →
    ∃ e call, a.displayed[position]? = some e ∧ a.onBindViewHolder position = .ok call ∧
      call.map Prod.fst = e.dataItem?

end HiAdapter

namespace Action

/-- The call is not about a new header or footer. -/
def AddsNoView : Action ι β → Prop
  | .addHeaderView _ | .addFooterView _ => False
  | _ => True

/-- The call adds nothing to an empty adapter. -/
def AddsNothing : Action ι β → Prop
  | .addHeaderView _ | .addFooterView _ => False
  | .addItemAt index _ _ => 0 < index
  | .addItems items _ => items = []
  | _ => True

end Action

@[simp] theorem elementAt_natCast {α : Type*} (l : List α) (n : ℕ) :
    elementAt l n = (l[n]?).elim (.error .indexOutOfBounds) .ok := rfl

namespace HiAdapter

variable {hashCode : ι → ℤ} {a : HiAdapter ι β}

/-- Items only. -/
def Plain (a : HiAdapter ι β) : Prop := a.headers.size = 0 ∧ a.footers.size = 0

theorem Plain.frame (h : a.Plain) {a' : HiAdapter ι β}
    (hframe : a'.headers = a.headers ∧ a'.footers = a.footers) : a'.Plain := by
  unfold Plain
  rw [hframe.1, hframe.2]
  exact h

theorem Plain.displayed (h : a.Plain) : a.displayed = a.dataSets.map .item := by
  have hheaders : a.headers.values = [] :=
    List.eq_nil_of_length_eq_zero (SparseArray.length_values.trans h.1)
  have hfooters : a.footers.values = [] :=
    List.eq_nil_of_length_eq_zero (SparseArray.length_values.trans h.2)
  simp [HiAdapter.displayed, hheaders, hfooters]

theorem Plain.viewTypes (h : a.Plain) : a.viewTypes hashCode = a.dataSets.map hashCode := by
  have hheaders : a.headers.keys = [] :=
    List.eq_nil_of_length_eq_zero (SparseArray.length_keys.trans h.1)
  have hfooters : a.footers.keys = [] :=
    List.eq_nil_of_length_eq_zero (SparseArray.length_keys.trans h.2)
  simp [HiAdapter.viewTypes, hheaders, hfooters]

theorem Plain.isHeaderPosition (h : a.Plain) (position : ℕ) :
    a.isHeaderPosition position = false := by
  simp [HiAdapter.isHeaderPosition, h.1]

theorem Plain.isFooterPosition (h : a.Plain) {position : ℕ}
    (hlt : position < a.dataSets.length) : a.isFooterPosition position = false := by
  simp [HiAdapter.isFooterPosition, getHeaderSize, getOriginalItemSize, h.1, hlt]

theorem Plain.elementAt (h : a.Plain) {position : ℕ} (hlt : position < a.dataSets.length) :
    elementAt a.dataSets (position - a.getHeaderSize) = .ok a.dataSets[position] := by
  have hposition : (position : ℤ) - a.getHeaderSize = position := by
    rw [getHeaderSize, h.1]
    omega
  rw [hposition, elementAt_natCast, List.getElem?_eq_getElem hlt]
  rfl

/-- The count is right only without headers and footers, and then all the rest is. -/
theorem mapped_iff_plain : Mapped hashCode a ↔ a.Plain := by
  constructor
  · intro h
    have hcount := h.count
    simp only [getItemCount, getHeaderSize, getOriginalItemSize, getFooterSize] at hcount
    exact ⟨by omega, by omega⟩
  · intro h
    refine ⟨?_, fun position hlt ↦ ?_, fun position hlt ↦ ?_⟩
    · simp [getItemCount, getHeaderSize, getOriginalItemSize, getFooterSize, h.1, h.2]
    · have hget : a.dataSets[position]? = some a.dataSets[position] :=
        List.getElem?_eq_getElem hlt
      refine ⟨.item a.dataSets[position], by simp [h.displayed, hget], ?_⟩
      exact ⟨h.isHeaderPosition position, h.isFooterPosition hlt⟩
    · have hget : a.dataSets[position]? = some a.dataSets[position] :=
        List.getElem?_eq_getElem hlt
      refine ⟨hashCode a.dataSets[position], ?_⟩
      unfold getItemViewType
      rw [h.isHeaderPosition, h.isFooterPosition hlt, h.elementAt hlt]
      exact ⟨_, by simp [h.viewTypes, hget], rfl⟩

/-- No item can be bound. -/
theorem Plain.bound_iff (h : a.Plain) : a.Bound ↔ a.dataSets = [] := by
  constructor
  · intro hbound
    by_contra hne
    have hlt : 0 < a.dataSets.length := List.length_pos_iff.mpr hne
    obtain ⟨e, call, -, hcall, -⟩ := hbound 0 hlt
    unfold onBindViewHolder at hcall
    rw [h.isHeaderPosition, h.isFooterPosition hlt] at hcall
    simp only [Bool.or_self, Bool.false_eq_true, if_false, h.elementAt hlt] at hcall
    cases hcall
  · intro hnil position hlt
    simp [getItemCount, hnil] at hlt

section

variable [DecidableEq ι] [DecidableEq β] {act : Action ι β}

omit [DecidableEq ι] [DecidableEq β] in
theorem removeItemAt_frame (index : ℤ) :
    (a.removeItemAt index).1.headers = a.headers ∧
      (a.removeItemAt index).1.footers = a.footers := by
  unfold removeItemAt
  split <;> exact ⟨rfl, rfl⟩

/-- Calls about items leave the headers and the footers alone. -/
theorem perform_frame (hremoves : ∀ view, act ≠ .removeHeaderView view ∧
    act ≠ .removeFooterView view) (hadds : act.AddsNoView) :
    (a.perform hashCode act).1.headers = a.headers ∧
      (a.perform hashCode act).1.footers = a.footers := by
  cases act with
  | addHeaderView | addFooterView => exact hadds.elim
  | removeHeaderView view => exact absurd rfl (hremoves view).1
  | removeFooterView view => exact absurd rfl (hremoves view).2
  | addItemAt index dataItem notify =>
      simp only [perform, addItemAt]
      split <;> exact ⟨rfl, rfl⟩
  | removeItemAt index => exact removeItemAt_frame index
  | removeItem dataItem => exact removeItemAt_frame _
  | addItems | refreshItem | clearItems => exact ⟨rfl, rfl⟩
  | getItemViewType position =>
      simp only [perform]
      cases htype : a.getItemViewType hashCode position with
      | error e => exact ⟨rfl, rfl⟩
      | ok r => exact (getItemViewType_frame htype).2

/-- Only a new header or footer ends the plain list. -/
theorem Plain.perform_iff (h : a.Plain) (hashCode : ι → ℤ) (act : Action ι β) :
    (a.perform hashCode act).1.Plain ↔ act.AddsNoView := by
  have hheaders : a.headers.entries = [] := List.eq_nil_of_length_eq_zero h.1
  have hfooters : a.footers.entries = [] := List.eq_nil_of_length_eq_zero h.2
  cases act with
  | addHeaderView view =>
      refine iff_of_false (fun hplain ↦ ?_) id
      have hsize := hplain.1
      simp [perform, addHeaderView, SparseArray.indexOfValue, SparseArray.values,
        SparseArray.size, SparseArray.put, SparseArray.putEntry, hheaders] at hsize
  | addFooterView view =>
      refine iff_of_false (fun hplain ↦ ?_) id
      have hsize := hplain.2
      simp [perform, addFooterView, SparseArray.indexOfValue, SparseArray.values,
        SparseArray.size, SparseArray.put, SparseArray.putEntry, hfooters] at hsize
  | removeHeaderView view =>
      refine iff_of_true ?_ trivial
      simpa [perform, removeHeaderView, SparseArray.indexOfValue, SparseArray.values,
        hheaders] using h
  | removeFooterView view =>
      refine iff_of_true ?_ trivial
      simpa [perform, removeFooterView, SparseArray.indexOfValue, SparseArray.values,
        hfooters] using h
  | addItemAt | addItems | removeItemAt | removeItem | refreshItem | clearItems
  | getItemViewType =>
      exact iff_of_true (h.frame (perform_frame (by simp) trivial)) trivial

omit [DecidableEq ι] [DecidableEq β] in
theorem removeItemAt_of_dataSets_eq_nil (hnil : a.dataSets = []) (index : ℤ) :
    (a.removeItemAt index).1.dataSets = [] := by
  unfold removeItemAt
  split
  · simp [hnil]
  · exact hnil

/-- On an empty adapter only new items make items. -/
theorem dataSets_perform_iff (hnil : a.dataSets = [])
    (hadds : act.AddsNoView) :
    (a.perform hashCode act).1.dataSets = [] ↔ act.AddsNothing := by
  cases act with
  | addHeaderView | addFooterView => exact hadds.elim
  | removeHeaderView view =>
      simp only [perform, removeHeaderView]
      split <;> exact iff_of_true hnil trivial
  | removeFooterView view =>
      simp only [perform, removeFooterView]
      split <;> exact iff_of_true hnil trivial
  | addItemAt index dataItem notify =>
      simp only [perform, addItemAt, hnil, List.length_nil, Action.AddsNothing]
      by_cases hindex : 0 < index
      · simp [hindex, Except.toOption, hnil]
      · simp [hindex, Except.toOption]
  | addItems items notify => simp [perform, addItems, hnil, Action.AddsNothing]
  | removeItemAt index => exact iff_of_true (removeItemAt_of_dataSets_eq_nil hnil _) trivial
  | removeItem dataItem => exact iff_of_true (removeItemAt_of_dataSets_eq_nil hnil _) trivial
  | refreshItem dataItem => simp [perform, refreshItem, hnil, Action.AddsNothing]
  | clearItems => simp [perform, clearItems, Action.AddsNothing]
  | getItemViewType position =>
      refine iff_of_true ?_ trivial
      simp only [perform]
      cases htype : a.getItemViewType hashCode position with
      | error e => exact hnil
      | ok r => exact (getItemViewType_frame htype).1.trans hnil

end

end HiAdapter

/-- In every run the count and the view types follow the displayed list if and only if
no header and no footer is ever added, and the elements can also be bound if and only
if nothing at all is. -/
theorem mapped_iff_nothingAdded [DecidableEq ι] [DecidableEq β] (hashCode : ι → ℤ)
    (as : List (Action ι β)) :
    (StatesMeet (HiAdapter.step hashCode) (HiAdapter.Mapped hashCode) {} as ↔
      ∀ act ∈ as, act.AddsNoView) ∧
    (StatesMeet (HiAdapter.step hashCode) (fun a ↦ a.Mapped hashCode ∧ a.Bound) {} as ↔
      ∀ act ∈ as, act.AddsNothing) := by
  have htotal : ∀ (a : HiAdapter ι β) act, ∃ a', a.step hashCode act = some a' :=
    fun _ _ ↦ ⟨_, rfl⟩
  obtain ⟨a, hrun⟩ := exists_run_of_total htotal {} as
  have hforall : ∀ C : Action ι β → Prop,
      StepsMeet (HiAdapter.step hashCode) (fun _ ↦ C) {} as ↔ ∀ act ∈ as, C act :=
    fun C ↦ ⟨forall_mem_of_stepsMeet hrun, stepsMeet_of_forall_mem⟩
  have hplain : HiAdapter.Plain ({} : HiAdapter ι β) := ⟨rfl, rfl⟩
  constructor
  · rw [← hforall]
    refine statesMeet_iff_stepsMeet (I := fun _ ↦ True) (D := fun _ _ ↦ True)
      (fun _ _ _ _ _ _ _ _ ↦ trivial) ?_ trivial
      (HiAdapter.mapped_iff_plain.mpr hplain) stepsMeet_true hrun
    intro u act v _ hu _ hstep
    obtain rfl := Option.some.inj hstep
    rw [HiAdapter.mapped_iff_plain] at hu ⊢
    exact hu.perform_iff hashCode act
  · rw [← hforall]
    refine statesMeet_iff_stepsMeet (I := fun _ ↦ True) (D := fun _ _ ↦ True)
      (fun _ _ _ _ _ _ _ _ ↦ trivial) ?_ trivial
      ⟨HiAdapter.mapped_iff_plain.mpr hplain, hplain.bound_iff.mpr rfl⟩ stepsMeet_true hrun
    intro u act v _ hu _ hstep
    obtain rfl := Option.some.inj hstep
    obtain ⟨hmapped, hbound⟩ := hu
    have hu := HiAdapter.mapped_iff_plain.mp hmapped
    have hnil := hu.bound_iff.mp hbound
    rw [HiAdapter.mapped_iff_plain, hu.perform_iff hashCode act]
    constructor
    · rintro ⟨hadds, hbound'⟩
      rw [((hu.perform_iff hashCode act).mpr hadds).bound_iff] at hbound'
      exact (HiAdapter.dataSets_perform_iff hnil hadds).mp hbound'
    · intro hadds
      have hviews : act.AddsNoView := by
        cases act <;> first | exact hadds | trivial
      refine ⟨hviews, ((hu.perform_iff hashCode act).mpr hviews).bound_iff.mpr ?_⟩
      exact (HiAdapter.dataSets_perform_iff hnil hviews).mpr hadds

/-- A header and an item make two elements, and the count is 1; the item fails to be
bound. -/
theorem header_not_counted :
    ∃ a : HiAdapter (Fin 1) (Fin 1),
      run (HiAdapter.step fun _ ↦ 7) {} [.addHeaderView 0, .addItems [0] true] = some a ∧
      a.displayed = [.header 0, .item 0] ∧ a.getItemCount = 1 ∧
      ¬ HiAdapter.Mapped (fun _ ↦ 7) a ∧
      a.onBindViewHolder 1 = .error .classCast := by
  refine ⟨_, rfl, by decide, by decide, ?_, by decide⟩
  intro hmapped
  have hcount := hmapped.count
  revert hcount
  decide

end HiApp.Adapter
