import HiApp.Adapter.PositionMap

/-!
# Creating view holders

A view holder is created for a view type that was asked for before.  The first item
of a type is meant to be recorded at that moment, but the test for it is passed only
by a type that is recorded already, and not even by the first of these.
-/

namespace HiApp.Adapter

open Runs

variable {ι β κ : Type*}

/-- What the items are asked for, and the inflater of the layouts. -/
structure DataItems (ι β κ : Type*) where
  javaClass : ι → κ
  hashCode : κ → ℤ
  name : κ → String
  getItemView : ι → Option β
  getItemLayoutRes : ι → ℤ
  inflate : ℤ → β

namespace DataItems

def viewType (V : DataItems ι β κ) (dataItem : ι) : ℤ := V.hashCode (V.javaClass dataItem)

end DataItems

inductive CreateError where
  | nullPointer
  | runtime (message : String)
  deriving DecidableEq

/-- A holder of a view; for an item it is made for the item's class. -/
structure ViewHolder (β κ : Type*) where
  javaClass : Option κ
  itemView : β

/-- What a view type stands for when a holder is created. -/
inductive Found (ι β : Type*) where
  | view (view : β)
  | dataItem (dataItem : ι)
  | null

namespace HiAdapter

/-- The view or the item under a view type: headers come first, then footers, and what
is left is taken for the type of an item. -/
def find (a : HiAdapter ι β) (viewType : ℤ) : Found ι β :=
  if a.headers.indexOfKey viewType ≥ 0 then (a.headers.get viewType).elim .null .view
  else if a.footers.indexOfKey viewType ≥ 0 then (a.footers.get viewType).elim .null .view
  else (a.typeArrays.get viewType).elim .null .dataItem

def onCreateViewHolder (V : DataItems ι β κ) (a : HiAdapter ι β) (viewType : ℤ) :
    Except CreateError (ViewHolder β κ) :=
  match a.find viewType with
  | .view view => .ok ⟨none, view⟩
  | .null => .error .nullPointer
  | .dataItem dataItem =>
      match V.getItemView dataItem with
      | some view => .ok ⟨some (V.javaClass dataItem), view⟩
      | none =>
          if V.getItemLayoutRes dataItem < 0 then
            .error (.runtime ("dataItem: " ++ V.name (V.javaClass dataItem) ++
              " must override getItemView or getItemLayoutRes"))
          else .ok ⟨some (V.javaClass dataItem), V.inflate (V.getItemLayoutRes dataItem)⟩

/-- The type leads to an item of the same class. -/
def ResolvesTo (V : DataItems ι β κ) (a : HiAdapter ι β) (viewType : ℤ) (dataItem : ι) :
    Prop :=
  ∃ found, a.find viewType = .dataItem found ∧ V.javaClass found = V.javaClass dataItem

variable {a : HiAdapter ι β}

theorem getItemViewType_of_item (hashCode : ι → ℤ) {index : ℕ} {dataItem : ι}
    (hitem : a.dataSets[index]? = some dataItem) :
    ∃ a', a.getItemViewType hashCode (a.getHeaderSize + index) = .ok (a', hashCode dataItem) := by
  obtain ⟨hlt, -⟩ := List.getElem?_eq_some_iff.mp hitem
  have hheader : a.isHeaderPosition (a.getHeaderSize + index) = false := by
    rw [isHeaderPosition, getHeaderSize, decide_eq_false_iff_not]
    omega
  have hfooter : a.isFooterPosition (a.getHeaderSize + index) = false := by
    simp [isFooterPosition, getOriginalItemSize, hlt]
  have hposition : (a.getHeaderSize + index : ℤ) - a.getHeaderSize = index := by omega
  simp [getItemViewType, hheader, hfooter, hposition, hitem, Except.map]

/-! ## The table of types -/

theorem getItemViewType_typeArrays {hashCode : ι → ℤ} {a' : HiAdapter ι β}
    {position type : ℤ} (hempty : a.typeArrays = SparseArray.empty)
    (h : a.getItemViewType hashCode position = .ok (a', type)) :
    a'.typeArrays = SparseArray.empty := by
  have habsent : ∀ key, ¬ a.typeArrays.indexOfKey key > 0 := by
    simp [hempty, SparseArray.indexOfKey, SparseArray.keys, SparseArray.empty]
  unfold getItemViewType at h
  split at h
  · obtain ⟨_, heq⟩ := exists_of_map_eq_ok h
    rw [← (Prod.mk.inj heq).1, hempty]
  · split at h
    · obtain ⟨_, heq⟩ := exists_of_map_eq_ok h
      rw [← (Prod.mk.inj heq).1, hempty]
    · obtain ⟨dataItem, heq⟩ := exists_of_map_eq_ok h
      rw [← (Prod.mk.inj heq).1]
      exact (if_neg (habsent _)).trans hempty

section

variable [DecidableEq ι] [DecidableEq β]

/-- No call puts anything into the empty table. -/
theorem perform_typeArrays (hashCode : ι → ℤ) (hempty : a.typeArrays = SparseArray.empty)
    (act : Action ι β) : (a.perform hashCode act).1.typeArrays = SparseArray.empty := by
  cases act with
  | addHeaderView view =>
      simp only [perform, addHeaderView]
      split <;> exact hempty
  | removeHeaderView view =>
      simp only [perform, removeHeaderView]
      split <;> exact hempty
  | addFooterView view =>
      simp only [perform, addFooterView]
      split <;> exact hempty
  | removeFooterView view =>
      simp only [perform, removeFooterView]
      split <;> exact hempty
  | addItemAt index dataItem notify =>
      simp only [perform, addItemAt]
      split <;> exact hempty
  | removeItemAt index =>
      simp only [perform, removeItemAt]
      split <;> exact hempty
  | removeItem dataItem =>
      simp only [perform, removeItem, removeItemAt]
      split <;> exact hempty
  | addItems items notify => exact hempty
  | refreshItem dataItem => exact hempty
  | clearItems => exact hempty
  | getItemViewType position =>
      simp only [perform]
      cases htype : a.getItemViewType hashCode position with
      | error e => exact hempty
      | ok r => exact getItemViewType_typeArrays hempty htype

theorem run_typeArrays {hashCode : ι → ℤ} {as : List (Action ι β)} {b : HiAdapter ι β}
    (hempty : a.typeArrays = SparseArray.empty) (hrun : run (step hashCode) a as = some b) :
    b.typeArrays = SparseArray.empty := by
  refine run_invariant' (I := fun a : HiAdapter ι β ↦ a.typeArrays = SparseArray.empty) ?_
    hempty hrun
  intro u act v hu hstep
  rw [← Option.some.inj hstep]
  exact perform_typeArrays hashCode hu act

end

theorem find_ne_dataItem (hempty : a.typeArrays = SparseArray.empty) (viewType : ℤ)
    (dataItem : ι) : a.find viewType ≠ .dataItem dataItem := by
  have hnone : a.typeArrays.get viewType = none := by rw [hempty]; rfl
  unfold find
  split
  · cases a.headers.get viewType <;> simp
  · split
    · cases a.footers.get viewType <;> simp
    · simp [hnone]

end HiAdapter

/-- After any calls an item's type can be asked for, and whatever is called then, no
item is found under it: a holder is made for a header or a footer, or none is. -/
theorem viewType_never_resolves [DecidableEq ι] [DecidableEq β] (V : DataItems ι β κ)
    {as : List (Action ι β)} {a : HiAdapter ι β}
    (hrun : run (HiAdapter.step V.viewType) {} as = some a) {index : ℕ} {dataItem : ι}
    (hitem : a.dataSets[index]? = some dataItem) :
    ∃ a', a.getItemViewType V.viewType (a.getHeaderSize + index) =
        .ok (a', V.viewType dataItem) ∧
      ∀ bs b, run (HiAdapter.step V.viewType) a' bs = some b →
        ¬ b.ResolvesTo V (V.viewType dataItem) dataItem ∧
        (b.onCreateViewHolder V (V.viewType dataItem) = .error .nullPointer ∨
          ∃ view, b.find (V.viewType dataItem) = .view view) := by
  have hempty : a.typeArrays = SparseArray.empty := HiAdapter.run_typeArrays rfl hrun
  obtain ⟨a', htype⟩ := HiAdapter.getItemViewType_of_item V.viewType hitem
  refine ⟨a', htype, ?_⟩
  intro bs b hlater
  have hempty' : b.typeArrays = SparseArray.empty :=
    HiAdapter.run_typeArrays (HiAdapter.getItemViewType_typeArrays hempty htype) hlater
  have hfind := HiAdapter.find_ne_dataItem hempty' (V.viewType dataItem)
  refine ⟨?_, ?_⟩
  · rintro ⟨found, h, -⟩
    exact hfind found h
  · rw [HiAdapter.onCreateViewHolder]
    cases h : b.find (V.viewType dataItem) with
    | view view => exact .inr ⟨view, rfl⟩
    | dataItem found => exact absurd h (hfind found)
    | null => exact .inl rfl

/-- Items that are of one class each and give their own views. -/
def viewItems : DataItems (Fin 2) (Fin 2) (Fin 2) where
  javaClass := id
  hashCode c := 70 + c
  name _ := "Item"
  getItemView := some
  getItemLayoutRes _ := -1
  inflate _ := 0

theorem viewType_never_resolves_item :
    ∃ a', HiAdapter.getItemViewType viewItems.viewType
        ({ dataSets := [0, 1] } : HiAdapter (Fin 2) (Fin 2)) 1 = .ok (a', 71) ∧
      ¬ a'.ResolvesTo viewItems 71 1 := by
  have hrun : run (HiAdapter.step viewItems.viewType) ({} : HiAdapter (Fin 2) (Fin 2))
      [.addItems [0, 1] true] = some { dataSets := [0, 1] } := rfl
  have hitem : ([0, 1] : List (Fin 2))[1]? = some 1 := rfl
  obtain ⟨a', htype, hnever⟩ := viewType_never_resolves viewItems hrun hitem
  exact ⟨a', htype, (hnever [] a' rfl).1⟩

/-- The holder for the only item, whose type was asked for just before. -/
theorem exists_null_viewHolder :
    ∃ a a' : HiAdapter (Fin 2) (Fin 2), run (HiAdapter.step viewItems.viewType) {}
        [.addItems [0] true] = some a ∧
      a.getItemViewType viewItems.viewType 0 = .ok (a', 70) ∧
      a'.onCreateViewHolder viewItems 70 = .error .nullPointer ∧
      ¬ a'.ResolvesTo viewItems 70 0 := by
  refine ⟨_, _, rfl, rfl, rfl, ?_⟩
  rintro ⟨found, h, -⟩
  cases h

end HiApp.Adapter
