import HiApp.Adapter.Notifications

/-!
# The adapter as a list

The calls of an adapter beside the same edits of a plain list.  The adapter takes
index 0 for the end of the list when an item is added and for no index at all when
one is removed.
-/

namespace HiApp.Adapter

open Runs

variable {ι β : Type*}

/-- An adapter and a plain list edited side by side, with what the last call returned
and what the list gives in its place. -/
structure Edited (ι β : Type*) where
  adapter : HiAdapter ι β
  plain : List ι
  returned : Option ι := none
  expected : Option ι := none

namespace Action

/-- The edit of a plain list. -/
def edit [DecidableEq ι] (l : List ι) : Action ι β → List ι
  | .addItemAt index dataItem _ => l.insertIdx index.toNat dataItem
  | .addItems items _ => l ++ items
  | .removeItemAt index => l.eraseIdx index.toNat
  | .removeItem dataItem => l.erase dataItem
  | .clearItems => []
  | .addHeaderView _ | .removeHeaderView _ | .addFooterView _ | .removeFooterView _
  | .refreshItem _ | .getItemViewType _ => l

/-- The item that an edit takes out and returns. -/
def taken (l : List ι) : Action ι β → Option ι
  | .removeItemAt index => l[index.toNat]?
  | .addItemAt _ _ _ | .addItems _ _ | .removeItem _ | .clearItems | .addHeaderView _
  | .removeHeaderView _ | .addFooterView _ | .removeFooterView _ | .refreshItem _
  | .getItemViewType _ => none

/-- The index is one of the list. -/
def Valid (l : List ι) : Action ι β → Prop
  | .addItemAt index _ _ => 0 ≤ index ∧ index ≤ l.length
  | .removeItemAt index => 0 ≤ index ∧ index < l.length
  | .addItems _ _ | .removeItem _ | .clearItems | .addHeaderView _ | .removeHeaderView _
  | .addFooterView _ | .removeFooterView _ | .refreshItem _ | .getItemViewType _ => True

/-- Nothing is removed at position 0, and nothing added there unless all items are that
one. -/
def AvoidsFront (l : List ι) : Action ι β → Prop
  | .addItemAt index dataItem _ => index = 0 → ∀ item ∈ l, item = dataItem
  | .removeItemAt index => index ≠ 0
  | .removeItem dataItem => l.head? ≠ some dataItem
  | .addItems _ _ | .clearItems | .addHeaderView _ | .removeHeaderView _ | .addFooterView _
  | .removeFooterView _ | .refreshItem _ | .getItemViewType _ => True

end Action

namespace HiAdapter

/-- What a call returns of the items. -/
def returned (a : HiAdapter ι β) : Action ι β → Option ι
  | .removeItemAt index => (a.removeItemAt index).2.2
  | .addItemAt _ _ _ | .addItems _ _ | .removeItem _ | .clearItems | .addHeaderView _
  | .removeHeaderView _ | .addFooterView _ | .removeFooterView _ | .refreshItem _
  | .getItemViewType _ => none

end HiAdapter

namespace Edited

variable [DecidableEq ι] [DecidableEq β]

def step (hashCode : ι → ℤ) (s : Edited ι β) (act : Action ι β) : Option (Edited ι β) :=
  some
    { adapter := (s.adapter.perform hashCode act).1
      plain := act.edit s.plain
      returned := s.adapter.returned act
      expected := act.taken s.plain }

/-- The adapter has the items of the list, and the last call returned what it should. -/
def Agrees (s : Edited ι β) : Prop :=
  s.adapter.dataSets = s.plain ∧ s.returned = s.expected

end Edited

/-! ## One call -/

theorem concat_eq_cons_iff {l : List ι} {x : ι} : l ++ [x] = x :: l ↔ ∀ y ∈ l, y = x := by
  induction l with
  | nil => simp
  | cons y l ih =>
      rw [List.cons_append, List.cons.injEq, List.forall_mem_cons]
      constructor
      · rintro ⟨rfl, hl⟩
        exact ⟨rfl, ih.mp hl⟩
      · rintro ⟨rfl, hl⟩
        exact ⟨rfl, ih.mpr hl⟩

namespace HiAdapter

variable {a : HiAdapter ι β}

theorem addItemAt_agrees_iff {index : ℤ} (hindex : 0 ≤ index ∧ index ≤ a.dataSets.length)
    (dataItem : ι) (notify : Bool) :
    ((a.addItemAt index dataItem notify).toOption.getD (a, [])).1.dataSets =
        a.dataSets.insertIdx index.toNat dataItem ↔
      (index = 0 → ∀ item ∈ a.dataSets, item = dataItem) := by
  rw [addItemAt, if_neg (by omega)]
  by_cases hpos : index > 0
  · simp only [if_pos hpos]
    exact iff_of_true rfl (by omega)
  · obtain rfl : index = 0 := by omega
    simpa [Except.toOption] using concat_eq_cons_iff

theorem removeItemAt_agrees_iff {index : ℤ}
    (hindex : 0 ≤ index ∧ index < a.dataSets.length) :
    (a.removeItemAt index).1.dataSets = a.dataSets.eraseIdx index.toNat ∧
        (a.removeItemAt index).2.2 = a.dataSets[index.toNat]? ↔ index ≠ 0 := by
  rw [removeItemAt]
  split
  · rename_i h
    exact iff_of_true ⟨rfl, rfl⟩ (by omega)
  · obtain rfl : index = 0 := by omega
    have hlt : 0 < a.dataSets.length := by omega
    simp [List.getElem?_eq_getElem hlt]

theorem removeItem_agrees_iff [DecidableEq ι] (dataItem : ι) :
    (a.removeItem dataItem).1.dataSets = a.dataSets.erase dataItem ↔
      a.dataSets.head? ≠ some dataItem := by
  have hidx : a.dataSets.idxOf? dataItem = a.dataSets.findIdx? (· = dataItem) := rfl
  rw [List.erase_eq_eraseIdx, hidx, removeItem, indexOf]
  cases hfind : a.dataSets.findIdx? (· = dataItem) with
  | none =>
      refine iff_of_true rfl ?_
      intro hhead
      have hmem := List.findIdx?_eq_none_iff.mp hfind dataItem (List.mem_of_head? hhead)
      simp at hmem
  | some index =>
      obtain ⟨hlt, hitem, hbefore⟩ := List.findIdx?_eq_some_iff_getElem.mp hfind
      by_cases hzero : index = 0
      · subst hzero
        refine iff_of_false ?_ ?_
        · intro heq
          have hlength := congrArg List.length heq
          simp [removeItemAt] at hlength
          omega
        · simpa [List.head?_eq_getElem?, List.getElem?_eq_getElem hlt] using hitem
      · have hindex : 0 ≤ (index : ℤ) ∧ (index : ℤ) < a.dataSets.length := by omega
        have hagrees := (removeItemAt_agrees_iff hindex).mpr (by omega)
        refine iff_of_true hagrees.1 ?_
        intro hhead
        obtain ⟨_, hfirst⟩ := List.getElem?_eq_some_iff.mp (List.head?_eq_getElem? ▸ hhead)
        exact hbefore 0 (by omega) (by simpa using hfirst)

/-- A call that agrees with the list does not depend on the front. -/
theorem perform_agrees_iff [DecidableEq ι] [DecidableEq β] (hashCode : ι → ℤ)
    {act : Action ι β} (hvalid : act.Valid a.dataSets) :
    (a.perform hashCode act).1.dataSets = act.edit a.dataSets ∧
        a.returned act = act.taken a.dataSets ↔ act.AvoidsFront a.dataSets := by
  cases act with
  | addItemAt index dataItem notify =>
      exact (and_iff_left rfl).trans (addItemAt_agrees_iff hvalid dataItem notify)
  | removeItemAt index => exact removeItemAt_agrees_iff hvalid
  | removeItem dataItem => exact (and_iff_left rfl).trans (removeItem_agrees_iff dataItem)
  | addItems items notify => exact iff_of_true ⟨rfl, rfl⟩ trivial
  | clearItems => exact iff_of_true ⟨rfl, rfl⟩ trivial
  | refreshItem dataItem => exact iff_of_true ⟨rfl, rfl⟩ trivial
  | addHeaderView view =>
      refine iff_of_true ⟨?_, rfl⟩ trivial
      simp only [perform, addHeaderView, Action.edit]
      split <;> rfl
  | removeHeaderView view =>
      refine iff_of_true ⟨?_, rfl⟩ trivial
      simp only [perform, removeHeaderView, Action.edit]
      split <;> rfl
  | addFooterView view =>
      refine iff_of_true ⟨?_, rfl⟩ trivial
      simp only [perform, addFooterView, Action.edit]
      split <;> rfl
  | removeFooterView view =>
      refine iff_of_true ⟨?_, rfl⟩ trivial
      simp only [perform, removeFooterView, Action.edit]
      split <;> rfl
  | getItemViewType position =>
      refine iff_of_true ⟨?_, rfl⟩ trivial
      simp only [perform, Action.edit]
      cases h : a.getItemViewType hashCode position with
      | error e => rfl
      | ok r => exact (getItemViewType_frame h).1

end HiAdapter

/-! ## Runs -/

/-- From any content on, the adapter agrees with the list after every call if and only
if no call edits the front. -/
theorem agrees_iff_avoidsFront [DecidableEq ι] [DecidableEq β] (hashCode : ι → ℤ)
    (a : HiAdapter ι β) {as : List (Action ι β)}
    (hvalid : StepsMeet (Edited.step hashCode) (fun s act ↦ act.Valid s.plain)
      ⟨a, a.dataSets, none, none⟩ as) :
    StatesMeet (Edited.step hashCode) Edited.Agrees ⟨a, a.dataSets, none, none⟩ as ↔
      StepsMeet (Edited.step hashCode) (fun s act ↦ act.AvoidsFront s.plain)
        ⟨a, a.dataSets, none, none⟩ as := by
  have htotal : ∀ (s : Edited ι β) act, ∃ s', s.step hashCode act = some s' :=
    fun _ _ ↦ ⟨_, rfl⟩
  obtain ⟨s, hrun⟩ := exists_run_of_total htotal ⟨a, a.dataSets, none, none⟩ as
  refine statesMeet_iff_stepsMeet (I := fun _ ↦ True) (fun _ _ _ _ _ _ _ _ ↦ trivial) ?_
    trivial ⟨rfl, rfl⟩ hvalid hrun
  intro u act v _ hu hact hstep
  obtain rfl := Option.some.inj hstep
  rw [← hu.1] at hact ⊢
  exact HiAdapter.perform_agrees_iff hashCode hact

/-- Edits of the first item. -/
def frontRun : List (Action (Fin 3) (Fin 1)) :=
  [.addItems [0, 1] false, .removeItemAt 0, .removeItem 0, .addItemAt 0 2 true]

/-- The first item is not removed, and an item added in front of it comes last. -/
theorem front_edits_disagree :
    ∃ s : Edited (Fin 3) (Fin 1),
      run (Edited.step fun _ ↦ 7) ⟨{}, [], none, none⟩ frontRun = some s ∧
      s.adapter.dataSets = [0, 1, 2] ∧ s.plain = [2, 1] ∧ ¬ s.Agrees := by
  refine ⟨_, rfl, by decide, by decide, ?_⟩
  unfold Edited.Agrees
  decide

/-- Edits behind the first item. -/
def innerRun : List (Action (Fin 3) (Fin 1)) :=
  [.addItems [0, 1] false, .addItemAt 1 2 true, .removeItemAt 2, .removeItem 2]

theorem agrees_iff_avoidsFront_inner :
    StatesMeet (Edited.step fun _ ↦ 7) Edited.Agrees ⟨{}, [], none, none⟩ innerRun := by
  have hvalid : StepsMeet (Edited.step fun _ ↦ 7) (fun s act ↦ act.Valid s.plain)
      ⟨({} : HiAdapter (Fin 3) (Fin 1)), [], none, none⟩ innerRun := by
    simp [innerRun, stepsMeet_cons, Edited.step, Action.Valid, Action.edit, stepsMeet_nil]
  refine (agrees_iff_avoidsFront (fun _ ↦ 7) {} hvalid).mpr ?_
  simp [innerRun, stepsMeet_cons, Edited.step, Action.AvoidsFront, Action.edit, stepsMeet_nil]

end HiApp.Adapter
