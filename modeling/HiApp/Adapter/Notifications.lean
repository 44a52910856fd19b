import HiApp.Adapter.HiAdapter

/-!
# What the adapter tells the list view

An observer holds its own copy of the displayed list and edits it at the positions
it is notified of.  Positions of items are notified as positions among the items,
so with headers the copy is edited too far in front.
-/

namespace HiApp.Adapter

open Runs

variable {ι β : Type*}

/-- New elements are read from the adapter's list at the positions they are to have. -/
def insertRange {α : Type*} (new shown : List α) (start itemCount : ℕ) : List α :=
  shown.take start ++ (new.drop start).take itemCount ++ shown.drop start

def Notification.apply {α : Type*} (new shown : List α) : Notification → List α
  | .itemInserted position => insertRange new shown position.toNat 1
  | .itemRangeInserted start itemCount => insertRange new shown start itemCount
  | .itemRemoved position => shown.eraseIdx position.toNat
  | .itemChanged position =>
      if position < 0 then shown
      else (new[position.toNat]?).elim shown (shown.set position.toNat)
  | .dataSetChanged => new

/-- The adapter, and the copy that follows its notifications. -/
structure Screen (ι β : Type*) where
  adapter : HiAdapter ι β
  shown : List (Element ι β)

def Action.Notifies : Action ι β → Prop
  | .addItemAt _ _ notify | .addItems _ notify => notify = true
  | _ => True

namespace HiAdapter

/-- Where a new item with an index goes. -/
def insertPosition (a : HiAdapter ι β) (index : ℤ) : ℕ :=
  if index > 0 then index.toNat else a.dataSets.length

/-- What is displayed from the position of an item among the items up to its
position in the list. -/
def between (a : HiAdapter ι β) (position : ℕ) : List (Element ι β) :=
  (a.displayed.drop position).take a.getHeaderSize

/-- What a call must find in the adapter for its notification to be right. -/
def Announces [DecidableEq ι] (a : HiAdapter ι β) : Action ι β → Prop
  | .addHeaderView view =>
      view ∈ a.headers.values ∨ ∀ key ∈ a.headers.keys, key < a.baseItemTypeHeader
  | .addFooterView view =>
      view ∈ a.footers.values ∨
        a.getHeaderSize = 0 ∧ ∀ key ∈ a.footers.keys, a.baseItemTypeFooter < key
  | .addItemAt index dataItem _ =>
      a.dataSets.length < index ∨
        ∀ e ∈ a.between (a.insertPosition index), e = .item dataItem
  | .addItems items _ =>
      a.between a.dataSets.length =
        (a.between a.dataSets.length ++ items.map Element.item).drop items.length
  | .removeItemAt index =>
      ∀ dataItem, 0 < index → a.dataSets[index.toNat]? = some dataItem →
        ∀ e ∈ a.between index.toNat, e = .item dataItem
  | .removeItem dataItem =>
      0 < a.indexOf dataItem → ∀ e ∈ a.between (a.indexOf dataItem).toNat, e = .item dataItem
  | _ => True

end HiAdapter

namespace Screen

variable [DecidableEq ι] [DecidableEq β]

def step (hashCode : ι → ℤ) (s : Screen ι β) (act : Action ι β) : Option (Screen ι β) :=
  let r := s.adapter.perform hashCode act
  some { adapter := r.1, shown := r.2.foldl (Notification.apply r.1.displayed) s.shown }

omit [DecidableEq ι] [DecidableEq β] in
def InStep (s : Screen ι β) : Prop := s.shown = s.adapter.displayed

end Screen

section Lists

variable {α : Type*}

theorem eq_drop_append_singleton_iff {w : List α} {x : α} :
    w = (w ++ [x]).drop 1 ↔ ∀ e ∈ w, e = x := by
  induction w with
  | nil => simp
  | cons e w ih =>
      rw [List.cons_append, List.drop_one, List.tail_cons, List.forall_mem_cons]
      cases w with
      | nil => simp
      | cons e' w =>
          rw [List.cons_append, List.drop_one, List.tail_cons] at ih
          rw [List.cons_append, List.cons.injEq, ih, List.forall_mem_cons]
          constructor
          · rintro ⟨rfl, hx, hw⟩
            exact ⟨hx, hx, hw⟩
          · rintro ⟨rfl, rfl, hw⟩
            exact ⟨rfl, rfl, hw⟩

/-- Elements `y` that belong behind `w` are looked for in front of it. -/
theorem insertRange_eq_iff (l w y r : List α) :
    insertRange (l ++ w ++ y ++ r) (l ++ w ++ r) l.length y.length = l ++ w ++ y ++ r ↔
      w = (w ++ y).drop y.length := by
  have htake : (w ++ (y ++ r)).take y.length = (w ++ y).take y.length := by
    rw [← List.append_assoc, List.take_append_of_le_length]
    rw [List.length_append]
    omega
  have hinsert : insertRange (l ++ w ++ y ++ r) (l ++ w ++ r) l.length y.length =
      l ++ ((w ++ y).take y.length ++ w ++ r) := by
    simp only [insertRange, List.append_assoc, List.take_left, List.drop_left, htake]
  have hright : l ++ w ++ y ++ r =
      l ++ ((w ++ y).take y.length ++ (w ++ y).drop y.length ++ r) := by
    rw [List.take_append_drop]
    simp only [List.append_assoc]
  rw [hinsert, hright, List.append_right_inj, List.append_left_inj, List.append_right_inj]

theorem eraseIdx_eq_iff (l w r : List α) (x : α) :
    (l ++ w ++ [x] ++ r).eraseIdx l.length = l ++ w ++ r ↔ ∀ e ∈ w, e = x := by
  have herase : (l ++ w ++ [x] ++ r).eraseIdx l.length = l ++ ((w ++ [x]).drop 1 ++ r) := by
    rw [List.append_assoc, List.append_assoc, ← List.append_assoc w,
      List.eraseIdx_append_of_length_le (Nat.le_refl _), Nat.sub_self, List.eraseIdx_zero]
    cases w <;> simp
  rw [herase, List.append_assoc, List.append_right_inj, List.append_left_inj,
    ← eq_drop_append_singleton_iff, eq_comm]

/-- An element that was not shown is shown where it was inserted. -/
theorem eq_of_getElem?_insertRange {new shown : List α} {position i : ℕ} {x : α}
    (hx : x ∉ shown) (hle : position ≤ shown.length)
    (hget : (insertRange new shown position 1)[i]? = some x) : i = position := by
  rw [insertRange, List.getElem?_append] at hget
  split at hget
  · rename_i hlt
    rw [List.getElem?_append] at hget
    split at hget
    · exact absurd (List.mem_of_mem_take (List.mem_of_getElem? hget)) hx
    · rename_i hge
      simp only [List.length_append, List.length_take] at hlt hge
      omega
  · exact absurd (List.mem_of_mem_drop (List.mem_of_getElem? hget)) hx

/-- A new element is right in the one place where it is. -/
theorem insertRange_singleton_iff {l r : List α} {x : α} {position : ℕ} (hx : x ∉ l ++ r)
    (hle : position ≤ (l ++ r).length) :
    insertRange (l ++ [x] ++ r) (l ++ r) position 1 = l ++ [x] ++ r ↔ position = l.length := by
  constructor
  · intro heq
    have hget : (insertRange (l ++ [x] ++ r) (l ++ r) position 1)[l.length]? = some x := by
      rw [heq]
      simp
    exact (eq_of_getElem?_insertRange hx hle hget).symm
  · rintro rfl
    have hiff := insertRange_eq_iff l [] [x] r
    simpa using hiff

theorem insertRange_ne_of_length_eq {new shown : List α} {position : ℕ}
    (hlength : new.length = shown.length) (hlt : position < new.length) :
    insertRange new shown position 1 ≠ new := by
  intro heq
  have hlength' := congrArg List.length heq
  simp only [insertRange, List.length_append, List.length_take, List.length_drop] at hlength'
  omega

theorem insertIdx_eq_take_append {l : List α} {n : ℕ} (hle : n ≤ l.length) (x : α) :
    l.insertIdx n x = l.take n ++ [x] ++ l.drop n := by
  induction l generalizing n with
  | nil =>
      obtain rfl : n = 0 := Nat.le_zero.mp hle
      rfl
  | cons e l ih =>
      cases n with
      | zero => rfl
      | succ n =>
          rw [List.insertIdx_succ_cons, ih (Nat.le_of_succ_le_succ hle)]
          rfl

/-- A view that is put into a sparse array is noticed if it is new, in the place where
it is. -/
theorem insertRange_put_iff (s : SparseArray β) (key : ℤ) {view : β} {c : β → α}
    {left right : List α} (position : ℕ) (hx : c view ∉ left ++ s.values.map c ++ right)
    (hle : position ≤ left.length + s.size + right.length)
    (hlt : position < left.length + (s.put key view).size + right.length) :
    insertRange (left ++ (s.put key view).values.map c ++ right)
        (left ++ s.values.map c ++ right) position 1 =
        left ++ (s.put key view).values.map c ++ right ↔
      ∃ pre post, s.values = pre ++ post ∧ (s.put key view).values = pre ++ view :: post ∧
        (post = [] ↔ ∀ k ∈ s.keys, k < key) ∧ (pre = [] ↔ ∀ k ∈ s.keys, key < k) ∧
        position = left.length + pre.length := by
  have hsplit : ∀ pre post, s.values = pre ++ post →
      (s.put key view).values = pre ++ view :: post →
      (insertRange (left ++ (s.put key view).values.map c ++ right)
          (left ++ s.values.map c ++ right) position 1 =
          left ++ (s.put key view).values.map c ++ right ↔
        position = left.length + pre.length) := by
    intro pre post hvalues hput
    have hold : left ++ s.values.map c ++ right =
        (left ++ pre.map c) ++ (post.map c ++ right) := by
      simp [hvalues]
    have hnew : left ++ (s.put key view).values.map c ++ right =
        (left ++ pre.map c) ++ [c view] ++ (post.map c ++ right) := by
      simp [hput]
    have hlength : (left ++ s.values.map c ++ right).length =
        left.length + s.size + right.length := by
      simp [Nat.add_assoc]
    rw [← hlength, hold] at hle
    rw [hold] at hx
    rw [hold, hnew, insertRange_singleton_iff hx hle, List.length_append, List.length_map]
  constructor
  · intro heq
    obtain ⟨pre, post, hvalues, ⟨hput, hpost, hpre⟩ | ⟨hlength, -⟩⟩ :=
      s.values_put_cases key view
    · exact ⟨pre, post, hvalues, hput, hpost, hpre, (hsplit pre post hvalues hput).mp heq⟩
    · refine absurd heq (insertRange_ne_of_length_eq ?_ ?_)
      · simp only [List.length_append, List.length_map, hlength]
      · simpa [Nat.add_assoc] using hlt
  · rintro ⟨pre, post, hvalues, hput, -, -, hposition⟩
    exact (hsplit pre post hvalues hput).mpr hposition

end Lists

namespace HiAdapter

variable {a : HiAdapter ι β}

/-- The list around the elements between the two positions of an item. -/
theorem displayed_eq (a : HiAdapter ι β) (position : ℕ) :
    a.displayed = a.displayed.take position ++ a.between position ++
      a.displayed.drop (position + a.getHeaderSize) := by
  rw [between, ← List.take_add, List.take_append_drop]

theorem take_displayed {position : ℕ} (hle : position ≤ a.dataSets.length) :
    a.displayed.take position ++ a.between position =
      a.headers.values.map .header ++ (a.dataSets.take position).map .item := by
  rw [between, ← List.take_add, displayed, getHeaderSize, List.append_assoc, List.take_append,
    List.take_append, List.take_of_length_le (by simp), List.length_map,
    SparseArray.length_values, Nat.add_sub_cancel, List.length_map,
    Nat.sub_eq_zero_of_le hle, List.take_zero, List.append_nil, List.map_take]

theorem drop_displayed {position : ℕ} (hle : position ≤ a.dataSets.length) :
    a.displayed.drop (position + a.getHeaderSize) =
      (a.dataSets.drop position).map .item ++ a.footers.values.map .footer := by
  rw [displayed, getHeaderSize, List.append_assoc, List.drop_append, List.drop_append,
    List.drop_of_length_le (by simp), List.length_map, SparseArray.length_values,
    Nat.add_sub_cancel, List.length_map, Nat.sub_eq_zero_of_le hle, List.drop_zero,
    List.nil_append, List.map_drop]

theorem length_take_displayed {position : ℕ} (hle : position ≤ a.dataSets.length) :
    (a.displayed.take position).length = position := by
  rw [List.length_take, displayed, List.length_append, List.length_append, List.length_map,
    List.length_map]
  omega

/-- New items are noticed at their position among the items. -/
theorem insertItems_iff {position : ℕ} (hle : position ≤ a.dataSets.length)
    {items dataSets : List ι}
    (hdata : dataSets = a.dataSets.take position ++ items ++ a.dataSets.drop position) :
    insertRange (displayed { a with dataSets }) a.displayed position items.length =
        displayed { a with dataSets } ↔
      a.between position = (a.between position ++ items.map Element.item).drop items.length := by
  have hafter : displayed { a with dataSets } =
      a.displayed.take position ++ a.between position ++ items.map Element.item ++
        a.displayed.drop (position + a.getHeaderSize) := by
    rw [take_displayed hle, drop_displayed hle, displayed, hdata]
    simp only [List.map_append, List.append_assoc]
  have hiff := insertRange_eq_iff (a.displayed.take position) (a.between position)
    (items.map Element.item) (a.displayed.drop (position + a.getHeaderSize))
  rwa [← hafter, ← displayed_eq, length_take_displayed hle, List.length_map] at hiff

/-- An item that is gone is noticed at its position among the items. -/
theorem eraseItem_iff {position : ℕ} {dataItem : ι}
    (hget : a.dataSets[position]? = some dataItem) :
    a.displayed.eraseIdx position =
        displayed { a with dataSets := a.dataSets.eraseIdx position } ↔
      ∀ e ∈ a.between position, e = .item dataItem := by
  obtain ⟨hlt, hitem⟩ := List.getElem?_eq_some_iff.mp hget
  have hle := Nat.le_of_lt hlt
  have hrest : a.displayed.drop (position + a.getHeaderSize) = [.item dataItem] ++
      ((a.dataSets.drop (position + 1)).map .item ++ a.footers.values.map .footer) := by
    rw [drop_displayed hle, List.drop_eq_getElem_cons hlt, hitem]
    rfl
  have hafter : displayed { a with dataSets := a.dataSets.eraseIdx position } =
      a.displayed.take position ++ a.between position ++
        ((a.dataSets.drop (position + 1)).map .item ++ a.footers.values.map .footer) := by
    rw [take_displayed hle, displayed, List.eraseIdx_eq_take_drop_succ]
    simp only [List.map_append, List.append_assoc]
  have hiff := eraseIdx_eq_iff (a.displayed.take position) (a.between position)
    ((a.dataSets.drop (position + 1)).map .item ++ a.footers.values.map .footer)
    (.item dataItem)
  rw [List.append_assoc _ [Element.item dataItem], ← hrest] at hiff
  rwa [← hafter, ← displayed_eq, length_take_displayed hle] at hiff

section Calls

/-- The copy after a call, if it was right before. -/
def heard (a : HiAdapter ι β) (r : HiAdapter ι β × List Notification) : List (Element ι β) :=
  r.2.foldl (Notification.apply r.1.displayed) a.displayed

section

variable [DecidableEq ι]

theorem addItemAt_announces (a : HiAdapter ι β) (index : ℤ) (dataItem : ι) :
    a.heard ((a.addItemAt index dataItem true).toOption.getD (a, [])) =
        ((a.addItemAt index dataItem true).toOption.getD (a, [])).1.displayed ↔
      a.Announces (.addItemAt index dataItem true) := by
  simp only [addItemAt, Announces]
  split
  · rename_i hlt
    exact iff_of_true rfl (.inl hlt)
  · rename_i hge
    have hle : a.insertPosition index ≤ a.dataSets.length := by
      unfold insertPosition
      split <;> omega
    have hdata : (if index > 0 then a.dataSets.insertIdx index.toNat dataItem
          else a.dataSets ++ [dataItem]) =
        a.dataSets.take (a.insertPosition index) ++ [dataItem] ++
          a.dataSets.drop (a.insertPosition index) := by
      unfold insertPosition at hle ⊢
      split
      · rw [if_pos ‹_›] at hle
        exact insertIdx_eq_take_append hle dataItem
      · simp
    have hposition : (if index > 0 then index else
        ((if index > 0 then a.dataSets.insertIdx index.toNat dataItem
          else a.dataSets ++ [dataItem]).length - 1 : ℤ)).toNat = a.insertPosition index := by
      unfold insertPosition
      split <;> simp
    rw [or_iff_right hge, ← eq_drop_append_singleton_iff]
    simp only [Except.toOption, Option.getD_some, heard, if_true, List.foldl_cons,
      List.foldl_nil, Notification.apply, hposition]
    exact insertItems_iff hle hdata

theorem addItems_announces (a : HiAdapter ι β) (items : List ι) :
    a.heard (a.addItems items true) = (a.addItems items true).1.displayed ↔
      a.Announces (.addItems items true) := by
  have hdata : (a.addItems items true).1.dataSets =
      a.dataSets.take a.dataSets.length ++ items ++ a.dataSets.drop a.dataSets.length := by
    simp [addItems]
  exact insertItems_iff (Nat.le_refl _) hdata

theorem removeItemAt_announces (a : HiAdapter ι β) (index : ℤ) :
    a.heard ((a.removeItemAt index).1, (a.removeItemAt index).2.1) =
        (a.removeItemAt index).1.displayed ↔
      a.Announces (.removeItemAt index) := by
  unfold removeItemAt
  split
  · rename_i hindex
    have hlt : index.toNat < a.dataSets.length := by omega
    have hget := List.getElem?_eq_getElem hlt
    refine (eraseItem_iff hget).trans ?_
    constructor
    · intro h dataItem _ hget'
      rw [hget, Option.some.injEq] at hget'
      exact hget' ▸ h
    · intro h
      exact h _ hindex.1 hget
  · rename_i hindex
    refine iff_of_true rfl fun dataItem hpos hget ↦ ?_
    have hlt := (List.getElem?_eq_some_iff.mp hget).1
    omega

theorem getElem?_indexOf {dataItem : ι} (hpos : 0 < a.indexOf dataItem) :
    a.dataSets[(a.indexOf dataItem).toNat]? = some dataItem := by
  unfold indexOf at hpos ⊢
  split
  · rename_i index hindex
    obtain ⟨hlt, hitem, -⟩ := List.findIdx?_eq_some_iff_getElem.mp hindex
    rw [Int.toNat_natCast, List.getElem?_eq_getElem hlt]
    simpa using hitem
  · rename_i hnone
    simp [hnone] at hpos

theorem removeItem_announces (a : HiAdapter ι β) (dataItem : ι) :
    a.heard (a.removeItem dataItem) = (a.removeItem dataItem).1.displayed ↔
      a.Announces (.removeItem dataItem) := by
  refine (a.removeItemAt_announces (a.indexOf dataItem)).trans ?_
  simp only [Announces]
  constructor
  · intro h hpos
    exact h dataItem hpos (getElem?_indexOf hpos)
  · intro h dataItem' hpos hget
    rw [getElem?_indexOf hpos, Option.some.injEq] at hget
    exact hget ▸ h hpos

end

section Views

variable [DecidableEq ι] [DecidableEq β]

/-- A header goes behind the others unless the counter has passed its greatest value. -/
theorem addHeaderView_announces (a : HiAdapter ι β) (view : β) :
    a.heard (a.addHeaderView view) = (a.addHeaderView view).1.displayed ↔
      a.Announces (.addHeaderView view) := by
  unfold addHeaderView
  split
  · rename_i hnone
    rw [SparseArray.indexOfValue_eq_none_iff] at hnone
    have hx : Element.header view ∉ [] ++ a.headers.values.map Element.header ++
        (a.dataSets.map Element.item ++ a.footers.values.map Element.footer) := by
      simpa using hnone
    have hsize := a.headers.size_put a.baseItemTypeHeader view
    have hiff := insertRange_put_iff a.headers a.baseItemTypeHeader
      ((a.headers.put a.baseItemTypeHeader view).size - 1) hx (by omega) (by omega)
    have hposition : (((a.headers.put a.baseItemTypeHeader view).size : ℤ) - 1).toNat =
        (a.headers.put a.baseItemTypeHeader view).size - 1 := by omega
    simp only [heard, List.foldl_cons, List.foldl_nil, Notification.apply, Announces, hnone,
      false_or, displayed, List.append_assoc, hposition]
    simp only [List.nil_append] at hiff
    rw [hiff]
    constructor
    · rintro ⟨pre, post, -, hput, hpost, -, hlength⟩
      refine hpost.mp (List.eq_nil_of_length_eq_zero ?_)
      rw [← SparseArray.length_values, hput, List.length_append, List.length_cons,
        List.length_nil] at hlength
      omega
    · intro hless
      obtain ⟨pre, post, hvalues, ⟨hput, hpost, hpre⟩ | ⟨-, hkey⟩⟩ :=
        a.headers.values_put_cases a.baseItemTypeHeader view
      · refine ⟨pre, post, hvalues, hput, hpost, hpre, ?_⟩
        rw [← SparseArray.length_values, hput, hpost.mpr hless, List.length_append,
          List.length_singleton, List.length_nil, Nat.add_sub_cancel, Nat.zero_add]
      · exact absurd (hless _ hkey) (Int.lt_irrefl _)
  · rename_i hsome
    exact iff_of_true rfl (.inl (SparseArray.mem_values_of_indexOfValue_ne_none hsome))

/-- A footer is noticed behind the items: it must be the first, and nothing in front of
the items. -/
theorem addFooterView_announces (a : HiAdapter ι β) (view : β) :
    a.heard (a.addFooterView view) = (a.addFooterView view).1.displayed ↔
      a.Announces (.addFooterView view) := by
  unfold addFooterView
  split
  · rename_i hnone
    rw [SparseArray.indexOfValue_eq_none_iff] at hnone
    have hx : Element.footer view ∉ (a.headers.values.map Element.header ++
        a.dataSets.map Element.item) ++ a.footers.values.map Element.footer ++ [] := by
      simpa using hnone
    have hsize := a.footers.size_put a.baseItemTypeFooter view
    have hleft : (a.headers.values.map Element.header ++ a.dataSets.map Element.item :
        List (Element ι β)).length = a.headers.size + a.dataSets.length := by
      simp
    have hiff := insertRange_put_iff a.footers a.baseItemTypeFooter a.dataSets.length hx
      (by omega) (by omega)
    simp only [heard, List.foldl_cons, List.foldl_nil, Notification.apply, Announces, hnone,
      false_or, displayed, getItemCount, Int.toNat_natCast]
    simp only [List.append_nil] at hiff
    rw [hiff]
    constructor
    · rintro ⟨pre, post, -, -, -, hpre, hlength⟩
      simp only [List.length_append, List.length_map, SparseArray.length_values] at hlength
      refine ⟨?_, hpre.mp (List.eq_nil_of_length_eq_zero ?_)⟩
      · rw [getHeaderSize]
        omega
      · omega
    · rintro ⟨hheaders, hgreater⟩
      obtain ⟨pre, post, hvalues, ⟨hput, hpost, hpre⟩ | ⟨-, hkey⟩⟩ :=
        a.footers.values_put_cases a.baseItemTypeFooter view
      · refine ⟨pre, post, hvalues, hput, hpost, hpre, ?_⟩
        rw [getHeaderSize] at hheaders
        simp [hpre.mpr hgreater, hheaders]
      · exact absurd (hgreater _ hkey) (Int.lt_irrefl _)
  · rename_i hsome
    exact iff_of_true rfl (.inl (SparseArray.mem_values_of_indexOfValue_ne_none hsome))

omit [DecidableEq ι] in
theorem removeHeaderView_announces (a : HiAdapter ι β) (view : β) :
    a.heard (a.removeHeaderView view) = (a.removeHeaderView view).1.displayed := by
  unfold removeHeaderView
  split
  · rfl
  · rename_i index hindex
    have hlt := SparseArray.indexOfValue_lt hindex
    simp only [heard, List.foldl_cons, List.foldl_nil, Notification.apply, Int.toNat_natCast,
      displayed, SparseArray.values_removeAt, List.append_assoc]
    rw [List.eraseIdx_append_of_lt_length (by simpa using hlt), SparseArray.map_eraseIdx]

omit [DecidableEq ι] in
theorem removeFooterView_announces (a : HiAdapter ι β) (view : β) :
    a.heard (a.removeFooterView view) = (a.removeFooterView view).1.displayed := by
  unfold removeFooterView
  split
  · rfl
  · rename_i index hindex
    have hposition : ((index : ℤ) + a.getHeaderSize + a.getOriginalItemSize).toNat =
        a.headers.values.length + a.dataSets.length + index := by
      rw [SparseArray.length_values, getHeaderSize, getOriginalItemSize]
      omega
    simp only [heard, List.foldl_cons, List.foldl_nil, Notification.apply, hposition, displayed,
      SparseArray.values_removeAt]
    rw [List.eraseIdx_append_of_length_le (by simp), SparseArray.map_eraseIdx]
    simp

/-- The copy is right after a call exactly when the call finds what it must. -/
theorem perform_announces (hashCode : ι → ℤ) (a : HiAdapter ι β) {act : Action ι β}
    (hact : act.Notifies) :
    a.heard (a.perform hashCode act) = (a.perform hashCode act).1.displayed ↔
      a.Announces act := by
  cases act with
  | addHeaderView view => exact a.addHeaderView_announces view
  | removeHeaderView view => exact iff_of_true (a.removeHeaderView_announces view) trivial
  | addFooterView view => exact a.addFooterView_announces view
  | removeFooterView view => exact iff_of_true (a.removeFooterView_announces view) trivial
  | addItemAt index dataItem notify =>
      obtain rfl : notify = true := hact
      exact a.addItemAt_announces index dataItem
  | addItems items notify =>
      obtain rfl : notify = true := hact
      exact a.addItems_announces items
  | removeItemAt index => exact a.removeItemAt_announces index
  | removeItem dataItem => exact a.removeItem_announces dataItem
  | refreshItem dataItem =>
      refine iff_of_true ?_ trivial
      simp only [heard, perform, refreshItem, List.foldl_cons, List.foldl_nil, Notification.apply]
      split
      · rfl
      · cases hget : a.displayed[(a.indexOf dataItem).toNat]? with
        | none => rfl
        | some e =>
            obtain ⟨hlt, rfl⟩ := List.getElem?_eq_some_iff.mp hget
            exact List.set_getElem_self hlt
  | clearItems => exact iff_of_true rfl trivial
  | getItemViewType position =>
      refine iff_of_true ?_ trivial
      simp only [heard, perform, List.foldl_nil]
      cases htype : a.getItemViewType hashCode position with
      | error e => rfl
      | ok r =>
          obtain ⟨hdata, hheaders, hfooters⟩ := getItemViewType_frame htype
          simp only [Except.toOption, Option.elim_some, displayed, hdata, hheaders, hfooters]

end Views

end Calls

end HiAdapter

/-- From any adapter on, an observer that starts with the displayed list has this list
after every call if and only if every call finds what it must. -/
theorem inStep_iff_announces [DecidableEq ι] [DecidableEq β] (hashCode : ι → ℤ)
    (a : HiAdapter ι β) {as : List (Action ι β)} (has : ∀ act ∈ as, act.Notifies) :
    StatesMeet (Screen.step hashCode) Screen.InStep ⟨a, a.displayed⟩ as ↔
      StepsMeet (Screen.step hashCode) (fun s ↦ s.adapter.Announces) ⟨a, a.displayed⟩ as := by
  have htotal : ∀ (s : Screen ι β) act, ∃ s', s.step hashCode act = some s' :=
    fun _ _ ↦ ⟨_, rfl⟩
  obtain ⟨s, hrun⟩ := exists_run_of_total htotal ⟨a, a.displayed⟩ as
  refine statesMeet_iff_stepsMeet (I := fun _ ↦ True) (fun _ _ _ _ _ _ _ _ ↦ trivial) ?_
    trivial rfl (stepsMeet_of_forall_mem has) hrun
  intro u act v _ hu hact hstep
  obtain rfl := Option.some.inj hstep
  refine Iff.trans ?_ (u.adapter.perform_announces hashCode hact)
  rw [Screen.InStep, HiAdapter.heard, ← hu]

/-- An item behind a header. -/
def headerRun : List (Action (Fin 1) (Fin 1)) := [.addHeaderView 0, .addItems [0] true]

theorem inStep_iff_announces_header :
    (∀ act ∈ headerRun, act.Notifies) ∧
      (StatesMeet (Screen.step fun _ ↦ 7) Screen.InStep
          ⟨{}, HiAdapter.displayed ({} : HiAdapter (Fin 1) (Fin 1))⟩ headerRun ↔
        StepsMeet (Screen.step fun _ ↦ 7) (fun s ↦ s.adapter.Announces)
          ⟨{}, HiAdapter.displayed {}⟩ headerRun) := by
  have hnotifies : ∀ act ∈ headerRun, act.Notifies := by simp [headerRun, Action.Notifies]
  exact ⟨hnotifies, inStep_iff_announces (fun _ ↦ 7) {} hnotifies⟩

/-- The item is announced at position 0, where the header is. -/
theorem header_shown_twice :
    ∃ s : Screen (Fin 1) (Fin 1),
      run (Screen.step fun _ ↦ 7) ⟨{}, HiAdapter.displayed {}⟩ headerRun = some s ∧
      s.shown = [.header 0, .header 0] ∧ s.adapter.displayed = [.header 0, .item 0] ∧
      ¬ s.InStep := by
  refine ⟨_, rfl, by decide, by decide, ?_⟩
  unfold Screen.InStep
  decide

end HiApp.Adapter
