import HiApp.Lib.SparseArray
import HiApp.Lib.Runs
import Mathlib.Data.Int.Init

/-!
# The list adapter

`HiAdapter` shows header views, data items and footer views in one list.  Headers
and footers are kept in sparse arrays under keys that count up, and these keys are
their view types; the view type of an item is the hash code of its class.
-/

namespace HiApp.Adapter

open Runs

variable {ι β : Type*}

inductive Error where
  | indexOutOfBounds
  | classCast
  deriving DecidableEq

inductive Notification where
  | itemInserted (position : ℤ)
  | itemRangeInserted (start itemCount : ℕ)
  | itemRemoved (position : ℤ)
  | itemChanged (position : ℤ)
  | dataSetChanged
  deriving DecidableEq

/-- What is shown at a position. -/
inductive Element (ι β : Type*) where
  | header (view : β)
  | item (dataItem : ι)
  | footer (view : β)
  deriving DecidableEq

/-- Items `ι` and views `β` are objects, compared by identity. -/
structure HiAdapter (ι β : Type*) where
  dataSets : List ι := []
  typeArrays : SparseArray ι := SparseArray.empty
  headers : SparseArray β := SparseArray.empty
  footers : SparseArray β := SparseArray.empty
  baseItemTypeHeader : ℤ := 1000000
  baseItemTypeFooter : ℤ := 2000000

/-- The counters are 32 bits wide. -/
def increment (n : ℤ) : ℤ := Int.bmod (n + 1) 4294967296

/-- `list[index]`. -/
def elementAt {α : Type*} (l : List α) (index : ℤ) : Except Error α :=
  match index with
  | .ofNat n => (l[n]?).elim (.error .indexOutOfBounds) .ok
  | .negSucc _ => .error .indexOutOfBounds

namespace HiAdapter

def getHeaderSize (a : HiAdapter ι β) : ℕ := a.headers.size

def getFooterSize (a : HiAdapter ι β) : ℕ := a.footers.size

def getOriginalItemSize (a : HiAdapter ι β) : ℕ := a.dataSets.length

def getItemCount (a : HiAdapter ι β) : ℕ := a.dataSets.length

/-- The list that is meant to be shown. -/
def displayed (a : HiAdapter ι β) : List (Element ι β) :=
  a.headers.values.map .header ++ a.dataSets.map .item ++ a.footers.values.map .footer

def isHeaderPosition (a : HiAdapter ι β) (position : ℤ) : Bool := position < a.headers.size

def isFooterPosition (a : HiAdapter ι β) (position : ℤ) : Bool :=
  a.getHeaderSize + a.getOriginalItemSize ≤ position

/-- An item is recorded for its type only when the type is found at an index above 0. -/
def getItemViewType (hashCode : ι → ℤ) (a : HiAdapter ι β) (position : ℤ) :
    Except Error (HiAdapter ι β × ℤ) :=
  if a.isHeaderPosition position then (elementAt a.headers.keys position).map (a, ·)
  else if a.isFooterPosition position then
    (elementAt a.footers.keys (position - a.getHeaderSize - a.getOriginalItemSize)).map (a, ·)
  else
    (elementAt a.dataSets (position - a.getHeaderSize)).map fun dataItem ↦
      let type := hashCode dataItem
      let typeArrays :=
        if a.typeArrays.indexOfKey type > 0 then a.typeArrays.put type dataItem
        else a.typeArrays
      ({ a with typeArrays }, type)

/-- `holder as Nothing`: no object is of this type. -/
def holderAsNothing : Except Error Empty := .error .classCast

/-- The call of `onBindData` that is made, if any. -/
def onBindViewHolder (a : HiAdapter ι β) (position : ℤ) :
    Except Error (Option (ι × Empty × ℤ)) :=
  if a.isHeaderPosition position || a.isFooterPosition position then .ok none
  else
    let itemPosition := position - a.getHeaderSize
    (elementAt a.dataSets itemPosition).bind fun hiDataItem ↦
      holderAsNothing.map fun holder ↦ some (hiDataItem, holder, itemPosition)

section

variable [DecidableEq β]

def addHeaderView (a : HiAdapter ι β) (view : β) : HiAdapter ι β × List Notification :=
  if a.headers.indexOfValue view = none then
    let a' := { a with
      headers := a.headers.put a.baseItemTypeHeader view
      baseItemTypeHeader := increment a.baseItemTypeHeader }
    (a', [.itemInserted (a'.headers.size - 1)])
  else (a, [])

def removeHeaderView (a : HiAdapter ι β) (view : β) : HiAdapter ι β × List Notification :=
  match a.headers.indexOfValue view with
  | none => (a, [])
  | some index => ({ a with headers := a.headers.removeAt index }, [.itemRemoved index])

def addFooterView (a : HiAdapter ι β) (view : β) : HiAdapter ι β × List Notification :=
  if a.footers.indexOfValue view = none then
    let a' := { a with
      footers := a.footers.put a.baseItemTypeFooter view
      baseItemTypeFooter := increment a.baseItemTypeFooter }
    (a', [.itemInserted a'.getItemCount])
  else (a, [])

def removeFooterView (a : HiAdapter ι β) (view : β) : HiAdapter ι β × List Notification :=
  match a.footers.indexOfValue view with
  | none => (a, [])
  | some index =>
      ({ a with footers := a.footers.removeAt index },
        [.itemRemoved (index + a.getHeaderSize + a.getOriginalItemSize)])

end

/-- An index that is not positive means the end of the list. -/
def addItemAt (a : HiAdapter ι β) (index : ℤ) (dataItem : ι) (notify : Bool) :
    Except Error (HiAdapter ι β × List Notification) :=
  if a.dataSets.length < index then .error .indexOutOfBounds
  else
    let dataSets :=
      if index > 0 then a.dataSets.insertIdx index.toNat dataItem else a.dataSets ++ [dataItem]
    let notifyPos : ℤ := if index > 0 then index else dataSets.length - 1
    .ok ({ a with dataSets }, if notify then [.itemInserted notifyPos] else [])

def addItems (a : HiAdapter ι β) (items : List ι) (notify : Bool) :
    HiAdapter ι β × List Notification :=
  ({ a with dataSets := a.dataSets ++ items },
    if notify then [.itemRangeInserted a.dataSets.length items.length] else [])

def removeItemAt (a : HiAdapter ι β) (index : ℤ) :
    HiAdapter ι β × List Notification × Option ι :=
  if 0 < index ∧ index < a.dataSets.length then
    ({ a with dataSets := a.dataSets.eraseIdx index.toNat }, [.itemRemoved index],
      a.dataSets[index.toNat]?)
  else (a, [], none)

/-- `dataSets.indexOf`. -/
def indexOf [DecidableEq ι] (a : HiAdapter ι β) (dataItem : ι) : ℤ :=
  match a.dataSets.findIdx? (· = dataItem) with
  | some index => index
  | none => -1

def removeItem [DecidableEq ι] (a : HiAdapter ι β) (dataItem : ι) :
    HiAdapter ι β × List Notification :=
  let r := a.removeItemAt (a.indexOf dataItem)
  (r.1, r.2.1)

def refreshItem [DecidableEq ι] (a : HiAdapter ι β) (dataItem : ι) :
    HiAdapter ι β × List Notification :=
  (a, [.itemChanged (a.indexOf dataItem)])

def clearItems (a : HiAdapter ι β) : HiAdapter ι β × List Notification :=
  ({ a with dataSets := [] }, [.dataSetChanged])

end HiAdapter

inductive Action (ι β : Type*) where
  | addHeaderView (view : β)
  | removeHeaderView (view : β)
  | addFooterView (view : β)
  | removeFooterView (view : β)
  | addItemAt (index : ℤ) (dataItem : ι) (notify : Bool)
  | addItems (items : List ι) (notify : Bool)
  | removeItemAt (index : ℤ)
  | removeItem (dataItem : ι)
  | refreshItem (dataItem : ι)
  | clearItems
  | getItemViewType (position : ℤ)
  deriving DecidableEq

namespace HiAdapter

variable [DecidableEq ι] [DecidableEq β]

/-- The adapter after a call, and what it has notified.  A call that throws leaves
it as it was. -/
def perform (hashCode : ι → ℤ) (a : HiAdapter ι β) :
    Action ι β → HiAdapter ι β × List Notification
  | .addHeaderView view => a.addHeaderView view
  | .removeHeaderView view => a.removeHeaderView view
  | .addFooterView view => a.addFooterView view
  | .removeFooterView view => a.removeFooterView view
  | .addItemAt index dataItem notify => (a.addItemAt index dataItem notify).toOption.getD (a, [])
  | .addItems items notify => a.addItems items notify
  | .removeItemAt index => ((a.removeItemAt index).1, (a.removeItemAt index).2.1)
  | .removeItem dataItem => a.removeItem dataItem
  | .refreshItem dataItem => a.refreshItem dataItem
  | .clearItems => a.clearItems
  | .getItemViewType position =>
      ((a.getItemViewType hashCode position).toOption.elim a Prod.fst, [])

def step (hashCode : ι → ℤ) (a : HiAdapter ι β) (act : Action ι β) : Option (HiAdapter ι β) :=
  some (a.perform hashCode act).1

end HiAdapter

theorem exists_of_map_eq_ok {γ δ : Type*} {x : Except Error γ} {f : γ → δ} {y : δ}
    (h : x.map f = .ok y) : ∃ z, f z = y := by
  cases x with
  | error e => cases h
  | ok z => exact ⟨z, Except.ok.inj h⟩

namespace HiAdapter

/-- Asking for a view type changes no list. -/
theorem getItemViewType_frame {hashCode : ι → ℤ} {a a' : HiAdapter ι β} {position type : ℤ}
    (h : a.getItemViewType hashCode position = .ok (a', type)) :
    a'.dataSets = a.dataSets ∧ a'.headers = a.headers ∧ a'.footers = a.footers := by
  unfold getItemViewType at h
  split at h
  · obtain ⟨_, heq⟩ := exists_of_map_eq_ok h
    obtain ⟨rfl, -⟩ := Prod.mk.inj heq
    exact ⟨rfl, rfl, rfl⟩
  · split at h
    · obtain ⟨_, heq⟩ := exists_of_map_eq_ok h
      obtain ⟨rfl, -⟩ := Prod.mk.inj heq
      exact ⟨rfl, rfl, rfl⟩
    · obtain ⟨_, heq⟩ := exists_of_map_eq_ok h
      obtain ⟨rfl, -⟩ := Prod.mk.inj heq
      exact ⟨rfl, rfl, rfl⟩

end HiAdapter

end HiApp.Adapter
