import HiApp.Lib.Runs
import Mathlib.Data.List.Basic

/-!
# The labels of a goods item

A recycled holder still has the labels of the item that it was bound to before.  `onBindData`
writes over them from the front, and takes labels away only when there are too many tags.
-/

namespace HiApp.Home

open Runs

namespace GoodsItem

def MAX_TAG_SIZE : ℕ := 3

/-- `tags.split(" ")`, which keeps empty parts. -/
def split (tags : String) : List String := (tags.toList.splitOn ' ').map String.ofList

structure LabelView where
  text : String
  withLeftMargin : Bool
  deriving DecidableEq

/-- The label at an index gets its text, and is made when there is none. -/
def label (index : ℕ) (text : String) (children : List LabelView) : List LabelView :=
  if (children.length : ℤ) - 1 < index then
    children ++ [{ text := text, withLeftMargin := index ≠ 0 }]
  else children.modify index fun labelView ↦ { labelView with text := text }

/-- `for (index in childCount - 1 downTo MAX_TAG_SIZE - 1)`. -/
def removeLabels (children : List LabelView) : List LabelView :=
  (List.range' (MAX_TAG_SIZE - 1) (children.length - (MAX_TAG_SIZE - 1))).reverse.foldl
    List.eraseIdx children

/-- The loop over the tags, which ends at the first one that is too many. -/
def bindLabels : ℕ → List String → List LabelView → List LabelView
  | _, [], children => children
  | index, text :: split, children =>
      if MAX_TAG_SIZE - 1 < index then removeLabels children
      else bindLabels (index + 1) split (label index text children)

/-- `tags` are those of the item that it was last bound to. -/
structure Holder where
  visible : Bool := false
  children : List LabelView := []
  tags : Option String := none
  deriving DecidableEq

def onBindData (holder : Holder) (tags : String) : Holder :=
  if tags = "" then { holder with visible := false, tags := some tags }
  else
    { visible := true
      children := bindLabels 0 (split tags) holder.children
      tags := some tags }

def step (holder : Holder) (tags : String) : Option Holder := some (onBindData holder tags)

/-- There are labels just for the first tags, or none to be seen. -/
def ShowsTags (holder : Holder) : Prop :=
  ∀ tags, holder.tags = some tags →
    if tags = "" then holder.visible = false
    else holder.visible = true ∧
      holder.children.map LabelView.text = (split tags).take MAX_TAG_SIZE

instance : DecidablePred ShowsTags := fun holder ↦
  decidable_of_iff
    (holder.tags.all fun tags ↦ decide
      (if tags = "" then holder.visible = false
      else holder.visible = true ∧
        holder.children.map LabelView.text = (split tags).take MAX_TAG_SIZE)) (by
    simp [ShowsTags, Option.all_eq_true])

/-- There are not too many tags, and not fewer than before. -/
def Fits (holder : Holder) (tags : String) : Prop :=
  tags = "" ∨ (split tags).length ≤ MAX_TAG_SIZE ∧
    holder.children.length ≤ (split tags).length

theorem MAX_TAG_SIZE_pos : 0 < MAX_TAG_SIZE := by decide

theorem foldl_eraseIdx {α : Type*} (l : List α) {n k : ℕ} (h : l.length ≤ n + k) :
    (List.range' n k).reverse.foldl List.eraseIdx l = l.take n := by
  induction k generalizing l with
  | zero => exact (List.take_of_length_le h).symm
  | succ k ih =>
      have hlength : (l.eraseIdx (n + k)).length ≤ n + k := by
        rw [List.length_eraseIdx]
        split <;> omega
      rw [List.range'_1_concat, List.reverse_append, List.reverse_singleton,
        List.singleton_append, List.foldl_cons, ih _ hlength]
      by_cases hlt : n + k < l.length
      · rw [List.eraseIdx_eq_take_drop_succ, List.take_append_of_le_length, List.take_take,
          Nat.min_eq_left (Nat.le_add_right n k)]
        rw [List.length_take]
        omega
      · rw [List.eraseIdx_of_length_le (Nat.le_of_not_lt hlt)]

theorem removeLabels_eq (children : List LabelView) :
    removeLabels children = children.take (MAX_TAG_SIZE - 1) := by
  apply foldl_eraseIdx
  omega

variable {children : List LabelView} {index : ℕ} {text : String}

theorem length_label (h : index ≤ children.length) :
    index + 1 ≤ (label index text children).length := by
  unfold label
  split
  · simpa using h
  · rw [List.length_modify]
    omega

/-- The labels in front of an index keep their texts. -/
theorem text_take_label (h : index ≤ children.length) :
    ((label index text children).take (index + 1)).map LabelView.text =
      (children.take index).map LabelView.text ++ [text] := by
  unfold label
  split
  · obtain rfl : index = children.length := by omega
    rw [List.take_of_length_le (by simp), List.take_length, List.map_append, List.map_singleton]
  · have hlt : index < children.length := by omega
    rw [List.modify_eq_take_cons_drop hlt, List.take_append]
    simp [Nat.min_eq_left h, List.take_take]

/-- Those behind it do too. -/
theorem text_drop_label (k : ℕ) :
    ((label index text children).drop (index + 1 + k)).map LabelView.text =
      (children.drop (index + 1 + k)).map LabelView.text := by
  unfold label
  split
  · rw [List.drop_of_length_le, List.drop_of_length_le]
    · omega
    · rw [List.length_append, List.length_singleton]
      omega
  · have hlt : index < children.length := by omega
    have hbehind : index + 1 + k - index = k + 1 := by omega
    rw [List.modify_eq_take_cons_drop hlt, List.drop_append, List.length_take,
      Nat.min_eq_left (Nat.le_of_lt hlt), hbehind, List.drop_succ_cons, List.drop_drop,
      List.drop_of_length_le, List.nil_append]
    rw [List.length_take]
    omega

/-- With few enough tags the labels behind them stay. -/
theorem text_bindLabels_of_le (split : List String) (h : index ≤ children.length)
    (hle : index + split.length ≤ MAX_TAG_SIZE) :
    (bindLabels index split children).map LabelView.text =
      (children.take index).map LabelView.text ++ split ++
        (children.drop (index + split.length)).map LabelView.text := by
  induction split generalizing index children with
  | nil => rw [bindLabels, List.length_nil, Nat.add_zero, List.append_nil, ← List.map_append,
      List.take_append_drop]
  | cons text split ih =>
      rw [List.length_cons] at hle
      have hindex : ¬ MAX_TAG_SIZE - 1 < index := by omega
      rw [bindLabels, if_neg hindex, ih (length_label h) (by omega), text_take_label h,
        text_drop_label, List.length_cons, Nat.add_assoc index, Nat.add_comm 1,
        List.append_assoc _ [text], List.singleton_append]

/-- With more of them even the last that there is place for is taken away. -/
theorem text_bindLabels_of_lt (split : List String) (h : index ≤ children.length)
    (hindex : index ≤ MAX_TAG_SIZE) (hlt : MAX_TAG_SIZE < index + split.length) :
    (bindLabels index split children).map LabelView.text =
      ((children.take index).map LabelView.text ++ split).take (MAX_TAG_SIZE - 1) := by
  induction split generalizing index children with
  | nil =>
      rw [List.length_nil] at hlt
      omega
  | cons text split ih =>
      rw [List.length_cons] at hlt
      rw [bindLabels]
      by_cases hlast : MAX_TAG_SIZE - 1 < index
      · obtain rfl : index = MAX_TAG_SIZE := by omega
        rw [if_pos hlast, removeLabels_eq, List.map_take, List.take_append_of_le_length,
          List.map_take, List.take_take, Nat.min_eq_left (Nat.sub_le _ _)]
        rw [List.length_map, List.length_take]
        omega
      · have := MAX_TAG_SIZE_pos
        rw [if_neg hlast, ih (length_label h) (by omega) (by omega), text_take_label h,
          List.append_assoc, List.singleton_append]

theorem text_onBindData (holder : Holder) {tags : String} (hne : tags ≠ "") :
    (onBindData holder tags).children.map LabelView.text =
      if (split tags).length ≤ MAX_TAG_SIZE then
        split tags ++ (holder.children.drop (split tags).length).map LabelView.text
      else (split tags).take (MAX_TAG_SIZE - 1) := by
  rw [onBindData, if_neg hne]
  split
  · rename_i hle
    rw [text_bindLabels_of_le _ (Nat.zero_le _) (by omega), List.take_zero, List.map_nil,
      List.nil_append, Nat.zero_add]
  · rename_i hlt
    rw [text_bindLabels_of_lt _ (Nat.zero_le _) (Nat.zero_le _) (by omega), List.take_zero,
      List.map_nil, List.nil_append]

theorem showsTags_iff_text (holder : Holder) {tags : String} (hne : tags ≠ "") :
    ShowsTags (onBindData holder tags) ↔
      (onBindData holder tags).children.map LabelView.text = (split tags).take MAX_TAG_SIZE := by
  have hbind : (onBindData holder tags).tags = some tags ∧
      (onBindData holder tags).visible = true := by
    rw [onBindData, if_neg hne]
    exact ⟨rfl, rfl⟩
  constructor
  · intro hshows
    have htags := hshows tags hbind.1
    rw [if_neg hne] at htags
    exact htags.2
  · rintro htext tags' htags'
    obtain rfl := Option.some.inj (hbind.1.symm.trans htags')
    rw [if_neg hne]
    exact ⟨hbind.2, htext⟩

/-- The labels are those of the tags just when there was place for them. -/
theorem showsTags_onBindData_iff (holder : Holder) (tags : String) :
    ShowsTags (onBindData holder tags) ↔ Fits holder tags := by
  by_cases hempty : tags = ""
  · apply iff_of_true _ (.inl hempty)
    rintro tags' htags'
    rw [onBindData, if_pos hempty] at htags' ⊢
    obtain rfl := Option.some.inj htags'
    rw [if_pos hempty]
  · rw [showsTags_iff_text holder hempty, text_onBindData holder hempty, Fits,
      or_iff_right hempty]
    by_cases hle : (split tags).length ≤ MAX_TAG_SIZE
    · rw [if_pos hle, List.take_of_length_le hle, List.append_right_eq_self, List.map_eq_nil_iff,
        List.drop_eq_nil_iff, and_iff_right hle]
    · rw [if_neg hle]
      apply iff_of_false _ (fun hfits ↦ hle hfits.1)
      intro heq
      have hlength := congrArg List.length heq
      have := MAX_TAG_SIZE_pos
      rw [List.length_take, List.length_take] at hlength
      omega

/-- In a run of binds the labels are always those of the tags just when there is place for
them in each. -/
theorem showsTags_iff_fits (binds : List String) :
    StatesMeet step ShowsTags {} binds ↔ StepsMeet step Fits {} binds := by
  have hinit : ShowsTags {} := by
    rintro tags htags
    cases htags
  have htotal : ∀ u tags, ∃ v, step u tags = some v := fun u tags ↦ ⟨_, rfl⟩
  obtain ⟨holder, hrun⟩ := exists_run_of_total htotal {} binds
  apply statesMeet_iff_stepsMeet (I := fun _ ↦ True) (D := fun _ _ ↦ True)
    (fun _ _ _ _ _ _ _ _ ↦ trivial) _ trivial hinit stepsMeet_true hrun
  rintro u tags v - - - hstep
  obtain rfl := Option.some.inj hstep
  exact showsTags_onBindData_iff u tags

/-- Four tags leave two labels, and one tag after three leaves three. -/
theorem not_showsTags_fourTags :
    (∃ holder, run step {} ["a b c d"] = some holder ∧ ¬ ShowsTags holder) ∧
      ∃ holder, run step {} ["a b c", "d"] = some holder ∧ ¬ ShowsTags holder :=
  ⟨exists_run_of_any (by decide), exists_run_of_any (by decide)⟩

end GoodsItem

end HiApp.Home
