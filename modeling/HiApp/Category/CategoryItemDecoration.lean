import HiApp.Category.SpanSizeLookUp

/-!
# The titles over the groups

`CategoryItemDecoration` makes room for a title over the first row of a group.  It finds
the row by the first position with the name of the group.
-/

namespace HiApp.Category

open Runs GridLayout

/-- What `getItemOffsets` does to `outRect`. -/
inductive OutRect where
  | unset
  | title
  | zero
  deriving DecidableEq

structure CategoryItemDecoration where
  groupFirstPositions : String → Option ℕ := fun _ ↦ none
  spanCount : ℕ

namespace CategoryItemDecoration

/-- The name in front, which is null for the first position. -/
def preGroupName (callback : ℕ → Option String) (position : ℕ) : Option (Option String) :=
  if 0 < position then (callback (position - 1)).map some else some none

/-- `none` where the callback throws. -/
def getItemOffsets (d : CategoryItemDecoration) (callback : ℕ → Option String) (itemCount : ℕ)
    (adapterPosition : ℤ) : Option (CategoryItemDecoration × OutRect) := do
  if itemCount ≤ adapterPosition ∨ adapterPosition < 0 then
    return (d, .unset)
  let position := adapterPosition.toNat
  let groupName ← callback position
  let preGroupName ← preGroupName callback position
  let sameGroup := some groupName = preGroupName
  let groupFirstPositions :=
    if ¬ sameGroup ∧ (d.groupFirstPositions groupName).isNone then
      Function.update d.groupFirstPositions groupName (some position)
    else d.groupFirstPositions
  let firstRowPosition := (groupFirstPositions groupName).getD 0
  let samRow := 0 ≤ adapterPosition - firstRowPosition ∧
    adapterPosition - firstRowPosition ≤ (d.spanCount : ℤ) - 1
  return ({ d with groupFirstPositions := groupFirstPositions },
    if ¬ sameGroup ∨ samRow then .title else .zero)

end CategoryItemDecoration

/-- The grid after `clear`; `asked` counts the positions whose offsets were asked for. -/
structure Titles where
  spans : Spans
  decoration : CategoryItemDecoration := { spanCount := SPAN_COUNT }
  asked : ℕ := 0

namespace Titles

def clear (subcategoryList : List String) : Titles := { spans := .clear subcategoryList }

def callback (s : Titles) (position : ℕ) : Option String :=
  s.spans.lookUp.subcategoryList[position]?

def itemCount (s : Titles) : ℕ := s.spans.lookUp.subcategoryList.length

inductive Action where
  | getSpanSize (position : ℕ)
  | getItemOffsets (adapterPosition : ℤ)
  deriving DecidableEq

/-- Both are asked for a position the first time only in its turn. -/
def step (s : Titles) : Action → Option Titles
  | .getSpanSize position =>
      (s.spans.step position).map fun spans ↦ { s with spans := spans }
  | .getItemOffsets adapterPosition =>
      if adapterPosition ≤ s.asked ∨ s.itemCount ≤ adapterPosition then
        (s.decoration.getItemOffsets s.callback s.itemCount adapterPosition).map fun r ↦
          { s with
            decoration := r.1
            asked := if adapterPosition = s.asked ∧ s.asked < s.itemCount then s.asked + 1
              else s.asked }
      else none

/-- There is room for a title over a position just when it is in the row of `first`. -/
def AgreesAt (s : Titles) (first position : ℕ) : Prop :=
  ∃ d outRect, s.decoration.getItemOffsets s.callback s.itemCount position = some (d, outRect) ∧
    (outRect = .title ↔
      (cellAt SPAN_COUNT s.spans.sizes position).map Cell.row =
        (cellAt SPAN_COUNT s.spans.sizes first).map Cell.row)

instance {s : Titles} {first position : ℕ} : Decidable (s.AgreesAt first position) :=
  decidable_of_iff
    ((s.decoration.getItemOffsets s.callback s.itemCount position).any fun r ↦
      decide (r.2 = .title ↔
        (cellAt SPAN_COUNT s.spans.sizes position).map Cell.row =
          (cellAt SPAN_COUNT s.spans.sizes first).map Cell.row)) (by
    simp [AgreesAt, Option.any_eq_true])

/-- The first positions of the names that were asked for, and the sizes. -/
structure Inv (names : List String) (s : Titles) : Prop where
  spans : s.spans.Inv names
  spanCount : s.decoration.spanCount = SPAN_COUNT
  le : s.asked ≤ names.length
  first : ∀ name, s.decoration.groupFirstPositions name =
    if names.idxOf name < s.asked then some (names.idxOf name) else none

variable {names : List String} {s t : Titles} {position first last : ℕ}

theorem idxOf_le {name : String} (hget : names[position]? = some name) :
    names.idxOf name ≤ position := by
  obtain ⟨hlt, heq⟩ := List.getElem?_eq_some_iff.mp hget
  by_contra hbehind
  have hne := List.not_of_lt_findIdx (Nat.lt_of_not_le hbehind)
  simp [heq] at hne

theorem getElem?_idxOf {name : String} (hget : names[position]? = some name) :
    names[names.idxOf name]? = some name :=
  List.getElem?_idxOf (List.mem_of_getElem? hget)

theorem eq_of_idxOf_eq {name other : String} (hget : names[position]? = some name)
    (hother : names.idxOf other = position) : other = name := by
  have hlt : names.idxOf other < names.length :=
    hother ▸ (List.getElem?_eq_some_iff.mp hget).1
  have hthere := List.getElem?_idxOf (List.idxOf_lt_length_iff.mp hlt)
  rw [hother, hget] at hthere
  exact (Option.some.inj hthere).symm

/-- No other name has its first position there, and this one has it unless the name in
front is the same or it was kept before. -/
theorem Inv.first_update (h : s.Inv names) (hle : position ≤ s.asked) {name : String}
    (hget : names[position]? = some name) {starts : Prop} [Decidable starts]
    (hstarts : starts ↔ ∀ i, i + 1 = position → names[i]? ≠ some name) (other : String) :
    (if starts ∧ (s.decoration.groupFirstPositions name).isNone then
        Function.update s.decoration.groupFirstPositions name (some position)
      else s.decoration.groupFirstPositions) other =
      if names.idxOf other < s.asked ∨ names.idxOf other = position then
        some (names.idxOf other) else none := by
  have hfirst := idxOf_le hget
  by_cases hother : names.idxOf other = position
  · obtain rfl := eq_of_idxOf_eq hget hother
    have hstart : starts := hstarts.mpr fun i hi hsame ↦ by
      have := idxOf_le hsame
      omega
    rw [if_pos (Or.inr hother), hother]
    by_cases hkept : position < s.asked
    · rw [if_neg (by simp [h.first, hother, hkept]), h.first, hother, if_pos hkept]
    · rw [if_pos ⟨hstart, by simp [h.first, hother, hkept]⟩, Function.update_self]
  · have hiff : names.idxOf other < s.asked ∨ names.idxOf other = position ↔
        names.idxOf other < s.asked := or_iff_left hother
    rw [if_congr hiff rfl rfl, ← h.first other]
    split
    · rename_i hnew
      have hne : other ≠ name := by
        rintro rfl
        have hlate : ¬ names.idxOf other < s.asked := by simpa [h.first] using hnew.2
        omega
      rw [Function.update_of_ne hne]
    · rfl

/-- A position that is asked again, or next: then the first position of its name is kept. -/
theorem Inv.getItemOffsets_eq (h : s.Inv names) (hle : position ≤ s.asked) {name : String}
    (hget : names[position]? = some name) :
    ∃ d outRect, s.decoration.getItemOffsets s.callback s.itemCount position =
        some (d, outRect) ∧
      (outRect = .title ↔ (∀ i, i + 1 = position → names[i]? ≠ some name) ∨
        position < names.idxOf name + SPAN_COUNT) ∧
      d.spanCount = SPAN_COUNT ∧ ∀ other, d.groupFirstPositions other =
        if names.idxOf other < s.asked ∨ names.idxOf other = position then
          some (names.idxOf other) else none := by
  have hlt : position < names.length := (List.getElem?_eq_some_iff.mp hget).1
  have hcallback : s.callback = fun i ↦ names[i]? := by
    funext i
    rw [callback, h.spans.list]
  have hcount : s.itemCount = names.length := by rw [itemCount, h.spans.list]
  obtain ⟨pre, hpre, hstarts⟩ : ∃ pre,
      CategoryItemDecoration.preGroupName (fun i ↦ names[i]?) position = some pre ∧
        (¬ some name = pre ↔ ∀ i, i + 1 = position → names[i]? ≠ some name) := by
    cases position with
    | zero => exact ⟨none, rfl, by simp⟩
    | succ i =>
        obtain ⟨name, hi⟩ : ∃ name, names[i]? = some name :=
          ⟨_, List.getElem?_eq_getElem (Nat.lt_of_succ_lt hlt)⟩
        refine ⟨names[i]?, by simp [CategoryItemDecoration.preGroupName, hi], ?_⟩
        simp [eq_comm]
  have hfirst := h.first_update hle hget hstarts
  have hlow := idxOf_le hget
  unfold CategoryItemDecoration.getItemOffsets
  rw [hcallback, hcount, if_neg (by omega)]
  simp only [Int.toNat_natCast, hget, hpre, Option.bind_eq_bind, Option.bind_some]
  refine ⟨_, _, rfl, ?_, h.spanCount, hfirst⟩
  have hkept : names.idxOf name < s.asked ∨ names.idxOf name = position := by omega
  rw [hfirst name, if_pos hkept, Option.getD_some, h.spanCount, ← hstarts]
  have hrow : (0 ≤ (position : ℤ) - names.idxOf name ∧
      (position : ℤ) - names.idxOf name ≤ (SPAN_COUNT : ℤ) - 1) ↔
        position < names.idxOf name + SPAN_COUNT := by omega
  rw [if_congr (or_congr Iff.rfl hrow) rfl rfl]
  split
  · rename_i hroom
    exact iff_of_true rfl hroom
  · rename_i hnone
    exact iff_of_false (by decide) hnone

theorem Inv.step (h : s.Inv names) {action : Action} (hstep : s.step action = some t) :
    t.Inv names := by
  cases action with
  | getSpanSize position =>
      obtain ⟨spans, hspans, rfl⟩ := Option.map_eq_some_iff.mp hstep
      exact ⟨h.spans.step hspans, h.spanCount, h.le, h.first⟩
  | getItemOffsets adapterPosition =>
      obtain ⟨hturn, hmap⟩ := Option.ite_none_right_eq_some.mp hstep
      obtain ⟨⟨d, outRect⟩, hanswer, ht⟩ := Option.map_eq_some_iff.mp hmap
      obtain rfl := ht
      have hcount : s.itemCount = names.length := by rw [itemCount, h.spans.list]
      by_cases hrange : s.itemCount ≤ adapterPosition ∨ adapterPosition < 0
      · unfold CategoryItemDecoration.getItemOffsets at hanswer
        rw [if_pos hrange] at hanswer
        obtain ⟨rfl, rfl⟩ := Prod.mk.inj (Option.some.inj hanswer)
        have hsame : ¬ (adapterPosition = s.asked ∧ s.asked < s.itemCount) := by omega
        simp only [hsame, if_false]
        exact h
      · obtain ⟨position, rfl⟩ := Int.eq_ofNat_of_zero_le (by omega : 0 ≤ adapterPosition)
        have hlt : position < names.length := by omega
        have hget : names[position]? = some names[position] := List.getElem?_eq_getElem hlt
        obtain ⟨d', outRect', hanswer', -, hspanCount, hfirst⟩ :=
          h.getItemOffsets_eq (by omega) hget
        rw [hanswer] at hanswer'
        obtain ⟨rfl, rfl⟩ := Prod.mk.inj (Option.some.inj hanswer')
        have hle := h.le
        have hnext : (position : ℤ) = s.asked ∧ s.asked < s.itemCount ↔ position = s.asked := by
          omega
        simp only [hnext]
        refine ⟨h.spans, hspanCount, ?_, fun name ↦ ?_⟩
        · show (if position = s.asked then s.asked + 1 else s.asked) ≤ names.length
          split <;> omega
        · rw [hfirst name]
          apply if_congr _ rfl rfl
          show _ ↔ names.idxOf name < if position = s.asked then s.asked + 1 else s.asked
          split <;> omega

theorem Inv.clear (names : List String) : (clear names).Inv names :=
  ⟨.clear names, rfl, Nat.zero_le _, fun _ ↦ rfl⟩

/-- The rows of a run are its items by `SPAN_COUNT`. -/
theorem row_eq_iff (h : s.spans.Inv names) (hmax : MaximalRun names first last)
    (hfirst : first ≤ position) (hlast : position ≤ last)
    (hsize : position < s.spans.sizes.length) :
    (cellAt SPAN_COUNT s.spans.sizes position).map Cell.row =
        (cellAt SPAN_COUNT s.spans.sizes first).map Cell.row ↔
      position < first + SPAN_COUNT := by
  obtain ⟨i, rfl⟩ := Nat.exists_eq_add_of_le hfirst
  have hlt : first < s.spans.sizes.length := by omega
  rw [cellAt_eq Spans.SPAN_COUNT_pos h.fits (h.sizes_eq hsize),
    cellAt_eq Spans.SPAN_COUNT_pos h.fits (h.sizes_eq hlt),
    h.sum_take_of_run hmax hlast (Nat.le_of_lt hsize)]
  have hstart := h.sum_take_first hmax (Nat.le_of_lt hlt)
  generalize (s.spans.sizes.take first).sum = used at hstart
  obtain ⟨row, rfl⟩ := Nat.dvd_of_mod_eq_zero hstart
  rw [Option.map_some, Option.map_some, Option.some.injEq, Nat.mul_add_div Spans.SPAN_COUNT_pos,
    Nat.mul_div_cancel_left row Spans.SPAN_COUNT_pos, Nat.add_eq_left, Nat.div_eq_zero_iff]
  have := Spans.SPAN_COUNT_pos
  omega

/-- Room is made for a title just over the first row of a run, except that it is not over
the other items of that row when the name has been there before. -/
theorem agreesAt_iff {actions : List Action} (hrun : run step (clear names) actions = some s)
    (hmax : MaximalRun names first last) (hfirst : first ≤ position) (hlast : position ≤ last)
    (hsize : position < s.spans.sizes.length) (hasked : position ≤ s.asked) :
    s.AgreesAt first position ↔
      ¬ (first < position ∧ position < first + SPAN_COUNT ∧
        ∃ earlier < first, names[earlier]? = names[first]?) := by
  have h : s.Inv names := run_invariant' (fun _ _ _ hu hstep ↦ hu.step hstep) (.clear names) hrun
  obtain ⟨name, hname⟩ : ∃ name, names[first]? = some name :=
    ⟨_, List.getElem?_eq_getElem (Nat.lt_of_le_of_lt hmax.le hmax.lt)⟩
  have hget : names[position]? = some name := by
    obtain ⟨i, rfl⟩ := Nat.exists_eq_add_of_le hfirst
    rw [hmax.getElem?_eq hlast, hname]
  have hagrees : s.AgreesAt first position ↔
      ((∀ i, i + 1 = position → names[i]? ≠ some name) ∨
        position < names.idxOf name + SPAN_COUNT ↔ position < first + SPAN_COUNT) := by
    obtain ⟨d, outRect, hanswer, htitle, -⟩ := h.getItemOffsets_eq hasked hget
    rw [AgreesAt, hanswer, row_eq_iff h.spans hmax hfirst hlast hsize, ← htitle]
    simp
  have hstarts : (∀ i, i + 1 = position → names[i]? ≠ some name) ↔ position = first := by
    constructor
    · intro hne
      by_contra hlater
      obtain ⟨i, rfl⟩ := Nat.exists_eq_add_of_lt (Nat.lt_of_le_of_ne hfirst (Ne.symm hlater))
      exact hne (first + i) rfl ((hmax.getElem?_eq (by omega)).trans hname)
    · rintro rfl i rfl hsame
      exact hmax.before i rfl (hsame.trans hname.symm)
  have hearlier : (∃ earlier < first, names[earlier]? = names[first]?) ↔
      names.idxOf name < first := by
    rw [hname]
    constructor
    · rintro ⟨earlier, hlt, hsame⟩
      exact Nat.lt_of_le_of_lt (idxOf_le hsame) hlt
    · intro hlt
      exact ⟨_, hlt, getElem?_idxOf hname⟩
  -- between the first position of the name and a later run there is another name
  have hapart : names.idxOf name + 1 ≠ first := by
    rintro hnext
    refine hmax.before _ hnext ?_
    rw [getElem?_idxOf hname, hnext, hname]
  rw [hagrees, hstarts, hearlier]
  have := idxOf_le hname
  have : SPAN_COUNT = 3 := rfl
  omega

theorem agreesAt_iff_twoItems :
    ∃ s, run step (clear ["a", "a", "b"])
      [.getSpanSize 0, .getSpanSize 1, .getItemOffsets 0] = some s ∧ s.AgreesAt 0 1 := by
  have hruns : (run step (clear ["a", "a", "b"])
      [.getSpanSize 0, .getSpanSize 1, .getItemOffsets 0]).any (fun s ↦
        decide (1 < s.spans.sizes.length ∧ 1 ≤ s.asked)) = true := by
    decide
  have hmax : MaximalRun ["a", "a", "b"] 0 1 := by
    refine ⟨by decide, by decide, fun i _ hi ↦ ?_, by simp, by decide⟩
    obtain rfl := Nat.lt_one_iff.mp hi
    rfl
  obtain ⟨s, hs, hsize, hasked⟩ := exists_run_of_any hruns
  refine ⟨s, hs, (agreesAt_iff hs hmax (by decide) (by decide) hsize hasked).mpr ?_⟩
  rintro ⟨-, -, earlier, hlt, -⟩
  exact Nat.not_lt_zero earlier hlt

/-- The second item of a later run of a name is in its first row, but has no room. -/
theorem not_agreesAt_laterRun :
    MaximalRun ["a", "b", "a", "a"] 2 3 ∧
      ∃ s, run step (clear ["a", "b", "a", "a"])
        [.getSpanSize 0, .getSpanSize 1, .getSpanSize 2, .getSpanSize 3, .getItemOffsets 0,
          .getItemOffsets 1, .getItemOffsets 2, .getItemOffsets 3] = some s ∧
        ¬ s.AgreesAt 2 3 := by
  refine ⟨⟨by decide, by decide, fun i hi hlt ↦ ?_, fun i hi ↦ ?_, by decide⟩,
    exists_run_of_any (by decide)⟩
  · obtain rfl : i = 2 := by omega
    rfl
  · obtain rfl : i = 1 := by omega
    decide

end Titles

end HiApp.Category
