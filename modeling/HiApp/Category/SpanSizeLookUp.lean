import HiApp.Lib.GridLayout
import HiApp.Lib.Runs
import HiApp.Lib.SparseArray

/-!
# The rows of the sub-categories

The last item of a group is made as wide as what is left of its row.  How much wider than
one column the last items up to it are is kept under its position, so that the columns in
use before an item are known without the sizes of all items in front.
-/

namespace HiApp.Category

open Runs GridLayout

def SPAN_COUNT : ℕ := 3

/-- `subcategoryList` has the names of the groups. -/
structure SpanSizeLookUp where
  subcategoryList : List String
  groupSpanSizeOffset : SparseArray ℕ := .empty

namespace SpanSizeLookUp

/-- The offset of the group in front, which was kept last, or just before that of this
position when there is one. -/
def lastGroupOffset (l : SpanSizeLookUp) (position : ℕ) : Option ℕ :=
  let indexOfKey := l.groupSpanSizeOffset.indexOfKey position
  let size := l.groupSpanSizeOffset.size
  if size = 0 then some 0
  else if 0 ≤ indexOfKey then
    if indexOfKey = 0 then some 0
    else l.groupSpanSizeOffset.valueAt (indexOfKey - 1).toNat
  else l.groupSpanSizeOffset.valueAt (size - 1)

/-- `none` where a list or an array throws.  There is no next name behind the last one,
so that it equals none. -/
def getSpanSize (l : SpanSizeLookUp) (position : ℕ) : Option (SpanSizeLookUp × ℕ) := do
  let groupName ← l.subcategoryList[position]?
  let nextGroupName := l.subcategoryList[position + 1]?
  if some groupName = nextGroupName then
    return (l, 1)
  else
    let indexOfKey := l.groupSpanSizeOffset.indexOfKey position
    let lastGroupOffset ← l.lastGroupOffset position
    let spanSize := SPAN_COUNT - (position + lastGroupOffset) % SPAN_COUNT
    if indexOfKey < 0 then
      let groupOffset := lastGroupOffset + spanSize - 1
      return ({ l with
        groupSpanSizeOffset := l.groupSpanSizeOffset.put position groupOffset }, spanSize)
    else
      return (l, spanSize)

theorem lt_of_getSpanSize {l l' : SpanSizeLookUp} {position size : ℕ}
    (h : l.getSpanSize position = some (l', size)) : position < l.subcategoryList.length := by
  obtain ⟨groupName, hget, -⟩ := Option.bind_eq_some_iff.mp h
  exact (List.getElem?_eq_some_iff.mp hget).1

end SpanSizeLookUp

/-- The look-up after `clear`, with the sizes that it has answered, of the first positions. -/
structure Spans where
  lookUp : SpanSizeLookUp
  sizes : List ℕ := []

namespace Spans

def clear (subcategoryList : List String) : Spans := ⟨⟨subcategoryList, .empty⟩, []⟩

/-- A position is asked for the first time only in its turn. -/
def step (s : Spans) (position : ℕ) : Option Spans :=
  if position ≤ s.sizes.length then
    (s.lookUp.getSpanSize position).map fun r ↦
      ⟨r.1, if position = s.sizes.length then s.sizes ++ [r.2] else s.sizes⟩
  else none

end Spans

/-- The positions from `first` to `last` have one name, and their neighbours have others. -/
structure MaximalRun (names : List String) (first last : ℕ) : Prop where
  le : first ≤ last
  lt : last < names.length
  same : ∀ i, first ≤ i → i < last → names[i]? = names[i + 1]?
  before : ∀ i, i + 1 = first → names[i]? ≠ names[i + 1]?
  behind : names[last]? ≠ names[last + 1]?

/-- All names from the first to a position of a run are the same. -/
theorem MaximalRun.getElem?_eq {names : List String} {first last i : ℕ}
    (hmax : MaximalRun names first last) (hlast : first + i ≤ last) :
    names[first + i]? = names[first]? := by
  induction i with
  | zero => rfl
  | succ i ih =>
      rw [← ih (Nat.le_of_lt hlast), ← Nat.add_assoc]
      exact (hmax.same (first + i) (Nat.le_add_right first i) hlast).symm

namespace Spans

/-- Every position that is asked again or next has a size, the same as before, and with the
sizes so far a run of equal names starts in column 0 and fills its last row. -/
structure FillsRows (names : List String) (s : Spans) : Prop where
  answer : ∀ position, position < names.length → position ≤ s.sizes.length →
    ∃ l size, s.lookUp.getSpanSize position = some (l, size) ∧ 1 ≤ size ∧ size ≤ SPAN_COUNT ∧
      ∀ size', s.sizes[position]? = some size' → size = size'
  first : ∀ first last, MaximalRun names first last → first < s.sizes.length →
    ∃ row, cellAt SPAN_COUNT s.sizes first = some ⟨row, 0⟩
  last : ∀ first last, MaximalRun names first last → last < s.sizes.length →
    ∃ c size, cellAt SPAN_COUNT s.sizes last = some c ∧ s.sizes[last]? = some size ∧
      c.column + size = SPAN_COUNT

/-! ## The offsets -/

/-- The size of an item in front of which so many columns are in use. -/
def spanAfter (names : List String) (used position : ℕ) : ℕ :=
  if names[position]? = names[position + 1]? then 1 else SPAN_COUNT - used % SPAN_COUNT

/-- The last positions of groups in front of a position. -/
def lasts (names : List String) (position : ℕ) : List ℕ :=
  (List.range position).filter fun i ↦ names[i]? ≠ names[i + 1]?

/-- What the items up to a position take over one column each. -/
def groupOffset (sizes : List ℕ) (position : ℕ) : ℕ :=
  (sizes.take (position + 1)).sum - (position + 1)

/-- The offset of the group in front of that of a position. -/
def offsetBefore (names : List String) (sizes : List ℕ) (position : ℕ) : ℕ :=
  ((lasts names position).getLast?.map (groupOffset sizes)).getD 0

/-- The sizes are what is left of the rows, and the offsets belong to them. -/
structure Inv (names : List String) (s : Spans) : Prop where
  list : s.lookUp.subcategoryList = names
  le : s.sizes.length ≤ names.length
  size : ∀ position size, s.sizes[position]? = some size →
    size = spanAfter names (s.sizes.take position).sum position
  entries : s.lookUp.groupSpanSizeOffset.entries =
    (lasts names s.sizes.length).map fun i : ℕ ↦ ((i : ℤ), groupOffset s.sizes i)

variable {names : List String} {s t : Spans} {position : ℕ}

theorem SPAN_COUNT_pos : 0 < SPAN_COUNT := by decide

theorem spanAfter_pos (names : List String) (used position : ℕ) :
    0 < spanAfter names used position := by
  have := Nat.mod_lt used SPAN_COUNT_pos
  unfold spanAfter
  split <;> omega

theorem add_spanAfter_le (names : List String) (used position : ℕ) :
    used % SPAN_COUNT + spanAfter names used position ≤ SPAN_COUNT := by
  have := Nat.mod_lt used SPAN_COUNT_pos
  unfold spanAfter
  split <;> omega

theorem lasts_succ (names : List String) (position : ℕ) :
    lasts names (position + 1) = lasts names position ++
      if names[position]? ≠ names[position + 1]? then [position] else [] := by
  rw [lasts, List.range_succ, List.filter_append, ← lasts]
  by_cases hlast : names[position]? ≠ names[position + 1]?
  · simp [hlast]
  · simp [hlast]

theorem mem_lasts {i : ℕ} :
    i ∈ lasts names position ↔ i < position ∧ names[i]? ≠ names[i + 1]? := by
  simp [lasts]

theorem lasts_eq_append {n : ℕ} (hlt : position < n)
    (hlast : names[position]? ≠ names[position + 1]?) :
    ∃ rest, lasts names n = lasts names position ++ position :: rest := by
  induction hlt with
  | refl => exact ⟨[], by rw [lasts_succ, if_pos hlast]⟩
  | step _ ih =>
      obtain ⟨rest, hrest⟩ := ih
      rw [lasts_succ, hrest, List.append_assoc, List.cons_append]
      exact ⟨_, rfl⟩

theorem sum_take_succ {sizes : List ℕ} {size : ℕ} (hget : sizes[position]? = some size) :
    (sizes.take (position + 1)).sum = (sizes.take position).sum + size := by
  rw [List.take_add_one, hget, Option.toList_some, List.sum_append, List.sum_singleton]

namespace Inv

theorem size_pos (h : s.Inv names) {size : ℕ} (hget : s.sizes[position]? = some size) :
    0 < size := by
  rw [h.size position size hget]
  exact spanAfter_pos _ _ _

theorem fits (h : s.Inv names) : Fits SPAN_COUNT s.sizes := by
  intro position size hget
  rw [h.size position size hget]
  exact add_spanAfter_le _ _ _

/-- An offset and the position are the columns in use. -/
theorem add_offsetBefore (h : s.Inv names) (hle : position ≤ s.sizes.length) :
    position + offsetBefore names s.sizes position = (s.sizes.take position).sum := by
  induction position with
  | zero => rfl
  | succ position ih =>
      have ih := ih (Nat.le_of_lt hle)
      have hget : s.sizes[position]? = some s.sizes[position] := List.getElem?_eq_getElem hle
      have hsum := sum_take_succ hget
      have hpos := h.size_pos hget
      have hsize := h.size position _ hget
      unfold offsetBefore at ih ⊢
      rw [lasts_succ]
      by_cases hlast : names[position]? ≠ names[position + 1]?
      · rw [if_pos hlast, List.getLast?_concat, Option.map_some, Option.getD_some, groupOffset]
        omega
      · rw [if_neg hlast, List.append_nil, hsum]
        rw [spanAfter, if_pos (not_not.mp hlast)] at hsize
        omega

theorem lt_of_mem_keys (h : s.Inv names) {key : ℤ}
    (hkey : key ∈ s.lookUp.groupSpanSizeOffset.keys) : key < s.sizes.length := by
  rw [SparseArray.keys, h.entries, List.map_map, List.mem_map] at hkey
  obtain ⟨i, hi, rfl⟩ := hkey
  exact Int.ofNat_lt.mpr (mem_lasts.mp hi).1

end Inv

/-- The last of the entries in front of a position has the offset of the group before. -/
theorem valueAt_eq_offsetBefore {offsets : SparseArray ℕ} {sizes : List ℕ} {post : List (ℤ × ℕ)}
    (hentries : offsets.entries =
      (lasts names position).map (fun i : ℕ ↦ ((i : ℤ), groupOffset sizes i)) ++ post)
    (hne : (lasts names position).length ≠ 0) :
    offsets.valueAt ((lasts names position).length - 1) =
      some (offsetBefore names sizes position) := by
  have hlt : (lasts names position).length - 1 < (lasts names position).length := by omega
  rw [SparseArray.valueAt_of_entries hentries (by simpa using hlt), offsetBefore,
    List.getLast?_eq_getElem?, List.getElem?_eq_getElem hlt]
  simp [List.getElem?_eq_getElem hlt]

theorem offsetBefore_of_lasts_nil {sizes : List ℕ} (hnil : (lasts names position).length = 0) :
    offsetBefore names sizes position = 0 := by
  rw [offsetBefore, List.length_eq_zero_iff.mp hnil]
  rfl

namespace Inv

/-- Whether the position has its own offset or not, that of the group before is found. -/
theorem lastGroupOffset_eq (h : s.Inv names) (hle : position ≤ s.sizes.length)
    (hlast : names[position]? ≠ names[position + 1]?) :
    s.lookUp.lastGroupOffset position = some (offsetBefore names s.sizes position) ∧
      (s.lookUp.groupSpanSizeOffset.indexOfKey position < 0 ↔ position = s.sizes.length) := by
  have hentries := h.entries
  have hsize : s.lookUp.groupSpanSizeOffset.size = (lasts names s.sizes.length).length := by
    rw [SparseArray.size, hentries, List.length_map]
  rcases Nat.lt_or_eq_of_le hle with hlt | rfl
  · obtain ⟨rest, hrest⟩ := lasts_eq_append hlt hlast
    rw [hrest, List.map_append, List.map_cons] at hentries
    have hindex := SparseArray.indexOfKey_of_entries hentries
    rw [List.length_map] at hindex
    refine ⟨?_, iff_of_false (by omega) (Nat.ne_of_lt hlt)⟩
    have hpos : s.lookUp.groupSpanSizeOffset.size ≠ 0 := by
      rw [hsize, hrest]
      simp
    unfold SpanSizeLookUp.lastGroupOffset
    simp only [hindex, if_neg hpos, if_pos (Int.natCast_nonneg _)]
    split
    · rename_i hzero
      rw [offsetBefore_of_lasts_nil (by omega)]
    · rename_i hne
      rw [← valueAt_eq_offsetBefore hentries (by omega)]
      congr 1
      omega
  · have hindex : s.lookUp.groupSpanSizeOffset.indexOfKey s.sizes.length < 0 :=
      SparseArray.indexOfKey_neg_iff.mpr fun hkey ↦ Int.lt_irrefl _ (h.lt_of_mem_keys hkey)
    refine ⟨?_, iff_of_true hindex rfl⟩
    unfold SpanSizeLookUp.lastGroupOffset
    simp only [hsize, if_neg (Int.not_le.mpr hindex)]
    split
    · rename_i hzero
      rw [offsetBefore_of_lasts_nil hzero]
    · rename_i hne
      exact valueAt_eq_offsetBefore (hentries.trans (List.append_nil _).symm) hne

/-- What is answered, and that only the last of a group leaves an offset. -/
theorem getSpanSize_eq (h : s.Inv names) (hle : position ≤ s.sizes.length)
    (hlt : position < names.length) :
    s.lookUp.getSpanSize position =
      some (if position = s.sizes.length ∧ names[position]? ≠ names[position + 1]? then
          { s.lookUp with
            groupSpanSizeOffset := s.lookUp.groupSpanSizeOffset.put position
              (offsetBefore names s.sizes position +
                spanAfter names (s.sizes.take position).sum position - 1) }
        else s.lookUp, spanAfter names (s.sizes.take position).sum position) := by
  have hget : names[position]? = some names[position] := List.getElem?_eq_getElem hlt
  unfold SpanSizeLookUp.getSpanSize spanAfter
  rw [h.list, hget, Option.bind_eq_bind, Option.bind_some]
  by_cases hlast : some names[position] = names[position + 1]?
  · simp [hlast]
  · obtain ⟨hoffset, hindex⟩ := h.lastGroupOffset_eq hle (hget ▸ hlast)
    simp only [hoffset, Option.bind_eq_bind, Option.bind_some, h.add_offsetBefore hle, hindex,
      ne_eq, hlast, not_false_eq_true, and_true, if_false]
    split
    · rw [h.list]
      rfl
    · rfl

/-- A size that is asked again is the same. -/
theorem sizes_eq (h : s.Inv names) (hlt : position < s.sizes.length) :
    s.sizes[position]? = some (spanAfter names (s.sizes.take position).sum position) := by
  have hget : s.sizes[position]? = some s.sizes[position] := List.getElem?_eq_getElem hlt
  rw [hget, h.size position _ hget]

/-- The next size, and its offset when it is the last of a group. -/
theorem concat (h : s.Inv names) {size : ℕ} {l : SpanSizeLookUp}
    (hlt : s.sizes.length < names.length)
    (hsize : size = spanAfter names s.sizes.sum s.sizes.length)
    (hlist : l.subcategoryList = names)
    (hentries : l.groupSpanSizeOffset.entries = s.lookUp.groupSpanSizeOffset.entries ++
      if names[s.sizes.length]? ≠ names[s.sizes.length + 1]? then
        [((s.sizes.length : ℤ), groupOffset (s.sizes ++ [size]) s.sizes.length)] else []) :
    Inv names ⟨l, s.sizes ++ [size]⟩ := by
  refine ⟨hlist, ?_, ?_, ?_⟩
  · rw [List.length_append, List.length_singleton]
    exact hlt
  · intro i size' hget
    rcases Nat.lt_or_ge i s.sizes.length with hi | hi
    · rw [List.getElem?_append_left hi] at hget
      rw [List.take_append_of_le_length (Nat.le_of_lt hi)]
      exact h.size i size' hget
    · obtain ⟨hi', hget⟩ := List.getElem?_eq_some_iff.mp hget
      obtain rfl : i = s.sizes.length := by
        rw [List.length_append, List.length_singleton] at hi'
        omega
      rw [List.take_left, ← hsize, ← hget, List.getElem_concat_length rfl]
  · rw [hentries, h.entries, List.length_append, List.length_singleton, lasts_succ, List.map_append]
    congr 1
    · apply List.map_congr_left
      intro i hi
      rw [groupOffset, groupOffset, List.take_append_of_le_length (mem_lasts.mp hi).1]
    · split <;> rfl

theorem step (h : s.Inv names) (hstep : s.step position = some t) : t.Inv names := by
  obtain ⟨hle, hmap⟩ := Option.ite_none_right_eq_some.mp hstep
  obtain ⟨⟨l, size⟩, hanswer, ht⟩ := Option.map_eq_some_iff.mp hmap
  obtain rfl := ht
  have hlt : position < names.length := h.list ▸ SpanSizeLookUp.lt_of_getSpanSize hanswer
  rw [h.getSpanSize_eq hle hlt] at hanswer
  obtain ⟨rfl, rfl⟩ := Prod.mk.inj (Option.some.inj hanswer)
  by_cases hfirst : position = s.sizes.length
  · subst hfirst
    simp only [true_and, if_true, List.take_length]
    apply h.concat hlt rfl
    · split
      · exact h.list
      · exact h.list
    · split
      · have hgroup : groupOffset (s.sizes ++ [spanAfter names s.sizes.sum s.sizes.length])
            s.sizes.length = offsetBefore names s.sizes s.sizes.length +
              spanAfter names s.sizes.sum s.sizes.length - 1 := by
          have hoffset := h.add_offsetBefore (Nat.le_refl s.sizes.length)
          rw [List.take_length] at hoffset
          rw [groupOffset, List.take_of_length_le (by simp), List.sum_append, List.sum_singleton]
          omega
        rw [SparseArray.entries_put_of_lt fun _ ↦ h.lt_of_mem_keys, hgroup]
      · rw [List.append_nil]
  · simp only [hfirst, false_and, if_false]
    exact h

theorem clear (names : List String) : (clear names).Inv names :=
  ⟨rfl, Nat.zero_le _, fun _ _ hget ↦ by simp [Spans.clear] at hget, rfl⟩

/-- A run of equal names starts with a row: the last item in front of it has filled one. -/
theorem sum_take_first (h : s.Inv names) {first last : ℕ} (hrun : MaximalRun names first last)
    (hle : first ≤ s.sizes.length) : (s.sizes.take first).sum % SPAN_COUNT = 0 := by
  cases first with
  | zero => rfl
  | succ position =>
      have hsize := h.sizes_eq hle
      rw [sum_take_succ hsize, spanAfter, if_neg (hrun.before position rfl)]
      generalize (s.sizes.take position).sum = used
      have hlt := Nat.mod_lt used SPAN_COUNT_pos
      have hrow : used + (SPAN_COUNT - used % SPAN_COUNT) =
          SPAN_COUNT * (used / SPAN_COUNT) + SPAN_COUNT := by
        have := Nat.div_add_mod used SPAN_COUNT
        omega
      rw [hrow, Nat.mul_add_mod, Nat.mod_self]

/-- Within a run the columns are used one by one. -/
theorem sum_take_of_run (h : s.Inv names) {first last i : ℕ} (hrun : MaximalRun names first last)
    (hlast : first + i ≤ last) (hle : first + i ≤ s.sizes.length) :
    (s.sizes.take (first + i)).sum = (s.sizes.take first).sum + i := by
  induction i with
  | zero => rfl
  | succ i ih =>
      have hsame := hrun.same (first + i) (Nat.le_add_right first i) hlast
      have hget : s.sizes[first + i]? = _ := h.sizes_eq hle
      rw [← Nat.add_assoc, sum_take_succ hget, spanAfter, if_pos hsame,
        ih (Nat.le_of_lt hlast) (Nat.le_of_lt hle), Nat.add_assoc]

end Inv

theorem fillsRows_of_run {queries : List ℕ} (hrun : run step (clear names) queries = some s) :
    FillsRows names s := by
  have h : s.Inv names := run_invariant' (fun _ _ _ hu hstep ↦ hu.step hstep) (.clear names) hrun
  refine ⟨fun position hlt hle ↦ ?_, fun first last hrow hlt ↦ ?_, fun first last hrow hlt ↦ ?_⟩
  · have hbound := add_spanAfter_le names (s.sizes.take position).sum position
    refine ⟨_, _, h.getSpanSize_eq hle hlt, spanAfter_pos _ _ _, by omega, ?_⟩
    intro size' hget
    exact (h.size position size' hget).symm
  · have hget : s.sizes[first]? = some s.sizes[first] := List.getElem?_eq_getElem hlt
    refine ⟨(s.sizes.take first).sum / SPAN_COUNT, ?_⟩
    rw [cellAt_eq SPAN_COUNT_pos h.fits hget, h.sum_take_first hrow (Nat.le_of_lt hlt)]
  · have hget := h.sizes_eq hlt
    refine ⟨_, _, cellAt_eq SPAN_COUNT_pos h.fits hget, hget, ?_⟩
    rw [spanAfter, if_neg hrow.behind]
    exact Nat.add_sub_of_le (Nat.le_of_lt (Nat.mod_lt _ SPAN_COUNT_pos))

theorem fillsRows_of_run_twoGroups :
    ∃ s, run step (clear ["a", "a", "b"]) [0, 1, 0, 2, 1] = some s ∧ s.sizes = [1, 2, 3] ∧
      FillsRows ["a", "a", "b"] s := by
  have hruns : (run step (clear ["a", "a", "b"]) [0, 1, 0, 2, 1]).any (fun s ↦
      decide (s.sizes = [1, 2, 3])) = true := by
    decide
  obtain ⟨s, hs, hsizes⟩ := exists_run_of_any hruns
  exact ⟨s, hs, hsizes, fillsRows_of_run hs⟩

end Spans

end HiApp.Category
