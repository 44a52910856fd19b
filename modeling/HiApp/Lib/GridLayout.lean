import Mathlib.Algebra.BigOperators.Group.List.Basic
import Mathlib.Algebra.GroupWithZero.Nat
import Mathlib.Data.List.Induction

/-!
# Items in the rows of a grid

Items that take some of the columns of a row are laid out one behind the other.  An item
for which the row has too few columns left goes to the next one.
-/

namespace HiApp

/-- A place in the grid. -/
structure Cell where
  row : ℕ
  column : ℕ
  deriving DecidableEq, Repr

namespace GridLayout

/-- Where an item of `size` columns goes when the next free cell is `c`. -/
def place (spanCount : ℕ) (c : Cell) (size : ℕ) : Cell :=
  if c.column + size ≤ spanCount then c else ⟨c.row + 1, 0⟩

/-- The next free cell after an item that starts at `c`. -/
def after (spanCount : ℕ) (c : Cell) (size : ℕ) : Cell :=
  if c.column + size = spanCount then ⟨c.row + 1, 0⟩ else ⟨c.row, c.column + size⟩

/-- The next free cell after items of these sizes. -/
def cursor (spanCount : ℕ) (sizes : List ℕ) : Cell :=
  sizes.foldl (fun c size ↦ after spanCount (place spanCount c size) size) ⟨0, 0⟩

/-- Where the item at a position starts. -/
def cellAt (spanCount : ℕ) (sizes : List ℕ) (position : ℕ) : Option Cell :=
  sizes[position]?.map (place spanCount (cursor spanCount (sizes.take position)))

/-- No item has to leave columns free. -/
def Fits (spanCount : ℕ) (sizes : List ℕ) : Prop :=
  ∀ position size, sizes[position]? = some size →
    (sizes.take position).sum % spanCount + size ≤ spanCount

variable {spanCount : ℕ} {sizes : List ℕ} {size : ℕ}

theorem Fits.of_concat (h : Fits spanCount (sizes ++ [size])) :
    Fits spanCount sizes ∧ sizes.sum % spanCount + size ≤ spanCount := by
  constructor
  · intro position size' hget
    obtain ⟨hlt, -⟩ := List.getElem?_eq_some_iff.mp hget
    have hfits := h position size' (by rw [List.getElem?_append_left hlt, hget])
    rwa [List.take_append_of_le_length (Nat.le_of_lt hlt)] at hfits
  · have hfits := h sizes.length size (by simp)
    rwa [List.take_left] at hfits

theorem cursor_concat :
    cursor spanCount (sizes ++ [size]) =
      after spanCount (place spanCount (cursor spanCount sizes) size) size := by
  rw [cursor, cursor, List.foldl_append, List.foldl_cons, List.foldl_nil]

theorem after_mod {n : ℕ} (hpos : 0 < spanCount) (h : n % spanCount + size ≤ spanCount) :
    after spanCount ⟨n / spanCount, n % spanCount⟩ size =
      ⟨(n + size) / spanCount, (n + size) % spanCount⟩ := by
  have hsum : n + size = (n % spanCount + size) + spanCount * (n / spanCount) := by
    have := Nat.mod_add_div n spanCount
    omega
  rw [hsum, Nat.add_mul_div_left _ _ hpos, Nat.add_mul_mod_self_left]
  unfold after
  split
  · rename_i hfull
    have hfull : n % spanCount + size = spanCount := hfull
    rw [hfull, Nat.div_self hpos, Nat.mod_self, Nat.add_comm 1]
  · rename_i hfree
    have hlt : n % spanCount + size < spanCount := Nat.lt_of_le_of_ne h hfree
    rw [Nat.div_eq_of_lt hlt, Nat.mod_eq_of_lt hlt, Nat.zero_add]

/-- When all items fit, the columns are used one after the other. -/
theorem cursor_eq (hpos : 0 < spanCount) (h : Fits spanCount sizes) :
    cursor spanCount sizes = ⟨sizes.sum / spanCount, sizes.sum % spanCount⟩ := by
  induction sizes using List.reverseRecOn with
  | nil => simp [cursor]
  | append_singleton sizes size ih =>
      obtain ⟨hsizes, hsize⟩ := h.of_concat
      rw [cursor_concat, ih hsizes, place, if_pos hsize, after_mod hpos hsize, List.sum_append,
        List.sum_singleton]

theorem Fits.take (h : Fits spanCount sizes) (n : ℕ) : Fits spanCount (sizes.take n) := by
  intro position size hget
  obtain ⟨hlt, -⟩ := List.getElem?_eq_some_iff.mp hget
  rw [List.length_take] at hlt
  rw [List.getElem?_take_of_lt (by omega)] at hget
  rw [List.take_take, Nat.min_eq_left (by omega)]
  exact h position size hget

theorem cellAt_eq (hpos : 0 < spanCount) (h : Fits spanCount sizes) {position : ℕ}
    (hget : sizes[position]? = some size) :
    cellAt spanCount sizes position =
      some ⟨(sizes.take position).sum / spanCount, (sizes.take position).sum % spanCount⟩ := by
  rw [cellAt, hget, Option.map_some, cursor_eq hpos (h.take position), place,
    if_pos (h position size hget)]

end GridLayout

end HiApp
