import HiApp.Lib.Runs
import Mathlib.Data.Int.Notation

/-!
# The amount between two buttons

A handler enables its own button again only while the amount is inside the bound.  Before the
first click both buttons are enabled whatever the amount is.
-/

namespace HiApp.Amount

open Runs

structure Attrs where
  amountValue : Int32
  amountMinValue : Int32
  amountMaxValue : Int32
  deriving DecidableEq

def parseAmountViewAttrs (value minValue maxValue : Option Int32) : Attrs where
  amountValue := value.getD 1
  amountMinValue := minValue.getD 1
  amountMaxValue := maxValue.getD Int32.maxValue

/-- `changed` has the values that the callback was called with, and `overflowed` tells whether
an increment has. -/
structure AmountView where
  amountViewAttrs : Attrs
  amountValue : Int32
  amountText : String
  decreaseEnabled : Bool := true
  increaseEnabled : Bool := true
  changed : List Int32 := []
  overflowed : Bool := false

inductive Button where
  | decreaseBtn
  | increaseBtn
  deriving DecidableEq

namespace Attrs

def Between (attrs : Attrs) (value : Int32) : Prop :=
  attrs.amountMinValue ≤ value ∧ value ≤ attrs.amountMaxValue

instance (attrs : Attrs) : DecidablePred attrs.Between :=
  fun _ ↦ inferInstanceAs (Decidable (_ ∧ _))

/-- Every integer is an amount. -/
def WholeRange (attrs : Attrs) : Prop :=
  attrs.amountMinValue = Int32.minValue ∧ attrs.amountMaxValue = Int32.maxValue

instance (attrs : Attrs) : Decidable attrs.WholeRange := inferInstanceAs (Decidable (_ ∧ _))

/-- The first click does not leave the bounds.  Where they are the whole range, a decrement
goes from the least integer to the greatest, and an increment must not come next. -/
def StartsInside (attrs : Attrs) : List Button → Prop
  | [] => True
  | .decreaseBtn :: clicks => attrs.amountValue = attrs.amountMinValue →
      attrs.WholeRange ∧ clicks.head? ≠ some .increaseBtn
  | .increaseBtn :: _ => attrs.amountValue ≠ attrs.amountMaxValue

instance (attrs : Attrs) : DecidablePred attrs.StartsInside
  | [] => inferInstanceAs (Decidable True)
  | .decreaseBtn :: _ => inferInstanceAs (Decidable (_ → _))
  | .increaseBtn :: _ => inferInstanceAs (Decidable (_ ≠ _))

end Attrs

namespace AmountView

def applyAttrs (attrs : Attrs) : AmountView where
  amountViewAttrs := attrs
  amountValue := attrs.amountValue
  amountText := toString attrs.amountValue

def decrease (v : AmountView) : AmountView :=
  let amountValue := v.amountValue - 1
  { v with
    amountValue
    amountText := toString amountValue
    decreaseEnabled := amountValue > v.amountViewAttrs.amountMinValue
    increaseEnabled := true
    changed := v.changed ++ [amountValue] }

def increase (v : AmountView) : AmountView :=
  let amountValue := v.amountValue + 1
  { v with
    amountValue
    amountText := toString amountValue
    increaseEnabled := amountValue < v.amountViewAttrs.amountMaxValue
    decreaseEnabled := true
    changed := v.changed ++ [amountValue]
    overflowed := v.overflowed || v.amountValue = Int32.maxValue }

/-- A click on a button that is not enabled has no effect. -/
def step (v : AmountView) : Button → Option AmountView
  | .decreaseBtn => some (if v.decreaseEnabled then v.decrease else v)
  | .increaseBtn => some (if v.increaseEnabled then v.increase else v)

def InRange (v : AmountView) : Prop :=
  v.amountViewAttrs.Between v.amountValue ∧
    (∀ value ∈ v.changed, v.amountViewAttrs.Between value) ∧ v.overflowed = false

instance : DecidablePred InRange := fun _ ↦ inferInstanceAs (Decidable (_ ∧ _ ∧ _))

/-- What the handlers establish: a button is enabled only inside its bound. -/
structure Guarded (v : AmountView) : Prop where
  inRange : v.InRange
  lt_of_decreaseEnabled : v.decreaseEnabled → v.amountViewAttrs.amountMinValue < v.amountValue
  lt_of_increaseEnabled : v.increaseEnabled → v.amountValue < v.amountViewAttrs.amountMaxValue

/-- Both buttons are enabled. -/
structure Fresh (v : AmountView) : Prop where
  inRange : v.InRange
  decreaseEnabled : v.decreaseEnabled
  increaseEnabled : v.increaseEnabled

theorem toInt_sub_one {value bound : Int32} (h : bound < value) :
    (value - 1).toInt = value.toInt - 1 := by
  have hlt := Int32.lt_iff_toInt_lt.mp h
  have hle := bound.le_toInt
  have hle' := value.toInt_lt
  rw [Int32.toInt_sub, Int32.toInt_one]
  exact Int.bmod_eq_of_le (by omega) (by omega)

theorem toInt_add_one {value bound : Int32} (h : value < bound) :
    (value + 1).toInt = value.toInt + 1 := by
  have hlt := Int32.lt_iff_toInt_lt.mp h
  have hle := value.le_toInt
  have hle' := bound.toInt_lt
  rw [Int32.toInt_add, Int32.toInt_one]
  exact Int.bmod_eq_of_le (by omega) (by omega)

variable {v v' : AmountView} {attrs : Attrs} {button : Button} {clicks : List Button}

/-- The view shows the amount, also one outside the bounds. -/
theorem amountText_eq (hrun : run step (applyAttrs attrs) clicks = some v) :
    v.amountText = toString v.amountValue := by
  refine run_invariant' (I := fun u ↦ u.amountText = toString u.amountValue) ?_ rfl hrun
  intro u button u' hu hstep
  cases button with
  | decreaseBtn =>
      obtain rfl := Option.some.inj hstep
      split
      · rfl
      · exact hu
  | increaseBtn =>
      obtain rfl := Option.some.inj hstep
      split
      · rfl
      · exact hu

/-- The callback receives the new amount. -/
theorem InRange.of_changed (h : v.InRange) {value : Int32}
    (hvalue : v.amountViewAttrs.Between value) :
    ∀ value' ∈ v.changed ++ [value], v.amountViewAttrs.Between value' := by
  intro value' hmem
  rcases List.mem_append.mp hmem with hmem | hmem
  · exact h.2.1 value' hmem
  · rw [List.mem_singleton.mp hmem]
    exact hvalue

theorem InRange.guarded_decrease (h : v.InRange)
    (hlt : v.amountViewAttrs.amountMinValue < v.amountValue) : v.decrease.Guarded := by
  have hsub := toInt_sub_one hlt
  have hle := Int32.le_iff_toInt_le.mp h.1.2
  rw [Int32.lt_iff_toInt_lt] at hlt
  have hmax : v.amountValue - 1 < v.amountViewAttrs.amountMaxValue := by
    rw [Int32.lt_iff_toInt_lt, hsub]
    omega
  have hbetween : v.amountViewAttrs.Between (v.amountValue - 1) := by
    refine ⟨?_, Int32.le_of_lt hmax⟩
    rw [Int32.le_iff_toInt_le, hsub]
    omega
  exact ⟨⟨hbetween, h.of_changed hbetween, h.2.2⟩, of_decide_eq_true, fun _ ↦ hmax⟩

theorem InRange.guarded_increase (h : v.InRange)
    (hlt : v.amountValue < v.amountViewAttrs.amountMaxValue) : v.increase.Guarded := by
  have hadd := toInt_add_one hlt
  have hle := Int32.le_iff_toInt_le.mp h.1.1
  have hne : v.amountValue ≠ Int32.maxValue := by
    rintro heq
    exact Int32.not_le.mpr hlt (heq ▸ Int32.le_maxValue _)
  rw [Int32.lt_iff_toInt_lt] at hlt
  have hmin : v.amountViewAttrs.amountMinValue < v.amountValue + 1 := by
    rw [Int32.lt_iff_toInt_lt, hadd]
    omega
  have hbetween : v.amountViewAttrs.Between (v.amountValue + 1) := by
    refine ⟨Int32.le_of_lt hmin, ?_⟩
    rw [Int32.le_iff_toInt_le, hadd]
    omega
  have hoverflowed : v.increase.overflowed = false := by
    simp [increase, h.2.2, hne]
  exact ⟨⟨hbetween, h.of_changed hbetween, hoverflowed⟩, fun _ ↦ hmin, of_decide_eq_true⟩

theorem Guarded.step (h : v.Guarded) (hstep : v.step button = some v') : v'.Guarded := by
  cases button with
  | decreaseBtn =>
      obtain rfl := Option.some.inj hstep
      split
      case isTrue henabled => exact h.inRange.guarded_decrease (h.lt_of_decreaseEnabled henabled)
      case isFalse => exact h
  | increaseBtn =>
      obtain rfl := Option.some.inj hstep
      split
      case isTrue henabled => exact h.inRange.guarded_increase (h.lt_of_increaseEnabled henabled)
      case isFalse => exact h

theorem Guarded.statesMeet (h : v.Guarded) : StatesMeet AmountView.step InRange v clicks :=
  statesMeet_of_stepsMeet (C := fun _ _ ↦ True) (fun _ _ _ hu _ hstep ↦ hu.step hstep)
    (fun _ hu ↦ hu.inRange) h stepsMeet_true

/-- Past the upper bound, or past the greatest integer. -/
theorem not_inRange_increase (h : v.amountValue = v.amountViewAttrs.amountMaxValue) :
    ¬ v.increase.InRange := by
  rintro ⟨⟨-, hle⟩, -, hoverflowed⟩
  have hne : v.amountValue ≠ Int32.maxValue := by
    rintro heq
    simp [increase, heq] at hoverflowed
  have hlt : v.amountValue < Int32.maxValue := Int32.lt_of_le_of_ne (Int32.le_maxValue _) hne
  have hle' : (v.amountValue + 1).toInt ≤ v.amountViewAttrs.amountMaxValue.toInt :=
    Int32.le_iff_toInt_le.mp hle
  rw [toInt_add_one hlt, h] at hle'
  omega

theorem decrease_minValue (h : v.amountValue = Int32.minValue) :
    v.decrease.amountValue = Int32.maxValue := by
  rw [decrease, h]
  rfl

/-- Past the lower bound, unless the amount wraps to the upper one. -/
theorem wholeRange_of_inRange_decrease (h : v.amountValue = v.amountViewAttrs.amountMinValue)
    (hrange : v.decrease.InRange) : v.amountViewAttrs.WholeRange := by
  have hmin : v.amountValue = Int32.minValue := by
    by_contra hne
    have hlt : Int32.minValue < v.amountValue :=
      Int32.lt_of_le_of_ne (Int32.minValue_le _) (Ne.symm hne)
    have hle : v.amountViewAttrs.amountMinValue.toInt ≤ (v.amountValue - 1).toInt :=
      Int32.le_iff_toInt_le.mp hrange.1.1
    rw [toInt_sub_one hlt, h] at hle
    omega
  refine ⟨h.symm.trans hmin, ?_⟩
  have hle := hrange.1.2
  rw [decrease_minValue hmin] at hle
  exact Int32.le_antisymm (Int32.le_maxValue _) hle

theorem Fresh.decrease_of_wholeRange (h : v.Fresh)
    (hmin : v.amountValue = v.amountViewAttrs.amountMinValue)
    (hwhole : v.amountViewAttrs.WholeRange) : v.decrease.Fresh := by
  have hmax : v.amountValue - 1 = Int32.maxValue := decrease_minValue (hmin.trans hwhole.1)
  have hbetween : v.amountViewAttrs.Between (v.amountValue - 1) :=
    ⟨hwhole.1 ▸ Int32.minValue_le _, hwhole.2 ▸ Int32.le_maxValue _⟩
  refine ⟨⟨hbetween, h.inRange.of_changed hbetween, h.inRange.2.2⟩, ?_, rfl⟩
  refine decide_eq_true ?_
  rw [hwhole.1, hmax]
  decide

theorem Fresh.statesMeet_increase_iff (h : v.Fresh) :
    StatesMeet AmountView.step InRange v (.increaseBtn :: clicks) ↔
      v.amountValue ≠ v.amountViewAttrs.amountMaxValue := by
  have hstep : v.step .increaseBtn = some v.increase := by
    rw [AmountView.step, if_pos h.increaseEnabled]
  rw [statesMeet_cons_of_eq hstep, and_iff_right h.inRange]
  constructor
  · rintro hmeet heq
    exact not_inRange_increase heq hmeet.head
  · intro hne
    exact (h.inRange.guarded_increase (Int32.lt_of_le_of_ne h.inRange.1.2 hne)).statesMeet

theorem Fresh.statesMeet_decrease (h : v.Fresh)
    (hne : v.amountValue ≠ v.amountViewAttrs.amountMinValue) :
    StatesMeet AmountView.step InRange v (.decreaseBtn :: clicks) := by
  have hstep : v.step .decreaseBtn = some v.decrease := by
    rw [AmountView.step, if_pos h.decreaseEnabled]
  rw [statesMeet_cons_of_eq hstep]
  exact ⟨h.inRange,
    (h.inRange.guarded_decrease (Int32.lt_of_le_of_ne h.inRange.1.1 hne.symm)).statesMeet⟩

theorem Fresh.statesMeet_decrease_iff (h : v.Fresh) :
    StatesMeet AmountView.step InRange v (.decreaseBtn :: clicks) ↔
      (v.amountValue = v.amountViewAttrs.amountMinValue →
        v.amountViewAttrs.WholeRange ∧ clicks.head? ≠ some .increaseBtn) := by
  by_cases hmin : v.amountValue = v.amountViewAttrs.amountMinValue
  swap
  · exact iff_of_true (h.statesMeet_decrease hmin) fun heq ↦ absurd heq hmin
  have hstep : v.step .decreaseBtn = some v.decrease := by
    rw [AmountView.step, if_pos h.decreaseEnabled]
  rw [statesMeet_cons_of_eq hstep, and_iff_right h.inRange, imp_iff_right hmin]
  by_cases hwhole : v.amountViewAttrs.WholeRange
  swap
  · refine iff_of_false (fun hmeet ↦ ?_) fun hwhole' ↦ hwhole hwhole'.1
    exact hwhole (wholeRange_of_inRange_decrease hmin hmeet.head)
  -- the amount is the greatest integer now, and both buttons are enabled again
  have hfresh := h.decrease_of_wholeRange hmin hwhole
  have hmax : v.decrease.amountValue = v.amountViewAttrs.amountMaxValue :=
    (decrease_minValue (hmin.trans hwhole.1)).trans hwhole.2.symm
  rw [and_iff_right hwhole]
  cases clicks with
  | nil => exact iff_of_true (statesMeet_nil.mpr hfresh.inRange) (by simp)
  | cons button clicks =>
      cases button with
      | decreaseBtn =>
          refine iff_of_true (hfresh.statesMeet_decrease ?_) (by simp)
          rw [hmax, hwhole.2]
          exact fun heq ↦ absurd (heq.trans hwhole.1) (by decide)
      | increaseBtn =>
          rw [hfresh.statesMeet_increase_iff]
          exact iff_of_false (fun hne ↦ hne hmax) (by simp)

/-- The amount stays between its bounds if and only if the first click leaves it there. -/
theorem inRange_iff_startsInside (hvalue : attrs.Between attrs.amountValue) :
    StatesMeet step InRange (applyAttrs attrs) clicks ↔ attrs.StartsInside clicks := by
  have hfresh : (applyAttrs attrs).Fresh := by
    refine ⟨⟨hvalue, ?_, rfl⟩, rfl, rfl⟩
    exact fun _ hmem ↦ absurd hmem List.not_mem_nil
  cases clicks with
  | nil => exact iff_of_true (statesMeet_nil.mpr hfresh.inRange) trivial
  | cons button clicks =>
      cases button with
      | decreaseBtn => exact hfresh.statesMeet_decrease_iff
      | increaseBtn => exact hfresh.statesMeet_increase_iff

/-- One up, down to the bound, and a click that has no effect. -/
theorem inRange_iff_startsInside_default :
    StatesMeet step InRange (applyAttrs (parseAmountViewAttrs none none none))
      [.increaseBtn, .decreaseBtn, .decreaseBtn] :=
  (inRange_iff_startsInside (by decide)).mpr (by decide)

/-- The first click makes the default amount zero. -/
theorem not_inRange_default :
    let attrs := parseAmountViewAttrs none none none
    attrs.Between attrs.amountValue ∧
      ∃ v, run step (applyAttrs attrs) [.decreaseBtn] = some v ∧
        ¬ v.InRange ∧ v.changed = [0] :=
  ⟨by decide, exists_run_of_any (by decide)⟩

end AmountView

end HiApp.Amount
