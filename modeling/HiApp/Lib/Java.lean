import Mathlib.Data.List.Infix

/-!
# Strings and integers in Java

Strings are sequences of UTF-16 code units, and integers have 32 bits.
-/

namespace HiApp.Java

def utf16 (c : Char) : List ℕ :=
  if c.toNat < 0x10000 then [c.toNat]
  else [0xD800 + (c.toNat - 0x10000) / 0x400, 0xDC00 + (c.toNat - 0x10000) % 0x400]

def hashCode (s : String) : BitVec 32 :=
  (s.toList.flatMap utf16).foldl (fun h unit ↦ 31 * h + BitVec.ofNat 32 unit) 0

/-- `Math.abs`, which leaves the least integer as it is. -/
def absInt (x : BitVec 32) : ℤ := x.abs.toInt

theorem absInt_nonneg_iff {x : BitVec 32} : 0 ≤ absInt x ↔ x ≠ BitVec.intMin 32 := by
  constructor
  · rintro h rfl
    exact absurd h (by decide)
  · intro h
    rw [absInt, BitVec.toInt_abs_eq_natAbs_of_ne_intMin h]
    exact Int.natCast_nonneg _

theorem absInt_neg (x : BitVec 32) : absInt (-x) = absInt x := by
  by_cases hmin : x = BitVec.intMin 32
  · rw [hmin, BitVec.neg_intMin]
  · have hneg : -x ≠ BitVec.intMin 32 := by
      intro h
      exact hmin (BitVec.neg_inj.mp (h.trans BitVec.neg_intMin.symm))
    rw [absInt, absInt, BitVec.toInt_abs_eq_natAbs_of_ne_intMin hneg,
      BitVec.toInt_abs_eq_natAbs_of_ne_intMin hmin, BitVec.toInt_neg_of_ne_intMin hmin,
      Int.natAbs_neg]

theorem absInt_eq_iff {x y : BitVec 32} : absInt x = absInt y ↔ x = y ∨ x = -y := by
  constructor
  · intro h
    rw [absInt, absInt, BitVec.toInt_inj, BitVec.abs_eq, BitVec.abs_eq] at h
    split at h
    · split at h
      · exact .inl (BitVec.neg_inj.mp h)
      · exact .inr (BitVec.neg_eq_iff_eq_neg.mp h)
    · split at h
      · exact .inr h
      · exact .inl h
  · rintro (rfl | rfl)
    · rfl
    · exact absInt_neg y

theorem absInt_eq_zero_iff {x : BitVec 32} : absInt x = 0 ↔ x = 0 := by
  have h : absInt 0 = 0 := by
    decide
  rw [← h, absInt_eq_iff]
  simp

def Contains (s part : String) : Prop := part.toList <:+: s.toList

instance (s part : String) : Decidable (Contains s part) :=
  inferInstanceAs (Decidable (_ <:+: _))

/-- `String.substring`, which throws when the indices are not in order and in the string. -/
def substring {α : Type*} (s : List α) (beginIndex endIndex : ℕ) : Option (List α) :=
  if beginIndex ≤ endIndex ∧ endIndex ≤ s.length then
    some ((s.drop beginIndex).take (endIndex - beginIndex))
  else none

theorem substring_add {α : Type*} {s : List α} {index count : ℕ}
    (h : index + count ≤ s.length) :
    substring s index (index + count) = some ((s.drop index).take count) := by
  rw [substring, if_pos ⟨Nat.le_add_right index count, h⟩, Nat.add_sub_cancel_left]

end HiApp.Java
