import Mathlib.Data.List.Basic

/-!
# Replacing occurrences from left to right

`Replaced old new s t` says that `t` is `s` with the occurrences of `old` that a scan
from the left meets replaced by `new`.  A symbol that `new` does not have, found in
`t`, was kept from `s` and divides both texts alike.
-/

namespace HiApp

variable {α : Type*} {old new : List α}

inductive Replaced (old new : List α) : List α → List α → Prop
  | nil : Replaced old new [] []
  | replace {s t : List α} : Replaced old new s t → Replaced old new (old ++ s) (new ++ t)
  | keep {c : α} {s t : List α} : ¬ old <+: c :: s → Replaced old new s t →
      Replaced old new (c :: s) (c :: t)

namespace Replaced

variable {s t u v a : List α} {c d : α}

theorem unique (hold : old ≠ []) (h : Replaced old new s t) (h' : Replaced old new s u) :
    t = u := by
  induction h generalizing u with
  | nil =>
      generalize hs : ([] : List α) = s at h'
      cases h' with
      | nil => rfl
      | replace _ => exact absurd (List.append_eq_nil_iff.mp hs.symm).1 hold
      | keep _ _ => simp at hs
  | @replace s t h ih =>
      generalize hs : old ++ s = s' at h'
      cases h' with
      | nil => exact absurd (List.append_eq_nil_iff.mp hs).1 hold
      | replace h' =>
          obtain rfl := List.append_cancel_left hs
          rw [ih h']
      | keep hno _ => exact absurd ⟨s, hs⟩ hno
  | @keep c s t hno h ih =>
      generalize hs : c :: s = s' at h'
      cases h' with
      | nil => simp at hs
      | @replace s' _ _ => exact absurd ⟨s', hs.symm⟩ hno
      | keep _ h' =>
          obtain ⟨rfl, rfl⟩ := List.cons.inj hs
          rw [ih h']

theorem eq_of_not_occurs (hold : ¬ old <:+: s) (h : Replaced old new s t) : t = s := by
  induction h with
  | nil => rfl
  | @replace s t _ _ => exact absurd (List.prefix_append old s).isInfix hold
  | @keep c s t _ _ ih => rw [ih fun h ↦ hold (h.trans (List.suffix_cons c s).isInfix)]

/-- A symbol of `t` that `new` does not have was kept. -/
theorem split (hc : c ∉ new) (h : Replaced old new s (a ++ c :: u)) :
    ∃ x w, s = x ++ c :: w ∧ Replaced old new x a ∧ Replaced old new w u ∧
      ¬ old <+: c :: w := by
  generalize ht : a ++ c :: u = t at h
  induction h generalizing a with
  | nil => simp at ht
  | @replace s t h ih =>
      obtain ⟨a', rfl, ht'⟩ : ∃ a', a = new ++ a' ∧ t = a' ++ c :: u := by
        rcases List.append_eq_append_iff.mp ht with ⟨z, hz, hrest⟩ | ⟨z, hz, hrest⟩
        · cases z with
          | nil => exact ⟨[], by simpa using hz.symm, by simpa using hrest.symm⟩
          | cons e z =>
              obtain ⟨rfl, -⟩ := List.cons.inj hrest
              exact absurd (by simp [hz]) hc
        · exact ⟨z, hz, hrest⟩
      obtain ⟨x, w, rfl, hx, hw, hno⟩ := ih ht'.symm
      exact ⟨old ++ x, w, by simp, hx.replace, hw, hno⟩
  | @keep e s t hno h ih =>
      cases a with
      | nil =>
          obtain ⟨rfl, rfl⟩ := List.cons.inj ht
          exact ⟨[], s, rfl, .nil, h, hno⟩
      | cons e' a =>
          obtain ⟨rfl, ht'⟩ := List.cons.inj ht
          obtain ⟨x, w, rfl, hx, hw, hno'⟩ := ih ht'
          refine ⟨e' :: x, w, by simp, .keep ?_ hx, hw, hno'⟩
          intro hstart
          exact hno (hstart.trans (List.prefix_append (e' :: x) (c :: w)))

/-- Before the symbol that `old` begins with, and has nowhere else, a text can be cut. -/
theorem append_cons (hc : c ∉ old.tail) (hs : Replaced old new s t)
    (hu : Replaced old new (c :: u) v) : Replaced old new (s ++ c :: u) (t ++ v) := by
  induction hs with
  | nil => exact hu
  | replace _ ih => simpa using ih.replace
  | @keep e s t hno _ ih =>
      refine .keep ?_ ih
      intro hstart
      rcases List.prefix_or_prefix_of_prefix hstart
        (List.prefix_append (e :: s) (c :: u)) with h | ⟨z, hz⟩
      · exact hno h
      · cases z with
        | nil => exact hno ⟨[], by simp [← hz]⟩
        | cons e' z =>
            rw [← hz] at hstart
            have hrest := (List.prefix_append_right_inj (e :: s)).mp hstart
            obtain rfl : e' = c := (List.cons_prefix_cons.mp hrest).1
            exact hc (by simp [← hz])

/-- After a text in which nothing of an occurrence was kept, anything can follow. -/
theorem append (hd : d ∉ t) (hs : Replaced (d :: a) new s t)
    (hu : Replaced (d :: a) new u v) : Replaced (d :: a) new (s ++ u) (t ++ v) := by
  induction hs with
  | nil => exact hu
  | replace _ ih => simpa using (ih fun h ↦ hd (List.mem_append_right _ h)).replace
  | @keep e s t hno _ ih =>
      refine .keep ?_ (ih fun h ↦ hd (List.mem_cons_of_mem _ h))
      intro hstart
      obtain rfl : d = e := (List.cons_prefix_cons.mp hstart).1
      exact hd List.mem_cons_self

/-- A text in which no occurrence begins is kept. -/
theorem exists_of_notMem (hd : d ∉ s) (h : Replaced (d :: a) new (s ++ u) t) :
    ∃ v, t = s ++ v ∧ Replaced (d :: a) new u v := by
  induction s generalizing t with
  | nil => exact ⟨t, rfl, h⟩
  | cons e s ih =>
      generalize hs : e :: s ++ u = s' at h
      cases h with
      | nil => simp at hs
      | replace _ =>
          obtain ⟨rfl, -⟩ := List.cons.inj hs
          exact absurd List.mem_cons_self hd
      | keep _ h =>
          obtain ⟨rfl, rfl⟩ := List.cons.inj hs
          obtain ⟨v, rfl, hv⟩ := ih (fun h ↦ hd (List.mem_cons_of_mem _ h)) h
          exact ⟨v, rfl, hv⟩

end Replaced

end HiApp
