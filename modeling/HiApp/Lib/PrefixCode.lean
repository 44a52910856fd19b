import Mathlib.Data.List.Basic

/-!
# Prefix codes

A code assigns a text to every symbol.  When no code word continues another one, a
text that begins with a code word tells which, and a sequence of symbols can be read
back from its code.
-/

namespace HiApp.PrefixCode

variable {α β γ : Type*} {f : α → List β} {g : γ → List α}

/-- What begins with a code word begins with no other. -/
def PrefixFree (f : α → List β) : Prop := ∀ a b x y, f a ++ x = f b ++ y → a = b

/-- Of two sequences whose codes agree as far as they go, one continues the other. -/
theorem PrefixFree.prefix_or_prefix (h : PrefixFree f) {l l' : List α} {x y : List β}
    (heq : l.flatMap f ++ x = l'.flatMap f ++ y) : l <+: l' ∨ l' <+: l := by
  induction l generalizing l' with
  | nil => exact .inl (List.nil_prefix)
  | cons a l ih =>
      cases l' with
      | nil => exact .inr (List.nil_prefix)
      | cons b l' =>
          simp only [List.flatMap_cons, List.append_assoc] at heq
          obtain rfl : a = b := h a b _ _ heq
          rcases ih (List.append_cancel_left heq) with hl | hl
          · exact .inl (List.cons_prefix_cons.mpr ⟨rfl, hl⟩)
          · exact .inr (List.cons_prefix_cons.mpr ⟨rfl, hl⟩)

/-- Code words of a prefix code, coded symbol by symbol, are a prefix code. -/
theorem PrefixFree.comp (hf : PrefixFree f) (hg : PrefixFree g) :
    PrefixFree fun c ↦ (g c).flatMap f := by
  intro a b x y heq
  rcases hf.prefix_or_prefix heq with ⟨z, hz⟩ | ⟨z, hz⟩
  · exact hg a b z [] (by rw [hz, List.append_nil])
  · exact (hg b a z [] (by rw [hz, List.append_nil])).symm

theorem PrefixFree.flatMap_injective (h : PrefixFree f) (hne : ∀ a, f a ≠ []) :
    Function.Injective (List.flatMap f) := by
  intro l
  induction l with
  | nil =>
      intro l' heq
      cases l' with
      | nil => rfl
      | cons b l' => simp [hne b] at heq
  | cons a l ih =>
      intro l' heq
      cases l' with
      | nil => simp [hne a] at heq
      | cons b l' =>
          simp only [List.flatMap_cons] at heq
          obtain rfl : a = b := h a b _ _ heq
          rw [ih (List.append_cancel_left heq)]

/-- The last occurrence of a separator divides a text in one way. -/
theorem append_cons_inj_of_notMem {x y u v : List β} {c : β} (hu : c ∉ u) (hv : c ∉ v)
    (heq : x ++ c :: u = y ++ c :: v) : x = y ∧ u = v := by
  have hrev : u.reverse ++ c :: x.reverse = v.reverse ++ c :: y.reverse := by
    simpa using congrArg List.reverse heq
  rcases List.append_eq_append_iff.mp hrev with ⟨w, hw, hrest⟩ | ⟨w, hw, hrest⟩
  · cases w with
    | nil =>
        obtain ⟨-, hx⟩ := List.cons.inj hrest
        rw [List.append_nil, List.reverse_inj] at hw
        exact ⟨List.reverse_injective hx, hw.symm⟩
    | cons d w =>
        obtain ⟨rfl, -⟩ := List.cons.inj hrest
        exact absurd (List.mem_reverse.mp (by rw [hw]; simp)) hv
  · cases w with
    | nil =>
        obtain ⟨-, hx⟩ := List.cons.inj hrest
        rw [List.append_nil, List.reverse_inj] at hw
        exact ⟨List.reverse_injective hx.symm, hw⟩
    | cons d w =>
        obtain ⟨rfl, -⟩ := List.cons.inj hrest
        exact absurd (List.mem_reverse.mp (by rw [hw]; simp)) hu

end HiApp.PrefixCode
