import Mathlib.Data.Fintype.Card
import Mathlib.Logic.Relation

/-!
# Relations without cycles

A cycle is an element related to itself by the transitive closure.  There is none
where the relation goes up in some order, or where a descent from an element ends; and
where none can be reached, a chain is shorter than the type.
-/

namespace HiApp.Acyclic

open Relation

variable {α : Type*} {r : α → α → Prop}

theorem not_transGen_self_of_rank (rank : α → ℕ) (hrank : ∀ a b, r a b → rank a < rank b)
    (a : α) : ¬ TransGen r a a := by
  have hlt : ∀ {b}, TransGen r a b → rank a < rank b := by
    intro b hab
    induction hab with
    | single hedge => exact hrank _ _ hedge
    | tail _ hedge ih => exact ih.trans (hrank _ _ hedge)
  intro hcycle
  exact Nat.lt_irrefl _ (hlt hcycle)

/-- Nothing that can be reached from an element with an end to every descent lies on a
cycle. -/
theorem not_transGen_self_of_acc {a b : α} (hacc : Acc (fun y x ↦ r x y) a)
    (hab : ReflTransGen r a b) : ¬ TransGen r b b := by
  have hswap : ∀ {x y : α}, TransGen r x y → TransGen (fun y x ↦ r x y) y x :=
    fun hxy ↦ transGen_swap.mpr hxy
  have haccB : Acc (fun y x ↦ r x y) b := by
    rcases reflTransGen_iff_eq_or_transGen.mp hab with rfl | hab
    · exact hacc
    · exact hacc.inv_of_transGen (hswap hab)
  induction haccB.transGen with
  | intro b _ ih =>
      intro hcycle
      exact ih b (hswap hcycle) hab haccB hcycle

/-- Where no cycle can be reached, a chain has fewer steps than there are elements. -/
theorem length_lt_card_of_isChain [Fintype α] {a : α} {path : List α}
    (hchain : (a :: path).IsChain r)
    (hacyclic : ∀ b, ReflTransGen r a b → ¬ TransGen r b b) :
    path.length < Fintype.card α := by
  have hpairs : (a :: path).Pairwise (TransGen r) :=
    (hchain.imp fun _ _ hedge ↦ TransGen.single hedge).pairwise
  have hreach : ∀ b ∈ a :: path, ReflTransGen r a b := by
    intro b hb
    rcases List.mem_cons.mp hb with rfl | hb
    · exact .refl
    · exact ((List.pairwise_cons.mp hpairs).1 b hb).to_reflTransGen
  have hnodup : (a :: path).Nodup := by
    refine hpairs.imp_of_mem fun {b c} hb _ hbc heq ↦ ?_
    exact hacyclic b (hreach b hb) (heq ▸ hbc)
  have hcard := hnodup.length_le_card
  rwa [List.length_cons] at hcard

end HiApp.Acyclic
