import Mathlib.Algebra.BigOperators.Group.List.Basic
import Mathlib.Algebra.Order.BigOperators.Group.Finset
import Mathlib.Data.List.Induction
import Mathlib.Data.List.Perm.Subperm
import Mathlib.Order.WellFoundedSet
import HiApp.Lib.Acyclic

/-!
# Topological sorting by in-degrees

A search keeps the number of edges into every vertex, a queue of vertices whose
number has dropped to zero, and the order found so far.  A turn takes the head
of the queue, appends it to the order and takes its outgoing edges away, one by
one and with multiplicity.

Whatever the number of turns, the order found is free of repetitions and has
every vertex behind all its predecessors.  It is complete when it is as long as
the list of vertices, and it gets that long exactly when there is no cycle.
-/

namespace HiApp.Kahn

open Relation

variable {ν : Type*} [DecidableEq ν]

structure Search (ν : Type*) where
  indegree : ν → ℤ
  queue : List ν
  order : List ν

def relax (s : Search ν) (v : ν) : Search ν where
  indegree := Function.update s.indegree v (s.indegree v - 1)
  queue := if s.indegree v - 1 = 0 then s.queue ++ [v] else s.queue
  order := s.order

def search (adj : ν → List ν) : ℕ → Search ν → Search ν
  | 0, s => s
  | fuel + 1, s =>
      match s.queue with
      | [] => s
      | u :: queue =>
          search adj fuel ((adj u).foldl relax
            { s with queue := queue, order := s.order ++ [u] })

/-- The search over the vertices `vs` before its first turn. -/
def start (adj : ν → List ν) (vs : List ν) : Search ν where
  indegree v := (vs.flatMap adj).count v
  queue := vs.filter fun v ↦ (vs.flatMap adj).count v = 0
  order := []

/-- The number of edges from the vertices of a list into `v`. -/
def edgesInto (adj : ν → List ν) (us : List ν) (v : ν) : ℕ :=
  ∑ u ∈ us.toFinset, (adj u).count v

/-- Every vertex of the list has all its predecessors before it. -/
def Sorted (adj : ν → List ν) (vs order : List ν) : Prop :=
  ∀ l₁ v l₂, order = l₁ ++ v :: l₂ → ∀ u ∈ vs, v ∈ adj u → u ∈ l₁

/-- The search in the middle of a turn, with the edges to `todo` still to be
taken away. -/
structure Inv (adj : ν → List ν) (vs todo : List ν) (s : Search ν) : Prop where
  subset : ∀ v ∈ s.order ++ s.queue, v ∈ vs
  nodup : (s.order ++ s.queue).Nodup
  degree : ∀ v, s.indegree v + edgesInto adj s.order v =
    edgesInto adj vs v + todo.count v
  ready : ∀ v ∈ vs, v ∈ s.order ++ s.queue ↔ s.indegree v = 0
  sorted : Sorted adj vs s.order

variable {adj : ν → List ν} {vs : List ν}

theorem count_flatMap (hvs : vs.Nodup) (v : ν) :
    (vs.flatMap adj).count v = edgesInto adj vs v := by
  rw [List.count_flatMap, edgesInto, List.sum_toFinset _ hvs]
  rfl

theorem edgesInto_concat (adj : ν → List ν) {us : List ν} {u : ν} (hu : u ∉ us) (v : ν) :
    edgesInto adj (us ++ [u]) v = (adj u).count v + edgesInto adj us v := by
  have hinsert : (us ++ [u]).toFinset = insert u us.toFinset := by
    ext w
    simp
  rw [edgesInto, hinsert, Finset.sum_insert (by simpa using hu), edgesInto]

theorem edgesInto_lt {us : List ν} {v w : ν} (hus : ∀ u ∈ us, u ∈ vs)
    (hw : w ∈ vs) (hout : w ∉ us) (hedge : v ∈ adj w) :
    edgesInto adj us v < edgesInto adj vs v := by
  refine Finset.sum_lt_sum_of_subset (i := w) ?_ ?_ ?_ ?_ ?_
  · intro u hu
    rw [List.mem_toFinset] at hu ⊢
    exact hus u hu
  · simpa using hw
  · simpa using hout
  · exact List.count_pos_iff.mpr hedge
  · exact fun _ _ _ ↦ Nat.zero_le _

theorem inv_start (hvs : vs.Nodup) : Inv adj vs [] (start adj vs) := by
  constructor
  · intro v hv
    exact (List.mem_filter.mp hv).1
  · exact hvs.filter _
  · intro v
    simp [start, count_flatMap hvs, edgesInto]
  · intro v hv
    simp [start, hv]
  · intro l₁ v l₂ hsplit
    simp [start] at hsplit

namespace Inv

variable {todo : List ν} {s : Search ν} {v : ν}

theorem edgesInto_order_le (h : Inv adj vs todo s) (v : ν) :
    edgesInto adj s.order v ≤ edgesInto adj vs v := by
  refine Finset.sum_le_sum_of_subset fun u hu ↦ ?_
  rw [List.mem_toFinset] at hu ⊢
  exact h.subset u (List.mem_append_left _ hu)

theorem relax (h : Inv adj vs (v :: todo) s) (hv : v ∈ vs) :
    Inv adj vs todo (relax s v) := by
  have hpos : 0 < s.indegree v := by
    have hdegree := h.degree v
    have hle := h.edgesInto_order_le v
    rw [List.count_cons_self] at hdegree
    omega
  have hnew : v ∉ s.order ++ s.queue := by
    rw [h.ready v hv]
    omega
  constructor
  · intro w hw
    by_cases hwv : w = v
    · exact hwv ▸ hv
    · apply h.subset w
      simp only [Kahn.relax] at hw
      split at hw
      · simpa [hwv] using hw
      · exact hw
  · simp only [Kahn.relax]
    split
    · rw [← List.append_assoc]
      refine List.Nodup.append h.nodup (by simp) ?_
      intro w hw hwv
      rw [List.mem_singleton] at hwv
      exact hnew (hwv ▸ hw)
    · exact h.nodup
  · intro w
    have hdegree := h.degree w
    simp only [Kahn.relax]
    by_cases hwv : w = v
    · subst hwv
      rw [List.count_cons_self] at hdegree
      rw [Function.update_self]
      omega
    · rw [Function.update_of_ne hwv]
      rwa [List.count_cons_of_ne (Ne.symm hwv)] at hdegree
  · intro w hw
    have hready := h.ready w hw
    simp only [Kahn.relax]
    by_cases hwv : w = v
    · subst hwv
      rw [Function.update_self]
      split
      · rename_i hzero
        simp [hzero]
      · rename_i hne
        exact iff_of_false hnew hne
    · rw [Function.update_of_ne hwv, ← hready]
      split
      · simp [hwv]
      · rfl
  · exact h.sorted

theorem foldl_relax (h : Inv adj vs todo s) (htodo : ∀ v ∈ todo, v ∈ vs) :
    Inv adj vs [] (todo.foldl Kahn.relax s) := by
  induction todo generalizing s with
  | nil => exact h
  | cons v todo ih =>
      exact ih (h.relax (htodo v (by simp)))
        (fun w hw ↦ htodo w (List.mem_cons_of_mem _ hw))

/-- The head of the queue has no predecessor outside the order. -/
theorem take {u : ν} {queue : List ν} (h : Inv adj vs [] s)
    (hqueue : s.queue = u :: queue) :
    Inv adj vs (adj u) { s with queue := queue, order := s.order ++ [u] } := by
  have hperm : ((s.order ++ [u]) ++ queue) = s.order ++ s.queue := by
    simp [hqueue]
  have hu : u ∈ vs := h.subset u (by simp [hqueue])
  have hzero : s.indegree u = 0 := (h.ready u hu).mp (by simp [hqueue])
  have hnew : u ∉ s.order := by
    have hnodup := h.nodup
    rw [hqueue] at hnodup
    intro hmem
    exact List.disjoint_of_nodup_append hnodup hmem (by simp)
  constructor
  · intro v hv
    exact h.subset v (hperm ▸ hv)
  · exact hperm ▸ h.nodup
  · intro v
    have hdegree := h.degree v
    have hconcat := edgesInto_concat adj hnew v
    simp only [List.count_nil] at hdegree
    simp only [hconcat]
    omega
  · intro v hv
    rw [hperm]
    exact h.ready v hv
  · intro l₁ v l₂ hsplit w hw hedge
    rcases List.eq_nil_or_concat l₂ with rfl | ⟨l₂', x, rfl⟩
    · obtain ⟨rfl, hlast⟩ := List.append_inj' hsplit rfl
      obtain rfl : u = v := by simpa using hlast
      by_contra hout
      have hdegree := h.degree u
      have hlt := edgesInto_lt
        (fun x hx ↦ h.subset x (List.mem_append_left _ hx)) hw hout hedge
      simp only [hzero, List.count_nil] at hdegree
      omega
    · have hinit : s.order = l₁ ++ v :: l₂' := by
        have hsplit' : s.order ++ [u] = (l₁ ++ v :: l₂') ++ [x] := by
          simpa using hsplit
        exact (List.append_inj' hsplit' rfl).1
      exact h.sorted l₁ v l₂' hinit w hw hedge

theorem search (h : Inv adj vs [] s) (hadj : ∀ u ∈ vs, ∀ v ∈ adj u, v ∈ vs)
    (fuel : ℕ) : Inv adj vs [] (search adj fuel s) := by
  induction fuel generalizing s with
  | zero => exact h
  | succ fuel ih =>
      rw [Kahn.search]
      split
      · exact h
      · rename_i u queue hqueue
        have hu : u ∈ vs := h.subset u (by simp [hqueue])
        exact ih ((h.take hqueue).foldl_relax (hadj u hu))

end Inv

/-- An order as long as the list of vertices is a topological order of them. -/
theorem perm_of_length_eq (hvs : vs.Nodup)
    (hadj : ∀ u ∈ vs, ∀ v ∈ adj u, v ∈ vs) {fuel : ℕ}
    (hlength : (search adj fuel (start adj vs)).order.length = vs.length) :
    (search adj fuel (start adj vs)).order.Perm vs ∧
      Sorted adj vs (search adj fuel (start adj vs)).order := by
  have hinv := (inv_start hvs).search hadj fuel
  refine ⟨?_, hinv.sorted⟩
  have hnodup := (List.nodup_append.mp hinv.nodup).1
  have hsub : (search adj fuel (start adj vs)).order.Subperm vs :=
    hnodup.subperm fun v hv ↦ hinv.subset v (List.mem_append_left _ hv)
  exact hsub.perm_of_length_le hlength.ge

theorem order_foldl_relax (l : List ν) (s : Search ν) :
    (l.foldl relax s).order = s.order := by
  induction l generalizing s with
  | nil => rfl
  | cons v l ih => exact ih (relax s v)

theorem queue_eq_nil_or_length_eq (fuel : ℕ) (s : Search ν) :
    (search adj fuel s).queue = [] ∨
      (search adj fuel s).order.length = s.order.length + fuel := by
  induction fuel generalizing s with
  | zero => exact .inr rfl
  | succ fuel ih =>
      rw [search]
      split
      · rename_i hqueue
        exact .inl hqueue
      · rename_i u queue hqueue
        rcases ih ((adj u).foldl relax
          { s with queue := queue, order := s.order ++ [u] }) with hnil | hlength
        · exact .inl hnil
        · right
          rw [hlength, order_foldl_relax]
          simp only [List.length_append, List.length_singleton]
          omega

/-- One turn more than there are vertices is never needed. -/
theorem queue_eq_nil (hvs : vs.Nodup) (hadj : ∀ u ∈ vs, ∀ v ∈ adj u, v ∈ vs) :
    (search adj (vs.length + 1) (start adj vs)).queue = [] := by
  have hinv := (inv_start hvs).search hadj (vs.length + 1)
  rcases queue_eq_nil_or_length_eq (vs.length + 1) (start adj vs) with
    hnil | hlength
  · exact hnil
  · have hnodup := (List.nodup_append.mp hinv.nodup).1
    have hsub : (search adj (vs.length + 1) (start adj vs)).order.Subperm vs :=
      hnodup.subperm fun v hv ↦ hinv.subset v (List.mem_append_left _ hv)
    have hle := hsub.length_le
    omega

/-! ## Cycles -/

/-- The edges between the vertices of a list. -/
def Edge (adj : ν → List ν) (vs : List ν) (u v : ν) : Prop := u ∈ vs ∧ v ∈ adj u

/-- When the queue is empty, a vertex that is left has a predecessor that is
left. -/
theorem Inv.exists_edge_of_notMem {s : Search ν} {v : ν} (h : Inv adj vs [] s)
    (hqueue : s.queue = []) (hv : v ∈ vs) (hout : v ∉ s.order) :
    ∃ u, u ∉ s.order ∧ Edge adj vs u v := by
  by_contra hnone
  push Not at hnone
  have hsame : edgesInto adj s.order v = edgesInto adj vs v := by
    refine Finset.sum_subset ?_ ?_
    · intro u hu
      rw [List.mem_toFinset] at hu ⊢
      exact h.subset u (List.mem_append_left _ hu)
    · intro u hu hleft
      rw [List.mem_toFinset] at hu hleft
      rw [List.count_eq_zero]
      intro hedge
      exact hnone u hleft ⟨hu, hedge⟩
  have hdegree := h.degree v
  have hzero : s.indegree v = 0 := by
    rw [hsame, List.count_nil] at hdegree
    omega
  have hmem := (h.ready v hv).mpr hzero
  rw [hqueue, List.append_nil] at hmem
  exact hout hmem

/-- Without a cycle the search finds every vertex: going back from a vertex that
is left would never end. -/
theorem length_eq_of_acyclic (hvs : vs.Nodup)
    (hadj : ∀ u ∈ vs, ∀ v ∈ adj u, v ∈ vs)
    (hacyclic : ∀ v, ¬ TransGen (Edge adj vs) v v) :
    (search adj (vs.length + 1) (start adj vs)).order.length = vs.length := by
  have hinv := (inv_start hvs).search hadj (vs.length + 1)
  have hqueue := queue_eq_nil hvs hadj
  set s := search adj (vs.length + 1) (start adj vs) with hs
  have hall : ∀ v ∈ vs, v ∈ s.order := by
    have : IsStrictOrder ν (TransGen (Edge adj vs)) :=
      { irrefl := hacyclic, trans := fun _ _ _ ↦ TransGen.trans }
    have hwf : (↑vs.toFinset : Set ν).WellFoundedOn (TransGen (Edge adj vs)) :=
      Finset.wellFoundedOn _
    intro v hv
    refine hwf.induction (P := fun v ↦ v ∈ s.order) (by simpa using hv) ?_
    intro v hv ih
    rw [List.coe_toFinset] at hv
    by_contra hout
    obtain ⟨u, hu, hedge⟩ := hinv.exists_edge_of_notMem hqueue hv hout
    exact hu (ih u (by simpa using hedge.1) (.single hedge))
  have hnodup := (List.nodup_append.mp hinv.nodup).1
  have hperm : s.order.Perm vs := by
    rw [List.perm_ext_iff_of_nodup hnodup hvs]
    intro v
    exact ⟨fun hv ↦ hinv.subset v (List.mem_append_left _ hv), hall v⟩
  exact hperm.length_eq

theorem Sorted.idxOf_lt {order : List ν} (h : Sorted adj vs order) {u v : ν}
    (hv : v ∈ order) (hedge : Edge adj vs u v) : order.idxOf u < order.idxOf v := by
  obtain ⟨l₁, l₂, rfl, hnot⟩ := List.eq_append_cons_of_mem hv
  have hu : u ∈ l₁ := h l₁ v l₂ rfl u hedge.1 hedge.2
  rw [List.idxOf_append_of_mem hu, List.idxOf_append_of_notMem hnot,
    List.idxOf_cons_self]
  exact List.idxOf_lt_length_of_mem hu

/-- A list that has every vertex behind its predecessors leaves no room for a
cycle. -/
theorem Sorted.acyclic {order : List ν} (h : Sorted adj vs order)
    (hmem : ∀ u ∈ vs, u ∈ order) (hadj : ∀ u ∈ vs, ∀ v ∈ adj u, v ∈ vs) (v : ν) :
    ¬ TransGen (Edge adj vs) v v := by
  refine Acyclic.not_transGen_self_of_rank order.idxOf ?_ v
  intro a b hedge
  exact h.idxOf_lt (hmem b (hadj a hedge.1 b hedge.2)) hedge

omit [DecidableEq ν] in
/-- The vertices with successors may be moved to the front. -/
theorem Sorted.promote {order rest : List ν} {p : ν → Bool}
    (h : Sorted adj vs order) (hmem : ∀ u ∈ vs, u ∈ order)
    (hp : ∀ u ∈ vs, ∀ v ∈ adj u, p u = true) :
    Sorted adj vs (order.filter p ++ rest) := by
  intro l₁ v l₂ hsplit u hu hedge
  have hfront : u ∈ order.filter p :=
    List.mem_filter.mpr ⟨hmem u hu, hp u hu v hedge⟩
  rcases List.append_eq_append_iff.mp hsplit with ⟨l, rfl, -⟩ | ⟨l, hl, hrest⟩
  · exact List.mem_append_left _ hfront
  · cases l with
    | nil => simpa [hl] using hfront
    | cons w l =>
        -- `v` stands in the front part, whose order is that of the whole list
        obtain ⟨rfl, -⟩ : v = w ∧ l₂ = l ++ rest := by simpa using hrest
        obtain ⟨m₁, m₂, rfl, hm₁, hm₂⟩ := List.filter_eq_append_iff.mp hl
        obtain ⟨m₃, m₄, rfl, hm₃, -, -⟩ := List.filter_eq_cons_iff.mp hm₂
        have hbefore := h (m₁ ++ m₃) v m₄ (by simp) u hu hedge
        rw [← hm₁]
        rcases List.mem_append.mp hbefore with hbefore | hbefore
        · exact List.mem_filter.mpr ⟨hbefore, hp u hu v hedge⟩
        · exact absurd (hp u hu v hedge) (hm₃ u hbefore)

end HiApp.Kahn
