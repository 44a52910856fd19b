import Mathlib.Algebra.BigOperators.Group.List.Basic
import Mathlib.Algebra.GroupWithZero.Nat
import Mathlib.Data.List.Lex

/-!
# Breadth-first search

A search from a node takes the nodes in a queue from its front and puts the nodes below them
at its end.  It finds a node of the least depth, and of those the one that is leftmost.
-/

namespace HiApp

/-- Nodes with finitely many nodes below each. -/
structure Forest (ν : Type*) where
  children : ν → List ν
  size : ν → ℕ
  sum_lt : ∀ v, ((children v).map size).sum < size v

namespace Forest

variable {ν : Type*} (T : Forest ν) (p : ν → Bool)

/-- The first node of the queue or below that has the property. -/
def search : List ν → Option ν
  | [] => none
  | node :: queue => if p node then some node else search (queue ++ T.children node)
termination_by queue => (queue.map T.size).sum
decreasing_by
  have hlt := T.sum_lt node
  rw [List.map_append, List.sum_append, List.map_cons, List.sum_cons]
  omega

/-- The node at the end of a path, of which every entry is the index of a child. -/
def descend : ν → List ℕ → Option ν
  | v, [] => some v
  | v, i :: path => (T.children v)[i]?.bind fun child ↦ descend child path

/-- The nodes at a depth, from left to right. -/
def level : ℕ → ν → List ν
  | 0, v => [v]
  | depth + 1, v => (T.children v).flatMap (level depth)

/-- The path leads to a node with the property, at the least depth and leftmost there. -/
structure First (v : ν) (path : List ℕ) (w : ν) : Prop where
  descend : T.descend v path = some w
  holds : p w = true
  minimal : ∀ path' u, T.descend v path' = some u → p u = true →
    path.length < path'.length ∨
      path.length = path'.length ∧ (path = path' ∨ List.Lex (· < ·) path path')

variable {T p} {v w : ν} {depth : ℕ}

theorem level_zero : T.level 0 v = [v] := rfl

theorem level_succ : T.level (depth + 1) v = (T.children v).flatMap (T.level depth) := rfl

theorem descend_cons (i : ℕ) (path : List ℕ) :
    T.descend v (i :: path) = (T.children v)[i]?.bind fun child ↦ T.descend child path := rfl

theorem search_nil : T.search p [] = none := by
  rw [search]

theorem search_cons (v : ν) (queue : List ν) :
    T.search p (v :: queue) =
      if p v then some v else T.search p (queue ++ T.children v) := by
  rw [search]

theorem search_cons_of_pos (queue : List ν) (h : p v = true) :
    T.search p (v :: queue) = some v := by
  rw [search_cons, if_pos h]

theorem search_cons_of_neg (queue : List ν) (h : ¬ p v = true) :
    T.search p (v :: queue) = T.search p (queue ++ T.children v) := by
  rw [search_cons, if_neg h]

/-- The front part of the queue comes first, and then what is below it comes last. -/
theorem search_append (front queue : List ν) :
    T.search p (front ++ queue) =
      (front.find? p).or (T.search p (queue ++ front.flatMap T.children)) := by
  induction front generalizing queue with
  | nil => rw [List.nil_append, List.find?_nil, Option.none_or, List.flatMap_nil, List.append_nil]
  | cons v front ih =>
      by_cases hv : p v = true
      · rw [List.cons_append, search_cons_of_pos _ hv, List.find?_cons_of_pos hv, Option.some_or]
      · rw [List.cons_append, search_cons_of_neg _ hv, List.append_assoc, ih,
          List.find?_cons_of_neg hv, List.flatMap_cons, List.append_assoc]

theorem search_eq_or (queue : List ν) :
    T.search p queue = (queue.find? p).or (T.search p (queue.flatMap T.children)) := by
  have h := search_append (T := T) (p := p) queue []
  rwa [List.append_nil, List.nil_append] at h

/-- What is below a level is the next one. -/
theorem flatMap_level (depth : ℕ) (v : ν) :
    (T.level depth v).flatMap T.children = T.level (depth + 1) v := by
  induction depth generalizing v with
  | zero =>
      rw [level_zero, level_succ, List.flatMap_singleton]
      exact (List.flatMap_singleton' _).symm
  | succ depth ih =>
      rw [level_succ, List.flatMap_assoc, level_succ]
      congr 1
      funext child
      exact ih child

theorem sum_flatMap_children (nodes : List ν) :
    ((nodes.flatMap T.children).map T.size).sum + nodes.length ≤ (nodes.map T.size).sum := by
  induction nodes with
  | nil => exact Nat.le_refl _
  | cons v nodes ih =>
      have hlt := T.sum_lt v
      rw [List.flatMap_cons, List.map_append, List.sum_append, List.length_cons, List.map_cons,
        List.sum_cons]
      omega

theorem mem_level_iff :
    w ∈ T.level depth v ↔ ∃ path, path.length = depth ∧ T.descend v path = some w := by
  induction depth generalizing v with
  | zero =>
      rw [level_zero, List.mem_singleton]
      constructor
      · rintro rfl
        exact ⟨[], rfl, rfl⟩
      · rintro ⟨path, hlength, hdescend⟩
        rw [List.length_eq_zero_iff.mp hlength] at hdescend
        exact (Option.some.inj hdescend).symm
  | succ depth ih =>
      rw [level_succ, List.mem_flatMap]
      constructor
      · rintro ⟨child, hchild, hw⟩
        obtain ⟨path, rfl, hdescend⟩ := ih.mp hw
        obtain ⟨i, hi⟩ := List.mem_iff_getElem?.mp hchild
        exact ⟨i :: path, rfl, by rw [descend_cons, hi, Option.bind_some, hdescend]⟩
      · rintro ⟨path, hlength, hdescend⟩
        cases path with
        | nil => cases hlength
        | cons i path =>
            obtain ⟨child, hi, hdescend⟩ := Option.bind_eq_some_iff.mp hdescend
            exact ⟨child, List.mem_of_getElem? hi,
              ih.mpr ⟨path, Nat.succ.inj hlength, hdescend⟩⟩

/-- Nothing is found just when no node has the property. -/
theorem search_eq_none_iff (queue : List ν) :
    T.search p queue = none ↔
      ∀ v ∈ queue, ∀ path w, T.descend v path = some w → p w = false := by
  induction queue using Forest.search.induct (T := T) (p := p) with
  | case1 => simp [search_nil]
  | case2 v queue hv =>
      rw [search_cons_of_pos _ hv]
      apply iff_of_false (Option.some_ne_none v)
      intro h
      rw [h v List.mem_cons_self [] v rfl] at hv
      cases hv
  | case3 v queue hv ih =>
      rw [search_cons_of_neg _ hv, ih]
      constructor
      · intro h u hu path w hdescend
        rcases List.mem_cons.mp hu with rfl | hu
        · cases path with
          | nil =>
              obtain rfl := Option.some.inj hdescend
              exact eq_false_of_ne_true hv
          | cons i path =>
              obtain ⟨child, hi, hdescend⟩ := Option.bind_eq_some_iff.mp hdescend
              exact h child (List.mem_append_right _ (List.mem_of_getElem? hi)) path w hdescend
        · exact h u (List.mem_append_left _ hu) path w hdescend
      · intro h u hu path w hdescend
        rcases List.mem_append.mp hu with hu | hchild
        · exact h u (List.mem_cons_of_mem v hu) path w hdescend
        · obtain ⟨i, hi⟩ := List.mem_iff_getElem?.mp hchild
          apply h v List.mem_cons_self (i :: path) w
          rw [descend_cons, hi, Option.bind_some, hdescend]

/-- What is found is the leftmost of the first level that has one. -/
theorem exists_level_of_search (h : T.search p (T.level depth v) = some w) :
    ∃ n, depth ≤ n ∧ (T.level n v).find? p = some w ∧
      ∀ m, depth ≤ m → m < n → ∀ u ∈ T.level m v, p u = false := by
  induction hsize : ((T.level depth v).map T.size).sum using Nat.strongRecOn
    generalizing depth with
  | ind size ih =>
      cases hfind : (T.level depth v).find? p with
      | some u =>
          rw [search_eq_or, hfind, Option.some_or] at h
          obtain rfl := Option.some.inj h
          exact ⟨depth, Nat.le_refl _, hfind, fun m hle hlt ↦ absurd hle (Nat.not_le_of_lt hlt)⟩
      | none =>
          have hne : T.level depth v ≠ [] := by
            intro hnil
            rw [hnil, search_nil] at h
            cases h
          have hlength := List.length_pos_iff.mpr hne
          have hsum := sum_flatMap_children (T := T) (T.level depth v)
          rw [flatMap_level] at hsum
          rw [search_eq_or, hfind, Option.none_or, flatMap_level] at h
          obtain ⟨n, hle, hn, hbefore⟩ := ih _ (by omega) h rfl
          refine ⟨n, Nat.le_of_succ_le hle, hn, fun m hm hlt u hu ↦ ?_⟩
          rcases Nat.eq_or_lt_of_le hm with rfl | hm
          · exact eq_false_of_ne_true (List.find?_eq_none.mp hfind u hu)
          · exact hbefore m hm hlt u hu

/-- The first node of a level has the least path. -/
theorem exists_path_of_find? (h : (T.level depth v).find? p = some w) :
    ∃ path, path.length = depth ∧ T.descend v path = some w ∧
      ∀ path' u, path'.length = depth → T.descend v path' = some u → p u = true →
        path = path' ∨ List.Lex (· < ·) path path' := by
  induction depth generalizing v with
  | zero =>
      have hw := List.mem_of_find?_eq_some h
      rw [level_zero, List.mem_singleton] at hw
      refine ⟨[], rfl, congrArg some hw.symm, fun path' u hlength _ _ ↦ ?_⟩
      exact .inl (List.length_eq_zero_iff.mp hlength).symm
  | succ depth ih =>
      rw [level_succ, List.find?_flatMap] at h
      obtain ⟨front, child, rest, hsplit, hchild, hfront⟩ := List.findSome?_eq_some_iff.mp h
      obtain ⟨path, rfl, hdescend, hleast⟩ := ih hchild
      refine ⟨front.length :: path, rfl, ?_, ?_⟩
      · rw [descend_cons, hsplit, List.getElem?_append_right (Nat.le_refl _), Nat.sub_self,
          List.getElem?_cons_zero, Option.bind_some, hdescend]
      · intro path' u hlength hdescend' hu
        cases path' with
        | nil => cases hlength
        | cons i path' =>
            obtain ⟨other, hi, hdescend'⟩ := Option.bind_eq_some_iff.mp hdescend'
            have hdepth : path'.length = path.length := Nat.succ.inj hlength
            rcases Nat.lt_trichotomy i front.length with hlt | rfl | hgt
            · -- a child in front of the first that has one
              rw [hsplit, List.getElem?_append_left hlt] at hi
              have hmem := mem_level_iff.mpr ⟨path', hdepth, hdescend'⟩
              exact absurd hu
                (List.find?_eq_none.mp (hfront other (List.mem_of_getElem? hi)) u hmem)
            · rw [hsplit, List.getElem?_append_right (Nat.le_refl _), Nat.sub_self,
                List.getElem?_cons_zero] at hi
              obtain rfl := Option.some.inj hi
              rcases hleast path' u hdepth hdescend' hu with rfl | hlex
              · exact .inl rfl
              · exact .inr (.cons hlex)
            · exact .inr (.rel hgt)

theorem First.unique {path path' : List ℕ} {w' : ν} (h : First T p v path w)
    (h' : First T p v path' w') : w = w' := by
  have hpath : path = path' := by
    rcases h.minimal path' w' h'.descend h'.holds with hlt | ⟨hlength, hle⟩
    · rcases h'.minimal path w h.descend h.holds with hgt | ⟨hlength, -⟩
      · omega
      · omega
    · rcases h'.minimal path w h.descend h.holds with hgt | ⟨-, hge⟩
      · omega
      · rcases hle with rfl | hle
        · rfl
        · rcases hge with rfl | hge
          · rfl
          · exact absurd hge (asymm hle)
  subst hpath
  exact Option.some.inj (h.descend.symm.trans h'.descend)

theorem exists_first_of_search (h : T.search p [v] = some w) : ∃ path, First T p v path w := by
  have hroot : T.search p (T.level 0 v) = some w := h
  obtain ⟨n, -, hfind, hbefore⟩ := exists_level_of_search hroot
  obtain ⟨path, rfl, hdescend, hleast⟩ := exists_path_of_find? hfind
  refine ⟨path, hdescend, List.find?_some hfind, fun path' u hdescend' hu ↦ ?_⟩
  rcases Nat.lt_trichotomy path.length path'.length with hlt | heq | hgt
  · exact .inl hlt
  · exact .inr ⟨heq, hleast path' u heq.symm hdescend' hu⟩
  · rw [hbefore _ (Nat.zero_le _) hgt u (mem_level_iff.mpr ⟨path', rfl, hdescend'⟩)] at hu
    cases hu

/-- The search finds a node just when it is the first of all that have the property. -/
theorem search_eq_some_iff : T.search p [v] = some w ↔ ∃ path, First T p v path w := by
  constructor
  · exact exists_first_of_search
  · rintro ⟨path, hfirst⟩
    cases hsearch : T.search p [v] with
    | none =>
        have hnone := (search_eq_none_iff [v]).mp hsearch v List.mem_cons_self path w
          hfirst.descend
        rw [hfirst.holds] at hnone
        cases hnone
    | some w' =>
        obtain ⟨path', hfirst'⟩ := exists_first_of_search hsearch
        rw [hfirst.unique hfirst']

end Forest

end HiApp
