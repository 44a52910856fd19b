import HiApp.LaunchStarter.Sort
import HiApp.Lib.Runs

/-!
# The order of the sorted list

`topologicalSort` orders any graph without a cycle.  The result of `getSortResult`
has the tasks of the list, every task behind the tasks of the classes it depends
on, and the tasks that others depend on in front.
-/

namespace HiApp.LaunchStarter

open Relation

variable {τ κ : Type*}

/-! ## The graph -/

/-- Every edge leads from a vertex of `dependSet` into the graph. -/
structure Graph.Closed (n : ℕ) (s : List ℕ × Graph) : Prop where
  vertices : s.2.mVerticalCount = n
  bound : ∀ u v, v ∈ s.2.mAdj u → v < n
  source : ∀ u v, v ∈ s.2.mAdj u → u ∈ s.1

/-- There is an edge into `i` from the index found for `cls`. -/
def Launch.HasEdge [DecidableEq κ] (L : Launch τ κ) (originTasks : List τ)
    (clsLaunchTasks : List κ) (i : ℕ) (cls : κ) (s : List ℕ × Graph) : Prop :=
  ∃ j, L.getIndexOfTask originTasks clsLaunchTasks cls = some j ∧
    j < s.2.mVerticalCount ∧ j ∈ s.1 ∧ i ∈ s.2.mAdj j

theorem Graph.mem_addEdge {g : Graph} {u v x y : ℕ} :
    y ∈ (g.addEdge u v).mAdj x ↔ y ∈ g.mAdj x ∨ x = u ∧ y = v := by
  by_cases hxu : x = u
  · simp [Graph.addEdge, hxu]
  · simp [Graph.addEdge, hxu]

/-- The search of `topologicalSort` ends because its queue is empty, never because
its turns are used up. -/
theorem Graph.queue_eq_nil {n : ℕ} {s : List ℕ × Graph}
    (hclosed : Graph.Closed n s) :
    (Kahn.search s.2.mAdj (s.2.mVerticalCount + 1)
      (Kahn.start s.2.mAdj (List.range s.2.mVerticalCount))).queue = [] := by
  have hadj : ∀ u ∈ List.range n, ∀ v ∈ s.2.mAdj u, v ∈ List.range n :=
    fun u _ v hv ↦ List.mem_range.mpr (hclosed.bound u v hv)
  have hnil := Kahn.queue_eq_nil List.nodup_range hadj
  rw [List.length_range] at hnil
  rw [hclosed.vertices]
  exact hnil

theorem Graph.topologicalSort_spec {n : ℕ}
    {s : List ℕ × Graph} {indexList : List ℕ} (hclosed : Graph.Closed n s)
    (htopo : s.2.topologicalSort = .ok indexList) :
    indexList.Perm (List.range n) ∧
      Kahn.Sorted s.2.mAdj (List.range n) indexList := by
  unfold Graph.topologicalSort at htopo
  simp only at htopo
  split at htopo
  · simp at htopo
  rename_i hlength
  obtain rfl := Except.ok.inj htopo
  rw [hclosed.vertices] at hlength ⊢
  refine Kahn.perm_of_length_eq List.nodup_range ?_ ?_
  · intro u _ v hv
    exact List.mem_range.mpr (hclosed.bound u v hv)
  · rw [List.length_range]
    exact not_not.mp hlength

theorem Graph.topologicalSort_returns_or_throws (g : Graph) :
    (∃ topOrder, g.topologicalSort = .ok topOrder) ∨
      g.topologicalSort = .error .cycle := by
  unfold Graph.topologicalSort
  simp only
  split
  · exact .inr rfl
  · exact .inl ⟨_, rfl⟩

/-- `topologicalSort` throws exactly when the graph has a cycle. -/
theorem Graph.topologicalSort_eq_cycle_iff {n : ℕ} {s : List ℕ × Graph}
    (hclosed : Graph.Closed n s) :
    s.2.topologicalSort = .error .cycle ↔
      ∃ v, TransGen (Kahn.Edge s.2.mAdj (List.range n)) v v := by
  have hadj : ∀ u ∈ List.range n, ∀ v ∈ s.2.mAdj u, v ∈ List.range n :=
    fun u _ v hv ↦ List.mem_range.mpr (hclosed.bound u v hv)
  constructor
  · intro hthrow
    by_contra hacyclic
    push Not at hacyclic
    have hlength := Kahn.length_eq_of_acyclic List.nodup_range hadj hacyclic
    rw [List.length_range] at hlength
    simp only [Graph.topologicalSort, hclosed.vertices, hlength, ne_eq, not_true_eq_false,
      if_false, reduceCtorEq] at hthrow
  · rintro ⟨v, hcycle⟩
    rcases s.2.topologicalSort_returns_or_throws with ⟨topOrder, htopo⟩ | hthrow
    · obtain ⟨hperm, hsorted⟩ := Graph.topologicalSort_spec hclosed htopo
      exact absurd hcycle (hsorted.acyclic (fun u hu ↦ hperm.mem_iff.mpr hu) hadj v)
    · exact hthrow

/-! ## The topological sort on its own -/

namespace Graph

/-- `new Graph(n)`, then one `addEdge` for each entry. -/
def ofEdges (n : ℕ) (edges : List (ℕ × ℕ)) : Graph :=
  edges.foldl (fun g edge ↦ g.addEdge edge.1 edge.2) { mVerticalCount := n }

variable {n : ℕ} {edges : List (ℕ × ℕ)}

theorem mVerticalCount_ofEdges : (ofEdges n edges).mVerticalCount = n := by
  induction edges using List.reverseRecOn with
  | nil => rfl
  | append_singleton edges edge ih =>
      rw [ofEdges, List.foldl_concat, ← ofEdges, addEdge, ih]

theorem mem_ofEdges {u v : ℕ} : v ∈ (ofEdges n edges).mAdj u ↔ (u, v) ∈ edges := by
  induction edges using List.reverseRecOn with
  | nil => simp [ofEdges]
  | append_singleton edges edge ih =>
      rw [ofEdges, List.foldl_concat, ← ofEdges, mem_addEdge, ih, List.mem_append,
        List.mem_singleton, Prod.ext_iff]

theorem closed_ofEdges (hedges : ∀ edge ∈ edges, edge.1 < n ∧ edge.2 < n) :
    Closed n (edges.map Prod.fst, ofEdges n edges) := by
  refine ⟨mVerticalCount_ofEdges, ?_, ?_⟩
  · intro u v hv
    exact (hedges (u, v) (mem_ofEdges.mp hv)).2
  · intro u v hv
    exact List.mem_map.mpr ⟨(u, v), mem_ofEdges.mp hv, rfl⟩

theorem edge_ofEdges (hedges : ∀ edge ∈ edges, edge.1 < n ∧ edge.2 < n) :
    Kahn.Edge (ofEdges n edges).mAdj (List.range n) = fun u v ↦ (u, v) ∈ edges := by
  funext u v
  rw [Kahn.Edge, mem_ofEdges, List.mem_range, eq_iff_iff]
  exact and_iff_right_of_imp fun hedge ↦ (hedges (u, v) hedge).1

/-- `topologicalSort` comes to an end.  It returns all vertices, each once and
behind its predecessors, when the graph has no cycle, and throws when it has
one. -/
theorem topologicalSort_correct (n : ℕ) (edges : List (ℕ × ℕ))
    (hedges : ∀ edge ∈ edges, edge.1 < n ∧ edge.2 < n) :
    (Kahn.search (ofEdges n edges).mAdj (n + 1)
      (Kahn.start (ofEdges n edges).mAdj (List.range n))).queue = [] ∧
    ((¬ ∃ v, TransGen (fun u v ↦ (u, v) ∈ edges) v v) →
      ∃ topOrder, (ofEdges n edges).topologicalSort = .ok topOrder ∧
        topOrder.Perm (List.range n) ∧
        ∀ u v, (u, v) ∈ edges → topOrder.idxOf u < topOrder.idxOf v) ∧
    ((ofEdges n edges).topologicalSort = .error .cycle ↔
      ∃ v, TransGen (fun u v ↦ (u, v) ∈ edges) v v) := by
  have hclosed := closed_ofEdges hedges
  have hcycle := topologicalSort_eq_cycle_iff hclosed
  rw [edge_ofEdges hedges] at hcycle
  refine ⟨?_, ?_, hcycle⟩
  · simpa only [mVerticalCount_ofEdges] using queue_eq_nil hclosed
  · intro hacyclic
    obtain ⟨topOrder, htopo⟩ :=
      (topologicalSort_returns_or_throws _).resolve_right (mt hcycle.mp hacyclic)
    obtain ⟨hperm, hsorted⟩ := topologicalSort_spec hclosed htopo
    refine ⟨topOrder, htopo, hperm, ?_⟩
    intro u v huv
    have hv : v ∈ topOrder := hperm.mem_iff.mpr (List.mem_range.mpr (hedges _ huv).2)
    refine hsorted.idxOf_lt hv ?_
    rw [edge_ofEdges hedges]
    exact huv

/-- A parallel edge, and a self loop behind it. -/
theorem topologicalSort_correct_loop :
    (ofEdges 3 [(0, 1), (0, 1), (2, 2)]).topologicalSort = .error .cycle := by
  refine (topologicalSort_correct 3 [(0, 1), (0, 1), (2, 2)] ?_).2.2.mpr ⟨2, .single ?_⟩
  · decide
  · decide

end Graph

/-! ## The edges of the task list -/

namespace Launch

variable [DecidableEq κ] {L : Launch τ κ} {originTasks : List τ}
  {clsLaunchTasks : List κ} {task : τ} {i n : ℕ} {cls : κ}
  {s s' : List ℕ × Graph}

theorem addDepend_cases
    (h : L.addDepend originTasks clsLaunchTasks task i s cls = (s', none)) :
    ∃ j, L.getIndexOfTask originTasks clsLaunchTasks cls = some j ∧
      j < s.2.mVerticalCount ∧ s' = (j :: s.1, s.2.addEdge j i) := by
  unfold addDepend at h
  split at h
  · simp at h
  · rename_i j hj
    split at h
    · rename_i hlt
      exact ⟨j, hj, hlt, (congrArg Prod.fst h).symm⟩
    · simp at h

theorem HasEdge.addDepend {i' : ℕ} {cls' : κ}
    (hedge : L.HasEdge originTasks clsLaunchTasks i' cls' s)
    (h : L.addDepend originTasks clsLaunchTasks task i s cls = (s', none)) :
    L.HasEdge originTasks clsLaunchTasks i' cls' s' := by
  obtain ⟨j, -, -, rfl⟩ := addDepend_cases h
  obtain ⟨k, hk, hlt, hset, hadj⟩ := hedge
  exact ⟨k, hk, hlt, List.mem_cons_of_mem _ hset,
    Graph.mem_addEdge.mpr (.inl hadj)⟩

theorem HasEdge.addDepends {i' : ℕ} {cls' : κ} {isSend : τ → Bool}
    {entry : τ × ℕ} (hedge : L.HasEdge originTasks clsLaunchTasks i' cls' s)
    (h : L.addDepends isSend originTasks clsLaunchTasks s entry = (s', none)) :
    L.HasEdge originTasks clsLaunchTasks i' cls' s' := by
  unfold Launch.addDepends at h
  split at h
  · obtain rfl := congrArg Prod.fst h
    exact hedge
  · apply forEach.invariant _ hedge h
    intro u c v _ hu hbody
    exact hu.addDepend hbody

theorem closed_addDepends {isSend : τ → Bool} {entry : τ × ℕ}
    (hclosed : Graph.Closed n s) (hentry : entry.2 < n)
    (h : L.addDepends isSend originTasks clsLaunchTasks s entry = (s', none)) :
    Graph.Closed n s' := by
  unfold addDepends at h
  split at h
  · obtain rfl := congrArg Prod.fst h
    exact hclosed
  · apply forEach.invariant _ hclosed h
    intro u c v _ hu hbody
    obtain ⟨j, -, hlt, rfl⟩ := addDepend_cases hbody
    refine ⟨hu.vertices, ?_, ?_⟩
    · intro x y hy
      rcases Graph.mem_addEdge.mp hy with hy | ⟨-, rfl⟩
      · exact hu.bound x y hy
      · exact hentry
    · intro x y hy
      rcases Graph.mem_addEdge.mp hy with hy | ⟨rfl, -⟩
      · exact List.mem_cons_of_mem _ (hu.source x y hy)
      · exact List.mem_cons_self

theorem hasEdge_addDepends {isSend : τ → Bool} {entry : τ × ℕ}
    (hsend : isSend entry.1 = false)
    (h : L.addDepends isSend originTasks clsLaunchTasks s entry = (s', none)) :
    ∀ c ∈ L.dependsOn entry.1, L.HasEdge originTasks clsLaunchTasks entry.2 c s' := by
  simp only [addDepends, hsend, Bool.false_eq_true, if_false] at h
  refine forEach.achieves
    (Q := fun c s ↦ L.HasEdge originTasks clsLaunchTasks entry.2 c s) ?_ ?_ h
  · intro u c v _ hbody
    obtain ⟨j, hj, hlt, rfl⟩ := addDepend_cases hbody
    exact ⟨j, hj, hlt, by simp, Graph.mem_addEdge.mpr (.inr ⟨rfl, rfl⟩)⟩
  · intro u c v c' hu hbody
    exact hu.addDepend hbody

theorem graph_closed {isSend : τ → Bool}
    (h : forEach (L.addDepends isSend originTasks clsLaunchTasks)
      ([], { mVerticalCount := originTasks.length }) originTasks.zipIdx =
        (s, none)) : Graph.Closed originTasks.length s := by
  refine forEach.invariant ?_ ⟨rfl, by simp, by simp⟩ h
  intro u entry v hentry hu hbody
  refine closed_addDepends hu ?_ hbody
  obtain ⟨t, i⟩ := entry
  exact (List.getElem?_eq_some_iff.mp (List.mem_zipIdx_iff_getElem?.mp hentry)).1

theorem hasEdge_of_graph {isSend : τ → Bool}
    (h : forEach (L.addDepends isSend originTasks clsLaunchTasks)
      ([], { mVerticalCount := originTasks.length }) originTasks.zipIdx =
        (s, none)) :
    ∀ t i, originTasks[i]? = some t → isSend t = false → ∀ c ∈ L.dependsOn t,
      L.HasEdge originTasks clsLaunchTasks i c s := by
  intro t i ht hsend
  have hmem : (t, i) ∈ originTasks.zipIdx := List.mem_zipIdx_iff_getElem?.mpr ht
  refine forEach.achieves
    (Q := fun entry s ↦ isSend entry.1 = false → ∀ c ∈ L.dependsOn entry.1,
      L.HasEdge originTasks clsLaunchTasks entry.2 c s) ?_ ?_ h (t, i) hmem hsend
  · intro u entry v _ hbody hsend
    exact hasEdge_addDepends hsend hbody
  · intro u entry v entry' hu hbody hsend c hc
    exact (hu hsend c hc).addDepends hbody

/-! ## The result -/

theorem filterMap_filter {α β : Type*} (f : α → Option β) (p : α → β → Bool)
    (l : List α) :
    l.filterMap (fun x ↦ (f x).filter (p x)) =
      (l.filter fun x ↦ (f x).any (p x)).filterMap f := by
  induction l with
  | nil => rfl
  | cons x l ih =>
      rw [List.filterMap_cons, List.filter_cons, ih]
      cases hx : f x with
      | none => simp
      | some y => cases hp : p x y <;> simp [Option.filter, hp, hx]

/-- The indices in the order of the result. -/
def resultIndices (L : Launch τ κ) (originTasks : List τ) (dependSet indexList : List ℕ) :
    List ℕ :=
  let rest := indexList.filter fun index ↦ !decide (index ∈ dependSet)
  let soon := fun index ↦ (originTasks[index]?).any fun t ↦ (L.decl t).needRunAsSoon
  indexList.filter (fun index ↦ decide (index ∈ dependSet)) ++
    (rest.filter soon ++ rest.filter fun index ↦ !soon index)

omit [DecidableEq κ] in
theorem getResultTasks_eq {dependSet indexList : List ℕ}
    (hbound : ∀ index ∈ indexList, index < originTasks.length) :
    (L.getResultTasks [] originTasks dependSet indexList).2 =
      (L.resultIndices originTasks dependSet indexList).filterMap
        (originTasks[·]?) := by
  have hget : ∀ index ∈ indexList, ∃ t, originTasks[index]? = some t :=
    fun index hindex ↦ ⟨_, List.getElem?_eq_getElem (hbound index hindex)⟩
  simp only [getResultTasks, resultIndices, filterMap_filter, List.filterMap_append,
    List.nil_append, List.append_assoc, List.filter_filter]
  congr 1
  · congr 1
    apply List.filter_congr
    intro index hindex
    obtain ⟨t, ht⟩ := hget index hindex
    simp [ht]
  · congr 1
    all_goals
      congr 1
      apply List.filter_congr
      intro index hindex
      obtain ⟨t, ht⟩ := hget index hindex
      simp [ht, Bool.and_comm]

omit [DecidableEq κ] in
theorem resultIndices_perm (originTasks : List τ) (dependSet indexList : List ℕ) :
    (L.resultIndices originTasks dependSet indexList).Perm indexList := by
  refine .trans (.append_left _ (List.filter_append_perm _ _)) ?_
  exact List.filter_append_perm _ _

omit [DecidableEq κ] in
theorem sorted_resultIndices (L : Launch τ κ) (originTasks : List τ)
    {dependSet indexList : List ℕ} {graph : Graph}
    (hclosed : Graph.Closed n (dependSet, graph))
    (hperm : indexList.Perm (List.range n))
    (hsorted : Kahn.Sorted graph.mAdj (List.range n) indexList) :
    Kahn.Sorted graph.mAdj (List.range n)
      (L.resultIndices originTasks dependSet indexList) := by
  apply hsorted.promote
  · intro u hu
    exact hperm.mem_iff.mpr hu
  · intro u _ v hv
    simpa using hclosed.source u v hv

theorem filterMap_range {α : Type*} (l : List α) :
    (List.range l.length).filterMap (l[·]?) = l := by
  induction l using List.reverseRecOn with
  | nil => rfl
  | append_singleton l a ih =>
      have hinit : (List.range l.length).filterMap ((l ++ [a])[·]?) = l := by
        conv_rhs => rw [← ih]
        refine List.filterMap_congr fun i hi ↦ ?_
        exact List.getElem?_append_left (List.mem_range.mp hi)
      rw [List.length_append, List.length_singleton, List.range_succ,
        List.filterMap_append, hinit]
      simp

theorem getElem?_of_getIndexOfTask {d : τ} {j : ℕ}
    (hcls : (originTasks.map fun t ↦ (L.decl t).cls).Nodup) (hd : d ∈ originTasks)
    (hindex : L.getIndexOfTask originTasks (originTasks.map fun t ↦ (L.decl t).cls)
      (L.decl d).cls = some j) : originTasks[j]? = some d := by
  have hfound : (originTasks.map fun t ↦ (L.decl t).cls).findIdx?
      (fun c ↦ c = (L.decl d).cls) = some j := by
    unfold getIndexOfTask at hindex
    split at hindex
    · rename_i index hindex'
      rw [hindex', hindex]
    · rename_i hnone
      have := List.findIdx?_eq_none_iff.mp hnone (L.decl d).cls
        (List.mem_map_of_mem hd)
      simp at this
  obtain ⟨hlt, hj, -⟩ := List.findIdx?_eq_some_iff_getElem.mp hfound
  rw [List.length_map] at hlt
  rw [List.getElem?_eq_getElem hlt, Option.some.injEq]
  refine List.inj_on_of_nodup_map hcls (List.getElem_mem hlt) hd ?_
  simpa using hj

/-- What a sort that returns has made of the list: the tasks at the indices, in the
order of the result. -/
theorem getSortResult_eq_filterMap {isSend : τ → Bool} {high tasks : List τ}
    (hsort : L.getSortResult isSend [] originTasks clsLaunchTasks =
      .ok (high, tasks)) :
    ∃ dependSet graph indexList,
      forEach (L.addDepends isSend originTasks clsLaunchTasks)
        ([], { mVerticalCount := originTasks.length }) originTasks.zipIdx =
          ((dependSet, graph), none) ∧
      graph.topologicalSort = .ok indexList ∧
      tasks = (L.resultIndices originTasks dependSet indexList).filterMap
        (originTasks[·]?) := by
  unfold getSortResult at hsort
  split at hsort
  · simp at hsort
  rename_i dependSet graph hgraph
  split at hsort
  · simp at hsort
  rename_i indexList htopo
  refine ⟨dependSet, graph, indexList, hgraph, htopo, ?_⟩
  obtain ⟨hperm, -⟩ := Graph.topologicalSort_spec (graph_closed hgraph) htopo
  have hbound : ∀ index ∈ indexList, index < originTasks.length :=
    fun index hindex ↦ List.mem_range.mp (hperm.mem_iff.mp hindex)
  rw [← getResultTasks_eq hbound, Except.ok.inj hsort]

theorem getSortResult_perm {isSend : τ → Bool} {high tasks : List τ}
    (hsort : L.getSortResult isSend [] originTasks clsLaunchTasks =
      .ok (high, tasks)) : tasks.Perm originTasks := by
  obtain ⟨dependSet, graph, indexList, hgraph, htopo, rfl⟩ :=
    getSortResult_eq_filterMap hsort
  obtain ⟨hperm, -⟩ := Graph.topologicalSort_spec (graph_closed hgraph) htopo
  have hall := ((resultIndices_perm (L := L) originTasks dependSet indexList).trans
    hperm).filterMap (originTasks[·]?)
  rwa [filterMap_range] at hall

/-- The sorted list of tasks of distinct classes has every task behind the tasks
of the classes it depends on. -/
theorem getSortResult_spec {isSend : τ → Bool} (hsend : ∀ t, isSend t = false)
    (hcls : (originTasks.map fun t ↦ (L.decl t).cls).Nodup) {high tasks : List τ}
    (hsort : L.getSortResult isSend [] originTasks
      (originTasks.map fun t ↦ (L.decl t).cls) = .ok (high, tasks)) :
    tasks.Perm originTasks ∧ ∀ l₁ t l₂, tasks = l₁ ++ t :: l₂ →
      ∀ d ∈ originTasks, (L.decl d).cls ∈ L.dependsOn t → d ∈ l₁ := by
  refine ⟨getSortResult_perm hsort, ?_⟩
  obtain ⟨dependSet, graph, indexList, hgraph, htopo, htasks⟩ :=
    getSortResult_eq_filterMap hsort
  have hclosed := graph_closed hgraph
  obtain ⟨hperm, hsorted⟩ := Graph.topologicalSort_spec hclosed htopo
  have hresult := sorted_resultIndices L originTasks hclosed hperm hsorted
  intro l₁ t l₂ hsplit d hd hdepend
  rw [htasks, List.filterMap_eq_append_iff] at hsplit
  obtain ⟨k₁, k₂, hk, rfl, hk₂⟩ := hsplit
  obtain ⟨m₁, i, m₂, rfl, hnone, hi, -⟩ := List.filterMap_eq_cons_iff.mp hk₂
  obtain ⟨j, hindex, hj, -, hadj⟩ :=
    hasEdge_of_graph hgraph t i hi (hsend t) _ hdepend
  rw [hclosed.vertices] at hj
  have hd' := getElem?_of_getIndexOfTask hcls hd hindex
  have hbefore : j ∈ k₁ ++ m₁ :=
    hresult (k₁ ++ m₁) i m₂ (by simp [hk]) j (List.mem_range.mpr hj) hadj
  rcases List.mem_append.mp hbefore with hbefore | hbefore
  · exact List.mem_filterMap.mpr ⟨j, hbefore, hd'⟩
  · simp [hnone j hbefore] at hd'

/-! ## Positions, with any classes -/

/-- The first task with the property stands at position `i`. -/
def FirstAt (originTasks : List τ) (p : τ → Prop) (i : ℕ) : Prop :=
  (∃ t, originTasks[i]? = some t ∧ p t) ∧
    ∀ j < i, ∀ t, originTasks[j]? = some t → ¬ p t

/-- The task that a class stands for: the first one of the class and, when there is
none, the first one with its simple name. -/
def StandsFor (L : Launch τ κ) (originTasks : List τ) (cls : κ) (i : ℕ) : Prop :=
  FirstAt originTasks (fun t ↦ (L.decl t).cls = cls) i ∨
    (∀ t ∈ originTasks, (L.decl t).cls ≠ cls) ∧
      FirstAt originTasks (fun t ↦ L.getSimpleName cls = L.getSimpleName (L.decl t).cls) i

/-- Some other task depends on the one at position `i`. -/
def Depended (L : Launch τ κ) (originTasks : List τ) (i : ℕ) : Prop :=
  ∃ k t, k ≠ i ∧ originTasks[k]? = some t ∧
    ∃ cls ∈ L.dependsOn t, L.StandsFor originTasks cls i

theorem firstAt_of_findIdx? {p : τ → Bool} (h : originTasks.findIdx? p = some i) :
    FirstAt originTasks (fun t ↦ p t = true) i := by
  obtain ⟨hlt, hi, hfirst⟩ := List.findIdx?_eq_some_iff_getElem.mp h
  refine ⟨⟨_, List.getElem?_eq_getElem hlt, hi⟩, ?_⟩
  intro j hj t ht
  obtain ⟨hlt, rfl⟩ := List.getElem?_eq_some_iff.mp ht
  exact hfirst j hj

omit [DecidableEq κ] in
theorem FirstAt.unique {p : τ → Prop} {j : ℕ} (hi : FirstAt originTasks p i)
    (hj : FirstAt originTasks p j) : i = j := by
  obtain ⟨⟨t, ht, hpt⟩, hfirst⟩ := hi
  obtain ⟨⟨u, hu, hpu⟩, hfirst'⟩ := hj
  rcases Nat.lt_trichotomy i j with hlt | heq | hlt
  · exact absurd hpt (hfirst' i hlt t ht)
  · exact heq
  · exact absurd hpu (hfirst j hlt u hu)

omit [DecidableEq κ] in
theorem StandsFor.unique {j : ℕ} (hi : L.StandsFor originTasks cls i)
    (hj : L.StandsFor originTasks cls j) : i = j := by
  have hnot : ∀ {k : ℕ}, FirstAt originTasks (fun t ↦ (L.decl t).cls = cls) k →
      ¬ ∀ t ∈ originTasks, (L.decl t).cls ≠ cls := by
    rintro k ⟨⟨t, ht, hcls⟩, -⟩ hnone
    exact hnone t (List.mem_of_getElem? ht) hcls
  rcases hi with hi | ⟨hnone, hi⟩
  · rcases hj with hj | ⟨hnone, -⟩
    · exact hi.unique hj
    · exact absurd hnone (hnot hi)
  · rcases hj with hj | ⟨-, hj⟩
    · exact absurd hnone (hnot hj)
    · exact hi.unique hj

theorem standsFor_of_getIndexOfTask
    (h : L.getIndexOfTask originTasks (originTasks.map fun t ↦ (L.decl t).cls) cls =
      some i) : L.StandsFor originTasks cls i := by
  unfold getIndexOfTask at h
  split at h
  · rename_i index hindex
    obtain rfl := Option.some.inj h
    rw [List.findIdx?_map] at hindex
    left
    simpa using firstAt_of_findIdx? hindex
  · rename_i hnone
    refine .inr ⟨?_, by simpa using firstAt_of_findIdx? h⟩
    intro t ht hcls
    have := List.findIdx?_eq_none_iff.mp hnone (L.decl t).cls (List.mem_map_of_mem ht)
    simp [hcls] at this

/-- Nothing but the dependencies of the tasks is in the graph and in `dependSet`. -/
structure Justified (L : Launch τ κ) (originTasks : List τ) (clsLaunchTasks : List κ)
    (s : List ℕ × Graph) : Prop where
  edge : ∀ u v, v ∈ s.2.mAdj u → ∃ t, originTasks[v]? = some t ∧
    ∃ cls ∈ L.dependsOn t, L.getIndexOfTask originTasks clsLaunchTasks cls = some u
  depended : ∀ u ∈ s.1, ∃ v, v ∈ s.2.mAdj u

/-- Every edge stands for a dependency of a task that was not sent. -/
theorem dependency_of_edge {isSend : τ → Bool}
    (h : forEach (L.addDepends isSend originTasks clsLaunchTasks)
      ([], { mVerticalCount := originTasks.length }) originTasks.zipIdx =
        (s, none)) : ∀ u v, v ∈ s.2.mAdj u → ∃ t, originTasks[v]? = some t ∧
      isSend t = false ∧ ∃ cls ∈ L.dependsOn t,
        L.getIndexOfTask originTasks clsLaunchTasks cls = some u := by
  let I : List ℕ × Graph → Prop := fun s ↦ ∀ u v, v ∈ s.2.mAdj u →
    ∃ t, originTasks[v]? = some t ∧ isSend t = false ∧ ∃ cls ∈ L.dependsOn t,
      L.getIndexOfTask originTasks clsLaunchTasks cls = some u
  refine forEach.invariant (I := I) ?_ (by simp [I]) h
  intro u entry v hentry hu hbody
  have hget := List.mem_zipIdx_iff_getElem?.mp hentry
  unfold addDepends at hbody
  split at hbody
  · obtain rfl := congrArg Prod.fst hbody
    exact hu
  rename_i hsend
  refine forEach.invariant (I := I) ?_ hu hbody
  intro w c x hc hw hturn
  obtain ⟨j, hj, -, rfl⟩ := addDepend_cases hturn
  intro a b hab
  rcases Graph.mem_addEdge.mp hab with hab | ⟨rfl, rfl⟩
  · exact hw a b hab
  · exact ⟨entry.1, hget, Bool.eq_false_iff.mpr hsend, c, hc, hj⟩

theorem graph_justified {isSend : τ → Bool}
    (h : forEach (L.addDepends isSend originTasks clsLaunchTasks)
      ([], { mVerticalCount := originTasks.length }) originTasks.zipIdx =
        (s, none)) : L.Justified originTasks clsLaunchTasks s := by
  constructor
  · intro u v huv
    obtain ⟨t, ht, -, hcls⟩ := dependency_of_edge h u v huv
    exact ⟨t, ht, hcls⟩
  let I : List ℕ × Graph → Prop := fun s ↦ ∀ u ∈ s.1, ∃ v, v ∈ s.2.mAdj u
  refine forEach.invariant (I := I) ?_ (by simp [I]) h
  intro u entry v _ hu hbody
  unfold addDepends at hbody
  split at hbody
  · obtain rfl := congrArg Prod.fst hbody
    exact hu
  refine forEach.invariant (I := I) ?_ hu hbody
  intro w c x _ hw hturn
  obtain ⟨j, -, -, rfl⟩ := addDepend_cases hturn
  intro a ha
  rcases List.mem_cons.mp ha with rfl | ha
  · exact ⟨entry.2, Graph.mem_addEdge.mpr (.inr ⟨rfl, rfl⟩)⟩
  · obtain ⟨b, hb⟩ := hw a ha
    exact ⟨b, Graph.mem_addEdge.mpr (.inl hb)⟩

theorem idxOf_append_lt {α : Type*} [DecidableEq α] {l₁ l₂ : List α} {a b : α}
    (ha : a ∈ l₁) (hb : b ∉ l₁) : (l₁ ++ l₂).idxOf a < (l₁ ++ l₂).idxOf b := by
  rw [List.idxOf_append_of_mem ha, List.idxOf_append_of_notMem hb]
  have := List.idxOf_lt_length_of_mem ha
  omega

theorem map_some_filterMap {α β : Type*} {f : α → Option β} {l : List α}
    (h : ∀ x ∈ l, ∃ y, f x = some y) : (l.filterMap f).map some = l.map f := by
  induction l with
  | nil => rfl
  | cons x l ih =>
      obtain ⟨y, hy⟩ := h x (by simp)
      rw [List.filterMap_cons, hy, List.map_cons, List.map_cons, hy,
        ih fun z hz ↦ h z (List.mem_cons_of_mem _ hz)]

section Sorted

variable {isSend : τ → Bool} {dependSet indexList : List ℕ} {graph : Graph}
  (hsend : ∀ t ∈ originTasks, isSend t = false)
  (hgraph : forEach (L.addDepends isSend originTasks
      (originTasks.map fun t ↦ (L.decl t).cls))
    ([], { mVerticalCount := originTasks.length }) originTasks.zipIdx =
      ((dependSet, graph), none))
  (htopo : graph.topologicalSort = .ok indexList)
include hsend hgraph htopo

/-- What a class stands for comes before the tasks that depend on the class. -/
theorem idxOf_lt_of_standsFor {i j : ℕ} {t : τ} {cls : κ} (ht : originTasks[i]? = some t)
    (hcls : cls ∈ L.dependsOn t) (hj : L.StandsFor originTasks cls j) :
    (L.resultIndices originTasks dependSet indexList).idxOf j <
      (L.resultIndices originTasks dependSet indexList).idxOf i := by
  have hclosed := graph_closed hgraph
  obtain ⟨hperm, hsorted⟩ := Graph.topologicalSort_spec hclosed htopo
  have hresult := sorted_resultIndices L originTasks hclosed hperm hsorted
  obtain ⟨j', hindex, hlt, -, hadj⟩ :=
    hasEdge_of_graph hgraph t i ht (hsend t (List.mem_of_getElem? ht)) cls hcls
  obtain rfl := hj.unique (standsFor_of_getIndexOfTask hindex)
  have hi : i < originTasks.length := (List.getElem?_eq_some_iff.mp ht).1
  rw [hclosed.vertices] at hlt
  have hmem : i ∈ L.resultIndices originTasks dependSet indexList :=
    ((resultIndices_perm originTasks dependSet indexList).trans hperm).mem_iff.mpr
      (List.mem_range.mpr hi)
  exact hresult.idxOf_lt hmem ⟨List.mem_range.mpr hlt, hadj⟩

theorem mem_dependSet_iff (i : ℕ) : i ∈ dependSet ↔ L.Depended originTasks i := by
  have hjust := graph_justified hgraph
  constructor
  · intro hi
    obtain ⟨k, hk⟩ := hjust.depended i hi
    obtain ⟨t, ht, cls, hcls, hindex⟩ := hjust.edge i k hk
    have hstands := standsFor_of_getIndexOfTask hindex
    refine ⟨k, t, ?_, ht, cls, hcls, hstands⟩
    -- an edge to itself would be a cycle
    rintro rfl
    exact Nat.lt_irrefl _ (idxOf_lt_of_standsFor hsend hgraph htopo ht hcls hstands)
  · rintro ⟨k, t, -, ht, cls, hcls, hstands⟩
    obtain ⟨j, hindex, -, hset, -⟩ :=
      hasEdge_of_graph hgraph t k ht (hsend t (List.mem_of_getElem? ht)) cls hcls
    obtain rfl := hstands.unique (standsFor_of_getIndexOfTask hindex)
    exact hset

end Sorted

/-- The sorted list, position by position: `order` says which task of `originTasks`
comes first, second and so on. -/
theorem getSortResult_ordered (L : Launch τ κ) (originTasks : List τ)
    {isSend : τ → Bool} (hsend : ∀ t ∈ originTasks, isSend t = false)
    {high tasks : List τ}
    (hsort : L.getSortResult isSend [] originTasks
      (originTasks.map fun t ↦ (L.decl t).cls) = .ok (high, tasks)) :
    tasks.Perm originTasks ∧
    ∃ order : List ℕ, order.Perm (List.range originTasks.length) ∧
      tasks.map some = order.map (originTasks[·]?) ∧
      (∀ i t, originTasks[i]? = some t → ∀ cls ∈ L.dependsOn t, ∀ j,
        L.StandsFor originTasks cls j → order.idxOf j < order.idxOf i) ∧
      (∀ i j, i < originTasks.length → j < originTasks.length →
        L.Depended originTasks i → ¬ L.Depended originTasks j →
          order.idxOf i < order.idxOf j) ∧
      (∀ i j t u, originTasks[i]? = some t → originTasks[j]? = some u →
        ¬ L.Depended originTasks i → ¬ L.Depended originTasks j →
          (L.decl t).needRunAsSoon = true → (L.decl u).needRunAsSoon = false →
            order.idxOf i < order.idxOf j) := by
  refine ⟨getSortResult_perm hsort, ?_⟩
  obtain ⟨dependSet, graph, indexList, hgraph, htopo, htasks⟩ :=
    getSortResult_eq_filterMap hsort
  obtain ⟨hperm, -⟩ := Graph.topologicalSort_spec (graph_closed hgraph) htopo
  have hall := (resultIndices_perm (L := L) originTasks dependSet indexList).trans hperm
  have hmem : ∀ {i}, i < originTasks.length → i ∈ indexList :=
    fun hi ↦ hperm.mem_iff.mpr (List.mem_range.mpr hi)
  refine ⟨_, hall, ?_, ?_, ?_, ?_⟩
  · rw [htasks]
    apply map_some_filterMap
    intro i hi
    exact ⟨_, List.getElem?_eq_getElem (List.mem_range.mp (hall.mem_iff.mp hi))⟩
  · intro i t ht cls hcls j hj
    exact idxOf_lt_of_standsFor hsend hgraph htopo ht hcls hj
  · intro i j hi hj hdi hdj
    rw [← mem_dependSet_iff hsend hgraph htopo] at hdi hdj
    apply idxOf_append_lt
    · simp [hmem hi, hdi]
    · simp [hdj]
  · intro i j t u ht hu hdi hdj hsoon hlate
    rw [← mem_dependSet_iff hsend hgraph htopo] at hdi hdj
    have hi : i < originTasks.length := (List.getElem?_eq_some_iff.mp ht).1
    unfold resultIndices
    rw [← List.append_assoc]
    apply idxOf_append_lt
    · simp [hmem hi, hdi, ht, hsoon]
    · simp [hdj, hu, hlate]

/-- Three tasks of two classes: the first depends on the class of the other two, and
the last wants to run soon. -/
def twoOfOneClass : Launch (Fin 3) Bool where
  decl t := { cls := t ≠ 0, dependsOn := if t = 0 then some [true] else none,
              needRunAsSoon := t = 2 }
  getSimpleName cls := if cls then "Depended" else "Depending"

theorem getSortResult_ordered_twoOfOneClass :
    ([1, 2, 0] : List (Fin 3)).Perm [0, 1, 2] ∧
    ∃ order : List ℕ, ([1, 2, 0] : List (Fin 3)).map some =
      order.map (([0, 1, 2] : List (Fin 3))[·]?) := by
  have hsort : twoOfOneClass.getSortResult (fun _ ↦ false) [] [0, 1, 2]
      ([0, 1, 2].map fun t ↦ (twoOfOneClass.decl t).cls) =
        .ok ([1, 2], [1, 2, 0]) := by rfl
  obtain ⟨hperm, order, -, horder, -⟩ :=
    getSortResult_ordered twoOfOneClass [0, 1, 2] (fun _ _ ↦ rfl) hsort
  exact ⟨hperm, order, horder⟩

end Launch

end HiApp.LaunchStarter
