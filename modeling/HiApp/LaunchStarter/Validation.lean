import HiApp.LaunchStarter.Book
import HiApp.LaunchStarter.SortOrder

/-!
# What the sort accepts

`getIndexOfTask` looks for a task of the class and then for one with its simple
name, but `satisfyChildren` goes by the class alone.  A dependency that was found
by its name is accepted and is never counted down.
-/

namespace HiApp.LaunchStarter

open Relation

namespace Launch

variable {τ κ : Type*}

/-! ## Dependencies -/

section

variable (L : Launch τ κ) (isSend : τ → Bool) (originTasks : List τ)

/-- The task at position `i` was not sent and depends on the class. -/
def Awaits (cls : κ) (i : ℕ) : Prop :=
  ∃ t, originTasks[i]? = some t ∧ isSend t = false ∧ cls ∈ L.dependsOn t

/-- No task of the list is of a class that one of them depends on. -/
def Missing : Prop :=
  ∃ cls i, L.Awaits isSend originTasks cls i ∧ ∀ d ∈ originTasks, (L.decl d).cls ≠ cls

/-- Every class that a task depends on has its simple name in the list. -/
def Named : Prop :=
  ∀ cls i, L.Awaits isSend originTasks cls i →
    ∃ d ∈ originTasks, L.getSimpleName cls = L.getSimpleName (L.decl d).cls

/-- The dependency graph: the task at `j` depends on the class of the one at `i`. -/
def ClassEdge (i j : ℕ) : Prop :=
  ∃ d, originTasks[i]? = some d ∧ L.Awaits isSend originTasks (L.decl d).cls j

/-- The graph with the tasks that are taken for a missing class. -/
def NameEdge (i j : ℕ) : Prop :=
  ∃ cls, L.StandsFor originTasks cls i ∧ L.Awaits isSend originTasks cls j

end

section

variable [DecidableEq κ] {L : Launch τ κ} {isSend : τ → Bool} {originTasks : List τ}
  {cls : κ} {i j : ℕ} {s : List ℕ × Graph}

omit [DecidableEq κ] in
theorem StandsFor.lt_length (h : L.StandsFor originTasks cls i) :
    i < originTasks.length := by
  rcases h with ⟨⟨t, ht, -⟩, -⟩ | ⟨-, ⟨t, ht, -⟩, -⟩
  · exact (List.getElem?_eq_some_iff.mp ht).1
  · exact (List.getElem?_eq_some_iff.mp ht).1

theorem exists_getIndexOfTask_iff :
    (∃ j, L.getIndexOfTask originTasks (originTasks.map fun t ↦ (L.decl t).cls) cls =
      some j) ↔
    ∃ d ∈ originTasks, L.getSimpleName cls = L.getSimpleName (L.decl d).cls := by
  constructor
  · rintro ⟨j, hj⟩
    rcases standsFor_of_getIndexOfTask hj with ⟨⟨t, ht, rfl⟩, -⟩ | ⟨-, ⟨t, ht, hname⟩, -⟩
    · exact ⟨t, List.mem_of_getElem? ht, rfl⟩
    · exact ⟨t, List.mem_of_getElem? ht, hname⟩
  · rintro ⟨d, hd, hname⟩
    unfold getIndexOfTask
    split
    · rename_i index _
      exact ⟨index, rfl⟩
    · rw [← Option.isSome_iff_exists, List.findIdx?_isSome, List.any_eq_true]
      exact ⟨d, hd, decide_eq_true hname⟩

/-! ## The loop over the tasks -/

theorem graph_completes (hnamed : L.Named isSend originTasks) :
    ∃ s, forEach (L.addDepends isSend originTasks (originTasks.map fun t ↦ (L.decl t).cls))
      ([], { mVerticalCount := originTasks.length }) originTasks.zipIdx = (s, none) := by
  let I : List ℕ × Graph → Prop := fun s ↦ s.2.mVerticalCount = originTasks.length
  suffices hturns : ∀ u entry, entry ∈ originTasks.zipIdx → I u → ∃ v, L.addDepends isSend
      originTasks (originTasks.map fun t ↦ (L.decl t).cls) u entry = (v, none) ∧ I v by
    have hstart : I ([], { mVerticalCount := originTasks.length }) := rfl
    obtain ⟨s, hs, -⟩ := forEach.completes hturns hstart
    exact ⟨s, hs⟩
  rintro u ⟨t, i⟩ hentry hu
  have ht := List.mem_zipIdx_iff_getElem?.mp hentry
  unfold addDepends
  split
  · exact ⟨u, rfl, hu⟩
  rename_i hsend
  refine forEach.completes (I := I) ?_ hu
  intro v cls hcls hv
  obtain ⟨j, hj⟩ := exists_getIndexOfTask_iff.mpr
    (hnamed cls i ⟨t, ht, Bool.eq_false_iff.mpr hsend, hcls⟩)
  have hlt : j < v.2.mVerticalCount := hv ▸ (standsFor_of_getIndexOfTask hj).lt_length
  exact ⟨(j :: v.1, v.2.addEdge j i), by simp [addDepend, hj, hlt], hv⟩

/-- The loop has no index to throw an `ArrayIndexOutOfBoundsException` for. -/
theorem graph_ne_outOfBounds {e : SortError}
    (hgraph : forEach
      (L.addDepends isSend originTasks (originTasks.map fun t ↦ (L.decl t).cls))
      ([], { mVerticalCount := originTasks.length }) originTasks.zipIdx = (s, some e)) :
    e ≠ .outOfBounds := by
  let I : List ℕ × Graph → Prop := fun s ↦ s.2.mVerticalCount = originTasks.length
  refine (forEach.throws_only (I := I) (E := (· ≠ .outOfBounds)) ?_ rfl).2 e
    (congrArg Prod.snd hgraph)
  rintro u ⟨t, i⟩ - hu
  unfold addDepends
  split
  · exact ⟨hu, by simp⟩
  refine forEach.throws_only (I := I) ?_ hu
  intro v cls _ hv
  unfold addDepend
  split
  · exact ⟨hv, by simp⟩
  · rename_i j hj
    have hlt : j < v.2.mVerticalCount := hv ▸ (standsFor_of_getIndexOfTask hj).lt_length
    rw [if_pos hlt]
    exact ⟨hv, by simp⟩

section

variable (hgraph : forEach
  (L.addDepends isSend originTasks (originTasks.map fun t ↦ (L.decl t).cls))
  ([], { mVerticalCount := originTasks.length }) originTasks.zipIdx = (s, none))
include hgraph

theorem named_of_graph : L.Named isSend originTasks := by
  rintro cls i ⟨t, ht, hsend, hcls⟩
  obtain ⟨j, hj, -⟩ := hasEdge_of_graph hgraph t i ht hsend cls hcls
  exact exists_getIndexOfTask_iff.mp ⟨j, hj⟩

theorem edge_eq_nameEdge :
    Kahn.Edge s.2.mAdj (List.range originTasks.length) = L.NameEdge isSend originTasks := by
  funext u v
  rw [eq_iff_iff]
  constructor
  · rintro ⟨-, huv⟩
    obtain ⟨t, ht, hsend, cls, hcls, hindex⟩ := dependency_of_edge hgraph u v huv
    exact ⟨cls, standsFor_of_getIndexOfTask hindex, t, ht, hsend, hcls⟩
  · rintro ⟨cls, hstands, t, ht, hsend, hcls⟩
    obtain ⟨j, hindex, -, -, hadj⟩ := hasEdge_of_graph hgraph t v ht hsend cls hcls
    obtain rfl := hstands.unique (standsFor_of_getIndexOfTask hindex)
    exact ⟨List.mem_range.mpr hstands.lt_length, hadj⟩

end

/-! ## When the sort throws -/

/-- `getSortResult` throws an `IllegalStateException`. -/
def Throws (L : Launch τ κ) (isSend : τ → Bool) (sNewTasksHigh originTasks : List τ) :
    Prop :=
  ∃ e, L.getSortResult isSend sNewTasksHigh originTasks
    (originTasks.map fun t ↦ (L.decl t).cls) = .error e ∧ e ≠ .outOfBounds

/-- What the code checks: the simple names, and the graph it has built from them. -/
theorem throws_iff {sNewTasksHigh : List τ} :
    L.Throws isSend sNewTasksHigh originTasks ↔
      (L.Named isSend originTasks → ∃ i, TransGen (L.NameEdge isSend originTasks) i i) := by
  cases hgraph : forEach
      (L.addDepends isSend originTasks (originTasks.map fun t ↦ (L.decl t).cls))
      ([], { mVerticalCount := originTasks.length }) originTasks.zipIdx with
  | mk s e =>
      cases e with
      | some e =>
          have hnamed : ¬ L.Named isSend originTasks := by
            intro hnamed
            obtain ⟨s', hs'⟩ := graph_completes hnamed
            simp [hgraph] at hs'
          refine iff_of_true ⟨e, ?_, graph_ne_outOfBounds hgraph⟩ (absurd · hnamed)
          rw [getSortResult, hgraph]
      | none =>
          have hcycle := Graph.topologicalSort_eq_cycle_iff (graph_closed hgraph)
          rw [edge_eq_nameEdge hgraph] at hcycle
          rw [forall_prop_of_true (named_of_graph hgraph), ← hcycle, Throws, getSortResult,
            hgraph]
          rcases s.2.topologicalSort_returns_or_throws with ⟨topOrder, htopo⟩ | hthrow
          · simp [htopo]
          · simp [hthrow]

omit [DecidableEq κ] in
theorem nameEdge_of_classEdge (hcls : (originTasks.map fun t ↦ (L.decl t).cls).Nodup)
    (h : L.ClassEdge isSend originTasks i j) : L.NameEdge isSend originTasks i j := by
  obtain ⟨d, hd, hawaits⟩ := h
  refine ⟨(L.decl d).cls, .inl ⟨⟨d, hd, rfl⟩, ?_⟩, hawaits⟩
  intro k hk t ht heq
  have hlt : k < (originTasks.map fun t ↦ (L.decl t).cls).length := by
    rw [List.length_map]
    exact (List.getElem?_eq_some_iff.mp ht).1
  refine hk.ne ((List.getElem?_inj hlt hcls).mp ?_)
  rw [List.getElem?_map, List.getElem?_map, ht, hd, Option.map_some, Option.map_some, heq]

omit [DecidableEq κ] in
theorem classEdge_of_nameEdge (hmissing : ¬ L.Missing isSend originTasks)
    (h : L.NameEdge isSend originTasks i j) : L.ClassEdge isSend originTasks i j := by
  obtain ⟨cls, ⟨⟨d, hd, rfl⟩, -⟩ | ⟨hnone, -⟩, hawaits⟩ := h
  · exact ⟨d, hd, hawaits⟩
  · exact absurd ⟨cls, j, hawaits, hnone⟩ hmissing

omit [DecidableEq κ] in
theorem named_of_not_missing (hmissing : ¬ L.Missing isSend originTasks) :
    L.Named isSend originTasks := by
  intro cls i hawaits
  by_contra hnone
  push Not at hnone
  refine hmissing ⟨cls, i, hawaits, ?_⟩
  rintro d hd rfl
  exact hnone d hd rfl

end

/-! ## What the dispatcher counts down -/

section

variable [DecidableEq τ] [DecidableEq κ]

/-- The class of `d` is the one that `t` depends on, and with the map that
`collectDepends` has made, `satisfyChildren` takes its entries off the latch of `t`. -/
def CountsDown (L : Launch τ κ) (originTasks : List τ) (d t : τ) (cls : κ) : Prop :=
  (L.decl d).cls = cls ∧ ∀ s : State τ κ,
    s.mDependedHashMap =
      (originTasks.foldl L.collectDepends L.newState).mDependedHashMap →
    ((L.satisfyChildren s d).vars t).mDepends =
      (s.vars t).mDepends - (L.dependsOn t).count cls

/-- What the validation is for. -/
structure Validates (L : Launch τ κ) (isSend : τ → Bool)
    (sNewTasksHigh originTasks : List τ) : Prop where
  throws : L.Throws isSend sNewTasksHigh originTasks ↔
    L.Missing isSend originTasks ∨ ∃ i, TransGen (L.ClassEdge isSend originTasks) i i
  counted : ∀ result, L.getSortResult isSend sNewTasksHigh originTasks
      (originTasks.map fun t ↦ (L.decl t).cls) = .ok result →
    ∀ t ∈ originTasks, isSend t = false → ∀ cls ∈ L.dependsOn t,
      ∃ d ∈ originTasks, L.CountsDown originTasks d t cls

variable {L : Launch τ κ} {isSend : τ → Bool} {originTasks : List τ}

theorem children_collectDepends (originTasks : List τ) (s : State τ κ) (cls : κ) :
    (originTasks.foldl L.collectDepends s).mDependedHashMap cls =
      s.mDependedHashMap cls ++
        originTasks.flatMap fun t ↦ List.replicate ((L.dependsOn t).count cls) t := by
  induction originTasks generalizing s with
  | nil => simp
  | cons t l ih =>
      rw [List.foldl_cons, ih, collectDepends, foldl_collectDepend, List.flatMap_cons,
        List.append_assoc]

omit [DecidableEq κ] in
theorem count_flatMap_replicate {l : List τ} (hl : l.Nodup) {t : τ} (ht : t ∈ l)
    (f : τ → ℕ) : (l.flatMap fun u ↦ List.replicate (f u) u).count t = f t := by
  induction l with
  | nil => simp at ht
  | cons u l ih =>
      obtain ⟨hu, hl⟩ := List.nodup_cons.mp hl
      rw [List.flatMap_cons, List.count_append, List.count_replicate]
      rcases List.mem_cons.mp ht with rfl | ht
      · have hzero : (l.flatMap fun u ↦ List.replicate (f u) u).count t = 0 := by
          simp only [List.count_eq_zero, List.mem_flatMap, List.mem_replicate, not_exists]
          rintro u ⟨hu', -, rfl⟩
          exact hu hu'
        simp [hzero]
      · have hne : u ≠ t := fun heq ↦ hu (heq ▸ ht)
        simp [hne, ih hl ht]

theorem countsDown_of_mem (hcls : (originTasks.map fun t ↦ (L.decl t).cls).Nodup)
    {t d : τ} (ht : t ∈ originTasks) :
    L.CountsDown originTasks d t (L.decl d).cls := by
  refine ⟨rfl, ?_⟩
  intro s hs
  rw [satisfyChildren_eq, hs, children_collectDepends]
  simp only [newState, List.nil_append]
  rw [count_flatMap_replicate hcls.of_map ht]

/-- The code validates as it should unless a class is missing whose place another
one of its simple name can take. -/
theorem validates_iff (L : Launch τ κ) (isSend : τ → Bool) (sNewTasksHigh originTasks : List τ)
    (hcls : (originTasks.map fun t ↦ (L.decl t).cls).Nodup) :
    L.Validates isSend sNewTasksHigh originTasks ↔
      ¬ (L.Missing isSend originTasks ∧ L.Named isSend originTasks ∧
        ¬ ∃ i, TransGen (L.NameEdge isSend originTasks) i i) := by
  constructor
  · rintro ⟨hthrows, -⟩ ⟨hmissing, hnamed, hacyclic⟩
    exact hacyclic (throws_iff.mp (hthrows.mpr (.inl hmissing)) hnamed)
  intro h
  have hthrows : L.Throws isSend sNewTasksHigh originTasks ↔
      L.Missing isSend originTasks ∨
        ∃ i, TransGen (L.ClassEdge isSend originTasks) i i := by
    rw [throws_iff]
    by_cases hmissing : L.Missing isSend originTasks
    · refine iff_of_true ?_ (.inl hmissing)
      intro hnamed
      by_contra hacyclic
      exact h ⟨hmissing, hnamed, hacyclic⟩
    · have hedge : L.NameEdge isSend originTasks = L.ClassEdge isSend originTasks := by
        funext i j
        rw [eq_iff_iff]
        exact ⟨classEdge_of_nameEdge hmissing, nameEdge_of_classEdge hcls⟩
      rw [forall_prop_of_true (named_of_not_missing hmissing), hedge, or_iff_right hmissing]
  refine ⟨hthrows, ?_⟩
  intro result hresult t ht hsend cls hdepends
  have hmissing : ¬ L.Missing isSend originTasks := by
    intro hmissing
    obtain ⟨e, he, -⟩ := hthrows.mpr (.inl hmissing)
    simp [hresult] at he
  obtain ⟨i, hi⟩ := List.getElem?_of_mem ht
  by_contra hnone
  refine hmissing ⟨cls, i, ⟨t, hi, hsend, hdepends⟩, ?_⟩
  rintro d hd rfl
  exact hnone ⟨d, hd, countsDown_of_mem hcls ht⟩

end

/-- Two tasks, the second of which depends on `cls`.  The classes `0` and `2` have the
same simple name. -/
def sharedName (cls : Fin 3) : Launch (Fin 2) (Fin 3) where
  decl t := { cls := t.castSucc, dependsOn := if t = 1 then some [cls] else none }
  getSimpleName cls := if cls = 1 then "Depending" else "Init"

theorem validates_sharedName : (sharedName 0).Validates (fun _ ↦ false) [] [0, 1] := by
  refine (validates_iff (sharedName 0) (fun _ ↦ false) [] [0, 1] (by decide)).mpr ?_
  rintro ⟨⟨cls, i, ⟨t, -, -, hcls⟩, hnone⟩, -⟩
  have hlisted : ∀ t : Fin 2, ∀ cls ∈ (sharedName 0).dependsOn t,
      ∃ d ∈ [0, 1], ((sharedName 0).decl d).cls = cls := by decide
  obtain ⟨d, hd, rfl⟩ := hlisted t cls hcls
  exact hnone d hd rfl

/-- The class `2` is missing and taken for the class `0`, and nothing counts it down. -/
theorem not_validates_sharedName :
    ([0, 1].map fun t ↦ ((sharedName 2).decl t).cls).Nodup ∧
    (sharedName 2).getSortResult (fun _ ↦ false) [] [0, 1]
      ([0, 1].map fun t ↦ ((sharedName 2).decl t).cls) = .ok ([0], [0, 1]) ∧
    (¬ ∃ d, (sharedName 2).CountsDown [0, 1] d 1 2) ∧
    ¬ (sharedName 2).Validates (fun _ ↦ false) [] [0, 1] := by
  have hsort : (sharedName 2).getSortResult (fun _ ↦ false) [] [0, 1]
      ([0, 1].map fun t ↦ ((sharedName 2).decl t).cls) = .ok ([0], [0, 1]) := by rfl
  refine ⟨by decide, hsort, ?_, ?_⟩
  · rintro ⟨d, hcls, -⟩
    revert d
    decide
  · intro hvalid
    have hmissing : (sharedName 2).Missing (fun _ ↦ false) [0, 1] :=
      ⟨2, 1, ⟨1, rfl, rfl, by decide⟩, by decide⟩
    obtain ⟨e, he, -⟩ := hvalid.throws.mpr (.inl hmissing)
    rw [hsort] at he
    simp at he

end Launch

end HiApp.LaunchStarter
