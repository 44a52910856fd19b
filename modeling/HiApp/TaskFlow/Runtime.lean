import HiApp.Lib.Acyclic
import HiApp.Lib.Loop
import HiApp.TaskFlow.Project

/-!
# TaskRuntime: the checks before a run

`TaskRuntime` walks the task tree once before anything runs.  It registers the
tasks by id, refuses repeated ids and loops, and raises the priority of
everything a block task depends on.  The recursions of the source are bounded
here by the number of task objects; running out of that bound stands for a
recursion that would not end.
-/

namespace HiApp.TaskFlow

open Relation

/-- The thread a task runs on: the main thread, or the executor thread
`hi-executor-<seq>`. -/
inductive Thread where
  | main
  | hiExecutor (seq : ℕ)
  deriving DecidableEq, Repr

inductive TaskError where
  | again (id : String)
  | sameId (id : String)
  | loopback (id : String)
  | blockTaskNotInTree (id : String)
  | indexOutOfBounds
  | stackOverflow
  deriving DecidableEq, Repr

def TaskError.message : TaskError → Option String
  | .again id => some ("cannot run task " ++ id ++ " again")
  | .sameId id => some ("not allow to contain the same id " ++ id)
  | .loopback id => some ("not allow loopback dependency , task id =" ++ id)
  | .blockTaskNotInTree id =>
      some ("block task " ++ id ++ " not in dependency tree")
  | .indexOutOfBounds | .stackOverflow => none

structure TaskRuntimeInfo (τ : Type*) where
  task : τ
  isBlockTask : Bool := false
  threadName : Option Thread := none

/-- `taskRuntimeInfo`, the registry of tasks by id. -/
abbrev Registry (τ : Type*) := String → Option (TaskRuntimeInfo τ)

/-- What the walk over the tree changes. -/
structure Visit (τ : Type*) where
  taskRuntimeInfo : Registry τ
  traversalVisitor : List τ

def intMaxValue : Int := 2147483647

variable {τ : Type*} [DecidableEq τ]

namespace Arena

variable (A : Arena τ)

/-- The first half of `innerTraversalDependencyTreeAndInit`: a new id gets its
runtime info, a known one must belong to the same object. -/
def register (blockTaskId : List String) (info : Registry τ) (task : τ) :
    Registry τ × Option TaskError :=
  let id := (A.decl task).id
  match info id with
  | none =>
      (Function.update info id
        (some { task := task, isBlockTask := decide (id ∈ blockTaskId) }), none)
  | some old => (info, if old.task = task then none else some (.sameId id))

/-- One turn of the loop of `innerTraversalDependencyTreeAndInit`, with `walk`
for the recursive call. -/
def visitBehindTask (walk : Visit τ → τ → Visit τ × Option TaskError) (task : τ)
    (v : Visit τ) (behindTask : τ) : Visit τ × Option TaskError :=
  if behindTask ∈ v.traversalVisitor then
    (v, some (.loopback (A.decl task).id))
  else
    match walk
        { v with traversalVisitor := v.traversalVisitor ++ [behindTask] }
        behindTask with
    | (v, some e) => (v, some e)
    | (v, none) =>
        ({ v with traversalVisitor := v.traversalVisitor.erase behindTask },
          none)

def innerTraversalDependencyTreeAndInit (h : Heap τ)
    (blockTaskId : List String) :
    ℕ → Visit τ → τ → Visit τ × Option TaskError
  | 0, v, _ => (v, some .stackOverflow)
  | fuel + 1, v, task =>
      match A.register blockTaskId v.taskRuntimeInfo task with
      | (info, some e) => ({ v with taskRuntimeInfo := info }, some e)
      | (info, none) =>
          forEach
            (A.visitBehindTask
              (innerTraversalDependencyTreeAndInit h blockTaskId fuel) task)
            { v with taskRuntimeInfo := info } (h task).behindTasks

/-- `traversalDependencyPriority` walks up `dependTasks` without a visited
set. -/
def traversalDependencyPriority : ℕ → Heap τ → τ → Heap τ × Option TaskError
  | 0, h, _ => (h, some .stackOverflow)
  | fuel + 1, h, task =>
      forEach (fun h dependTask ↦ traversalDependencyPriority fuel h dependTask)
        (h.setPriority task intMaxValue) (h task).dependTasks

/-- The second half of `traversalDependencyTreeAndInit`.  The exception names
the start task, not the block task. -/
def raisePriorities [Fintype τ] (info : Registry τ) (task : τ) :
    Heap τ → List String → Heap τ × Option TaskError :=
  forEach fun h taskId ↦
    match info taskId with
    | none => (h, some (.blockTaskNotInTree (A.decl task).id))
    | some i => traversalDependencyPriority (Fintype.card τ) h i.task

def traversalDependencyTreeAndInit [Fintype τ] (h : Heap τ)
    (blockTaskId : List String) (info : Registry τ) (task : τ) :
    (Heap τ × Registry τ) × Option TaskError :=
  match A.innerTraversalDependencyTreeAndInit h blockTaskId (Fintype.card τ)
      { taskRuntimeInfo := info, traversalVisitor := [task] } task with
  | (v, some e) => ((h, v.taskRuntimeInfo), some e)
  | (v, none) =>
      match A.raisePriorities v.taskRuntimeInfo task h blockTaskId with
      | (h, e) => ((h, v.taskRuntimeInfo), e)

/-- `hasBlockBehindTask`.  The loop of the source returns from its first turn,
so only the first successor is ever looked at. -/
def hasBlockBehindTask (h : Heap τ) (info : Registry τ) : ℕ → τ → Option Bool
  | 0, _ => none
  | fuel + 1, task =>
      if (A.decl task).isCriticalTask then some false
      else
        match (h task).behindTasks with
        | [] => some false
        | behindTask :: _ =>
            match info (A.decl behindTask).id with
            | some i =>
                if i.isBlockTask then some true
                else hasBlockBehindTask h info fuel behindTask
            | none => hasBlockBehindTask h info fuel behindTask

end Arena

/-! ## What an accepted tree looks like -/

/-- `b` comes directly behind `a`. -/
def Heap.Edge (h : Heap τ) (a b : τ) : Prop := b ∈ (h a).behindTasks

namespace Arena

variable (A : Arena τ) {h : Heap τ} {blockTaskId : List String}

theorem visitBehindTask_completed
    {walk : Visit τ → τ → Visit τ × Option TaskError} {task b : τ}
    {v w : Visit τ} (hturn : A.visitBehindTask walk task v b = (w, none)) :
    b ∉ v.traversalVisitor ∧
      ∃ u, walk { v with traversalVisitor := v.traversalVisitor ++ [b] } b =
          (u, none) ∧
        w = { u with traversalVisitor := u.traversalVisitor.erase b } := by
  unfold visitBehindTask at hturn
  split at hturn
  · simp at hturn
  · rename_i hb
    split at hturn
    · simp at hturn
    · rename_i u hwalk
      obtain rfl := (Prod.mk.inj hturn).1
      exact ⟨hb, u, hwalk, rfl⟩

theorem exists_loop_of_completed {fuel : ℕ} {v v' : Visit τ} {task : τ}
    (hwalk : A.innerTraversalDependencyTreeAndInit h blockTaskId (fuel + 1) v
      task = (v', none)) :
    ∃ w, w.traversalVisitor = v.traversalVisitor ∧
      forEach (A.visitBehindTask
        (A.innerTraversalDependencyTreeAndInit h blockTaskId fuel) task)
        w (h task).behindTasks = (v', none) := by
  unfold innerTraversalDependencyTreeAndInit at hwalk
  split at hwalk
  · simp at hwalk
  · rename_i info _
    exact ⟨{ v with taskRuntimeInfo := info }, rfl, hwalk⟩

theorem traversalVisitor_of_completed {fuel : ℕ} {v v' : Visit τ} {task : τ}
    (hwalk : A.innerTraversalDependencyTreeAndInit h blockTaskId fuel v task =
      (v', none)) :
    v'.traversalVisitor = v.traversalVisitor := by
  induction fuel generalizing v v' task with
  | zero => simp [innerTraversalDependencyTreeAndInit] at hwalk
  | succ fuel ih =>
      obtain ⟨w, hw, hloop⟩ := A.exists_loop_of_completed hwalk
      refine forEach.invariant
        (I := fun u ↦ u.traversalVisitor = v.traversalVisitor) ?_ hw hloop
      intro u b u' _ hu hturn
      obtain ⟨hb, x, hx, rfl⟩ := A.visitBehindTask_completed hturn
      dsimp only
      rw [ih hx, List.erase_append_right _ hb]
      simpa using hu

theorem walk_successor {fuel : ℕ} {v v' : Visit τ} {task b : τ}
    (hwalk : A.innerTraversalDependencyTreeAndInit h blockTaskId (fuel + 1) v
      task = (v', none))
    (hb : h.Edge task b) :
    b ∉ v.traversalVisitor ∧
      ∃ u u', u.traversalVisitor = v.traversalVisitor ++ [b] ∧
        A.innerTraversalDependencyTreeAndInit h blockTaskId fuel u b =
          (u', none) := by
  obtain ⟨w, hw, hloop⟩ := A.exists_loop_of_completed hwalk
  obtain ⟨u, u', hu, hturn⟩ := forEach.turn
    (I := fun u ↦ u.traversalVisitor = v.traversalVisitor)
    (by
      intro u b u' _ hu hturn
      obtain ⟨hb, x, hx, rfl⟩ := A.visitBehindTask_completed hturn
      dsimp only
      rw [A.traversalVisitor_of_completed hx, List.erase_append_right _ hb]
      simpa using hu)
    hw hloop hb
  obtain ⟨hnot, x, hx, _⟩ := A.visitBehindTask_completed hturn
  exact ⟨hu ▸ hnot, _, x, by simp [hu], hx⟩

/-- Along the edges of an accepted tree, every task met is new to the path that
led there. -/
theorem walk_of_transGen {fuel : ℕ} {v v' : Visit τ} {task b : τ}
    (hwalk : A.innerTraversalDependencyTreeAndInit h blockTaskId fuel v task =
      (v', none))
    (hb : TransGen h.Edge task b) :
    b ∉ v.traversalVisitor ∧
      ∃ n u u', v.traversalVisitor ⊆ u.traversalVisitor ∧
        b ∈ u.traversalVisitor ∧
        A.innerTraversalDependencyTreeAndInit h blockTaskId n u b =
          (u', none) := by
  have hnext : ∀ {n : ℕ} {u u' : Visit τ} {a c : τ},
      A.innerTraversalDependencyTreeAndInit h blockTaskId n u a = (u', none) →
      h.Edge a c → c ∉ u.traversalVisitor ∧
        ∃ m w w', w.traversalVisitor = u.traversalVisitor ++ [c] ∧
          A.innerTraversalDependencyTreeAndInit h blockTaskId m w c =
            (w', none) := by
    intro n u u' a c hu hc
    cases n with
    | zero => simp [innerTraversalDependencyTreeAndInit] at hu
    | succ n =>
        obtain ⟨hnot, w, w', hw, hwalk⟩ := A.walk_successor hu hc
        exact ⟨hnot, n, w, w', hw, hwalk⟩
  induction hb with
  | single hedge =>
      obtain ⟨hnot, m, w, w', hw, hnew⟩ := hnext hwalk hedge
      exact ⟨hnot, m, w, w', by simp [hw], by simp [hw], hnew⟩
  | tail _ hedge ih =>
      obtain ⟨_, n, u, u', hsub, _, hu⟩ := ih
      obtain ⟨hnot, m, w, w', hw, hnew⟩ := hnext hu hedge
      refine ⟨fun hmem ↦ hnot (hsub hmem), m, w, w', ?_, by simp [hw], hnew⟩
      rw [hw]
      exact List.Subset.trans hsub (List.subset_append_left _ _)

theorem not_transGen_self {fuel : ℕ} {v v' : Visit τ} {root a : τ}
    (hwalk : A.innerTraversalDependencyTreeAndInit h blockTaskId fuel v root =
      (v', none))
    (hroot : root ∈ v.traversalVisitor) (ha : ReflTransGen h.Edge root a) :
    ¬ TransGen h.Edge a a := by
  intro hcycle
  rcases ha.cases_head with rfl | ⟨c, hc, hca⟩
  · exact (A.walk_of_transGen hwalk hcycle).1 hroot
  · obtain ⟨_, n, u, u', _, hmem, hu⟩ :=
      A.walk_of_transGen hwalk (TransGen.head' hc hca)
    exact (A.walk_of_transGen hu hcycle).1 hmem

end Arena

/-- The heaps agree on everything but priorities and logged names. -/
def Heap.SameShape (h h' : Heap τ) : Prop :=
  ∀ t, (h' t).state = (h t).state ∧
    (h' t).dependTasks = (h t).dependTasks ∧
      (h' t).behindTasks = (h t).behindTasks

omit [DecidableEq τ] in
theorem Heap.SameShape.trans {h h' h'' : Heap τ} (h₁ : h.SameShape h')
    (h₂ : h'.SameShape h'') : h.SameShape h'' := by
  intro t
  obtain ⟨hs₁, hd₁, hb₁⟩ := h₁ t
  obtain ⟨hs₂, hd₂, hb₂⟩ := h₂ t
  exact ⟨hs₂.trans hs₁, hd₂.trans hd₁, hb₂.trans hb₁⟩

namespace Arena

variable (A : Arena τ)

theorem sameShape_traversalDependencyPriority (fuel : ℕ) (h : Heap τ) (task : τ) :
    h.SameShape (traversalDependencyPriority fuel h task).1 := by
  induction fuel generalizing h task with
  | zero => exact fun t ↦ ⟨rfl, rfl, rfl⟩
  | succ fuel ih =>
      refine forEach.invariant_always (I := fun u ↦ h.SameShape u) ?_ ?_
      · intro u x _ hu
        exact hu.trans (ih u x)
      · intro t
        simp

variable [Fintype τ]

theorem sameShape_raisePriorities (info : Registry τ) (task : τ) (h : Heap τ)
    (ids : List String) :
    h.SameShape (A.raisePriorities info task h ids).1 := by
  refine forEach.invariant_always (I := fun u ↦ h.SameShape u) ?_
    (fun t ↦ ⟨rfl, rfl, rfl⟩)
  intro u id _ hu
  split
  · exact hu
  · exact hu.trans (sameShape_traversalDependencyPriority _ _ _)

/-- What an accepted tree guarantees: the lists and states are those that were
checked, and nothing reachable from the start task lies on a cycle. -/
theorem accepted_spec {h h' : Heap τ} {blockTaskId : List String}
    {info info' : Registry τ} {task : τ}
    (hinit : A.traversalDependencyTreeAndInit h blockTaskId info task =
      ((h', info'), none)) :
    h.SameShape h' ∧
      ∀ a, ReflTransGen h.Edge task a → ¬ TransGen h.Edge a a := by
  unfold traversalDependencyTreeAndInit at hinit
  split at hinit
  · simp at hinit
  · rename_i v hwalk
    have hshape := A.sameShape_raisePriorities v.taskRuntimeInfo task h blockTaskId
    obtain ⟨⟨hh, _⟩, _⟩ : ((_ = h') ∧ _ = info') ∧ _ := by simpa using hinit
    refine ⟨hh ▸ hshape, fun a ha ↦ A.not_transGen_self hwalk (by simp) ha⟩

/-! ## The look ahead of a delayed task ends -/

omit [DecidableEq τ] [Fintype τ] in
/-- A look ahead that does not end within `fuel` steps has found a chain of
more than `fuel` tasks. -/
theorem exists_chain_of_hasBlockBehindTask_eq_none {h : Heap τ}
    {info : Registry τ} {fuel : ℕ} {task : τ}
    (hnone : A.hasBlockBehindTask h info fuel task = none) :
    ∃ path : List τ, path.length = fuel ∧ (task :: path).IsChain h.Edge := by
  induction fuel generalizing task with
  | zero => exact ⟨[], rfl, by simp⟩
  | succ fuel ih =>
      unfold hasBlockBehindTask at hnone
      split at hnone
      · simp at hnone
      · split at hnone
        · simp at hnone
        · rename_i b rest hbehind
          have hrest : A.hasBlockBehindTask h info fuel b = none := by
            split at hnone
            · split at hnone
              · simp at hnone
              · exact hnone
            · exact hnone
          obtain ⟨path, hlen, hchain⟩ := ih hrest
          refine ⟨b :: path, by simp [hlen], ?_⟩
          rw [List.isChain_cons_cons]
          exact ⟨by simp [Heap.Edge, hbehind], hchain⟩

omit [DecidableEq τ] in
theorem hasBlockBehindTask_ne_none {h : Heap τ} {info : Registry τ} {task : τ}
    (hacyclic : ∀ a, ReflTransGen h.Edge task a → ¬ TransGen h.Edge a a) :
    A.hasBlockBehindTask h info (Fintype.card τ) task ≠ none := by
  intro hnone
  obtain ⟨path, hlen, hchain⟩ :=
    A.exists_chain_of_hasBlockBehindTask_eq_none hnone
  have hlt := Acyclic.length_lt_card_of_isChain hchain hacyclic
  omega

omit [DecidableEq τ] [Fintype τ] in
theorem hasBlockBehindTask_congr {h h' : Heap τ} {info info' : Registry τ}
    {fuel : ℕ} {task : τ}
    (hbehinds : ∀ u, ReflTransGen h.Edge task u →
      (h' u).behindTasks = (h u).behindTasks)
    (hinfo : ∀ id, (info' id).map TaskRuntimeInfo.isBlockTask =
      (info id).map TaskRuntimeInfo.isBlockTask) :
    A.hasBlockBehindTask h' info' fuel task =
      A.hasBlockBehindTask h info fuel task := by
  induction fuel generalizing task with
  | zero => rfl
  | succ fuel ih =>
      unfold hasBlockBehindTask
      rw [hbehinds task .refl]
      split
      · rfl
      · split
        · rfl
        · rename_i b rest hbehind
          have hedge : h.Edge task b := by simp [Heap.Edge, hbehind]
          rw [ih fun u hu ↦ hbehinds u (hu.head hedge)]
          have hb := hinfo (A.decl b).id
          cases hi : info (A.decl b).id <;> cases hi' : info' (A.decl b).id <;>
            simp_all

end Arena

end HiApp.TaskFlow
