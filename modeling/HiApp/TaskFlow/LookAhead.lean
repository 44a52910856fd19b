import HiApp.Lib.Runs
import HiApp.TaskFlow.Machine

/-!
# The look ahead of a delayed task

A delayed task of the main thread is posted with its delay unless a block task
comes behind it.  `hasBlockBehindTask` looks for one, but its loop returns from the
first turn and it gives up at a boundary task of a project.  So it follows one chain:
the first successor of the first successor, and so on.
-/

namespace HiApp.TaskFlow

open Relation Runs

variable {τ : Type*}

namespace Arena

variable (A : Arena τ)

/-- The runtime info of the task says that it is a block task. -/
def IsBlock (info : Registry τ) (t : τ) : Prop :=
  ∃ i, info (A.decl t).id = some i ∧ i.isBlockTask = true

/-- The look ahead goes from `a` to `b`: its first successor, unless `a` is a boundary
task of a project. -/
def Looks (h : Heap τ) (a b : τ) : Prop :=
  (A.decl a).isCriticalTask = false ∧ (h a).behindTasks.head? = some b

/-- A block task comes behind `t`. -/
def BlockBehind (h : Heap τ) (info : Registry τ) (t : τ) : Prop :=
  ∃ b, TransGen h.Edge t b ∧ A.IsBlock info b

/-- A block task comes behind `t` on the chain of first successors, with no boundary
task of a project on the way. -/
def BlockInSight (h : Heap τ) (info : Registry τ) (t : τ) : Prop :=
  ∃ b, TransGen (A.Looks h) t b ∧ A.IsBlock info b

variable {A} {h : Heap τ} {info : Registry τ} {t b : τ} {fuel : ℕ} {r : Bool}

theorem Looks.edge (hlook : A.Looks h t b) : h.Edge t b :=
  List.mem_of_head? hlook.2

theorem BlockInSight.blockBehind (hsight : A.BlockInSight h info t) :
    A.BlockBehind h info t := by
  obtain ⟨b, hb, hblock⟩ := hsight
  refine ⟨b, ?_, hblock⟩
  apply hb.lift id
  intro a c hlook
  exact hlook.edge

/-- The chain goes on in one way only. -/
theorem blockInSight_of_looks (hlook : A.Looks h t b) :
    A.BlockInSight h info t ↔ A.IsBlock info b ∨ A.BlockInSight h info b := by
  constructor
  · rintro ⟨c, hc, hblock⟩
    obtain ⟨b', hb', hrest⟩ := TransGen.head'_iff.mp hc
    obtain rfl : b' = b := Option.some.inj (hb'.2.symm.trans hlook.2)
    rcases reflTransGen_iff_eq_or_transGen.mp hrest with rfl | hrest
    · exact .inl hblock
    · exact .inr ⟨c, hrest, hblock⟩
  · rintro (hblock | ⟨c, hc, hblock⟩)
    · exact ⟨b, .single hlook, hblock⟩
    · exact ⟨c, .head hlook hc, hblock⟩

theorem not_blockInSight (hnone : ∀ b, ¬ A.Looks h t b) : ¬ A.BlockInSight h info t := by
  rintro ⟨b, hb, -⟩
  obtain ⟨c, hc, -⟩ := TransGen.head'_iff.mp hb
  exact hnone c hc

/-- What the look ahead answers is whether a block task is in sight. -/
theorem hasBlockBehindTask_iff (hanswer : A.hasBlockBehindTask h info fuel t = some r) :
    r = true ↔ A.BlockInSight h info t := by
  induction fuel generalizing t with
  | zero => simp [hasBlockBehindTask] at hanswer
  | succ fuel ih =>
      unfold hasBlockBehindTask at hanswer
      split at hanswer
      · rename_i hcritical
        obtain rfl := Option.some.inj hanswer
        refine iff_of_false Bool.false_ne_true (not_blockInSight ?_)
        rintro b ⟨hnot, -⟩
        simp [hcritical] at hnot
      · rename_i hcritical
        split at hanswer
        · rename_i hnil
          obtain rfl := Option.some.inj hanswer
          refine iff_of_false Bool.false_ne_true (not_blockInSight ?_)
          rintro b ⟨-, hhead⟩
          simp [hnil] at hhead
        · rename_i b rest hbehind
          have hlook : A.Looks h t b := ⟨by simpa using hcritical, by simp [hbehind]⟩
          rw [blockInSight_of_looks hlook]
          split at hanswer
          · rename_i i hi
            split at hanswer
            · rename_i hblock
              obtain rfl := Option.some.inj hanswer
              exact iff_of_true rfl (.inl ⟨i, hi, hblock⟩)
            · rename_i hblock
              have hnot : ¬ A.IsBlock info b := by
                rintro ⟨j, hj, hjblock⟩
                obtain rfl := Option.some.inj (hi.symm.trans hj)
                exact hblock hjblock
              rw [ih hanswer, or_iff_right hnot]
          · rename_i hi
            have hnot : ¬ A.IsBlock info b := by
              rintro ⟨j, hj, -⟩
              simp [hi] at hj
            rw [ih hanswer, or_iff_right hnot]

variable [DecidableEq τ] [Fintype τ]

/-- Where no cycle comes behind the task, the look ahead finds out whether a block task
does, and `executeTask` does not put off a task of the main thread that has one behind
it, exactly when one is in sight whenever there is one. -/
theorem look_ahead_exact_iff (A : Arena τ) (s : State τ) (t : τ)
    (hacyclic : ∀ a, ReflTransGen s.heap.Edge t a → ¬ TransGen s.heap.Edge a a) :
    ((∃ r, A.hasBlockBehindTask s.heap s.taskRuntimeInfo (Fintype.card τ) t = some r ∧
        (r = true ↔ A.BlockBehind s.heap s.taskRuntimeInfo t)) ∧
      ((A.decl t).isAsyncTask = false → A.BlockBehind s.heap s.taskRuntimeInfo t →
        ∃ s' calls, A.executeTask s t = .ok (s', calls) ∧ s'.handler = s.handler)) ↔
    (A.BlockBehind s.heap s.taskRuntimeInfo t →
      A.BlockInSight s.heap s.taskRuntimeInfo t) := by
  have hends : A.hasBlockBehindTask s.heap s.taskRuntimeInfo (Fintype.card τ) t ≠ none :=
    A.hasBlockBehindTask_ne_none hacyclic
  obtain ⟨r, hanswer⟩ := Option.ne_none_iff_exists'.mp hends
  have hsight := hasBlockBehindTask_iff hanswer
  constructor
  · rintro ⟨⟨r', hanswer', hiff⟩, -⟩ hbehind
    obtain rfl := Option.some.inj (hanswer.symm.trans hanswer')
    exact hsight.mp (hiff.mpr hbehind)
  · intro hseen
    refine ⟨⟨r, hanswer, hsight.trans ⟨fun hs ↦ hs.blockBehind, hseen⟩⟩, ?_⟩
    intro hsync hbehind
    have hr : r = true := hsight.mpr (hseen hbehind)
    have hrun : (A.runOrWait s t).1.handler = s.handler := by
      unfold runOrWait
      split
      · rfl
      · unfold State.addWaitingTask
        split
        · rfl
        · rfl
    refine ⟨(A.runOrWait s t).1, (A.runOrWait s t).2, ?_, hrun⟩
    simp [executeTask, hsync, hanswer, hr]

/-! ## A block task behind the second successor -/

/-- A delayed task, a plain one and a block task. -/
def delayedFirst : Arena (Fin 3) where
  decl t := { id := if t = 0 then "delayed" else if t = 1 then "plain" else "block",
              kind := .task false (if t = 0 then 1000 else 0) }
  boundary := by simp

/-- The plain task and the block task come behind the delayed one, in this order. -/
def blockSecond : Heap (Fin 3) :=
  [Call.behind 0 1, .behind 0 2].foldl delayedFirst.perform (Heap.fresh fun _ ↦ 0)

/-- The same tasks in a row. -/
def blockLast : Heap (Fin 3) :=
  [Call.behind 0 1, .behind 1 2].foldl delayedFirst.perform (Heap.fresh fun _ ↦ 0)

/-- The registry after the check of either graph. -/
def blockRegistered : Registry (Fin 3) := fun id ↦
  if id = "delayed" then some { task := 0 }
  else if id = "plain" then some { task := 1 }
  else if id = "block" then some { task := 2, isBlockTask := true }
  else none

/-- The start puts off the delayed task, although the block task waits for it. -/
theorem look_ahead_misses_block :
    (∀ a, ¬ TransGen blockSecond.Edge a a) ∧
    (delayedFirst.decl 0).isCriticalTask = false ∧
    (delayedFirst.decl 0).isAsyncTask = false ∧
    delayedFirst.BlockBehind blockSecond blockRegistered 0 ∧
    delayedFirst.hasBlockBehindTask blockSecond blockRegistered 3 0 = some false ∧
    ∃ s, delayedFirst.startFlow blockSecond ["block"] (fun _ ↦ none) 0 = .ok s ∧
      s.handler = [0] ∧ s.blockTaskId = ["block"] := by
  have hlt : ∀ a b, blockSecond.Edge a b → a < b := by
    unfold Heap.Edge
    decide
  have hedge : blockSecond.Edge 0 2 := by
    unfold Heap.Edge
    decide
  exact ⟨Acyclic.not_transGen_self_of_rank Fin.val hlt, rfl, rfl,
    ⟨2, .single hedge, _, rfl, rfl⟩, by decide, _, rfl, rfl, rfl⟩

theorem look_ahead_exact_iff_blockLast :
    ∃ s' calls, delayedFirst.executeTask
      { heap := blockLast, blockTaskId := ["block"], taskRuntimeInfo := blockRegistered } 0 =
        .ok (s', calls) ∧ s'.handler = [] := by
  have hlt : ∀ a b, blockLast.Edge a b → a < b := by
    unfold Heap.Edge
    decide
  have hfirst : delayedFirst.Looks blockLast 0 1 := ⟨rfl, by decide⟩
  have hsecond : delayedFirst.Looks blockLast 1 2 := ⟨rfl, by decide⟩
  have hsight : delayedFirst.BlockInSight blockLast blockRegistered 0 :=
    ⟨2, .tail (.single hfirst) hsecond, _, rfl, rfl⟩
  have hexact := (look_ahead_exact_iff delayedFirst
    { heap := blockLast, blockTaskId := ["block"], taskRuntimeInfo := blockRegistered } 0
    (fun a _ ↦ Acyclic.not_transGen_self_of_rank Fin.val hlt a)).mpr fun _ ↦ hsight
  exact hexact.2 rfl hsight.blockBehind

end Arena

end HiApp.TaskFlow
