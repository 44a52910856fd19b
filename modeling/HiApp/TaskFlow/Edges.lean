import Mathlib.Data.List.Count
import HiApp.Lib.Runs
import HiApp.TaskFlow.Task

/-!
# The two edge lists of a pair of tasks

`b.dependTasks` and `a.behindTasks` both record the edge from `a` to `b`.
Every mutator changes the two lists for one pair of tasks only, so its effect
is a pair of numbers: how often the edge is recorded on either side.  They
stay equal under `removeDependence` alone; the other three mutators treat
repetitions differently on the two sides.
-/

namespace HiApp.TaskFlow

open Runs

variable {τ : Type*} [DecidableEq τ]

namespace Heap

/-- How often `b` records that it depends on `a`. -/
def depends (h : Heap τ) (a b : τ) : ℕ := (h b).dependTasks.count a

/-- How often `a` records that `b` comes behind it. -/
def behinds (h : Heap τ) (a b : τ) : ℕ := (h a).behindTasks.count b

/-- The two lists record the same edges, with the same multiplicities. -/
def Mirrored (h : Heap τ) : Prop := ∀ a b, h.depends a b = h.behinds a b

variable (h : Heap τ) (t x a b : τ)

@[simp] theorem depends_addDepend : (h.addDepend t x).depends a b =
    h.depends a b + if a = x ∧ b = t then 1 else 0 := by
  by_cases hb : b = t <;> by_cases ha : a = x <;>
    simp [depends, hb, ha, List.count_eq_zero]

@[simp] theorem behinds_addDepend :
    (h.addDepend t x).behinds a b = h.behinds a b := by
  simp [behinds]

@[simp] theorem depends_removeDepend : (h.removeDepend t x).depends a b =
    h.depends a b - if a = x ∧ b = t then 1 else 0 := by
  by_cases hb : b = t <;> by_cases ha : a = x <;>
    simp [depends, hb, ha]

@[simp] theorem behinds_removeDepend :
    (h.removeDepend t x).behinds a b = h.behinds a b := by
  simp [behinds]

@[simp] theorem depends_addBehind :
    (h.addBehind t x).depends a b = h.depends a b := by
  simp [depends]

@[simp] theorem behinds_addBehind : (h.addBehind t x).behinds a b =
    h.behinds a b + if a = t ∧ b = x then 1 else 0 := by
  by_cases ha : a = t <;> by_cases hb : b = x <;>
    simp [behinds, hb, ha, List.count_eq_zero]

@[simp] theorem depends_removeBehind :
    (h.removeBehind t x).depends a b = h.depends a b := by
  simp [depends]

@[simp] theorem behinds_removeBehind : (h.removeBehind t x).behinds a b =
    h.behinds a b - if a = t ∧ b = x then 1 else 0 := by
  by_cases ha : a = t <;> by_cases hb : b = x <;>
    simp [behinds, hb, ha]

@[simp] theorem depends_addDependName (name : String) :
    (h.addDependName t name).depends a b = h.depends a b := by
  simp [depends]

@[simp] theorem behinds_addDependName (name : String) :
    (h.addDependName t name).behinds a b = h.behinds a b := by
  simp [behinds]

@[simp] theorem depends_setPriority (p : Int) :
    (h.setPriority t p).depends a b = h.depends a b := by
  simp [depends]

@[simp] theorem behinds_setPriority (p : Int) :
    (h.setPriority t p).behinds a b = h.behinds a b := by
  simp [behinds]

theorem mem_behindTasks_iff : b ∈ (h a).behindTasks ↔ 0 < h.behinds a b :=
  List.count_pos_iff.symm

theorem mem_dependTasks_iff : a ∈ (h b).dependTasks ↔ 0 < h.depends a b :=
  List.count_pos_iff.symm

end Heap

/-! ## The effect of each mutator -/

namespace Arena

variable (A : Arena τ) (h : Heap τ) (this x a b : τ)

theorem depends_taskDependOn (hx : x ≠ this) :
    (A.taskDependOn h this x).depends a b =
      h.depends a b + if a = A.endOf x ∧ b = this then 1 else 0 := by
  simp only [taskDependOn, hx, if_false]
  split <;> simp

/-- The `contains` test of `dependOn`: an edge that is recorded already is not
recorded again on this side. -/
theorem behinds_taskDependOn (hx : x ≠ this) :
    (A.taskDependOn h this x).behinds a b =
      h.behinds a b +
        if a = A.endOf x ∧ b = this ∧ h.behinds a b = 0 then 1 else 0 := by
  simp only [taskDependOn, hx, if_false, Heap.mem_behindTasks_iff,
    Heap.behinds_addDepend]
  split
  · rename_i hpos
    have hnone : ¬ (a = A.endOf x ∧ b = this ∧ h.behinds a b = 0) := by
      rintro ⟨rfl, rfl, hzero⟩
      omega
    simp [hnone]
  · rename_i hpos
    by_cases hab : a = A.endOf x ∧ b = this
    · obtain ⟨rfl, rfl⟩ := hab
      simp only [Nat.not_lt, Nat.le_zero] at hpos
      simp [hpos]
    · have hnone : ¬ (a = A.endOf x ∧ b = this ∧ h.behinds a b = 0) :=
        fun hall ↦ hab ⟨hall.1, hall.2.1⟩
      simp [hab, hnone]

theorem depends_taskRemoveDependence (hx : x ≠ this) :
    (A.taskRemoveDependence h this x).depends a b =
      h.depends a b - if a = A.endOf x ∧ b = this then 1 else 0 := by
  simp only [taskRemoveDependence, hx, if_false]
  split <;> simp

theorem behinds_taskRemoveDependence (hx : x ≠ this) :
    (A.taskRemoveDependence h this x).behinds a b =
      h.behinds a b - if a = A.endOf x ∧ b = this then 1 else 0 := by
  simp only [taskRemoveDependence, hx, if_false, Heap.mem_behindTasks_iff,
    Heap.behinds_addDependName, Heap.behinds_removeDepend]
  split
  · simp
  · rename_i hzero
    by_cases hab : a = A.endOf x ∧ b = this
    · obtain ⟨rfl, rfl⟩ := hab
      simp only [Nat.not_lt, Nat.le_zero] at hzero
      simp [hzero]
    · simp [hab]

end Arena

/-! ## One call -/

namespace Call

variable (A : Arena τ)

/-- The pair of tasks a call is about: the one that goes first, and the one
that waits for it. -/
def edge : Call τ → τ × τ
  | .dependOn r x | .removeDependence r x => (A.endOf x, A.startOf r)
  | .behind r x | .removeBehind r x => (A.endOf r, A.startOf x)

/-- The argument is the receiver itself, and the call does nothing. -/
def Trivial : Call τ → Prop
  | .dependOn r x | .removeDependence r x => x = A.startOf r
  | .behind r x | .removeBehind r x => x = A.endOf r

/-- How a call changes the number of records of its edge in `dependTasks` of
its second task.  A self edge, which only a project argument can ask for, never
reaches the second half of `behind` and `removeBehind`. -/
def newDepends (n : ℕ) : Call τ → ℕ
  | .dependOn _ _ => n + 1
  | .removeDependence _ _ => n - 1
  | .behind r x => if A.startOf x = A.endOf r then n else n + 1
  | .removeBehind r x => if A.startOf x = A.endOf r then n else n - 1

/-- The same for `behindTasks` of its first task. -/
def newBehinds (n : ℕ) : Call τ → ℕ
  | .dependOn _ _ => max n 1
  | .removeDependence _ _ => n - 1
  | .behind _ _ => n + 1
  | .removeBehind r x => if A.startOf x = A.endOf r then n - 1 else n - 1 - 1

/-- The calls after which both sides still agree about the edge, if they agreed
before: `dependOn` for a pair that is not connected, `removeBehind` for a pair
connected at most once, and neither `behind` nor `removeBehind` between a
project and its own start task. -/
def Balanced (h : Heap τ) : Call τ → Prop
  | .dependOn r x => x = A.startOf r ∨ A.endOf x ∉ (h (A.startOf r)).dependTasks
  | .removeDependence _ _ => True
  | .behind r x => x = A.endOf r ∨ A.startOf x ≠ A.endOf r
  | .removeBehind r x => x = A.endOf r ∨
      (A.startOf x ≠ A.endOf r ∧
        (h (A.endOf r)).behindTasks.count (A.startOf x) ≤ 1) ∨
      A.startOf x ∉ (h (A.endOf r)).behindTasks

end Call

namespace Arena

variable (A : Arena τ) (h : Heap τ)

theorem perform_of_trivial {c : Call τ} (hc : c.Trivial A) :
    A.perform h c = h := by
  cases c <;>
    simp_all [Call.Trivial, perform, dependOn, removeDependence, behind,
      removeBehind, taskDependOn, taskRemoveDependence, taskBehind,
      taskRemoveBehind]

theorem depends_perform {c : Call τ} (hc : ¬ c.Trivial A) (a b : τ) :
    (A.perform h c).depends a b =
      if (a, b) = c.edge A then c.newDepends A (h.depends a b)
      else h.depends a b := by
  cases c with
  | dependOn r x =>
      simp only [perform, dependOn, Call.edge, Call.newDepends, Prod.mk.injEq,
        A.depends_taskDependOn h _ x a b hc]
      split <;> rfl
  | removeDependence r x =>
      simp only [perform, removeDependence, Call.edge, Call.newDepends,
        Prod.mk.injEq, A.depends_taskRemoveDependence h _ x a b hc]
      split <;> rfl
  | behind r x =>
      have hx : x ≠ A.endOf r := hc
      have hend := A.endOf_eq_self (A.not_isProject_endOf r)
      simp only [perform, behind, taskBehind, hx, if_false, dependOn,
        Call.edge, Call.newDepends, Prod.mk.injEq]
      by_cases hself : A.endOf r = A.startOf x
      · simp [taskDependOn, hself]
      · rw [A.depends_taskDependOn _ _ _ a b hself, hend]
        simp only [Heap.depends_addBehind, Ne.symm hself, if_false]
        split <;> rfl
  | removeBehind r x =>
      have hx : x ≠ A.endOf r := hc
      have hend := A.endOf_eq_self (A.not_isProject_endOf r)
      simp only [perform, removeBehind, taskRemoveBehind, hx, if_false,
        removeDependence, Call.edge, Call.newDepends, Prod.mk.injEq]
      by_cases hself : A.endOf r = A.startOf x
      · simp [taskRemoveDependence, hself]
      · rw [A.depends_taskRemoveDependence _ _ _ a b hself, hend]
        simp only [Heap.depends_removeBehind, Ne.symm hself, if_false]
        split <;> rfl

theorem behinds_perform {c : Call τ} (hc : ¬ c.Trivial A) (a b : τ) :
    (A.perform h c).behinds a b =
      if (a, b) = c.edge A then c.newBehinds A (h.behinds a b)
      else h.behinds a b := by
  cases c with
  | dependOn r x =>
      simp only [perform, dependOn, Call.edge, Call.newBehinds, Prod.mk.injEq,
        A.behinds_taskDependOn h _ x a b hc]
      by_cases hab : a = A.endOf x ∧ b = A.startOf r
      · simp only [hab, true_and]
        split <;> simp <;> omega
      · have hnone : ¬ (a = A.endOf x ∧ b = A.startOf r ∧
            h.behinds a b = 0) := fun hall ↦ hab ⟨hall.1, hall.2.1⟩
        simp [hab, hnone]
  | removeDependence r x =>
      simp only [perform, removeDependence, Call.edge, Call.newBehinds,
        Prod.mk.injEq, A.behinds_taskRemoveDependence h _ x a b hc]
      split <;> rfl
  | behind r x =>
      have hx : x ≠ A.endOf r := hc
      have hend := A.endOf_eq_self (A.not_isProject_endOf r)
      simp only [perform, behind, taskBehind, hx, if_false, dependOn,
        Call.edge, Call.newBehinds, Prod.mk.injEq]
      by_cases hself : A.endOf r = A.startOf x
      · simp only [taskDependOn, hself, if_true, Heap.behinds_addBehind]
        split <;> rfl
      · rw [A.behinds_taskDependOn _ _ _ a b hself, hend,
          Heap.behinds_addBehind]
        by_cases hab : a = A.endOf r ∧ b = A.startOf x
        · simp [hab.1, hab.2]
        · have hnone : ∀ p : Prop, ¬ (a = A.endOf r ∧ b = A.startOf x ∧ p) :=
            fun p hall ↦ hab ⟨hall.1, hall.2.1⟩
          simp [hab, hnone]
  | removeBehind r x =>
      have hx : x ≠ A.endOf r := hc
      have hend := A.endOf_eq_self (A.not_isProject_endOf r)
      simp only [perform, removeBehind, taskRemoveBehind, hx, if_false,
        removeDependence, Call.edge, Call.newBehinds, Prod.mk.injEq]
      by_cases hself : A.endOf r = A.startOf x
      · simp only [taskRemoveDependence, hself, if_true,
          Heap.behinds_removeBehind]
        split <;> rfl
      · rw [A.behinds_taskRemoveDependence _ _ _ a b hself, hend,
          Heap.behinds_removeBehind]
        simp only [Ne.symm hself, if_false]
        split <;> rfl

/-- A call keeps the lists mirrored exactly when it is balanced. -/
theorem mirrored_perform_iff {c : Call τ} (hh : h.Mirrored) :
    (A.perform h c).Mirrored ↔ c.Balanced A h := by
  by_cases hc : c.Trivial A
  · rw [A.perform_of_trivial h hc]
    cases c <;> simp_all [Call.Balanced, Call.Trivial]
  have hpair : (A.perform h c).Mirrored ↔
      c.newDepends A (h.behinds (c.edge A).1 (c.edge A).2) =
        c.newBehinds A (h.behinds (c.edge A).1 (c.edge A).2) := by
    constructor
    · intro hm
      have hedge := hm (c.edge A).1 (c.edge A).2
      rwa [A.depends_perform h hc, A.behinds_perform h hc, if_pos rfl,
        if_pos rfl, hh] at hedge
    · intro hedge a b
      rw [A.depends_perform h hc, A.behinds_perform h hc, hh a b]
      by_cases hab : (a, b) = c.edge A
      · rw [if_pos hab, if_pos hab]
        simpa [← hab] using hedge
      · rw [if_neg hab, if_neg hab]
  rw [hpair]
  cases c with
  | dependOn r x =>
      have hx : x ≠ A.startOf r := hc
      simp only [Call.newDepends, Call.newBehinds, Call.edge, Call.Balanced, hx,
        false_or, Heap.mem_dependTasks_iff, hh _ _]
      omega
  | removeDependence r x => simp [Call.newDepends, Call.newBehinds, Call.Balanced]
  | behind r x =>
      have hx : x ≠ A.endOf r := hc
      simp only [Call.newDepends, Call.newBehinds, Call.edge, Call.Balanced, hx,
        false_or]
      split <;> simp_all
  | removeBehind r x =>
      have hx : x ≠ A.endOf r := hc
      simp only [Call.newDepends, Call.newBehinds, Call.edge, Call.Balanced, hx,
        false_or, Heap.mem_behindTasks_iff]
      change _ ↔ (_ ∧ h.behinds (A.endOf r) (A.startOf x) ≤ 1) ∨ _
      split
      · simp_all
        omega
      · simp_all
        omega

/-- No project occurs in an edge list: only its boundary tasks do. -/
def NoProject (h : Heap τ) : Prop :=
  ∀ t x, x ∈ (h t).dependTasks ∨ x ∈ (h t).behindTasks →
    (A.decl x).isProject = false

theorem noProject_perform {c : Call τ} (hh : A.NoProject h) :
    A.NoProject (A.perform h c) := by
  by_cases hc : c.Trivial A
  · rwa [A.perform_of_trivial h hc]
  have hedge : (A.decl (c.edge A).1).isProject = false ∧
      (A.decl (c.edge A).2).isProject = false := by
    cases c <;> exact ⟨A.not_isProject_endOf _, A.not_isProject_startOf _⟩
  intro t x hx
  -- a record that was there before, or one of the edge of the call
  rw [Heap.mem_dependTasks_iff, Heap.mem_behindTasks_iff,
    A.depends_perform h hc, A.behinds_perform h hc] at hx
  rcases hx with hx | hx
  · by_cases hxt : (x, t) = c.edge A
    · have hfst : x = (c.edge A).1 := congrArg Prod.fst hxt
      exact hfst ▸ hedge.1
    · rw [if_neg hxt, ← Heap.mem_dependTasks_iff] at hx
      exact hh t x (Or.inl hx)
  · by_cases htx : (t, x) = c.edge A
    · have hsnd : x = (c.edge A).2 := congrArg Prod.snd htx
      exact hsnd ▸ hedge.2
    · rw [if_neg htx, ← Heap.mem_behindTasks_iff] at hx
      exact hh t x (Or.inr hx)

def mutate (h : Heap τ) (c : Call τ) : Option (Heap τ) := some (A.perform h c)

end Arena

/-! ## Sequences of calls -/

/-- Along a sequence of calls on fresh task objects, the two edge lists of all
tasks mirror each other, and hold no project, exactly when every call is
balanced in the state it finds. -/
theorem edges_mirrored_iff_calls_balanced (A : Arena τ) (priority : τ → Int)
    (calls : List (Call τ)) :
    StatesMeet A.mutate (fun h ↦ h.Mirrored ∧ A.NoProject h)
        (Heap.fresh priority) calls ↔
      StepsMeet A.mutate (fun h c ↦ c.Balanced A h)
        (Heap.fresh priority) calls := by
  have htotal : ∀ h, ∃ t, run A.mutate h calls = some t := by
    induction calls with
    | nil => exact fun h ↦ ⟨h, rfl⟩
    | cons c calls ih => exact fun h ↦ ih (A.perform h c)
  obtain ⟨t, hrun⟩ := htotal (Heap.fresh priority)
  refine statesMeet_iff_stepsMeet (I := fun _ ↦ True)
    (fun _ _ _ _ _ _ _ _ ↦ trivial) ?_ trivial ⟨fun a b ↦ rfl, ?_⟩ stepsMeet_true hrun
  · rintro h c h' - ⟨hmirror, hproject⟩ - hstep
    obtain rfl : A.perform h c = h' := Option.some.inj hstep
    rw [A.mirrored_perform_iff h hmirror]
    exact and_iff_left (A.noProject_perform h hproject)
  · intro t x hx
    simp [Heap.fresh] at hx

def twoTasks : Arena (Fin 2) := .plain fun t ↦ if t = 0 then "a" else "b"

/-- `b.dependOn(a)` twice records two dependencies and one successor. -/
theorem edges_not_mirrored_of_dependOn_twice :
    ¬ StatesMeet twoTasks.mutate
      (fun h ↦ h.Mirrored ∧ twoTasks.NoProject h)
      (Heap.fresh fun _ ↦ 0) [.dependOn 1 0, .dependOn 1 0] := by
  intro h
  have hlast := (h _ (List.prefix_refl _) _ rfl).1 0 1
  revert hlast
  decide

end HiApp.TaskFlow
