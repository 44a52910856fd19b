import HiApp.Lib.Runs
import HiApp.LaunchStarter.SortOrder

/-!
# Earlier sorts

`sNewTasksHigh` is static and never emptied: the tasks that one call of
`getSortResult` puts ahead are in the results of all later calls, of whatever
dispatcher.
-/

namespace HiApp.LaunchStarter

variable {τ κ : Type*} [DecidableEq κ]

/-- The arguments of a call of `getSortResult`, with what the tasks answer to
`isSend()` at the time. -/
structure SortCall (τ κ : Type*) where
  isSend : τ → Bool := fun _ ↦ false
  originTasks : List τ
  clsLaunchTasks : List κ

namespace Launch

variable (L : Launch τ κ)

/-- A call of `getSortResult`: what it returns or throws, and `sNewTasksHigh`
after it. -/
def sort (sNewTasksHigh : List τ) (call : SortCall τ κ) :
    Except SortError (List τ) × List τ :=
  match L.getSortResult call.isSend sNewTasksHigh call.originTasks
      call.clsLaunchTasks with
  | .error e => (.error e, sNewTasksHigh)
  | .ok (high, tasks) => (.ok tasks, high)

/-- `sNewTasksHigh` after the calls, in a new process. -/
def highAfter (calls : List (SortCall τ κ)) : List τ :=
  calls.foldl (fun high call ↦ (L.sort high call).2) []

/-- The part of a call that only looks at its arguments: the indices of the tasks
that others depend on, and all indices in topological order. -/
def analyse (call : SortCall τ κ) : Except SortError (List ℕ × List ℕ) :=
  match forEach (L.addDepends call.isSend call.originTasks call.clsLaunchTasks)
      ([], { mVerticalCount := call.originTasks.length })
      call.originTasks.zipIdx with
  | (_, some e) => .error e
  | ((dependSet, graph), none) =>
      match graph.topologicalSort with
      | .error e => .error e
      | .ok indexList => .ok (dependSet, indexList)

/-- The tasks that a call puts ahead by itself: those that others depend on and
those that are to run as soon as possible. -/
def newTasksHigh (call : SortCall τ κ) : List τ :=
  match L.analyse call with
  | .error _ => []
  | .ok (dependSet, indexList) =>
      (L.getResultTasks [] call.originTasks dependSet indexList).1

variable {L}

omit [DecidableEq κ] in
theorem getResultTasks_append (sNewTasksHigh originTasks : List τ)
    (dependSet indexList : List ℕ) :
    L.getResultTasks sNewTasksHigh originTasks dependSet indexList =
      (sNewTasksHigh ++ (L.getResultTasks [] originTasks dependSet indexList).1,
        sNewTasksHigh ++ (L.getResultTasks [] originTasks dependSet indexList).2) := by
  simp [getResultTasks]

theorem getSortResult_eq_analyse (sNewTasksHigh : List τ) (call : SortCall τ κ) :
    L.getSortResult call.isSend sNewTasksHigh call.originTasks call.clsLaunchTasks =
      (L.analyse call).map fun indices ↦ L.getResultTasks sNewTasksHigh
        call.originTasks indices.1 indices.2 := by
  unfold getSortResult analyse
  rcases forEach (L.addDepends call.isSend call.originTasks call.clsLaunchTasks)
      ([], { mVerticalCount := call.originTasks.length })
      call.originTasks.zipIdx with ⟨⟨dependSet, graph⟩, _ | e⟩
  · cases htopo : graph.topologicalSort <;> simp [htopo, Except.map]
  · rfl

theorem analyse_of_getSortResult {high : List τ} {c : SortCall τ κ}
    {result : List τ × List τ} (hsort : L.getSortResult c.isSend high
      c.originTasks c.clsLaunchTasks = .ok result) :
    ∃ indices, L.analyse c = .ok indices := by
  rw [getSortResult_eq_analyse] at hsort
  cases hcall : L.analyse c with
  | error e => simp [hcall, Except.map] at hsort
  | ok indices => exact ⟨indices, rfl⟩

theorem getSortResult_perm_append {high high' tasks : List τ} {c : SortCall τ κ}
    (hsort : L.getSortResult c.isSend high c.originTasks c.clsLaunchTasks =
      .ok (high', tasks)) : tasks.Perm (high ++ c.originTasks) := by
  obtain ⟨indices, hcall⟩ := analyse_of_getSortResult hsort
  rw [getSortResult_eq_analyse, hcall, Except.map, getResultTasks_append,
    Except.ok.injEq, Prod.mk.injEq] at hsort
  have hown : L.getSortResult c.isSend [] c.originTasks c.clsLaunchTasks =
      .ok (L.getResultTasks [] c.originTasks indices.1 indices.2) := by
    rw [getSortResult_eq_analyse, hcall, Except.map]
  rw [← hsort.2]
  exact (getSortResult_perm hown).append_left high

theorem sort_of_error {call : SortCall τ κ} {e : SortError}
    (h : L.analyse call = .error e) (high : List τ) :
    L.sort high call = (.error e, high) := by
  simp [sort, getSortResult_eq_analyse, h, Except.map]

theorem sort_of_ok {call : SortCall τ κ} {dependSet indexList : List ℕ}
    (h : L.analyse call = .ok (dependSet, indexList)) (high : List τ) :
    L.sort high call =
      (.ok (high ++
        (L.getResultTasks [] call.originTasks dependSet indexList).2),
        high ++ L.newTasksHigh call) := by
  simp only [sort, getSortResult_eq_analyse, h, Except.map, newTasksHigh]
  rw [getResultTasks_append]

/-- Every call adds its own tasks, so that the list tells the history. -/
theorem highAfter_eq_flatMap (calls : List (SortCall τ κ)) :
    L.highAfter calls = calls.flatMap L.newTasksHigh := by
  induction calls using List.reverseRecOn with
  | nil => rfl
  | append_singleton calls call ih =>
      have hlast : L.highAfter (calls ++ [call]) =
          (L.sort (L.highAfter calls) call).2 := by
        simp [highAfter]
      rw [hlast, List.flatMap_append, List.flatMap_singleton, ← ih]
      cases hcall : L.analyse call with
      | error e => simp [sort_of_error hcall, newTasksHigh, hcall]
      | ok indices => rw [sort_of_ok hcall]

end Launch

variable (L : Launch τ κ)

/-- After two histories, a call has the same result if and only if the calls of
the two histories have put the same tasks ahead, or the call throws for what its
arguments are. -/
theorem sort_eq_iff_newTasksHigh_eq (calls₁ calls₂ : List (SortCall τ κ))
    (call : SortCall τ κ) :
    (L.sort (L.highAfter calls₁) call).1 = (L.sort (L.highAfter calls₂) call).1 ↔
      calls₁.flatMap L.newTasksHigh = calls₂.flatMap L.newTasksHigh ∨
        ∃ e, L.analyse call = .error e := by
  rw [← Launch.highAfter_eq_flatMap, ← Launch.highAfter_eq_flatMap]
  cases hcall : L.analyse call with
  | error e => simp [Launch.sort_of_error hcall]
  | ok indices => simp [Launch.sort_of_ok hcall]

/-- Two tasks without dependencies; `0` is to run as soon as possible. -/
def soon : Launch (Fin 2) (Fin 2) where
  decl t := { cls := t, needRunAsSoon := t = 0 }
  getSimpleName c := toString c

/-- The task of an earlier dispatcher is in the result for a list without it. -/
theorem earlier_task_sorted_in :
    (soon.sort (soon.highAfter []) { originTasks := [1], clsLaunchTasks := [1] }).1 =
      .ok [1] ∧
    (soon.sort (soon.highAfter [{ originTasks := [0], clsLaunchTasks := [0] }])
      { originTasks := [1], clsLaunchTasks := [1] }).1 = .ok [0, 1] := by
  decide

end HiApp.LaunchStarter
