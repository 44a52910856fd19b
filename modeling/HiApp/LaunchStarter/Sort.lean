import HiApp.Lib.Kahn
import HiApp.Lib.Loop
import HiApp.LaunchStarter.Task

/-!
# Sorting the task list

`TaskSortUtil.getSortResult` and the topological sort of `Graph`.  Dependencies
are classes; a class is looked up in the list of classes and, failing that, by
its simple name among the tasks.
-/

namespace HiApp.LaunchStarter

variable {τ κ : Type*} [DecidableEq κ]

inductive SortError where
  | notFound (task depend : String)
  | outOfBounds
  | cycle
  deriving DecidableEq, Repr

def SortError.message : SortError → Option String
  | .notFound task depend =>
      some (task ++ " depends on " ++ depend ++ " can not found in task list")
  | .outOfBounds => none
  | .cycle => some "Exists a cycle in the graph"

structure Graph where
  mVerticalCount : ℕ
  mAdj : ℕ → List ℕ := fun _ ↦ []

namespace Graph

def addEdge (g : Graph) (u v : ℕ) : Graph :=
  { g with mAdj := Function.update g.mAdj u (g.mAdj u ++ [v]) }

/-- `topologicalSort`.  The search stops by itself, see `queue_eq_nil`. -/
def topologicalSort (g : Graph) : Except SortError (List ℕ) :=
  let topOrder := (Kahn.search g.mAdj (g.mVerticalCount + 1)
    (Kahn.start g.mAdj (List.range g.mVerticalCount))).order
  if topOrder.length ≠ g.mVerticalCount then .error .cycle else .ok topOrder

end Graph

namespace Launch

variable (L : Launch τ κ)

/-- `getIndexOfTask`; `none` stands for a negative index. -/
def getIndexOfTask (originTasks : List τ) (clsLaunchTasks : List κ) (cls : κ) :
    Option ℕ :=
  match clsLaunchTasks.findIdx? (fun c ↦ c = cls) with
  | some index => some index
  | none => originTasks.findIdx? fun t ↦
      L.getSimpleName cls = L.getSimpleName (L.decl t).cls

/-- The edge for one entry of `dependsOn()` of the task at index `i`; the state
is `dependSet` and the graph. -/
def addDepend (originTasks : List τ) (clsLaunchTasks : List κ) (task : τ)
    (i : ℕ) (s : List ℕ × Graph) (cls : κ) :
    (List ℕ × Graph) × Option SortError :=
  match L.getIndexOfTask originTasks clsLaunchTasks cls with
  | none => (s, some (.notFound (L.getSimpleName (L.decl task).cls)
      (L.getSimpleName cls)))
  | some indexOfDepend =>
      if indexOfDepend < s.2.mVerticalCount then
        ((indexOfDepend :: s.1, s.2.addEdge indexOfDepend i), none)
      else ((indexOfDepend :: s.1, s.2), some .outOfBounds)

/-- The edges into the task at index `i`, unless it was sent before. -/
def addDepends (isSend : τ → Bool) (originTasks : List τ)
    (clsLaunchTasks : List κ) (s : List ℕ × Graph) (entry : τ × ℕ) :
    (List ℕ × Graph) × Option SortError :=
  if isSend entry.1 then (s, none)
  else forEach (L.addDepend originTasks clsLaunchTasks entry.1 entry.2) s
    (L.dependsOn entry.1)

/-- `getResultTasks`: the new `sNewTasksHigh` and the result. -/
def getResultTasks (sNewTasksHigh originTasks : List τ) (dependSet : List ℕ)
    (indexList : List ℕ) : List τ × List τ :=
  let tasks := fun (p : ℕ → τ → Bool) ↦ indexList.filterMap fun index ↦
    (originTasks[index]?).filter (p index)
  let newTasksDepended := tasks fun index _ ↦ decide (index ∈ dependSet)
  let newTasksRunAsSoon := tasks fun index t ↦
    decide (index ∉ dependSet) && (L.decl t).needRunAsSoon
  let newTasksWithOutDepend := tasks fun index t ↦
    decide (index ∉ dependSet) && !(L.decl t).needRunAsSoon
  let high := sNewTasksHigh ++ newTasksDepended ++ newTasksRunAsSoon
  (high, high ++ newTasksWithOutDepend)

/-- `getSortResult`: the new `sNewTasksHigh` and the sorted list. -/
def getSortResult (isSend : τ → Bool) (sNewTasksHigh originTasks : List τ)
    (clsLaunchTasks : List κ) : Except SortError (List τ × List τ) :=
  match forEach (L.addDepends isSend originTasks clsLaunchTasks)
      ([], { mVerticalCount := originTasks.length }) originTasks.zipIdx with
  | (_, some e) => .error e
  | ((dependSet, graph), none) =>
      match graph.topologicalSort with
      | .error e => .error e
      | .ok indexList =>
          .ok (L.getResultTasks sNewTasksHigh originTasks dependSet indexList)

end Launch

end HiApp.LaunchStarter
