import Mathlib.Data.List.Basic
import Mathlib.Logic.Function.Basic

/-!
# Task objects and their edges

The task objects of the start-up task flow and the four mutators that connect
them: `dependOn`, `removeDependence`, `behind` and `removeBehind`, with the
overrides of `Project`.  A task object is a reference `τ`; what its constructor
fixes is in the `Arena`, what may change is in the `Heap`.  References are
compared by identity, as the sources do.
-/

namespace HiApp.TaskFlow

inductive TaskState where
  | idle
  | start
  | running
  | finished
  deriving DecidableEq, Repr

/-- The class of a task object.  The two boundary tasks of a project and the
project itself are built with the default constructor arguments. -/
inductive Kind (τ : Type*) where
  | task (isAsyncTask : Bool) (delayMills : Int)
  | criticalTask
  | project (startTask endTask : τ)
  deriving DecidableEq

/-- The `val` part of a task object. -/
structure Decl (τ : Type*) where
  id : String
  kind : Kind τ := .task false 0

namespace Decl

variable {τ : Type*}

def isAsyncTask (d : Decl τ) : Bool :=
  match d.kind with
  | .task isAsyncTask _ => isAsyncTask
  | _ => false

def delayMills (d : Decl τ) : Int :=
  match d.kind with
  | .task _ delayMills => delayMills
  | _ => 0

def isCriticalTask (d : Decl τ) : Bool :=
  match d.kind with
  | .criticalTask => true
  | _ => false

def isProject (d : Decl τ) : Bool :=
  match d.kind with
  | .project _ _ => true
  | _ => false

end Decl

/-- All task objects of a program.  `Project.Builder` is the only way to make a
project, and it makes both boundary tasks as `CriticalTask`s. -/
structure Arena (τ : Type*) where
  decl : τ → Decl τ
  boundary : ∀ p s e, (decl p).kind = .project s e →
    (decl s).kind = .criticalTask ∧ (decl e).kind = .criticalTask

/-- Tasks without delay, and no projects. -/
def Arena.plain {τ : Type*} (id : τ → String)
    (isAsyncTask : τ → Bool := fun _ ↦ false) : Arena τ where
  decl t := { id := id t, kind := .task (isAsyncTask t) 0 }
  boundary := by simp

/-- The `var` part of a task object and its two edge lists. -/
structure Vars (τ : Type*) where
  priority : Int := 0
  state : TaskState := .idle
  dependTasks : List τ := []
  dependTasksName : List String := []
  behindTasks : List τ := []

abbrev Heap (τ : Type*) := τ → Vars τ

/-- Task objects as their constructors leave them. -/
def Heap.fresh {τ : Type*} (priority : τ → Int) : Heap τ :=
  fun t ↦ { priority := priority t }

variable {τ : Type*} [DecidableEq τ]

namespace Heap

def modify (h : Heap τ) (t : τ) (f : Vars τ → Vars τ) : Heap τ :=
  Function.update h t (f (h t))

def addDepend (h : Heap τ) (t x : τ) : Heap τ :=
  h.modify t fun v ↦ { v with dependTasks := v.dependTasks ++ [x] }

/-- `dependTasks.remove(x)`: the first occurrence goes, if there is one. -/
def removeDepend (h : Heap τ) (t x : τ) : Heap τ :=
  h.modify t fun v ↦ { v with dependTasks := v.dependTasks.erase x }

def addBehind (h : Heap τ) (t x : τ) : Heap τ :=
  h.modify t fun v ↦ { v with behindTasks := v.behindTasks ++ [x] }

def removeBehind (h : Heap τ) (t x : τ) : Heap τ :=
  h.modify t fun v ↦ { v with behindTasks := v.behindTasks.erase x }

def addDependName (h : Heap τ) (t : τ) (name : String) : Heap τ :=
  h.modify t fun v ↦ { v with dependTasksName := v.dependTasksName ++ [name] }

def setPriority (h : Heap τ) (t : τ) (priority : Int) : Heap τ :=
  h.modify t fun v ↦ { v with priority := priority }

end Heap

namespace Arena

variable (A : Arena τ)

/-- A project stands for its start task where something comes before it. -/
def startOf (t : τ) : τ :=
  match (A.decl t).kind with
  | .project startTask _ => startTask
  | _ => t

/-- A project stands for its end task where something comes after it. -/
def endOf (t : τ) : τ :=
  match (A.decl t).kind with
  | .project _ endTask => endTask
  | _ => t

/-- The body of `Task.dependOn`, run on an object that is no project. -/
def taskDependOn (h : Heap τ) (this dependTask : τ) : Heap τ :=
  if dependTask = this then h
  else
    let task := A.endOf dependTask
    let h₁ := h.addDepend this task
    if this ∈ (h₁ task).behindTasks then h₁ else h₁.addBehind task this

/-- `dependOn` as a virtual call: `Project` hands it to its start task. -/
def dependOn (h : Heap τ) (receiver dependTask : τ) : Heap τ :=
  A.taskDependOn h (A.startOf receiver) dependTask

def taskRemoveDependence (h : Heap τ) (this dependTask : τ) : Heap τ :=
  if dependTask = this then h
  else
    let task := A.endOf dependTask
    let h₁ := (h.removeDepend this task).addDependName this (A.decl task).id
    if this ∈ (h₁ task).behindTasks then h₁.removeBehind task this else h₁

def removeDependence (h : Heap τ) (receiver dependTask : τ) : Heap τ :=
  A.taskRemoveDependence h (A.startOf receiver) dependTask

/-- The body of `Task.behind`.  It compares its argument with `this` before a
project argument is replaced by its start task. -/
def taskBehind (h : Heap τ) (this behindTask : τ) : Heap τ :=
  if behindTask = this then h
  else A.dependOn (h.addBehind this (A.startOf behindTask)) behindTask this

def behind (h : Heap τ) (receiver behindTask : τ) : Heap τ :=
  A.taskBehind h (A.endOf receiver) behindTask

def taskRemoveBehind (h : Heap τ) (this behindTask : τ) : Heap τ :=
  if behindTask = this then h
  else
    A.removeDependence (h.removeBehind this (A.startOf behindTask))
      behindTask this

def removeBehind (h : Heap τ) (receiver behindTask : τ) : Heap τ :=
  A.taskRemoveBehind h (A.endOf receiver) behindTask

end Arena

/-- A call of one of the four mutators. -/
inductive Call (τ : Type*) where
  | dependOn (receiver dependTask : τ)
  | removeDependence (receiver dependTask : τ)
  | behind (receiver behindTask : τ)
  | removeBehind (receiver behindTask : τ)
  deriving DecidableEq

def Arena.perform (A : Arena τ) (h : Heap τ) : Call τ → Heap τ
  | .dependOn receiver dependTask => A.dependOn h receiver dependTask
  | .removeDependence receiver dependTask =>
      A.removeDependence h receiver dependTask
  | .behind receiver behindTask => A.behind h receiver behindTask
  | .removeBehind receiver behindTask => A.removeBehind h receiver behindTask

/-! ## What the field updates do -/

namespace Heap

variable (h : Heap τ) (t x u : τ)

theorem modify_apply (f : Vars τ → Vars τ) :
    h.modify t f u = if u = t then f (h u) else h u := by
  by_cases hu : u = t
  · subst hu
    simp [modify]
  · simp [modify, hu]

@[simp] theorem addDepend_dependTasks : (h.addDepend t x u).dependTasks =
    if u = t then (h u).dependTasks ++ [x] else (h u).dependTasks := by
  rw [addDepend, modify_apply]
  split <;> rfl

@[simp] theorem addDepend_behindTasks :
    (h.addDepend t x u).behindTasks = (h u).behindTasks := by
  rw [addDepend, modify_apply]
  split <;> rfl

@[simp] theorem removeDepend_dependTasks :
    (h.removeDepend t x u).dependTasks =
      if u = t then (h u).dependTasks.erase x else (h u).dependTasks := by
  rw [removeDepend, modify_apply]
  split <;> rfl

@[simp] theorem removeDepend_behindTasks :
    (h.removeDepend t x u).behindTasks = (h u).behindTasks := by
  rw [removeDepend, modify_apply]
  split <;> rfl

@[simp] theorem addBehind_behindTasks : (h.addBehind t x u).behindTasks =
    if u = t then (h u).behindTasks ++ [x] else (h u).behindTasks := by
  rw [addBehind, modify_apply]
  split <;> rfl

@[simp] theorem addBehind_dependTasks :
    (h.addBehind t x u).dependTasks = (h u).dependTasks := by
  rw [addBehind, modify_apply]
  split <;> rfl

@[simp] theorem removeBehind_behindTasks :
    (h.removeBehind t x u).behindTasks =
      if u = t then (h u).behindTasks.erase x else (h u).behindTasks := by
  rw [removeBehind, modify_apply]
  split <;> rfl

@[simp] theorem removeBehind_dependTasks :
    (h.removeBehind t x u).dependTasks = (h u).dependTasks := by
  rw [removeBehind, modify_apply]
  split <;> rfl

@[simp] theorem addDependName_dependTasks (name : String) :
    (h.addDependName t name u).dependTasks = (h u).dependTasks := by
  rw [addDependName, modify_apply]
  split <;> rfl

@[simp] theorem addDependName_behindTasks (name : String) :
    (h.addDependName t name u).behindTasks = (h u).behindTasks := by
  rw [addDependName, modify_apply]
  split <;> rfl

@[simp] theorem addDepend_state :
    (h.addDepend t x u).state = (h u).state := by
  rw [addDepend, modify_apply]
  split <;> rfl

@[simp] theorem removeDepend_state :
    (h.removeDepend t x u).state = (h u).state := by
  rw [removeDepend, modify_apply]
  split <;> rfl

@[simp] theorem addBehind_state :
    (h.addBehind t x u).state = (h u).state := by
  rw [addBehind, modify_apply]
  split <;> rfl

@[simp] theorem removeBehind_state :
    (h.removeBehind t x u).state = (h u).state := by
  rw [removeBehind, modify_apply]
  split <;> rfl

@[simp] theorem addDependName_state (name : String) :
    (h.addDependName t name u).state = (h u).state := by
  rw [addDependName, modify_apply]
  split <;> rfl

@[simp] theorem setPriority_state (p : Int) :
    (h.setPriority t p u).state = (h u).state := by
  rw [setPriority, modify_apply]
  split <;> rfl

@[simp] theorem setPriority_dependTasks (p : Int) :
    (h.setPriority t p u).dependTasks = (h u).dependTasks := by
  rw [setPriority, modify_apply]
  split <;> rfl

@[simp] theorem setPriority_behindTasks (p : Int) :
    (h.setPriority t p u).behindTasks = (h u).behindTasks := by
  rw [setPriority, modify_apply]
  split <;> rfl

end Heap

namespace Arena

variable (A : Arena τ)

omit [DecidableEq τ] in
theorem not_isProject_startOf (t : τ) : (A.decl (A.startOf t)).isProject = false := by
  unfold startOf
  split
  · rename_i s e hkind
    simp [Decl.isProject, (A.boundary t s e hkind).1]
  · rename_i hkind
    unfold Decl.isProject
    split
    · rename_i s e hs
      exact (hkind s e hs).elim
    · rfl

omit [DecidableEq τ] in
theorem not_isProject_endOf (t : τ) : (A.decl (A.endOf t)).isProject = false := by
  unfold endOf
  split
  · rename_i s e hkind
    simp [Decl.isProject, (A.boundary t s e hkind).2]
  · rename_i hkind
    unfold Decl.isProject
    split
    · rename_i s e hs
      exact (hkind s e hs).elim
    · rfl

omit [DecidableEq τ] in
theorem endOf_eq_self {t : τ} (ht : (A.decl t).isProject = false) :
    A.endOf t = t := by
  unfold endOf
  split
  · rename_i hkind
    simp [Decl.isProject, hkind] at ht
  · rfl

end Arena

end HiApp.TaskFlow
