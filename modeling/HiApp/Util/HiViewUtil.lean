import HiApp.Lib.BreadthFirst

/-!
# Views of a type

`findTypeView` looks for a view of a class in the tree below a group.
-/

namespace HiApp.Util

/-- A view with its class; a group has children. -/
inductive View (α : Type*) where
  | view (cls : α)
  | viewGroup (cls : α) (children : List (View α))

namespace View

variable {α : Type*}

def cls : View α → α
  | view cls => cls
  | viewGroup cls _ => cls

/-- What `getChildAt` has for each index below `getChildCount`. -/
def children : View α → List (View α)
  | view _ => []
  | viewGroup _ children => children

theorem sum_sizeOf_lt (views : List (View α)) : (views.map sizeOf).sum < sizeOf views := by
  induction views with
  | nil => exact Nat.one_pos
  | cons v views ih =>
      rw [List.map_cons, List.sum_cons, List.cons.sizeOf_spec]
      omega

theorem sum_children_lt (v : View α) : (v.children.map sizeOf).sum < sizeOf v := by
  cases v with
  | view cls =>
      rw [view.sizeOf_spec]
      exact Nat.lt_of_lt_of_le Nat.one_pos (Nat.le_add_right _ _)
  | viewGroup cls children =>
      have hlt := sum_sizeOf_lt children
      rw [viewGroup.sizeOf_spec]
      show (children.map sizeOf).sum < _
      omega

end View

namespace HiViewUtil

variable {α : Type*} (isInstance : α → Bool)

/-- The loop that puts the children at the end of the deque. -/
def addAll (deque children : List (View α)) : List (View α) :=
  children.foldl (fun deque child ↦ deque ++ [child]) deque

theorem addAll_eq (deque children : List (View α)) : addAll deque children = deque ++ children := by
  unfold addAll
  induction children generalizing deque with
  | nil => exact (List.append_nil deque).symm
  | cons child children ih =>
      rw [List.foldl_cons, ih, List.append_assoc, List.singleton_append]

/-- The loop over the deque. -/
def findInDeque : List (View α) → Option (View α)
  | [] => none
  | node :: deque =>
      if isInstance node.cls then some node
      else
        match node with
        | .view _ => findInDeque deque
        | .viewGroup _ children => findInDeque (addAll deque children)
termination_by deque => (deque.map sizeOf).sum
decreasing_by
  · rw [List.map_cons, List.sum_cons, View.view.sizeOf_spec]
    omega
  · have hlt := View.sum_sizeOf_lt children
    rw [addAll_eq, List.map_append, List.sum_append, List.map_cons, List.sum_cons,
      View.viewGroup.sizeOf_spec]
    omega

def findTypeView (group : Option (View α)) : Option (View α) :=
  group.bind fun group ↦ findInDeque isInstance [group]

/-- The views of a tree, with their sizes. -/
noncomputable def views (α : Type*) : Forest (View α) where
  children := View.children
  size := sizeOf
  sum_lt := View.sum_children_lt

variable {isInstance}

/-- The loop is a breadth-first search. -/
theorem findInDeque_eq_search (deque : List (View α)) :
    findInDeque isInstance deque = (views α).search (fun v ↦ isInstance v.cls) deque := by
  induction deque using findInDeque.induct isInstance with
  | case1 => rw [findInDeque, Forest.search]
  | case2 node deque hnode =>
      rw [findInDeque.eq_def, Forest.search]
      simp only [if_pos hnode]
  | case3 deque cls hnode ih =>
      have hsearch := Forest.search_cons_of_neg (T := views α)
        (p := fun v : View α ↦ isInstance v.cls) deque hnode
      rw [findInDeque, if_neg hnode, ih, hsearch]
      exact congrArg _ (List.append_nil deque).symm
  | case4 deque cls children hnode ih =>
      have hsearch := Forest.search_cons_of_neg (T := views α)
        (p := fun v : View α ↦ isInstance v.cls) deque hnode
      rw [findInDeque, if_neg hnode, ih, addAll_eq, hsearch]
      rfl

/-- The path from a group to one of the views below it leads from child to child. -/
abbrev ViewAt (group : View α) (path : List ℕ) (v : View α) : Prop :=
  (views α).descend group path = some v

/-- Nothing is found just when no view is of the class, and otherwise the leftmost of the
views of the class that are highest up. -/
theorem findTypeView_correct (isInstance : α → Bool) (group : View α) :
    (findTypeView isInstance (some group) = none ↔
      ∀ path v, ViewAt group path v → isInstance v.cls = false) ∧
    ∀ v, findTypeView isInstance (some group) = some v ↔
      ∃ path, ViewAt group path v ∧ isInstance v.cls = true ∧
        ∀ path' v', ViewAt group path' v' → isInstance v'.cls = true →
          path.length < path'.length ∨
            path.length = path'.length ∧ (path = path' ∨ List.Lex (· < ·) path path') := by
  have hfind : findTypeView isInstance (some group) =
      (views α).search (fun v ↦ isInstance v.cls) [group] := findInDeque_eq_search [group]
  rw [hfind]
  constructor
  · rw [Forest.search_eq_none_iff]
    simp only [List.mem_singleton, forall_eq]
  · intro v
    rw [Forest.search_eq_some_iff]
    constructor
    · rintro ⟨path, hdescend, hv, hminimal⟩
      exact ⟨path, hdescend, hv, hminimal⟩
    · rintro ⟨path, hdescend, hv, hminimal⟩
      exact ⟨path, hdescend, hv, hminimal⟩

end HiViewUtil

end HiApp.Util
