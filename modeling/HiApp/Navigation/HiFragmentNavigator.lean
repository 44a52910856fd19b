import HiApp.Lib.FragmentManager
import HiApp.Lib.Runs

/-!
# The fragment navigator

Every navigation hides all fragments that are present and shows the one of the new
destination, which it looks for by the simple name of its class.  Going back undoes the
transaction: it shows everything that the transaction had hidden.
-/

namespace HiApp.Navigation

open Runs FragmentManager

/-- `number` tells the instances of a class apart. -/
structure Fragment where
  number : ℕ
  className : String
  deriving DecidableEq

/-- The package of the app, and the class names of the destinations by their ids. -/
structure Graph where
  packageName : String
  className : ℤ → String

/-- A class name that begins with a dot belongs to the package. -/
def Graph.resolve (graph : Graph) (destId : ℤ) : String :=
  if (graph.className destId).toList.head? = some '.' then
    graph.packageName ++ graph.className destId
  else graph.className destId

/-- What follows the last dot. -/
def simpleName (className : String) : String :=
  String.ofList (className.toList.reverse.takeWhile (· ≠ '.')).reverse

/-- The operations that `navigate` puts into a transaction. -/
structure Transaction where
  hides : List Fragment
  adds : Bool
  shows : Fragment

def Transaction.ops (t : Transaction) : List (Op Fragment) :=
  t.hides.map .hide ++ (if t.adds then [.add t.shows] else []) ++ [.show t.shows]

/-- The top of `mBackStack` is in front.  Entries of the manager's back stack are named
after the size of `mBackStack` and the destination. -/
structure HiFragmentNavigator where
  manager : Manager Fragment (ℕ × ℤ) := {}
  mBackStack : List ℤ := []
  stateSaved : Bool := false
  instances : ℕ := 0

namespace HiFragmentNavigator

def added (n : HiFragmentNavigator) : List Fragment := n.manager.executed.container.added

/-- The last fragment added with the tag or, when there is none, `reuse`: one that the
manager still knows although it is not added. -/
def findFragmentByTag (n : HiFragmentNavigator) (tag : String) (reuse : Option Fragment) :
    Option Fragment :=
  (n.added.reverse.find? fun f ↦ simpleName f.className = tag).or reuse

/-- A fragment that is not added is known as long as an entry of the back stack is about
it. -/
def Knows (n : HiFragmentNavigator) (tag : String) (reuse : Option Fragment) : Prop :=
  ∀ f ∈ reuse, f ∉ n.added ∧ simpleName f.className = tag ∧
    ∃ r ∈ n.manager.executed.backStack, .hide f ∈ r.ops ∨ .show f ∈ r.ops

instance (n : HiFragmentNavigator) (tag : String) (reuse : Option Fragment) :
    Decidable (n.Knows tag reuse) :=
  match reuse with
  | none => isTrue fun _ hf ↦ nomatch hf
  | some f =>
      decidable_of_iff (f ∉ n.added ∧ simpleName f.className = tag ∧
        ∃ r ∈ n.manager.executed.backStack, .hide f ∈ r.ops ∨ .show f ∈ r.ops)
        (by simp [Knows])

section

variable (graph : Graph)

/-- The fragment that is shown for a destination. -/
def target (n : HiFragmentNavigator) (destId : ℤ) (reuse : Option Fragment) : Fragment :=
  (n.findFragmentByTag (simpleName (graph.resolve destId)) reuse).getD
    ⟨n.instances, graph.resolve destId⟩

def transaction (n : HiFragmentNavigator) (destId : ℤ) (reuse : Option Fragment) :
    Transaction where
  hides := n.added
  adds := decide (n.target graph destId reuse ∉ n.added)
  shows := n.target graph destId reuse

/-- An empty class name has no first character and throws. -/
def navigate (n : HiFragmentNavigator) (destId : ℤ) (singleTop : Bool)
    (reuse : Option Fragment) : HiFragmentNavigator :=
  if n.stateSaved = true ∨ graph.className destId = "" then n
  else
    let ops := (n.transaction graph destId reuse).ops
    let n := { n with instances := n.instances + 1 }
    match n.mBackStack with
    | [] =>
        { n with
          manager := n.manager.enqueue (.commit ops none)
          mBackStack := [destId] }
    | top :: rest =>
        if singleTop = true ∧ top = destId then
          if rest ≠ [] then
            { n with
              manager :=
                (n.manager.enqueue (.popBackStack (n.mBackStack.length, top))).enqueue
                  (.commit ops (some (n.mBackStack.length, destId))) }
          else { n with manager := n.manager.enqueue (.commit ops none) }
        else
          { n with
            manager := n.manager.enqueue (.commit ops (some (n.mBackStack.length + 1, destId)))
            mBackStack := destId :: n.mBackStack }

def popBackStack (n : HiFragmentNavigator) : HiFragmentNavigator :=
  match n.mBackStack with
  | [] => n
  | top :: rest =>
      if n.stateSaved then n
      else
        { n with
          manager := n.manager.enqueue (.popBackStack (n.mBackStack.length, top))
          mBackStack := rest }

end

end HiFragmentNavigator

inductive Action where
  | navigate (destId : ℤ) (singleTop : Bool) (reuse : Option Fragment)
  | popBackStack
  | executeNext
  | setStateSaved (stateSaved : Bool)

namespace HiFragmentNavigator

def step (graph : Graph) (n : HiFragmentNavigator) : Action → Option HiFragmentNavigator
  | .navigate destId singleTop reuse =>
      if n.Knows (simpleName (graph.resolve destId)) reuse then
        some (n.navigate graph destId singleTop reuse)
      else none
  | .popBackStack => some n.popBackStack
  | .executeNext => n.manager.executeNext.map fun manager ↦ { n with manager }
  | .setStateSaved stateSaved => some { n with stateSaved }

/-- Once all transactions have been executed, the one visible fragment is of the class of
the top destination. -/
structure ShowsTop (graph : Graph) (n : HiFragmentNavigator) : Prop where
  crashed : n.manager.settled.container.crashed = false
  visible : ∀ top ∈ n.mBackStack.head?, ∃ x : Fragment, x.className = graph.resolve top ∧
    ∀ g, n.manager.settled.container.Visible g ↔ g = x

end HiFragmentNavigator

end HiApp.Navigation
