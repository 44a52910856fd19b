import HiApp.Navigation.Overlap

/-!
# The navigator across a recreation

The ids of the destinations are saved beside the fragments.  A new navigator takes them back,
and the manager has its back stack again, with the names that the old navigator gave.
-/

namespace HiApp.Navigation

open Runs FragmentManager

namespace HiFragmentNavigator

/-- The ids from the first destination on, under `KEY_BACK_STACK_IDS`. -/
def onSaveState (n : HiFragmentNavigator) : Option (List ℤ) := some n.mBackStack.reverse

/-- Nothing is taken from a bundle without the key. -/
def onRestoreState (savedState : Option (List ℤ)) (n : HiFragmentNavigator) :
    HiFragmentNavigator :=
  match savedState with
  | none => n
  | some backStack =>
      { n with mBackStack := backStack.foldl (fun mBackStack destId ↦ destId :: mBackStack) [] }

end HiFragmentNavigator

structure SavedState where
  fragments : Executed Fragment (ℕ × ℤ)
  backStackIds : Option (List ℤ)

/-- A page with its navigator, and what was saved of it last. -/
structure Host where
  navigator : HiFragmentNavigator := {}
  saved : Option SavedState := none

namespace Host

inductive Action where
  | call (action : Navigation.Action)
  | save
  | recreate

/-- The manager carries out what is queued, saves, and from then on refuses changes. -/
def save (s : Host) : Host :=
  { navigator := { s.navigator with
      manager := { executed := s.navigator.manager.settled }
      stateSaved := true }
    saved := some
      { fragments := s.navigator.manager.settled, backStackIds := s.navigator.onSaveState } }

def recreate (s : Host) : Option Host :=
  s.saved.map fun saved ↦
    { s with
      navigator := HiFragmentNavigator.onRestoreState saved.backStackIds
        { manager := { executed := saved.fragments }, instances := s.navigator.instances } }

def step (graph : Graph) (s : Host) : Action → Option Host
  | .call action => (s.navigator.step graph action).map fun navigator ↦ { s with navigator }
  | .save => some s.save
  | .recreate => s.recreate

end Host

/-! ### The destinations as a stack -/

/-- A stack of destinations that can be saved and restored. -/
structure Destinations where
  stack : List ℤ := []
  stateSaved : Bool := false
  saved : Option (List ℤ) := none
  deriving DecidableEq

namespace Destinations

def call (graph : Graph) (d : Destinations) : Navigation.Action → Destinations
  | .navigate destId singleTop _ =>
      if d.stateSaved = true ∨ graph.className destId = "" then d
      else if singleTop = true ∧ d.stack.head? = some destId then d
      else { d with stack := destId :: d.stack }
  | .popBackStack => if d.stateSaved then d else { d with stack := d.stack.tail }
  | .executeNext => d
  | .setStateSaved stateSaved => { d with stateSaved }

def step (graph : Graph) (d : Destinations) : Host.Action → Option Destinations
  | .call action => some (d.call graph action)
  | .save => some { d with stateSaved := true, saved := some d.stack }
  | .recreate => d.saved.map fun stack ↦ { d with stack, stateSaved := false }

end Destinations

namespace Host

open HiFragmentNavigator

variable {graph : Graph} {s s' : Host} {action : Action} {n n' : HiFragmentNavigator}

def restoredStack (saved : SavedState) : List ℤ :=
  (onRestoreState saved.backStackIds {}).mBackStack

def destinations (s : Host) : Destinations where
  stack := s.navigator.mBackStack
  stateSaved := s.navigator.stateSaved
  saved := s.saved.map restoredStack

theorem onRestoreState_onSaveState (n m : HiFragmentNavigator) :
    onRestoreState n.onSaveState m = { m with mBackStack := n.mBackStack } := by
  rw [onSaveState, onRestoreState, List.foldl_reverse, List.foldr_cons_nil]

theorem onRestoreState_frame (savedState : Option (List ℤ)) (n : HiFragmentNavigator) :
    (onRestoreState savedState n).manager = n.manager ∧
      (onRestoreState savedState n).stateSaved = n.stateSaved ∧
      (n.mBackStack = [] →
        (onRestoreState savedState n).mBackStack = (onRestoreState savedState {}).mBackStack) := by
  cases savedState with
  | none => exact ⟨rfl, rfl, id⟩
  | some backStack => exact ⟨rfl, rfl, fun _ ↦ rfl⟩

/-- The manager's back stack, and the saved one, follow the destinations. -/
structure Inv (s : Host) : Prop where
  follows : Follows s.navigator.manager.settled s.navigator.mBackStack
  saved : ∀ saved, s.saved = some saved → Follows saved.fragments (restoredStack saved)

theorem inv_init : Inv {} where
  follows := ⟨rfl, by simp [Manager.settled], by simp [Manager.settled]⟩
  saved _ hsaved := by cases hsaved

theorem Inv.step (h : s.Inv) (hstep : s.step graph action = some s') : s'.Inv := by
  cases action with
  | call action =>
      obtain ⟨n, hn, rfl⟩ := Option.map_eq_some_iff.mp hstep
      exact ⟨follows_step h.follows hn, h.saved⟩
  | save =>
      obtain rfl := Option.some.inj hstep
      refine ⟨h.follows, fun saved hsaved ↦ ?_⟩
      obtain rfl := Option.some.inj hsaved
      rw [restoredStack, onRestoreState_onSaveState]
      exact h.follows
  | recreate =>
      obtain ⟨saved, hsaved, rfl⟩ := Option.map_eq_some_iff.mp hstep
      obtain ⟨hmanager, -, hstack⟩ := onRestoreState_frame saved.backStackIds
        { manager := { executed := saved.fragments }, instances := s.navigator.instances }
      refine ⟨?_, h.saved⟩
      rw [hmanager, hstack rfl]
      exact h.saved saved hsaved

/-- The page refines the stack of destinations. -/
theorem step_destinations (hstep : s.step graph action = some s') :
    s.destinations.step graph action = some s'.destinations := by
  cases action with
  | call action =>
      obtain ⟨n, hn, rfl⟩ := Option.map_eq_some_iff.mp hstep
      refine congrArg some ?_
      cases action with
      | navigate destId singleTop reuse =>
          obtain ⟨-, hnavigate⟩ := Option.ite_none_right_eq_some.mp hn
          obtain rfl := Option.some.inj hnavigate
          have hflag : s.destinations.stateSaved = s.navigator.stateSaved := rfl
          rw [Destinations.call, hflag]
          by_cases hignored : s.navigator.stateSaved = true ∨ graph.className destId = ""
          · rw [if_pos hignored, navigate, if_pos hignored]
          · rw [if_neg hignored, navigate, if_neg hignored]
            cases hstack : s.navigator.mBackStack with
            | nil => simp [destinations, hstack]
            | cons top rest =>
                by_cases hsingle : singleTop = true ∧ top = destId
                · cases hrest : rest with
                  | nil => simp [destinations, hstack, hsingle, hrest]
                  | cons below rest => simp [destinations, hstack, hsingle, hrest]
                · simp [destinations, hstack, hsingle]
      | popBackStack =>
          obtain rfl := Option.some.inj hn
          rw [Destinations.call, popBackStack]
          cases hstack : s.navigator.mBackStack with
          | nil => simp [destinations, hstack]
          | cons top rest =>
              cases hsaved : s.navigator.stateSaved with
              | true => simp [destinations, hstack, hsaved]
              | false => simp [destinations, hstack, hsaved]
      | executeNext =>
          obtain ⟨manager, -, rfl⟩ := Option.map_eq_some_iff.mp hn
          rfl
      | setStateSaved stateSaved =>
          obtain rfl := Option.some.inj hn
          rfl
  | save =>
      obtain rfl := Option.some.inj hstep
      refine congrArg some ?_
      simp [destinations, save, restoredStack, onRestoreState_onSaveState]
  | recreate =>
      obtain ⟨saved, hsaved, rfl⟩ := Option.map_eq_some_iff.mp hstep
      obtain ⟨-, hflag, hstack⟩ := onRestoreState_frame saved.backStackIds
        { manager := { executed := saved.fragments }, instances := s.navigator.instances }
      simp [Destinations.step, destinations, hsaved, hflag, hstack, restoredStack]

theorem run_destinations {actions : List Action} (hrun : run (step graph) s actions = some s') :
    run (Destinations.step graph) s.destinations actions = some s'.destinations := by
  induction actions generalizing s with
  | nil =>
      obtain rfl := Option.some.inj hrun
      rfl
  | cons action actions ih =>
      obtain ⟨u, hu, hrest⟩ := Option.bind_eq_some_iff.mp hrun
      rw [run, step_destinations hu, Option.bind_some]
      exact ih hrest

/-- In every run, across recreations, the navigator has the stack of the destinations that were
navigated to, the manager has an entry for each of them but the first, and a call that goes back
undoes the one entry of the top destination. -/
theorem backStack_follows {actions : List Action} (hrun : run (step graph) {} actions = some s) :
    run (Destinations.step graph) {} actions = some s.destinations ∧
      s.navigator.manager.settled.backStack.map Record.name = namesOf s.destinations.stack ∧
      ∀ top below rest, s.destinations.stack = top :: below :: rest →
        s.destinations.stateSaved = false →
        ∃ record records, s.navigator.manager.settled.backStack = record :: records ∧
          s.navigator.popBackStack.manager.settled =
            { container := s.navigator.manager.settled.container.undoAll record.ops
              backStack := records } := by
  have h : s.Inv := run_invariant' (fun _ _ _ hu hstep ↦ hu.step hstep) inv_init hrun
  refine ⟨run_destinations hrun, h.follows.names, fun top below rest hstack hsaved ↦ ?_⟩
  have hstack : s.navigator.mBackStack = top :: below :: rest := hstack
  have hfollows := h.follows
  rw [hstack] at hfollows
  obtain ⟨record, records, t, hcons, hops, -, hpop⟩ := hfollows.exists_top
  refine ⟨record, records, hcons, ?_⟩
  have hsaved : s.navigator.stateSaved = false := hsaved
  rw [hops, ← hpop]
  simp [popBackStack, hstack, hsaved, Executed.execute]

/-- Two pages further, saved, and back after the recreation. -/
def recreateRun : List Action :=
  [.call (.navigate 1 false none), .call .executeNext, .call (.navigate 2 true none),
    .call (.navigate 3 true none), .save, .call .popBackStack, .recreate, .call .popBackStack]

theorem backStack_follows_recreate :
    ∃ s, run (step pages) {} recreateRun = some s ∧
      run (Destinations.step pages) {} recreateRun = some s.destinations ∧
      s.destinations.stack = [2, 1] ∧
      s.navigator.manager.settled.backStack.map Record.name = [(2, 2)] := by
  have hruns : (run (step pages) {} recreateRun).any
      (fun s ↦ decide (s.destinations.stack = [2, 1])) = true := by
    decide
  obtain ⟨s, hrun, hstack⟩ := exists_run_of_any hruns
  obtain ⟨habstract, hnames, -⟩ := backStack_follows hrun
  exact ⟨s, hrun, habstract, hstack, by rw [hnames, hstack]; rfl⟩

end Host

end HiApp.Navigation
