import HiApp.Lib.Runs

/-!
# The menu of a slider

`onItemClick` of the menu is called from `onBindViewHolder`, so that the first item is
selected without a click.  It is called in every bind of the selected item.
-/

namespace HiApp.Slider

open Runs

/-- `holders` has the position that the listener of a holder was made for, `notified` the
positions that `notifyItemChanged` was called for, and `reported` those of the calls of
`onItemClick`.  `selections` are the initial selection and those that clicks have changed it to,
and `bound` says that the last of them has been bound. -/
structure MenuAdapter where
  count : ℕ
  currentSelectIndex : ℕ := 0
  lastSelectIndex : ℕ := 0
  holders : ℕ → Option ℕ := fun _ ↦ none
  notified : List ℕ := []
  reported : List ℕ := []
  selections : List ℕ := [0]
  bound : Bool := false

namespace MenuAdapter

/-- The listener that a bind has set. -/
def onClick (m : MenuAdapter) (position : ℕ) : MenuAdapter :=
  { m with
    currentSelectIndex := position
    notified := m.notified ++ [position, m.lastSelectIndex]
    selections := if position = m.currentSelectIndex then m.selections
      else m.selections ++ [position]
    bound := m.bound && position = m.currentSelectIndex }

def onBindViewHolder (m : MenuAdapter) (holder position : ℕ) : MenuAdapter :=
  let m := { m with holders := Function.update m.holders holder (some position) }
  if m.currentSelectIndex = position then
    { m with
      reported := m.reported ++ [position]
      lastSelectIndex := m.currentSelectIndex
      bound := true }
  else m

inductive Action where
  | bind (holder position : ℕ)
  | click (holder : ℕ)
  deriving DecidableEq

/-- Any item may be bound again at any time, and any holder that was bound may be clicked. -/
def step (m : MenuAdapter) : Action → Option MenuAdapter
  | .bind holder position =>
      if position < m.count then some (m.onBindViewHolder holder position) else none
  | .click holder => (m.holders holder).map m.onClick

/-- Every selection has been reported once, the last one if its item has been bound. -/
def ReportsOnce (m : MenuAdapter) : Prop :=
  m.reported = if m.bound then m.selections else m.selections.dropLast

instance : DecidablePred ReportsOnce := fun _ ↦ inferInstanceAs (Decidable (_ = _))

/-- The selected item is bound for the first time, or another is selected after that. -/
def Timely (m : MenuAdapter) : Action → Prop
  | .bind _ position => position = m.currentSelectIndex → m.bound = false
  | .click holder => ∀ position ∈ m.holders holder, position ≠ m.currentSelectIndex →
      m.bound = true

instance (m : MenuAdapter) : DecidablePred m.Timely
  | .bind _ position => inferInstanceAs (Decidable (position = m.currentSelectIndex →
      m.bound = false))
  | .click holder => inferInstanceAs (Decidable (∀ position ∈ m.holders holder,
      position ≠ m.currentSelectIndex → m.bound = true))

/-- The last selection is the current one. -/
def Inv (m : MenuAdapter) : Prop := ∃ before, m.selections = before ++ [m.currentSelectIndex]

variable {m m' : MenuAdapter} {action : Action} {position : ℕ}

theorem Inv.onClick (h : m.Inv) (position : ℕ) : (m.onClick position).Inv := by
  unfold MenuAdapter.onClick
  by_cases hsame : position = m.currentSelectIndex
  · obtain ⟨before, hbefore⟩ := h
    exact ⟨before, by rw [if_pos hsame, hbefore, hsame]⟩
  · exact ⟨m.selections, if_neg hsame⟩

theorem Inv.onBindViewHolder (h : m.Inv) (holder position : ℕ) :
    (m.onBindViewHolder holder position).Inv := by
  unfold MenuAdapter.onBindViewHolder
  dsimp only
  split
  · exact h
  · exact h

theorem Inv.step (h : m.Inv) (hstep : m.step action = some m') : m'.Inv := by
  cases action with
  | bind holder position =>
      obtain ⟨-, hm'⟩ := Option.ite_none_right_eq_some.mp hstep
      obtain rfl := Option.some.inj hm'
      exact h.onBindViewHolder holder position
  | click holder =>
      obtain ⟨position, -, rfl⟩ := Option.map_eq_some_iff.mp hstep
      exact h.onClick position

/-- The reports are up to date before a bind of the selected item, or lack its selection. -/
theorem reportsOnce_iff_of_inv (h : m.Inv) :
    m.ReportsOnce ↔ ∃ before, m.selections = before ++ [m.currentSelectIndex] ∧
      m.reported = if m.bound then before ++ [m.currentSelectIndex] else before := by
  obtain ⟨before, hbefore⟩ := h
  rw [ReportsOnce, hbefore, List.dropLast_concat]
  constructor
  · intro hreports
    exact ⟨before, rfl, hreports⟩
  · rintro ⟨before', hsplit, hreports⟩
    rw [hreports, List.append_cancel_right hsplit]

/-- A bind of the selected item reports it once more. -/
theorem reportsOnce_onBindViewHolder_iff (h : m.Inv) (hreports : m.ReportsOnce)
    (holder position : ℕ) :
    (m.onBindViewHolder holder position).ReportsOnce ↔
      (position = m.currentSelectIndex → m.bound = false) := by
  by_cases hsame : m.currentSelectIndex = position
  · subst hsame
    have hreported : (m.onBindViewHolder holder m.currentSelectIndex).ReportsOnce ↔
        m.reported ++ [m.currentSelectIndex] = m.selections := by
      simp [MenuAdapter.onBindViewHolder, ReportsOnce]
    obtain ⟨before, hbefore, hreported'⟩ := (reportsOnce_iff_of_inv h).mp hreports
    rw [hreported, hbefore, List.append_left_inj, hreported', imp_iff_right rfl]
    cases m.bound with
    | true => simp
    | false => simp
  · have hreported : m.onBindViewHolder holder position =
        { m with holders := Function.update m.holders holder (some position) } := if_neg hsame
    rw [hreported]
    exact iff_of_true hreports fun heq ↦ absurd heq.symm hsame

/-- A click that changes the selection leaves the one before it to be reported, if it is not. -/
theorem reportsOnce_onClick_iff (h : m.Inv) (hreports : m.ReportsOnce) (position : ℕ) :
    (m.onClick position).ReportsOnce ↔ (position ≠ m.currentSelectIndex → m.bound = true) := by
  by_cases hsame : position = m.currentSelectIndex
  · have hkept : (m.onClick position).ReportsOnce ↔ m.ReportsOnce := by
      simp [MenuAdapter.onClick, ReportsOnce, hsame]
    rw [hkept]
    exact iff_of_true hreports fun hne ↦ absurd hsame hne
  · have hchanged : (m.onClick position).ReportsOnce ↔ m.reported = m.selections := by
      simp [MenuAdapter.onClick, ReportsOnce, hsame]
    obtain ⟨before, hbefore, hreported⟩ := (reportsOnce_iff_of_inv h).mp hreports
    rw [hchanged, hbefore, hreported, imp_iff_right hsame]
    cases m.bound with
    | true => simp
    | false => simp

theorem reportsOnce_step_iff (h : m.Inv) (hreports : m.ReportsOnce)
    (hstep : m.step action = some m') : m'.ReportsOnce ↔ m.Timely action := by
  cases action with
  | bind holder position =>
      obtain ⟨-, hm'⟩ := Option.ite_none_right_eq_some.mp hstep
      obtain rfl := Option.some.inj hm'
      exact reportsOnce_onBindViewHolder_iff h hreports holder position
  | click holder =>
      obtain ⟨position, hholder, rfl⟩ := Option.map_eq_some_iff.mp hstep
      rw [reportsOnce_onClick_iff h hreports, Timely, hholder]
      simp only [Option.mem_some, forall_eq']

/-- In a run of clicks and binds every selection is reported once if and only if the selected
item is bound once before another is selected, and not again. -/
theorem reportsOnce_iff_timely {count : ℕ} {actions : List Action}
    (hrun : run step { count := count } actions = some m) :
    StatesMeet step ReportsOnce { count := count } actions ↔
      StepsMeet step Timely { count := count } actions := by
  have hinit : Inv { count := count } := ⟨[], rfl⟩
  have hreports : ReportsOnce { count := count } := rfl
  refine statesMeet_iff_stepsMeet (I := Inv) (P := ReportsOnce) (D := fun _ _ ↦ True) ?_ ?_ hinit
    hreports stepsMeet_true hrun
  · intro u action v hu _ _ _ hstep
    exact hu.step hstep
  · intro u action v hu hu' _ hstep
    exact reportsOnce_step_iff hu hu' hstep

/-- The first item, then the second, which is bound when it is selected. -/
theorem reportsOnce_iff_timely_second :
    StatesMeet step ReportsOnce { count := 2 }
      [.bind 0 0, .bind 1 1, .click 1, .bind 1 1, .bind 0 0] := by
  obtain ⟨m, hrun, -⟩ : ∃ m, run step { count := 2 }
      [.bind 0 0, .bind 1 1, .click 1, .bind 1 1, .bind 0 0] = some m ∧ m.reported = [0, 1] :=
    exists_run_of_any (by decide +kernel)
  exact (reportsOnce_iff_timely hrun).mpr (by decide +kernel)

/-- The first item is scrolled away and back; and two clicks come before a bind. -/
theorem not_reportsOnce_scrolled :
    (∃ m, run step { count := 2 } [.bind 0 0, .bind 0 0] = some m ∧ ¬ m.ReportsOnce) ∧
      ∃ m, run step { count := 3 } [.bind 0 0, .bind 1 1, .bind 2 2, .click 1, .click 2] =
        some m ∧ ¬ m.ReportsOnce :=
  ⟨exists_run_of_any (by decide +kernel), exists_run_of_any (by decide +kernel)⟩

end MenuAdapter

end HiApp.Slider
