import HiApp.Lib.Runs

/-!
# Debouncing

A value changes now and then, and somebody is told of it once it has stayed the same for some
time.  Every change that is watched takes the call that is due back and makes another one due.
-/

namespace HiApp

open Runs

/-- A call made at `firedAt` of a value that was last changed at `changedAt`. -/
structure DebouncedCall (α : Type*) where
  changedAt : ℕ
  firedAt : ℕ
  value : α
  deriving DecidableEq

structure Debounce (α : Type*) where
  now : ℕ
  value : α
  changedAt : ℕ
  deadline : Option ℕ := none
  heard : List (DebouncedCall α) := []

namespace Debounce

variable {α : Type*}

/-- A change that is not watched is one while no call is due. -/
inductive Action (α : Type*) where
  | change (watched : Bool) (value : α)
  | elapse (duration : ℕ)
  | fire
  | cancel

def step (delay : ℕ) (s : Debounce α) : Action α → Option (Debounce α)
  | .change watched value =>
      if watched then
        some { s with value, changedAt := s.now, deadline := some (s.now + delay) }
      else if s.deadline = none then some { s with value, changedAt := s.now }
      else none
  | .elapse duration => some { s with now := s.now + duration }
  | .fire =>
      s.deadline.bind fun deadline ↦
        if deadline ≤ s.now then
          some { s with
            deadline := none
            heard := s.heard ++ [⟨s.changedAt, s.now, s.value⟩] }
        else none
  | .cancel => some { s with deadline := none }

/-- Nobody is told of a value that has changed within `delay`, and of none twice: it has changed
between any two calls. -/
structure Orderly (delay : ℕ) (heard : List (DebouncedCall α)) : Prop where
  quiet : ∀ call ∈ heard, call.changedAt + delay ≤ call.firedAt
  once : heard.Pairwise fun call other ↦ call.firedAt ≤ other.changedAt

/-- While a call is due, all others were made before the last change. -/
structure Inv (delay : ℕ) (s : Debounce α) : Prop where
  orderly : Orderly delay s.heard
  past : ∀ call ∈ s.heard, call.firedAt ≤ s.now
  due : ∀ deadline, s.deadline = some deadline →
    deadline = s.changedAt + delay ∧ ∀ call ∈ s.heard, call.firedAt ≤ s.changedAt

variable {delay : ℕ} {s s' : Debounce α} {action : Action α}

theorem Inv.step (h : s.Inv delay) (hstep : s.step delay action = some s') : s'.Inv delay := by
  obtain ⟨horderly, hpast, hdue⟩ := h
  cases action with
  | change watched value =>
      cases watched with
      | true =>
          obtain rfl := Option.some.inj hstep
          refine ⟨horderly, hpast, fun deadline hdeadline ↦ ?_⟩
          obtain rfl := Option.some.inj hdeadline
          exact ⟨rfl, hpast⟩
      | false =>
          obtain ⟨hnone, heq⟩ := Option.ite_none_right_eq_some.mp hstep
          obtain rfl := Option.some.inj heq
          refine ⟨horderly, hpast, fun deadline hdeadline ↦ ?_⟩
          cases hnone.symm.trans hdeadline
  | elapse duration =>
      obtain rfl := Option.some.inj hstep
      exact ⟨horderly, fun call hcall ↦ Nat.le_add_right_of_le (hpast call hcall), hdue⟩
  | fire =>
      obtain ⟨deadline, hdeadline, hfire⟩ := Option.bind_eq_some_iff.mp hstep
      obtain ⟨hle, heq⟩ := Option.ite_none_right_eq_some.mp hfire
      obtain rfl := Option.some.inj heq
      obtain ⟨rfl, hbefore⟩ := hdue deadline hdeadline
      refine ⟨⟨fun call hcall ↦ ?_, ?_⟩, fun call hcall ↦ ?_, fun deadline hdeadline ↦ ?_⟩
      · rcases List.mem_append.mp hcall with hcall | hcall
        · exact horderly.quiet call hcall
        · rw [List.mem_singleton.mp hcall]
          exact hle
      · rw [List.pairwise_append]
        refine ⟨horderly.once, List.pairwise_singleton _ _, fun call hcall other hother ↦ ?_⟩
        rw [List.mem_singleton.mp hother]
        exact hbefore call hcall
      · rcases List.mem_append.mp hcall with hcall | hcall
        · exact hpast call hcall
        · obtain rfl := List.mem_singleton.mp hcall
          exact Nat.le_refl _
      · cases hdeadline
  | cancel =>
      obtain rfl := Option.some.inj hstep
      exact ⟨horderly, hpast, fun deadline hdeadline ↦ by cases hdeadline⟩

theorem inv_of_run {actions : List (Action α)} (hs : s.Inv delay)
    (hrun : run (step delay) s actions = some s') : s'.Inv delay :=
  run_invariant' (fun _ _ _ hu hstep ↦ hu.step hstep) hs hrun

theorem inv_init (now : ℕ) (value : α) (changedAt : ℕ) :
    Inv delay { now, value, changedAt } where
  orderly := ⟨by simp, List.Pairwise.nil⟩
  past := by simp
  due _ hdeadline := by cases hdeadline

/-! ### Nothing is lost -/

/-- The value somebody was told of last; nobody need be told of the first. -/
def told (first : α) (s : Debounce α) : α := (s.heard.getLast?.map DebouncedCall.value).getD first

/-- A change is watched, and no call is taken back but by the next change. -/
def Action.Lasting : Action α → Prop
  | .change watched _ => watched = true
  | .elapse _ | .fire => True
  | .cancel => False

theorem told_step {first : α} (hlasting : action.Lasting) (hstep : s.step delay action = some s')
    (h : s.deadline = none → s.told first = s.value) :
    s'.deadline = none → s'.told first = s'.value := by
  cases action with
  | change watched value =>
      obtain rfl : watched = true := hlasting
      obtain rfl := Option.some.inj hstep
      intro hnone
      cases hnone
  | elapse duration =>
      obtain rfl := Option.some.inj hstep
      exact h
  | fire =>
      obtain ⟨deadline, -, hfire⟩ := Option.bind_eq_some_iff.mp hstep
      obtain ⟨-, heq⟩ := Option.ite_none_right_eq_some.mp hfire
      obtain rfl := Option.some.inj heq
      intro _
      simp [told]
  | cancel => exact hlasting.elim

/-- While no call is due, somebody has been told of the value as it is. -/
theorem told_of_run {first : α} {actions : List (Action α)}
    (hlasting : ∀ action ∈ actions, action.Lasting) (hs : s.told first = s.value)
    (hrun : run (step delay) s actions = some s') (hnone : s'.deadline = none) :
    s'.told first = s'.value :=
  run_invariant (I := fun u ↦ u.deadline = none → u.told first = u.value)
    (fun _ _ _ hu hC hstep ↦ told_step hC hstep hu) (fun _ ↦ hs)
    (stepsMeet_of_forall_mem hlasting) hrun hnone

end Debounce

end HiApp
