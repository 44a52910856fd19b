import HiApp.Lib.Runs
import Mathlib.Data.List.Perm.Basic

/-!
# Requests for permissions

`PermissionUtil` sorts its permissions into granted and missing ones, asks for the
missing ones through an activity, and calls back with what became of them.  Its lists
are added to in several phases and never emptied for a new request; whether everything
is granted is told from their lengths.
-/

namespace HiApp.Util

open Runs

variable {π : Type*}

/-- `LinkedHashSet<String>`. -/
structure PermissionSet (π : Type*) where
  toList : List π
  nodup : toList.Nodup

/-- What the system says; below version M every permission is granted. -/
structure System (π : Type*) where
  belowM : Bool
  granted : π → Bool
  shouldShowRequestPermissionRationale : π → Bool

namespace System

def isGranted (y : System π) (permission : π) : Bool := y.belowM || y.granted permission

end System

/-- A call of a callback: whether it is `onGranted`, the lists that the full callback
is given, and whether all permissions are granted at that moment. -/
structure Fired (π : Type*) where
  onGranted : Bool
  lists : List (List π)
  allGranted : Bool
  deriving DecidableEq

def Fired.Right (e : Fired π) : Prop :=
  e.onGranted = e.allGranted ∧ ∀ l ∈ e.lists, l.Nodup

instance [DecidableEq π] (e : Fired π) : Decidable e.Right :=
  inferInstanceAs (Decidable (e.onGranted = e.allGranted ∧ ∀ l ∈ e.lists, l.Nodup))

/-- The object, with the system and the activities that were started for it: those not
created yet, those whose request has no result yet, and whether a rationale was shown
that may be answered. -/
structure PermissionUtil (π : Type*) where
  mPermissions : PermissionSet π
  system : System π
  mOnRationaleListener : Bool := false
  mSimpleCallback : Bool := false
  mFullCallback : Bool := false
  mPermissionsRequest : List π := []
  mPermissionsGranted : List π := []
  mPermissionsDenied : List π := []
  mPermissionsDeniedForever : List π := []
  started : ℕ := 0
  asked : ℕ := 0
  shown : Bool := false
  fired : List (Fired π) := []

namespace PermissionUtil

def allGranted (s : PermissionUtil π) : Bool := s.mPermissions.toList.all s.system.isGranted

/-- The call that `requestCallback` makes of a callback, with the lists for it. -/
def outcome (s : PermissionUtil π) (granted denied : List (List π)) : List (Fired π) :=
  if s.mPermissionsRequest.length = 0 ∨
      s.mPermissions.toList.length = s.mPermissionsGranted.length then
    [⟨true, granted, s.allGranted⟩]
  else if s.mPermissionsDenied ≠ [] then [⟨false, denied, s.allGranted⟩]
  else []

def requestCallback (s : PermissionUtil π) : PermissionUtil π :=
  { s with
    mSimpleCallback := false
    mFullCallback := false
    mOnRationaleListener := false
    fired := s.fired ++ (if s.mSimpleCallback then s.outcome [] [] else []) ++
      if s.mFullCallback then
        s.outcome [s.mPermissionsGranted] [s.mPermissionsDeniedForever, s.mPermissionsDenied]
      else [] }

def startPermissionActivity (s : PermissionUtil π) : PermissionUtil π :=
  { s with
    mPermissionsDenied := []
    mPermissionsDeniedForever := []
    started := s.started + 1 }

def request (s : PermissionUtil π) : PermissionUtil π :=
  if s.system.belowM then
    requestCallback
      { s with mPermissionsGranted := s.mPermissionsGranted ++ s.mPermissions.toList }
  else
    let s := { s with
      mPermissionsGranted :=
        s.mPermissionsGranted ++ s.mPermissions.toList.filter s.system.isGranted
      mPermissionsRequest :=
        s.mPermissionsRequest ++ s.mPermissions.toList.filter (!s.system.isGranted ·) }
    if s.mPermissionsRequest = [] then s.requestCallback else s.startPermissionActivity

def getPermissionsStatus (s : PermissionUtil π) : PermissionUtil π :=
  let denied := s.mPermissionsRequest.filter (!s.system.isGranted ·)
  { s with
    mPermissionsGranted :=
      s.mPermissionsGranted ++ s.mPermissionsRequest.filter s.system.isGranted
    mPermissionsDenied := s.mPermissionsDenied ++ denied
    mPermissionsDeniedForever := s.mPermissionsDeniedForever ++
      denied.filter (!s.system.shouldShowRequestPermissionRationale ·) }

/-- `PermissionActivity.onCreate`: a rationale is shown once, if one is wanted, and
otherwise the system is asked. -/
def onCreate (s : PermissionUtil π) : PermissionUtil π :=
  let s := { s with started := s.started - 1 }
  if s.mOnRationaleListener &&
      s.mPermissionsRequest.any s.system.shouldShowRequestPermissionRationale then
    { s.getPermissionsStatus with shown := true, mOnRationaleListener := false }
  else
    let s := { s with mOnRationaleListener := false }
    if s.mPermissionsRequest = [] then s else { s with asked := s.asked + 1 }

/-- `ShouldRequest.again`. -/
def again (s : PermissionUtil π) (again : Bool) : PermissionUtil π :=
  if again then s.startPermissionActivity else s.requestCallback

def onRequestPermissionsResult (s : PermissionUtil π) : PermissionUtil π :=
  { s with asked := s.asked - 1 }.getPermissionsStatus.requestCallback

inductive Event (π : Type*) where
  | callback (set : Bool)
  | fullCallback (set : Bool)
  | rationale (set : Bool)
  | request
  | change (granted shouldShow : π → Bool)
  | onCreate
  | again (again : Bool)
  | onRequestPermissionsResult

def step (s : PermissionUtil π) : Event π → Option (PermissionUtil π)
  | .callback set => some { s with mSimpleCallback := set }
  | .fullCallback set => some { s with mFullCallback := set }
  | .rationale set => some { s with mOnRationaleListener := set }
  | .request => some s.request
  | .change granted shouldShow =>
      some { s with system := ⟨s.system.belowM, granted, shouldShow⟩ }
  | .onCreate => if 0 < s.started then some s.onCreate else none
  | .again again => if s.shown then some (s.again again) else none
  | .onRequestPermissionsResult =>
      if 0 < s.asked then some s.onRequestPermissionsResult else none

/-- Every callback was called as it should have been. -/
def Right (s : PermissionUtil π) : Prop := ∀ e ∈ s.fired, e.Right

instance [DecidableEq π] (s : PermissionUtil π) : Decidable s.Right :=
  inferInstanceAs (Decidable (∀ e ∈ s.fired, e.Right))

/-- The lists have every permission once, with its present status. -/
def Recorded (s : PermissionUtil π) : Prop :=
  (s.mPermissionsGranted ++ s.mPermissionsDenied).Perm s.mPermissions.toList ∧
    (∀ permission ∈ s.mPermissionsGranted, s.system.isGranted permission = true) ∧
    ∀ permission ∈ s.mPermissionsDenied, s.system.isGranted permission = false

/-- Nothing is denied yet, and every permission is once among those that are granted,
and still are, and those that are asked for. -/
def Open (s : PermissionUtil π) : Prop :=
  s.mPermissionsDenied = [] ∧
    (s.mPermissionsGranted ++ s.mPermissionsRequest).Perm s.mPermissions.toList ∧
    ∀ permission ∈ s.mPermissionsGranted, s.system.isGranted permission = true

/-- No step finds lists of an earlier round, or a status that has changed since it was
recorded. -/
def UpToDate (s : PermissionUtil π) : Event π → Prop
  | .request => s.mPermissionsGranted = [] ∧ s.mPermissionsRequest = []
  | .onRequestPermissionsResult => s.Open
  | .again again => again = false → s.Recorded
  | .callback _ | .fullCallback _ | .rationale _ | .change _ _ | .onCreate => True

section

variable [DecidableEq π]

instance (s : PermissionUtil π) : Decidable s.Recorded :=
  inferInstanceAs (Decidable (_ ∧ _ ∧ _))

instance (s : PermissionUtil π) : Decidable s.Open :=
  inferInstanceAs (Decidable (_ ∧ _ ∧ _))

instance (s : PermissionUtil π) : ∀ event, Decidable (s.UpToDate event)
  | .request =>
      inferInstanceAs (Decidable (s.mPermissionsGranted = [] ∧ s.mPermissionsRequest = []))
  | .onRequestPermissionsResult => inferInstanceAs (Decidable s.Open)
  | .again again => inferInstanceAs (Decidable (again = false → s.Recorded))
  | .callback _ | .fullCallback _ | .rationale _ | .change _ _ | .onCreate =>
      inferInstanceAs (Decidable True)

end

/-! ## One event -/

variable {s t : PermissionUtil π}

/-- What holds of every run whose steps are up to date. -/
structure Inv (s : PermissionUtil π) : Prop where
  right : s.Right
  forever : s.mPermissionsDeniedForever.Sublist s.mPermissionsDenied
  denied : ∀ permission ∈ s.mPermissionsDenied, permission ∈ s.mPermissionsRequest

theorem Recorded.allGranted_iff (h : s.Recorded) :
    s.allGranted = true ↔ s.mPermissionsDenied = [] := by
  obtain ⟨hperm, hgranted, hdenied⟩ := h
  have hall : s.allGranted = true ↔ ∀ permission ∈ s.mPermissionsGranted ++
      s.mPermissionsDenied, s.system.isGranted permission = true := by
    simp only [allGranted, List.all_eq_true, hperm.mem_iff]
  rw [hall]
  constructor
  · intro hall
    refine List.eq_nil_iff_forall_not_mem.mpr fun permission hmem ↦ ?_
    have htrue := hall permission (List.mem_append_right _ hmem)
    simp [hdenied permission hmem] at htrue
  · intro hnil permission hmem
    rw [hnil, List.append_nil] at hmem
    exact hgranted permission hmem

/-- With everything recorded the lengths tell the truth. -/
theorem Recorded.outcome_right (h : s.Recorded) (hs : Inv s) {granted denied : List (List π)}
    (hgranted : ∀ l ∈ granted, l.Nodup) (hdenied : ∀ l ∈ denied, l.Nodup) :
    ∀ e ∈ s.outcome granted denied, e.Right := by
  have hlength := h.1.length_eq
  rw [List.length_append] at hlength
  unfold outcome
  split
  · rename_i hfull
    have hnil : s.mPermissionsDenied = [] := by
      rcases hfull with hrequest | hfull
      · refine List.eq_nil_iff_forall_not_mem.mpr fun permission hmem ↦ ?_
        have hmem' := hs.denied permission hmem
        simp [List.length_eq_zero_iff.mp hrequest] at hmem'
      · exact List.eq_nil_of_length_eq_zero (by omega)
    intro e he
    rw [List.mem_singleton.mp he]
    exact ⟨(h.allGranted_iff.mpr hnil).symm, hgranted⟩
  · split
    · rename_i hne
      intro e he
      rw [List.mem_singleton.mp he]
      refine ⟨?_, hdenied⟩
      have hnot : s.allGranted ≠ true := fun htrue ↦ hne (h.allGranted_iff.mp htrue)
      simpa using hnot
    · simp

theorem Recorded.requestCallback (h : s.Recorded) (hs : Inv s) : Inv s.requestCallback := by
  have hnodup : (s.mPermissionsGranted ++ s.mPermissionsDenied).Nodup :=
    h.1.nodup_iff.mpr s.mPermissions.nodup
  obtain ⟨hgranted, hdenied, -⟩ := List.nodup_append.mp hnodup
  refine ⟨?_, hs.forever, hs.denied⟩
  intro e he
  rcases List.mem_append.mp he with he | he
  · rcases List.mem_append.mp he with he | he
    · exact hs.right e he
    · split at he
      · exact h.outcome_right hs (by simp) (by simp) e he
      · simp at he
  · split at he
    · refine h.outcome_right hs ?_ ?_ e he
      · simpa using hgranted
      · simpa using ⟨hs.forever.nodup hdenied, hdenied⟩
    · simp at he

theorem Inv.startPermissionActivity (hs : Inv s) : Inv s.startPermissionActivity :=
  ⟨hs.right, List.Sublist.refl _, by simp [PermissionUtil.startPermissionActivity]⟩

theorem Inv.getPermissionsStatus (hs : Inv s) : Inv s.getPermissionsStatus := by
  refine ⟨hs.right, hs.forever.append List.filter_sublist, ?_⟩
  intro permission hmem
  rcases List.mem_append.mp hmem with hmem | hmem
  · exact hs.denied permission hmem
  · exact List.mem_of_mem_filter hmem

/-- The statuses of the permissions that were asked for complete the lists. -/
theorem Open.getPermissionsStatus (h : s.Open) : s.getPermissionsStatus.Recorded := by
  obtain ⟨hnil, hperm, hgranted⟩ := h
  refine ⟨?_, ?_, ?_⟩
  · have hsplit := List.filter_append_perm s.system.isGranted s.mPermissionsRequest
    simp only [PermissionUtil.getPermissionsStatus, hnil, List.nil_append, List.append_assoc]
    exact (hsplit.append_left _).trans hperm
  · intro permission hmem
    rcases List.mem_append.mp hmem with hmem | hmem
    · exact hgranted permission hmem
    · exact List.of_mem_filter hmem
  · intro permission hmem
    simp only [PermissionUtil.getPermissionsStatus, hnil, List.nil_append] at hmem
    have hfalse : s.system.isGranted permission = false := by
      simpa using List.of_mem_filter hmem
    exact hfalse

/-- A request that finds its lists empty sorts every permission into one of them. -/
theorem Inv.request (hs : Inv s) (hgranted : s.mPermissionsGranted = [])
    (hrequest : s.mPermissionsRequest = []) : Inv s.request := by
  have hdenied : s.mPermissionsDenied = [] := by
    refine List.eq_nil_iff_forall_not_mem.mpr fun permission hmem ↦ ?_
    simpa [hrequest] using hs.denied permission hmem
  unfold PermissionUtil.request
  split
  · rename_i hbelow
    refine Recorded.requestCallback ⟨?_, ?_, ?_⟩ ⟨hs.right, hs.forever, hs.denied⟩
    · simp [hgranted, hdenied]
    · simp [System.isGranted, hbelow]
    · simp [hdenied]
  · simp only [hgranted, hrequest, List.nil_append]
    split
    · rename_i hnone
      have hall : s.mPermissions.toList.filter s.system.isGranted = s.mPermissions.toList := by
        rw [List.filter_eq_self]
        simpa [List.filter_eq_nil_iff] using hnone
      refine Recorded.requestCallback ⟨?_, ?_, ?_⟩ ⟨hs.right, hs.forever, ?_⟩
      · simp [hall, hdenied]
      · simp
      · simp [hdenied]
      · simp [hdenied]
    · exact Inv.startPermissionActivity ⟨hs.right, hs.forever, by simp [hdenied]⟩

theorem Inv.step (hs : Inv s) {event : Event π} (hcurrent : s.UpToDate event)
    (hstep : s.step event = some t) : Inv t := by
  cases event with
  | callback set | fullCallback set | rationale set | change granted shouldShow =>
      rw [← Option.some.inj hstep]
      exact ⟨hs.right, hs.forever, hs.denied⟩
  | request =>
      rw [← Option.some.inj hstep]
      exact hs.request hcurrent.1 hcurrent.2
  | onCreate =>
      simp only [PermissionUtil.step] at hstep
      split at hstep
      · rw [← Option.some.inj hstep]
        simp only [PermissionUtil.onCreate]
        split
        · have hstatus := hs.getPermissionsStatus
          exact ⟨hstatus.right, hstatus.forever, hstatus.denied⟩
        · split <;> exact ⟨hs.right, hs.forever, hs.denied⟩
      · simp at hstep
  | again again =>
      simp only [PermissionUtil.step] at hstep
      split at hstep
      · rw [← Option.some.inj hstep]
        unfold PermissionUtil.again
        split
        · exact hs.startPermissionActivity
        · rename_i hno
          exact (hcurrent (by simpa using hno)).requestCallback hs
      · simp at hstep
  | onRequestPermissionsResult =>
      simp only [PermissionUtil.step] at hstep
      split at hstep
      · rw [← Option.some.inj hstep]
        have hopen : Open { s with asked := s.asked - 1 } := hcurrent
        have hasked : Inv { s with asked := s.asked - 1 } := ⟨hs.right, hs.forever, hs.denied⟩
        exact hopen.getPermissionsStatus.requestCallback hasked.getPermissionsStatus
      · simp at hstep

/-! ## Runs -/

/-- In a run whose steps all find their lists up to date, every callback is called as
it should be. -/
theorem right_of_upToDate {permissions : PermissionSet π} {system : System π}
    {events : List (Event π)}
    (hcurrent : StepsMeet step UpToDate { mPermissions := permissions, system := system }
      events) :
    StatesMeet step Right { mPermissions := permissions, system := system } events := by
  have hinit : Inv ({ mPermissions := permissions, system := system } : PermissionUtil π) :=
    ⟨by simp [Right], List.Sublist.refl _, by simp⟩
  exact statesMeet_of_stepsMeet (fun _ _ _ hu hevent hstep ↦ hu.step hevent hstep)
    (fun _ hu ↦ hu.right) hinit hcurrent

theorem nodup_two : [(0 : Fin 2), 1].Nodup := by decide

/-- Two permissions, of which the first is granted. -/
def halfGranted : PermissionUtil (Fin 2) where
  mPermissions := ⟨[0, 1], nodup_two⟩
  system := ⟨false, fun permission ↦ permission = 0, fun _ ↦ false⟩

/-- A request that the user answers with no. -/
def refused : List (Event (Fin 2)) :=
  [.callback true, .fullCallback true, .request, .onCreate, .onRequestPermissionsResult]

theorem right_of_upToDate_refused :
    StatesMeet step Right halfGranted refused ∧
      ∃ t, run step halfGranted refused = some t ∧
        t.fired = [⟨false, [], false⟩, ⟨false, [[1], [1]], false⟩] := by
  have hround : StepsMeet step UpToDate halfGranted refused := by decide
  exact ⟨right_of_upToDate hround, exists_run_of_any (by decide)⟩

/-- Asked and refused again, the granted permission is counted twice. -/
theorem second_refusal_is_granted :
    ∃ t, run step halfGranted (refused ++ refused) = some t ∧
      t.fired.map (fun e ↦ (e.onGranted, e.allGranted)) =
        [(false, false), (false, false), (true, false), (true, false)] ∧ ¬ t.Right :=
  exists_run_of_any (by decide)

end PermissionUtil

end HiApp.Util
