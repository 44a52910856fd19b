import HiApp.Lib.Runs
import HiApp.Restful.Request
import HiApp.Storage.HiStorage

/-!
# Fetching the profile

`AccountManager.getUserProfile` makes at most one request at a time: `isFetching`
is set before it and reset by the outcomes, after a success by the background job
that saves the profile.
-/

namespace HiApp.Account

open Runs Restful Storage

variable {U O : Type*}

def keyUserProfile : String := "user_profile"

/-- The fields of `AccountManager`, with the requests in flight, the saves handed
to the executor and the job of the initialiser; `observers` are those of
`profileLiveData`, and `values` what it was given. -/
structure State (U O : Type*) where
  userProfile : Option U := none
  isFetching : Bool := false
  inFlight : ℕ := 0
  saves : ℕ := 0
  loading : Bool := true
  observers : List O := []
  profileForeverObservers : List O := []
  values : List (Option U) := []
  table : Table := fun _ ↦ none

inductive Action (U O : Type*) where
  | getUserProfile (lifecycleOwner : Bool) (observer : O) (onlyCache : Bool)
  | onSuccess (response : HiResponse U)
  | onFailed
  | saveCache
  | loadLocal

variable (S : Serialization U)

/-- The first lines of `getUserProfile`; without an owner the observer is kept to
be removed later. -/
def observe (s : State U O) (lifecycleOwner : Bool) (observer : O) : State U O :=
  if lifecycleOwner then { s with observers := s.observers ++ [observer] }
  else
    { s with
      observers := s.observers ++ [observer]
      profileForeverObservers := s.profileForeverObservers ++ [observer] }

def getUserProfile (s : State U O) (lifecycleOwner : Bool) (observer : O)
    (onlyCache : Bool) : State U O :=
  let s := observe s lifecycleOwner observer
  if s.userProfile.isSome ∧ onlyCache then { s with values := s.values ++ [s.userProfile] }
  else if s.isFetching then s
  else { s with isFetching := true, inFlight := s.inFlight + 1 }

def clearProfileForeverObservers [DecidableEq O] (s : State U O) : State U O :=
  { s with
    observers := s.observers.filter (· ∉ s.profileForeverObservers)
    profileForeverObservers := [] }

/-- The callback for a response.  In the second branch `isFetching` stays. -/
def onSuccess [DecidableEq O] (s : State U O) (response : HiResponse U) : State U O :=
  let s := { s with userProfile := response.data, inFlight := s.inFlight - 1 }
  if response.code = HiResponse.success ∧ s.userProfile.isSome then
    clearProfileForeverObservers
      { s with saves := s.saves + 1, values := s.values ++ [s.userProfile] }
  else clearProfileForeverObservers { s with values := s.values ++ [none] }

def onFailed [DecidableEq O] (s : State U O) : State U O :=
  clearProfileForeverObservers
    { s with isFetching := false, inFlight := s.inFlight - 1, values := s.values ++ [none] }

/-- The background job of a success. -/
def saveCache (s : State U O) : State U O :=
  { s with
    table := HiStorage.saveCache S s.table keyUserProfile s.userProfile
    isFetching := false
    saves := s.saves - 1 }

/-- The background job of the initialiser. -/
def loadLocal (s : State U O) : State U O :=
  let saved := HiStorage.getCache S s.table keyUserProfile
  if s.userProfile = none ∧ saved = none then
    { s with userProfile := saved, loading := false }
  else { s with loading := false }

def step [DecidableEq O] (s : State U O) : Action U O → Option (State U O)
  | .getUserProfile lifecycleOwner observer onlyCache =>
      some (getUserProfile s lifecycleOwner observer onlyCache)
  | .onSuccess response => if 0 < s.inFlight then some (onSuccess s response) else none
  | .onFailed => if 0 < s.inFlight then some (onFailed s) else none
  | .saveCache => if 0 < s.saves then some (saveCache S s) else none
  | .loadLocal => if s.loading then some (loadLocal S s) else none

/-- `isFetching` is set only while a request is in flight or its save is pending;
so when these are over, a call that misses the cache makes a new request. -/
structure NotWedged (s : State U O) : Prop where
  pending : s.isFetching = true → 0 < s.inFlight ∨ 0 < s.saves
  again : s.inFlight = 0 → s.saves = 0 → ∀ lifecycleOwner observer onlyCache,
    ¬ (s.userProfile.isSome ∧ onlyCache = true) →
      (getUserProfile s lifecycleOwner observer onlyCache).inFlight = 1

/-- Every response is a success and has a profile. -/
def Complete (_ : State U O) : Action U O → Prop
  | .onSuccess response => response.code = HiResponse.success ∧ response.data.isSome
  | .getUserProfile _ _ _ | .onFailed | .saveCache | .loadLocal => True

/-- One request at a time, with its save, and `isFetching` is set meanwhile. -/
def Single (s : State U O) : Prop :=
  s.inFlight + s.saves ≤ s.isFetching.toNat

variable {S} {s s' : State U O} {a : Action U O}

/-- A call that misses the cache makes a request unless it finds `isFetching`. -/
theorem getUserProfile_cases (s : State U O) (lifecycleOwner : Bool) (observer : O)
    (onlyCache : Bool) :
    (getUserProfile s lifecycleOwner observer onlyCache).saves = s.saves ∧
    ((s.userProfile.isSome ∧ onlyCache = true ∨ s.isFetching = true) ∧
        (getUserProfile s lifecycleOwner observer onlyCache).isFetching = s.isFetching ∧
        (getUserProfile s lifecycleOwner observer onlyCache).inFlight = s.inFlight ∨
      ¬ (s.userProfile.isSome ∧ onlyCache = true) ∧ s.isFetching = false ∧
        (getUserProfile s lifecycleOwner observer onlyCache).isFetching = true ∧
        (getUserProfile s lifecycleOwner observer onlyCache).inFlight = s.inFlight + 1) := by
  have hobserve : (observe s lifecycleOwner observer).userProfile = s.userProfile ∧
      (observe s lifecycleOwner observer).isFetching = s.isFetching ∧
      (observe s lifecycleOwner observer).inFlight = s.inFlight ∧
      (observe s lifecycleOwner observer).saves = s.saves := by
    cases lifecycleOwner <;> exact ⟨rfl, rfl, rfl, rfl⟩
  obtain ⟨hprofile, hfetching, hflight, hsaves⟩ := hobserve
  unfold getUserProfile
  simp only [hprofile, hfetching]
  split
  · exact ⟨hsaves, .inl ⟨.inl ‹_›, rfl, hflight⟩⟩
  · split
    · exact ⟨hsaves, .inl ⟨.inr ‹_›, hfetching, hflight⟩⟩
    · exact ⟨hsaves, .inr ⟨‹_›, by simpa using ‹¬ s.isFetching = true›, rfl, by simp [hflight]⟩⟩

theorem Single.of_inFlight (h : Single s) (hpos : 0 < s.inFlight) :
    s.isFetching = true ∧ s.inFlight = 1 ∧ s.saves = 0 := by
  unfold Single at h
  cases hfetching : s.isFetching with
  | false =>
      rw [hfetching, Bool.toNat_false] at h
      omega
  | true =>
      rw [hfetching, Bool.toNat_true] at h
      exact ⟨rfl, by omega, by omega⟩

theorem notWedged_iff :
    NotWedged s ↔ (s.isFetching = true → 0 < s.inFlight ∨ 0 < s.saves) := by
  refine ⟨NotWedged.pending, fun h ↦ ⟨h, ?_⟩⟩
  intro hflight hsaves lifecycleOwner observer onlyCache hmiss
  obtain ⟨-, ⟨hcached | hfetching, -, -⟩ | ⟨-, -, -, hnew⟩⟩ :=
    getUserProfile_cases s lifecycleOwner observer onlyCache
  · exact absurd hcached hmiss
  · have hpending := h hfetching
    omega
  · rw [hnew, hflight]

section

variable [DecidableEq O]

theorem single_step (h : Single s) (hstep : step S s a = some s') : Single s' := by
  unfold Single at h ⊢
  have hle := Bool.toNat_le s.isFetching
  cases a with
  | getUserProfile lifecycleOwner observer onlyCache =>
      obtain rfl := Option.some.inj hstep
      obtain ⟨hsaves, ⟨-, hfetching, hflight⟩ | ⟨-, hnot, hfetching, hflight⟩⟩ :=
        getUserProfile_cases s lifecycleOwner observer onlyCache
      · rw [hsaves, hfetching, hflight]
        exact h
      · rw [hsaves, hfetching, hflight, Bool.toNat_true]
        rw [hnot, Bool.toNat_false] at h
        omega
  | onSuccess response =>
      simp only [step, Option.ite_none_right_eq_some, Option.some.injEq] at hstep
      obtain ⟨hpos, rfl⟩ := hstep
      simp only [onSuccess]
      split <;> simp only [clearProfileForeverObservers] <;> omega
  | onFailed =>
      simp only [step, Option.ite_none_right_eq_some, Option.some.injEq] at hstep
      obtain ⟨hpos, rfl⟩ := hstep
      simp only [onFailed, clearProfileForeverObservers, Bool.toNat_false]
      omega
  | saveCache =>
      simp only [step, Option.ite_none_right_eq_some, Option.some.injEq] at hstep
      obtain ⟨hpos, rfl⟩ := hstep
      simp only [saveCache, Bool.toNat_false]
      omega
  | loadLocal =>
      simp only [step, Option.ite_none_right_eq_some, Option.some.injEq] at hstep
      obtain ⟨-, rfl⟩ := hstep
      simp only [loadLocal]
      split <;> exact h

theorem notWedged_step_iff (h : Single s) (hs : NotWedged s)
    (hstep : step S s a = some s') : NotWedged s' ↔ Complete s a := by
  have hpending := hs.pending
  rw [notWedged_iff]
  cases a with
  | getUserProfile lifecycleOwner observer onlyCache =>
      obtain rfl := Option.some.inj hstep
      refine iff_of_true ?_ trivial
      obtain ⟨hsaves, ⟨-, hfetching, hflight⟩ | ⟨-, -, -, hflight⟩⟩ :=
        getUserProfile_cases s lifecycleOwner observer onlyCache
      · rw [hsaves, hfetching, hflight]
        exact hpending
      · intro _
        omega
  | onSuccess response =>
      simp only [step, Option.ite_none_right_eq_some, Option.some.injEq] at hstep
      obtain ⟨hpos, rfl⟩ := hstep
      by_cases hcomplete : response.code = HiResponse.success ∧ response.data.isSome
      · refine iff_of_true ?_ hcomplete
        simp [onSuccess, hcomplete, clearProfileForeverObservers]
      · -- the request is over and nothing is left that resets the flag
        refine iff_of_false ?_ hcomplete
        obtain ⟨hfetching, hflight, hsaves⟩ := h.of_inFlight hpos
        simp [onSuccess, hcomplete, clearProfileForeverObservers, hfetching, hflight, hsaves]
  | onFailed =>
      simp only [step, Option.ite_none_right_eq_some, Option.some.injEq] at hstep
      obtain ⟨-, rfl⟩ := hstep
      simp [onFailed, clearProfileForeverObservers, Complete]
  | saveCache =>
      simp only [step, Option.ite_none_right_eq_some, Option.some.injEq] at hstep
      obtain ⟨-, rfl⟩ := hstep
      simp [saveCache, Complete]
  | loadLocal =>
      simp only [step, Option.ite_none_right_eq_some, Option.some.injEq] at hstep
      obtain ⟨-, rfl⟩ := hstep
      refine iff_of_true ?_ trivial
      simp only [loadLocal]
      split <;> exact hpending

/-- Along every run the profile can be fetched again, if and only if every response
that came was a success with a profile. -/
theorem notWedged_iff_complete (S : Serialization U) {table : Table} {s : State U O}
    {as : List (Action U O)} (hrun : run (step S) { table := table } as = some s) :
    StatesMeet (step S) NotWedged { table := table } as ↔
      StepsMeet (step S) Complete { table := table } as := by
  refine statesMeet_iff_stepsMeet (I := Single) (D := fun _ _ ↦ True) ?_ ?_
    (by simp [Single]) (notWedged_iff.mpr (by simp)) stepsMeet_true hrun
  · intro u a v hu _ _ _ hstep
    exact single_step hu hstep
  · intro u a v hu hwedged _ hstep
    exact notWedged_step_iff hu hwedged hstep

end

def notLoggedIn : List (Action ℕ ℕ) :=
  [.getUserProfile true 0 false, .onSuccess { code := 5003 }]

theorem notWedged_iff_complete_login :
    ∃ s, run (step byteSerialization) {} notLoggedIn = some s ∧
      (StatesMeet (step byteSerialization) NotWedged {} notLoggedIn ↔
        StepsMeet (step byteSerialization) Complete {} notLoggedIn) := by
  refine ⟨_, rfl, ?_⟩
  exact notWedged_iff_complete byteSerialization rfl

/-- The profile is not fetched any more. -/
theorem wedged_by_business_error :
    ∃ s, run (step byteSerialization) {} notLoggedIn = some s ∧ s.isFetching = true ∧
      s.inFlight = 0 ∧ s.saves = 0 ∧ ¬ NotWedged s ∧
      (getUserProfile s true 1 false).inFlight = 0 := by
  refine ⟨_, rfl, rfl, rfl, rfl, ?_, rfl⟩
  intro hnot
  have hpending := hnot.pending rfl
  revert hpending
  decide

end HiApp.Account
