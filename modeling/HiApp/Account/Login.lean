import HiApp.Lib.LiveData
import HiApp.Lib.Runs

/-!
# Waiting for a login

`AccountManager.login` registers the caller's observer with `loginLiveData` and
opens the login page; `loginSuccess` sets the value `true`.  The value stays, so
what a later observer is told depends on the logins before it.
-/

namespace HiApp.Account.Login

open Runs LiveData

variable {ω ο : Type*}

/-- The `context` of a call of `login`, as far as the code distinguishes it. -/
inductive Context (ω : Type*) where
  | null
  | lifecycleOwner (owner : ω)
  | application
  | other
  deriving DecidableEq

/-- The login part of `AccountManager`; `preference` is what `SPUtil` keeps under
`KEY_BOARDING_PASS`, `started` the login pages opened, each with whether it got
`FLAG_ACTIVITY_NEW_TASK`, and `calls` the calls of the observers so far. -/
structure State (ω ο : Type*) where
  loginLiveData : LiveData ω ο Bool := {}
  loginForeverObservers : List ο := []
  boardingPass : Option String := none
  preference : Option String := none
  lifecycle : ω → Lifecycle
  started : List Bool := []
  calls : List (Call ω ο Bool) := []

inductive Error where
  | liveData (e : LiveData.Error)
  | contextMustNotBeNull
  deriving DecidableEq

inductive Action (ω ο : Type*) where
  | login (context : Context ω) (observer : ο)
  | loginSuccess (boardingPass : String)
  | onStateChanged (owner : ω) (state : Lifecycle)

def State.deliver (s : State ω ο) (r : LiveData ω ο Bool × List (Call ω ο Bool)) :
    State ω ο :=
  { s with loginLiveData := r.1, calls := s.calls ++ r.2 }

variable [DecidableEq ω] [DecidableEq ο]

/-- The first lines of `login`. -/
def observeLogin (s : State ω ο) (context : Context ω) (observer : ο) :
    Except LiveData.Error (State ω ο) :=
  match context with
  | .lifecycleOwner owner =>
      (s.loginLiveData.observe owner (s.lifecycle owner) observer).map s.deliver
  | .null | .application | .other =>
      (s.loginLiveData.observeForever observer).map fun r ↦
        { s.deliver r with loginForeverObservers := s.loginForeverObservers ++ [observer] }

/-- Without a context the observer is registered all the same. -/
def login (s : State ω ο) (context : Context ω) (observer : ο) :
    State ω ο × Option Error :=
  match observeLogin s context observer with
  | .error e => (s, some (.liveData e))
  | .ok s =>
      match context with
      | .null => (s, some .contextMustNotBeNull)
      | .application => ({ s with started := s.started ++ [true] }, none)
      | .lifecycleOwner _ | .other => ({ s with started := s.started ++ [false] }, none)

def clearLoginForeverObservers (s : State ω ο) : State ω ο :=
  { s with
    loginLiveData := s.loginForeverObservers.foldl (fun l o ↦ l.removeObserver o)
      s.loginLiveData
    loginForeverObservers := [] }

def loginSuccess (s : State ω ο) (boardingPass : String) : State ω ο :=
  let s := { s with preference := some boardingPass, boardingPass := some boardingPass }
  clearLoginForeverObservers (s.deliver (s.loginLiveData.setValue true))

def onStateChanged (s : State ω ο) (owner : ω) (state : Lifecycle) : State ω ο :=
  { s.deliver (s.loginLiveData.onStateChanged owner state) with
    lifecycle := Function.update s.lifecycle owner state }

def step (s : State ω ο) : Action ω ο → Option (State ω ο)
  | .login context observer => some (login s context observer).1
  | .loginSuccess boardingPass => some (loginSuccess s boardingPass)
  | .onStateChanged owner state =>
      if s.lifecycle owner = .destroyed then none else some (onStateChanged s owner state)

/-- An observer is called only with the value of a `loginSuccess` after the `login`
that registered it, and without a `LifecycleOwner` at most once. -/
structure OwnLogin (s : State ω ο) : Prop where
  later : ∀ c ∈ s.calls, c.wrapper.since < c.version
  once : ∀ n, s.calls.countP
    (fun c ↦ c.wrapper.serial = n ∧ c.wrapper.owner = none) ≤ 1

def Context.IsActive (lifecycle : ω → Lifecycle) : Context ω → Prop
  | .lifecycleOwner owner => lifecycle owner = .active
  | .null | .application | .other => True

/-- After the first `loginSuccess` no new observer is registered by an active
context; and an owner that becomes active has no observer that has yet to see the
value and was registered after it was set. -/
def NothingStale (s : State ω ο) : Action ω ο → Prop
  | .login context observer =>
      0 < s.loginLiveData.version → context.IsActive s.lifecycle →
        s.loginLiveData.find? observer ≠ none
  | .onStateChanged owner .active =>
      ∀ w ∈ s.loginLiveData.observers, w.owner = some owner → w.active = false →
        w.lastVersion < s.loginLiveData.version → w.since < s.loginLiveData.version
  | .onStateChanged _ .inactive | .onStateChanged _ .destroyed | .loginSuccess _ => True

/-- Registrations without an owner can be removed, and none of them was called. -/
structure Tidy (s : State ω ο) : Prop where
  valid : s.loginLiveData.Valid
  forever : ∀ w ∈ s.loginLiveData.observers, w.owner = none →
    w.observer ∈ s.loginForeverObservers
  past : ∀ c ∈ s.calls, c.wrapper.serial < s.loginLiveData.registrations
  uncalled : ∀ w ∈ s.loginLiveData.observers, w.owner = none →
    ∀ c ∈ s.calls, c.wrapper.serial ≠ w.serial

variable {s s' : State ω ο} {a : Action ω ο}

omit [DecidableEq ω] in
/-- All registrations of the listed observers are removed, and nothing else. -/
theorem foldl_removeObserver (os : List ο) (l : LiveData ω ο Bool) :
    os.foldl (fun l o ↦ l.removeObserver o) l =
      { l with observers := l.observers.filter fun w ↦ w.observer ∉ os } := by
  induction os generalizing l with
  | nil => simp
  | cons o os ih =>
      rw [List.foldl_cons, ih]
      simp only [removeObserver, List.filter_filter, List.mem_cons, not_or]
      congr 2
      funext w
      simp [Bool.and_comm]

/-- A call of `login` registers the observer, or leaves `loginLiveData` alone. -/
theorem login_cases (s : State ω ο) (context : Context ω) (observer : ο) :
    (∃ owner active,
      (login s context observer).1.loginLiveData =
          (s.loginLiveData.register owner active observer).1 ∧
        (login s context observer).1.calls =
          s.calls ++ (s.loginLiveData.register owner active observer).2 ∧
        s.loginLiveData.find? observer = none ∧
        (active = true ↔ context.IsActive s.lifecycle) ∧
        (owner = none → observer ∈ (login s context observer).1.loginForeverObservers) ∧
        s.loginForeverObservers ⊆ (login s context observer).1.loginForeverObservers) ∨
    (login s context observer).1.loginLiveData = s.loginLiveData ∧
      (login s context observer).1.calls = s.calls ∧
      (context.IsActive s.lifecycle → s.loginLiveData.find? observer ≠ none) ∧
      s.loginForeverObservers ⊆ (login s context observer).1.loginForeverObservers := by
  unfold login observeLogin
  cases context with
  | lifecycleOwner owner =>
      simp only [LiveData.observe]
      by_cases hdestroyed : s.lifecycle owner = .destroyed
      · simp [hdestroyed, Except.map, State.deliver, Context.IsActive]
      · cases hfind : s.loginLiveData.find? observer with
        | none =>
            refine .inl ⟨some owner, s.lifecycle owner = .active, ?_⟩
            simp [hdestroyed, Except.map, State.deliver, Context.IsActive]
        | some w =>
            refine .inr ?_
            by_cases howner : w.owner = some owner
            · simp [hdestroyed, howner, Except.map, State.deliver]
            · simp [hdestroyed, howner, Except.map]
  | null | application | other =>
      simp only [LiveData.observeForever]
      cases hfind : s.loginLiveData.find? observer with
      | none =>
          refine .inl ⟨none, true, ?_⟩
          simp [Except.map, State.deliver, Context.IsActive]
      | some w =>
          refine .inr ?_
          by_cases howner : w.owner.isSome
          · simp [howner, Except.map]
          · simp [howner, Except.map, State.deliver]

omit [DecidableEq ω] [DecidableEq ο] in
/-- What is told at a registration was set before it. -/
theorem later_register_iff {l : LiveData ω ο Bool} (hl : l.Valid) {owner : Option ω}
    {active : Bool} {observer : ο} :
    (∀ c ∈ (l.register owner active observer).2, c.wrapper.since < c.version) ↔
      (l.register owner active observer).2 = [] := by
  rw [hl.register_calls]
  cases active <;> cases l.data <;> simp [newWrapper]

theorem Tidy.login (h : Tidy s) {context : Context ω} {observer : ο}
    (hP' : OwnLogin (login s context observer).1) : Tidy (login s context observer).1 := by
  rcases login_cases s context observer with
    ⟨owner, active, hlive, hcalls, -, -, hnone, hsub⟩ | ⟨hlive, hcalls, -, hsub⟩
  · have hnil : (s.loginLiveData.register owner active observer).2 = [] := by
      rw [← later_register_iff h.valid]
      intro c hc
      exact hP'.later c (by simp [hcalls, hc])
    rw [hnil, List.append_nil] at hcalls
    constructor
    · rw [hlive]
      exact h.valid.register
    · rw [hlive, h.valid.register_observers, List.forall_mem_append]
      exact ⟨fun w hw howner ↦ hsub (h.forever w hw howner), by simpa [newWrapper] using hnone⟩
    · rw [hlive, hcalls, register_registrations]
      exact fun c hc ↦ (h.past c hc).trans (Nat.lt_succ_self _)
    · rw [hlive, hcalls, h.valid.register_observers, List.forall_mem_append]
      refine ⟨h.uncalled, ?_⟩
      simpa [newWrapper] using fun _ c hc ↦ (h.past c hc).ne
  · constructor
    · rw [hlive]
      exact h.valid
    · rw [hlive]
      exact fun w hw howner ↦ hsub (h.forever w hw howner)
    · rw [hlive, hcalls]
      exact h.past
    · rw [hlive, hcalls]
      exact h.uncalled

theorem Tidy.login_iff (h : Tidy s) (hP : OwnLogin s) {context : Context ω} {observer : ο} :
    OwnLogin (Login.login s context observer).1 ↔
      NothingStale s (.login context observer) := by
  simp only [NothingStale]
  rcases login_cases s context observer with
    ⟨owner, active, -, hcalls, hfind, hactive, -, -⟩ | ⟨-, hcalls, hfind, -⟩
  · have hnil : OwnLogin (Login.login s context observer).1 ↔
        (s.loginLiveData.register owner active observer).2 = [] := by
      rw [← later_register_iff h.valid]
      constructor
      · intro hP' c hc
        exact hP'.later c (by simp [hcalls, hc])
      · intro hlater
        have hempty := (later_register_iff h.valid).mp hlater
        rw [hempty, List.append_nil] at hcalls
        exact ⟨hcalls ▸ hP.later, hcalls ▸ hP.once⟩
    rw [hnil, h.valid.register_calls_eq_nil_iff, ← hactive, hfind]
    simp
  · refine iff_of_true ⟨hcalls ▸ hP.later, hcalls ▸ hP.once⟩ ?_
    exact fun _ hactive ↦ hfind hactive

omit [DecidableEq ω] in
theorem loginSuccess_observers (s : State ω ο) (boardingPass : String) :
    (loginSuccess s boardingPass).loginLiveData =
      { (s.loginLiveData.setValue true).1 with
        observers := (s.loginLiveData.setValue true).1.observers.filter
          fun w ↦ w.observer ∉ s.loginForeverObservers } := by
  simp [loginSuccess, clearLoginForeverObservers, State.deliver, foldl_removeObserver]

omit [DecidableEq ω] in
/-- No registration without an owner outlives a `loginSuccess`. -/
theorem Tidy.owner_ne_none (h : Tidy s) {boardingPass : String} :
    ∀ w ∈ (loginSuccess s boardingPass).loginLiveData.observers, w.owner ≠ none := by
  rw [loginSuccess_observers, setValue_observers]
  simp only [List.mem_filter, List.mem_map, decide_eq_true_eq]
  rintro _ ⟨⟨w, hw, rfl⟩, hkept⟩ howner
  rw [Wrapper.tell_owner] at howner
  rw [Wrapper.tell_observer] at hkept
  exact hkept (h.forever w hw howner)

omit [DecidableEq ω] in
theorem Tidy.loginSuccess (h : Tidy s) {boardingPass : String} :
    Tidy (loginSuccess s boardingPass) := by
  constructor
  · rw [loginSuccess_observers]
    exact (h.valid.setValue true).sublist List.filter_sublist
  · exact fun w hw howner ↦ absurd howner (h.owner_ne_none w hw)
  · rw [loginSuccess_observers]
    simp only [Login.loginSuccess, clearLoginForeverObservers, State.deliver,
      List.forall_mem_append, setValue_registrations]
    refine ⟨h.past, fun c hc ↦ ?_⟩
    exact h.valid.serial_lt _ (h.valid.mem_setValue_iff.mp hc).1
  · exact fun w hw howner ↦ absurd howner (h.owner_ne_none w hw)

omit [DecidableEq ω] in
/-- The observers without an owner are called for the first time. -/
theorem Tidy.ownLogin_loginSuccess (h : Tidy s) (hP : OwnLogin s) {boardingPass : String} :
    OwnLogin (Login.loginSuccess s boardingPass) := by
  have hcalls : (Login.loginSuccess s boardingPass).calls =
      s.calls ++ (s.loginLiveData.setValue true).2 := rfl
  constructor
  · rw [hcalls, List.forall_mem_append]
    refine ⟨hP.later, fun c hc ↦ ?_⟩
    obtain ⟨hw, -, hversion, -⟩ := h.valid.mem_setValue_iff.mp hc
    rw [hversion]
    exact Nat.lt_succ_of_le (h.valid.since_le _ hw)
  · intro n
    rw [hcalls, List.countP_append]
    by_cases hnew : ∃ c ∈ (s.loginLiveData.setValue true).2,
        c.wrapper.serial = n ∧ c.wrapper.owner = none
    · obtain ⟨c, hc, hserial, howner⟩ := hnew
      have hw := (h.valid.mem_setValue_iff.mp hc).1
      have hold : s.calls.countP
          (fun c ↦ decide (c.wrapper.serial = n ∧ c.wrapper.owner = none)) = 0 := by
        rw [List.countP_eq_zero]
        intro c' hc'
        have hne := h.uncalled _ hw howner c' hc'
        simp [← hserial, hne]
      have hle := count_notify_le_one
        (l := { s.loginLiveData with version := s.loginLiveData.version + 1, data := some true })
        Wrapper.active h.valid.serial_inj n
      have hmono : (s.loginLiveData.setValue true).2.countP
          (fun c ↦ decide (c.wrapper.serial = n ∧ c.wrapper.owner = none)) ≤
            (s.loginLiveData.setValue true).2.countP (fun c ↦ c.wrapper.serial = n) :=
        List.countP_mono_left fun c _ hc ↦ by simp_all
      rw [hold, Nat.zero_add]
      exact hmono.trans hle
    · have hzero : (s.loginLiveData.setValue true).2.countP
          (fun c ↦ decide (c.wrapper.serial = n ∧ c.wrapper.owner = none)) = 0 := by
        rw [List.countP_eq_zero]
        intro c hc
        simpa using fun hserial howner ↦ hnew ⟨c, hc, hserial, howner⟩
      rw [hzero, Nat.add_zero]
      exact hP.once n

omit [DecidableEq ο] in
/-- A change in the life of an owner leaves the registrations without one alone. -/
theorem mem_onStateChanged_of_owner_eq_none (hvalid : s.loginLiveData.Valid) {owner : ω}
    {state : Lifecycle} {w : Wrapper ω ο}
    (hw : w ∈ (onStateChanged s owner state).loginLiveData.observers)
    (howner : w.owner = none) : w ∈ s.loginLiveData.observers := by
  cases state with
  | destroyed => exact List.mem_of_mem_filter hw
  | inactive =>
      obtain ⟨w₀, hw₀, rfl⟩ := List.mem_map.mp hw
      have hne : w₀.owner ≠ some owner := by
        intro heq
        simp [heq] at howner
      simpa [hne] using hw₀
  | active =>
      simp only [onStateChanged, State.deliver, LiveData.onStateChanged, setActive,
        notify_observers hvalid.data, List.mem_map] at hw
      obtain ⟨_, ⟨w₀, hw₀, rfl⟩, rfl⟩ := hw
      have hne : w₀.owner ≠ some owner := by
        intro heq
        simp [heq] at howner
      simpa [hne, Wrapper.tell] using hw₀

omit [DecidableEq ο] in
/-- The calls at such a change are for observers with an owner. -/
theorem owner_of_mem_onStateChanged {l : LiveData ω ο Bool} {owner : ω} {state : Lifecycle}
    {c : Call ω ο Bool} (hc : c ∈ (l.onStateChanged owner state).2) :
    c.wrapper ∈ l.observers ∧ c.wrapper.owner = some owner := by
  cases state with
  | destroyed | inactive => simp [LiveData.onStateChanged] at hc
  | active =>
      obtain ⟨hw, ⟨howner, -⟩, -⟩ := mem_onStateChanged_active_iff.mp hc
      exact ⟨hw, howner⟩

omit [DecidableEq ο] in
theorem Tidy.onStateChanged (h : Tidy s) {owner : ω} {state : Lifecycle} :
    Tidy (onStateChanged s owner state) := by
  have hregistrations : (Login.onStateChanged s owner state).loginLiveData.registrations =
      s.loginLiveData.registrations := by
    cases state <;> simp [Login.onStateChanged, State.deliver, LiveData.onStateChanged, setActive]
  constructor
  · exact h.valid.onStateChanged state
  · intro w hw howner
    exact h.forever w (mem_onStateChanged_of_owner_eq_none h.valid hw howner) howner
  · rw [hregistrations]
    simp only [Login.onStateChanged, State.deliver, List.forall_mem_append]
    refine ⟨h.past, fun c hc ↦ ?_⟩
    exact h.valid.serial_lt _ (owner_of_mem_onStateChanged hc).1
  · intro w hw howner
    have hold := mem_onStateChanged_of_owner_eq_none h.valid hw howner
    simp only [Login.onStateChanged, State.deliver, List.forall_mem_append]
    refine ⟨h.uncalled w hold howner, fun c hc hserial ↦ ?_⟩
    obtain ⟨hmem, howner'⟩ := owner_of_mem_onStateChanged hc
    rw [h.valid.eq_of_serial_eq hmem hold hserial, howner] at howner'
    cases howner'

omit [DecidableEq ο] in
theorem ownLogin_onStateChanged_iff (hP : OwnLogin s) {owner : ω} {state : Lifecycle} :
    OwnLogin (onStateChanged s owner state) ↔
      ∀ c ∈ (s.loginLiveData.onStateChanged owner state).2, c.wrapper.since < c.version := by
  have hcalls : (onStateChanged s owner state).calls =
      s.calls ++ (s.loginLiveData.onStateChanged owner state).2 := rfl
  constructor
  · intro hP' c hc
    exact hP'.later c (by simp [hcalls, hc])
  · intro hlater
    constructor
    · rw [hcalls, List.forall_mem_append]
      exact ⟨hP.later, hlater⟩
    · intro n
      have hzero : (s.loginLiveData.onStateChanged owner state).2.countP
          (fun c ↦ decide (c.wrapper.serial = n ∧ c.wrapper.owner = none)) = 0 := by
        rw [List.countP_eq_zero]
        intro c hc
        simp [(owner_of_mem_onStateChanged hc).2]
      rw [hcalls, List.countP_append, hzero, Nat.add_zero]
      exact hP.once n

theorem Tidy.onStateChanged_iff (h : Tidy s) (hP : OwnLogin s) {owner : ω}
    {state : Lifecycle} :
    OwnLogin (Login.onStateChanged s owner state) ↔
      NothingStale s (.onStateChanged owner state) := by
  rw [ownLogin_onStateChanged_iff hP]
  cases state with
  | destroyed | inactive => simp [LiveData.onStateChanged, NothingStale]
  | active =>
      simp only [mem_onStateChanged_active_iff, NothingStale]
      constructor
      · intro hlater w hw howner hactive hlt
        obtain ⟨value, hvalue⟩ := Option.ne_none_iff_exists'.mp
          (mt h.valid.data.mp (Nat.zero_lt_of_lt hlt).ne')
        exact hlater ⟨w, _, value⟩ ⟨hw, ⟨howner, hactive⟩, hlt, rfl, hvalue⟩
      · rintro hstale c ⟨hw, ⟨howner, hactive⟩, hlt, hversion, -⟩
        rw [hversion]
        exact hstale _ hw howner hactive hlt

theorem Tidy.step (h : Tidy s) (hP' : OwnLogin s') (hstep : step s a = some s') :
    Tidy s' := by
  cases a with
  | login context observer =>
      obtain rfl := Option.some.inj hstep
      exact h.login hP'
  | loginSuccess boardingPass =>
      obtain rfl := Option.some.inj hstep
      exact h.loginSuccess
  | onStateChanged owner state =>
      simp only [Login.step, Option.ite_none_left_eq_some, Option.some.injEq] at hstep
      obtain ⟨-, rfl⟩ := hstep
      exact h.onStateChanged

theorem Tidy.step_iff (h : Tidy s) (hP : OwnLogin s) (hstep : Login.step s a = some s') :
    OwnLogin s' ↔ NothingStale s a := by
  cases a with
  | login context observer =>
      obtain rfl := Option.some.inj hstep
      exact h.login_iff hP
  | loginSuccess boardingPass =>
      obtain rfl := Option.some.inj hstep
      exact iff_of_true (h.ownLogin_loginSuccess hP) trivial
  | onStateChanged owner state =>
      simp only [Login.step, Option.ite_none_left_eq_some, Option.some.injEq] at hstep
      obtain ⟨-, rfl⟩ := hstep
      exact h.onStateChanged_iff hP

/-- Along every run the observers see only their own logins, if and only if no step
hands an old value to a new observer. -/
theorem ownLogin_iff_nothingStale {lifecycle : ω → Lifecycle} {s : State ω ο}
    {as : List (Action ω ο)} (hrun : run step { lifecycle := lifecycle } as = some s) :
    StatesMeet step OwnLogin { lifecycle := lifecycle } as ↔
      StepsMeet step NothingStale { lifecycle := lifecycle } as := by
  refine statesMeet_iff_stepsMeet (I := Tidy) (D := fun _ _ ↦ True) ?_ ?_
    ⟨valid_new, by simp, by simp, by simp⟩ ⟨by simp, by simp⟩ stepsMeet_true hrun
  · intro u a v hu _ hv _ hstep
    exact hu.step hv hstep
  · intro u a v hu hP _ hstep
    exact hu.step_iff hP hstep

/-- A login, and a second one after the first has succeeded. -/
def twoLogins : List (Action (Fin 1) (Fin 2)) :=
  [.login .application 0, .loginSuccess "pass", .login .application 1]

theorem ownLogin_iff_nothingStale_two :
    ∃ s, run step { lifecycle := fun _ ↦ .active } twoLogins = some s ∧
      (StatesMeet step OwnLogin { lifecycle := fun _ ↦ .active } twoLogins ↔
        StepsMeet step NothingStale { lifecycle := fun _ ↦ .active } twoLogins) := by
  refine ⟨_, rfl, ?_⟩
  exact @ownLogin_iff_nothingStale (Fin 1) (Fin 2) _ _ _ _ twoLogins rfl

/-- The second observer is told about the first login. -/
theorem told_before_own_login :
    ∃ s, run step { lifecycle := fun _ ↦ .active } twoLogins = some s ∧
      (s.calls.map fun c ↦ (c.wrapper.observer, c.wrapper.since, c.version)) =
        [(0, 0, 1), (1, 1, 1)] ∧ ¬ OwnLogin s := by
  refine ⟨_, rfl, by decide, ?_⟩
  intro hown
  have hlater := hown.later _ (List.mem_of_getElem? (i := 1) rfl)
  revert hlater
  decide

end HiApp.Account.Login
