import HiApp.Account.Session
import HiApp.Util.MainHandler

/-!
# The interceptor of the routes

`BizInterceptor` answers every navigation from the flags of its target.  For a target that needs
a login it also hands a runnable to the main thread, which would go on after a login; but it is
handed over by `MainHandler.post`.
-/

namespace HiApp.Route

open Runs LiveData Account Util

variable {ω ο ρ : Type*}

namespace RouteFlag

def flagLogin : BitVec 32 := 0x01

def flagAuthentication : BitVec 32 := flagLogin <<< 1

def flagVip : BitVec 32 := flagAuthentication <<< 1

end RouteFlag

/-- A navigation, with the flags of its target. -/
structure Postcard where
  id : ℕ
  extra : BitVec 32
  deriving DecidableEq

/-- What `InterceptorCallback` is told. -/
inductive Answer where
  | onContinue
  | onInterrupt (message : String)
  deriving DecidableEq

/-- The runnables of the interceptor, and those of everybody else. -/
inductive Runnable (ρ : Type*) where
  | loginIntercept (postcard : Postcard)
  | showToast (message : String)
  | other (runnable : ρ)
  deriving DecidableEq

/-- Who waits for a login. -/
inductive Observer (ο : Type*) where
  | route (postcard : Postcard)
  | other (observer : ο)
  deriving DecidableEq

def Observer.answer : Observer ο → Option (Postcard × Answer)
  | .route postcard => some (postcard, .onContinue)
  | .other _ => none

structure State (ω ο ρ : Type*) where
  context : Login.Context ω
  handler : MainHandler (Runnable ρ)
  account : Login.State ω (Observer ο)
  answers : List (Postcard × Answer) := []
  toasts : List String := []

inductive Action (ω ο ρ : Type*) where
  | process (postcard : Postcard)
  | handler (event : MainHandler.Event ρ)
  | account (action : Login.Action ω ο)

namespace State

def answer (s : State ω ο ρ) (postcard : Postcard) (answer : Answer) : State ω ο ρ :=
  { s with answers := s.answers ++ [(postcard, answer)] }

/-- A handler of its own, but the queue is that of the main thread. -/
def showToast (s : State ω ο ρ) (message : String) : State ω ο ρ :=
  { s with handler := s.handler.enqueue (.runnable (.showToast message)) s.handler.now }

def loginIntercept (s : State ω ο ρ) (postcard : Postcard) : State ω ο ρ :=
  { s with handler := s.handler.post (.loginIntercept postcard) }

def process (s : State ω ο ρ) (postcard : Postcard) : State ω ο ρ :=
  let flag := postcard.extra
  if flag &&& RouteFlag.flagLogin ≠ 0 then
    (s.answer postcard (.onInterrupt "need login")).loginIntercept postcard
  else if flag &&& RouteFlag.flagAuthentication ≠ 0 then
    (s.answer postcard (.onInterrupt "need authentication")).showToast "请先实名认证"
  else if flag &&& RouteFlag.flagVip ≠ 0 then
    (s.answer postcard (.onInterrupt "need become vip")).showToast "请先加入会员"
  else s.answer postcard .onContinue

/-- The observers that are called answer for their navigations. -/
def setAccount (s : State ω ο ρ) (account : Login.State ω (Observer ο)) : State ω ο ρ :=
  { s with
    account := account
    answers := s.answers ++
      (account.calls.drop s.account.calls.length).filterMap fun c ↦ c.wrapper.observer.answer }

variable [DecidableEq ω] [DecidableEq ο]

/-- A runnable on the main thread, which may throw; what others do there is not seen here. -/
def perform (s : State ω ο ρ) : Runnable ρ → Option (State ω ο ρ)
  | .loginIntercept postcard =>
      let isLogin := Login.isLogin s.account
      let s := { s with toasts := s.toasts ++ ["请先登录"], account := isLogin.1 }
      if isLogin.2 then some (s.answer postcard .onContinue)
      else
        match Login.login s.account s.context (.route postcard) with
        | (account, none) => some (s.setAccount account)
        | (_, some _) => none
  | .showToast message => some { s with toasts := s.toasts ++ [message] }
  | .other _ => some s

end State

def ofHandler : MainHandler.Event ρ → MainHandler.Event (Runnable ρ)
  | .post runnable => .post (.other runnable)
  | .postDelay delayMills runnable => .postDelay delayMills (.other runnable)
  | .sendAtFrontOfQueue runnable => .sendAtFrontOfQueue (.other runnable)
  | .remove runnable => .remove (.other runnable)
  | .elapse mills => .elapse mills
  | .dispatch => .dispatch

def ofAccount : Login.Action ω ο → Login.Action ω (Observer ο)
  | .login context observer => .login context (.other observer)
  | .loginSuccess boardingPass => .loginSuccess boardingPass
  | .onStateChanged owner state => .onStateChanged owner state

/-- What the main thread has run is carried out. -/
def step [DecidableEq ω] [DecidableEq ο] [DecidableEq ρ] (s : State ω ο ρ) :
    Action ω ο ρ → Option (State ω ο ρ)
  | .process postcard => some (s.process postcard)
  | .handler event =>
      (s.handler.step (ofHandler event)).bind fun handler ↦
        (handler.ran.drop s.handler.ran.length).foldlM State.perform { s with handler := handler }
  | .account action => (Login.step s.account (ofAccount action)).map s.setAccount

/-- A new process, with its context and what it finds in the preferences. -/
def start (context : Login.Context ω) (now : ℕ) (lifecycle : ω → Lifecycle)
    (preference : Option String) : State ω ο ρ where
  context := context
  handler := { now := now }
  account := { lifecycle := lifecycle, preference := preference }

/-! ## What a navigation is answered -/

/-- The lowest of the three flags that the target has. -/
def Postcard.verdict (postcard : Postcard) : Answer :=
  if postcard.extra.getLsbD 0 then .onInterrupt "need login"
  else if postcard.extra.getLsbD 1 then .onInterrupt "need authentication"
  else if postcard.extra.getLsbD 2 then .onInterrupt "need become vip"
  else .onContinue

def Postcard.toast (postcard : Postcard) : Option String :=
  if postcard.extra.getLsbD 0 then none
  else if postcard.extra.getLsbD 1 then some "请先实名认证"
  else if postcard.extra.getLsbD 2 then some "请先加入会员"
  else none

def Action.postcard : Action ω ο ρ → Option Postcard
  | .process postcard => some postcard
  | .handler _ | .account _ => none

def Action.login : Action ω ο ρ → Option (Login.Action ω (Observer ο))
  | .account action => some (ofAccount action)
  | .process _ | .handler _ => none

def Runnable.isOwn : Runnable ρ → Bool
  | .loginIntercept _ | .showToast _ => true
  | .other _ => false

def Runnable.message : Runnable ρ → Option String
  | .showToast message => some message
  | .loginIntercept _ | .other _ => none

/-- The runnables that will run. -/
def waiting (queue : List (Message (Submission (Runnable ρ)))) : List (Runnable ρ) :=
  queue.flatMap fun message ↦ message.callback.callback.runs

/-! ## Flags -/

theorem and_shiftLeft_eq_zero_iff {extra : BitVec 32} {i : ℕ} (hi : i < 32) :
    extra &&& (1#32 <<< i) = 0 ↔ extra.getLsbD i = false := by
  constructor
  · intro hzero
    have hbit := congrArg (BitVec.getLsbD · i) hzero
    simpa [hi] using hbit
  · intro hbit
    apply BitVec.eq_of_getLsbD_eq
    intro j hj
    by_cases hij : i = j
    · rw [← hij, BitVec.getLsbD_and, hbit, Bool.false_and]
      exact BitVec.getLsbD_zero.symm
    · have hone : (1#32 <<< i).getLsbD j = false := by
        rw [← BitVec.twoPow_eq, BitVec.getLsbD_twoPow]
        simp [hij]
      rw [BitVec.getLsbD_and, hone, Bool.and_false]
      exact BitVec.getLsbD_zero.symm

section

variable {extra : BitVec 32}

@[simp] theorem and_flagLogin : extra &&& RouteFlag.flagLogin = 0 ↔ extra.getLsbD 0 = false :=
  and_shiftLeft_eq_zero_iff (i := 0) (by decide)

@[simp] theorem and_flagAuthentication :
    extra &&& RouteFlag.flagAuthentication = 0 ↔ extra.getLsbD 1 = false :=
  and_shiftLeft_eq_zero_iff (i := 1) (by decide)

@[simp] theorem and_flagVip : extra &&& RouteFlag.flagVip = 0 ↔ extra.getLsbD 2 = false :=
  and_shiftLeft_eq_zero_iff (i := 2) (by decide)

end

/-- A navigation is answered, and at most one message is added to the queue. -/
theorem process_cases (s : State ω ο ρ) (postcard : Postcard) :
    postcard.toast = none ∧
        s.process postcard = s.answer postcard postcard.verdict ∨
      postcard.toast = none ∧
        s.process postcard =
          (s.answer postcard postcard.verdict).loginIntercept postcard ∨
      ∃ message, postcard.toast = some message ∧
        s.process postcard = (s.answer postcard postcard.verdict).showToast message := by
  unfold State.process Postcard.verdict Postcard.toast
  simp only [ne_eq, and_flagLogin, and_flagAuthentication, and_flagVip, Bool.not_eq_false]
  by_cases hlogin : postcard.extra.getLsbD 0
  · simp only [if_pos hlogin]
    exact .inr (.inl ⟨trivial, trivial⟩)
  · by_cases hauthentication : postcard.extra.getLsbD 1
    · simp only [if_neg hlogin, if_pos hauthentication]
      exact .inr (.inr ⟨_, rfl, rfl⟩)
    · by_cases hvip : postcard.extra.getLsbD 2
      · simp only [if_neg hlogin, if_neg hauthentication, if_pos hvip]
        exact .inr (.inr ⟨_, rfl, rfl⟩)
      · simp only [if_neg hlogin, if_neg hauthentication, if_neg hvip]
        exact .inl ⟨trivial, trivial⟩

/-! ## The main thread -/

section

variable {handler handler' : MainHandler (Runnable ρ)} {event : MainHandler.Event ρ}

theorem waiting_enqueue (handler : MainHandler (Runnable ρ)) (callback : Callback (Runnable ρ))
    (time : ℕ) :
    (waiting (handler.enqueue callback time).queue).Perm
      (callback.runs ++ waiting handler.queue) :=
  (Message.enqueue_perm _ _).flatMap_right _

theorem waiting_remove [DecidableEq ρ] (runnable : ρ) :
    (waiting (handler.remove (.other runnable)).queue).filter Runnable.isOwn =
      (waiting handler.queue).filter Runnable.isOwn := by
  simp only [MainHandler.remove, waiting]
  induction handler.queue with
  | nil => rfl
  | cons message queue ih =>
      rw [List.filter_cons]
      split
      · rw [List.map_cons, List.flatMap_cons, List.flatMap_cons, List.filter_append, ih,
          List.filter_append]
        congr 1
        rw [MainHandler.cancel]
        split <;> rfl
      · rename_i hremoved
        have hcallback : message.callback.callback = .runnable (.other runnable) := by
          simpa using hremoved
        rw [List.flatMap_cons, List.filter_append, hcallback]
        exact ih

/-- What others do on the main thread takes nothing out of the queue that is not run. -/
theorem waiting_step [DecidableEq ρ] (hstep : handler.step (ofHandler event) = some handler') :
    ∃ ran, handler'.ran = handler.ran ++ ran ∧
      ((ran ++ waiting handler'.queue).filter Runnable.isOwn).Perm
        ((waiting handler.queue).filter Runnable.isOwn) := by
  cases event with
  | post runnable =>
      obtain rfl := Option.some.inj hstep
      have hwaiting := waiting_enqueue handler (.lambda (.other runnable)) handler.now
      exact ⟨[], (List.append_nil _).symm, hwaiting.filter _⟩
  | postDelay delayMills runnable =>
      obtain rfl := Option.some.inj hstep
      have hwaiting := waiting_enqueue handler (.runnable (.other runnable))
        (handler.now + delayMills.toNat)
      exact ⟨[], (List.append_nil _).symm, hwaiting.filter _⟩
  | sendAtFrontOfQueue runnable =>
      obtain rfl := Option.some.inj hstep
      have hwaiting := waiting_enqueue handler (.runnable (.other runnable)) 0
      exact ⟨[], (List.append_nil _).symm, hwaiting.filter _⟩
  | remove runnable =>
      obtain rfl := Option.some.inj hstep
      exact ⟨[], (List.append_nil _).symm, .of_eq (waiting_remove runnable)⟩
  | elapse mills =>
      obtain rfl := Option.some.inj hstep
      exact ⟨[], (List.append_nil _).symm, .refl _⟩
  | dispatch =>
      simp only [ofHandler, MainHandler.step, MainHandler.dispatch] at hstep
      split at hstep
      · cases hstep
      · obtain ⟨-, hsome⟩ := Option.ite_none_right_eq_some.mp hstep
        obtain rfl := Option.some.inj hsome
        refine ⟨_, rfl, .of_eq ?_⟩
        rw [‹handler.queue = _›]
        rfl

end

section

variable [DecidableEq ω] [DecidableEq ο]

omit [DecidableEq ω] [DecidableEq ο] in
theorem map_filterMap_message {ran : List (Runnable ρ)} (hran : ∀ p, .loginIntercept p ∉ ran) :
    (ran.filterMap Runnable.message).map Runnable.showToast = ran.filter Runnable.isOwn := by
  induction ran with
  | nil => rfl
  | cons runnable ran ih =>
      have htail : ∀ p, .loginIntercept p ∉ ran := fun p hp ↦ hran p (List.mem_cons_of_mem _ hp)
      cases runnable with
      | loginIntercept p => exact absurd List.mem_cons_self (hran p)
      | showToast message => exact congrArg _ (ih htail)
      | other runnable => exact ih htail

/-- Runnables of which none waits for a login show their toasts. -/
theorem foldlM_perform {ran : List (Runnable ρ)} (hran : ∀ p, .loginIntercept p ∉ ran)
    (s : State ω ο ρ) :
    ran.foldlM State.perform s =
      some { s with toasts := s.toasts ++ ran.filterMap Runnable.message } := by
  induction ran generalizing s with
  | nil => simp
  | cons runnable ran ih =>
      have htail : ∀ p, .loginIntercept p ∉ ran := fun p hp ↦ hran p (List.mem_cons_of_mem _ hp)
      cases runnable with
      | loginIntercept p => exact absurd List.mem_cons_self (hran p)
      | showToast message =>
          rw [List.foldlM_cons, State.perform, Option.bind_eq_bind, Option.bind_some, ih htail]
          simp [Runnable.message]
      | other runnable =>
          rw [List.foldlM_cons, State.perform, Option.bind_eq_bind, Option.bind_some, ih htail]
          rfl

end

/-! ## The account -/

section

variable [DecidableEq ω] [DecidableEq ο]

/-- No route waits for a login. -/
def Unobserved (account : Login.State ω (Observer ο)) : Prop :=
  account.loginLiveData.ObservedBy fun observer ↦ observer.answer = none

theorem unobserved_login {account : Login.State ω (Observer ο)} (h : Unobserved account)
    (context : Login.Context ω) (observer : ο) :
    Unobserved (Login.login account context (.other observer)).1 ∧
      ∃ calls, (Login.login account context (.other observer)).1.calls = account.calls ++ calls ∧
        ∀ c ∈ calls, c.wrapper.observer.answer = none := by
  unfold Unobserved
  obtain ⟨owner, active, hlive, hcalls, -⟩ | ⟨hlive, hcalls, -⟩ :=
    Login.login_cases account context (.other observer)
  · have hnew := h.concat (w := account.loginLiveData.newWrapper owner active (.other observer))
      rfl (account.loginLiveData.registrations + 1)
    exact ⟨hlive ▸ hnew.notify, _, hcalls, hnew.calls⟩
  · exact ⟨hlive ▸ h, [], by rw [hcalls, List.append_nil], by simp⟩

omit [DecidableEq ω] in
theorem unobserved_loginSuccess {account : Login.State ω (Observer ο)} (h : Unobserved account)
    (boardingPass : String) :
    Unobserved (Login.loginSuccess account boardingPass) ∧
      ∃ calls, (Login.loginSuccess account boardingPass).calls = account.calls ++ calls ∧
        ∀ c ∈ calls, c.wrapper.observer.answer = none := by
  have hset : ObservedBy (fun observer ↦ observer.answer = none)
      { account.loginLiveData with
        version := account.loginLiveData.version + 1
        data := some true } := h
  refine ⟨?_, _, rfl, hset.calls⟩
  rw [Unobserved, Login.loginSuccess_observers]
  intro w hw
  exact hset.notify w (List.mem_of_mem_filter hw)

omit [DecidableEq ο] in
theorem unobserved_onStateChanged {account : Login.State ω (Observer ο)}
    (h : Unobserved account) (owner : ω) (state : Lifecycle) :
    Unobserved (Login.onStateChanged account owner state) ∧
      ∃ calls, (Login.onStateChanged account owner state).calls = account.calls ++ calls ∧
        ∀ c ∈ calls, c.wrapper.observer.answer = none := by
  refine ⟨?_, _, rfl, ?_⟩
  · cases state with
    | active => exact h.notify.setActive owner true
    | inactive => exact h.setActive owner false
    | destroyed => exact fun w hw ↦ h w (List.mem_of_mem_filter hw)
  · cases state with
    | active => exact h.calls
    | inactive | destroyed => simp [LiveData.onStateChanged]

/-- What others do with the account answers no navigation. -/
theorem setAccount_of_step {s : State ω ο ρ} {action : Login.Action ω ο}
    {account : Login.State ω (Observer ο)} (h : Unobserved s.account)
    (hstep : Login.step s.account (ofAccount action) = some account) :
    Unobserved account ∧ s.setAccount account = { s with account := account } := by
  have hcalls : Unobserved account ∧ ∃ calls, account.calls = s.account.calls ++ calls ∧
      ∀ c ∈ calls, c.wrapper.observer.answer = none := by
    cases action with
    | login context observer =>
        obtain rfl := Option.some.inj hstep
        exact unobserved_login h context observer
    | loginSuccess boardingPass =>
        obtain rfl := Option.some.inj hstep
        exact unobserved_loginSuccess h boardingPass
    | onStateChanged owner state =>
        obtain ⟨-, hsome⟩ := Option.ite_none_left_eq_some.mp hstep
        obtain rfl := Option.some.inj hsome
        exact unobserved_onStateChanged h owner state
  obtain ⟨hunobserved, calls, heq, hnone⟩ := hcalls
  refine ⟨hunobserved, ?_⟩
  rw [State.setAccount, heq, List.drop_left, List.filterMap_eq_nil_iff.mpr hnone,
    List.append_nil]

end

/-! ## Runs -/

section

variable [DecidableEq ω] [DecidableEq ο] {account : Login.State ω (Observer ο)}
  {actions : List (Action ω ο ρ)} {s s' : State ω ο ρ}

/-- After the actions every navigation has its answer, and of the interceptor's own runnables only
toasts will run; the account is what others have made of it. -/
structure Answered (account : Login.State ω (Observer ο)) (actions : List (Action ω ο ρ))
    (s : State ω ο ρ) : Prop where
  answers : s.answers = (actions.filterMap Action.postcard).map fun p ↦ (p, p.verdict)
  account : run Login.step account (actions.filterMap Action.login) = some s.account
  unobserved : Unobserved s.account
  toasts : (s.toasts.map Runnable.showToast ++
      (waiting s.handler.queue).filter Runnable.isOwn).Perm
    (((actions.filterMap Action.postcard).filterMap Postcard.toast).map Runnable.showToast)

theorem Answered.process (h : Answered account actions s) (postcard : Postcard) :
    Answered account (actions ++ [.process postcard]) (s.process postcard) := by
  have hanswers : s.answers ++ [(postcard, postcard.verdict)] =
      ((actions ++ [Action.process postcard]).filterMap Action.postcard).map
        fun p ↦ (p, p.verdict) := by
    rw [h.answers, List.filterMap_append, List.map_append]
    rfl
  have haccount : run Login.step account
      ((actions ++ [Action.process postcard]).filterMap Action.login) = some s.account := by
    rw [List.filterMap_append]
    exact (congrArg _ (List.append_nil _)).trans h.account
  have hwanted : ((actions ++ [Action.process postcard]).filterMap Action.postcard).filterMap
      Postcard.toast =
        (actions.filterMap Action.postcard).filterMap Postcard.toast ++ postcard.toast.toList := by
    rw [List.filterMap_append, List.filterMap_append]
    cases htoast : postcard.toast <;> simp [Action.postcard, htoast]
  obtain ⟨htoast, hprocess⟩ | ⟨htoast, hprocess⟩ | ⟨message, htoast, hprocess⟩ :=
    process_cases s postcard
  · rw [hprocess]
    refine ⟨hanswers, haccount, h.unobserved, ?_⟩
    rw [hwanted, htoast, Option.toList_none, List.append_nil]
    exact h.toasts
  · rw [hprocess]
    refine ⟨hanswers, haccount, h.unobserved, ?_⟩
    rw [hwanted, htoast, Option.toList_none, List.append_nil]
    -- the lambda runs nothing
    have hlambda := (waiting_enqueue s.handler (.lambda (.loginIntercept postcard))
      s.handler.now).filter Runnable.isOwn
    exact (hlambda.append_left _).trans h.toasts
  · rw [hprocess]
    refine ⟨hanswers, haccount, h.unobserved, ?_⟩
    rw [hwanted, htoast, List.map_append]
    have hnew := (waiting_enqueue s.handler (.runnable (.showToast message))
      s.handler.now).filter Runnable.isOwn
    calc
      _ = _ := rfl
      List.Perm _ (s.toasts.map Runnable.showToast ++
          .showToast message :: (waiting s.handler.queue).filter Runnable.isOwn) :=
        hnew.append_left _
      List.Perm _ (.showToast message :: (s.toasts.map Runnable.showToast ++
          (waiting s.handler.queue).filter Runnable.isOwn)) := List.perm_middle
      List.Perm _ (.showToast message :: ((actions.filterMap Action.postcard).filterMap
          Postcard.toast).map Runnable.showToast) := h.toasts.cons _
      List.Perm _ _ := (List.perm_append_singleton _ _).symm

theorem Answered.handler [DecidableEq ρ] (h : Answered account actions s)
    {event : MainHandler.Event ρ} (hstep : step s (.handler event) = some s') :
    Answered account (actions ++ [.handler event]) s' := by
  obtain ⟨handler, hhandler, hperform⟩ := Option.bind_eq_some_iff.mp hstep
  obtain ⟨ran, hran, hwaiting⟩ := waiting_step hhandler
  rw [List.filter_append] at hwaiting
  -- whatever is the interceptor's own is a toast
  have hown : ∀ p, Runnable.loginIntercept p ∉ ran := by
    intro p hp
    have hmem := (hwaiting.append_left (s.toasts.map Runnable.showToast)).trans h.toasts
      |>.mem_iff.mp (List.mem_append_right _ (List.mem_append_left _
        (List.mem_filter.mpr ⟨hp, rfl⟩)))
    simp at hmem
  rw [hran, List.drop_left, foldlM_perform hown] at hperform
  obtain rfl := Option.some.inj hperform
  have hprocessed : (actions ++ [Action.handler event]).filterMap Action.postcard =
      actions.filterMap Action.postcard := by
    rw [List.filterMap_append]
    exact List.append_nil _
  have hlogins : (actions ++ [Action.handler event]).filterMap Action.login =
      actions.filterMap Action.login := by
    rw [List.filterMap_append]
    exact List.append_nil _
  refine ⟨hprocessed ▸ h.answers, hlogins ▸ h.account, h.unobserved, ?_⟩
  rw [hprocessed, List.map_append, map_filterMap_message hown, List.append_assoc]
  exact (hwaiting.append_left _).trans h.toasts

theorem Answered.setAccount (h : Answered account actions s) {action : Login.Action ω ο}
    {account' : Login.State ω (Observer ο)}
    (hstep : Login.step s.account (ofAccount action) = some account') :
    Answered account (actions ++ [.account action]) (s.setAccount account') := by
  obtain ⟨hunobserved, hset⟩ := setAccount_of_step h.unobserved hstep
  have hprocessed : (actions ++ [Action.account action]).filterMap Action.postcard =
      actions.filterMap Action.postcard := by
    rw [List.filterMap_append]
    exact List.append_nil _
  rw [hset]
  refine ⟨hprocessed ▸ h.answers, ?_, hunobserved, hprocessed ▸ h.toasts⟩
  rw [List.filterMap_append]
  exact run_concat_eq_some_iff.mpr ⟨s.account, h.account, hstep⟩

theorem Answered.step [DecidableEq ρ] (h : Answered account actions s) {a : Action ω ο ρ}
    (hstep : step s a = some s') : Answered account (actions ++ [a]) s' := by
  cases a with
  | process postcard =>
      obtain rfl := Option.some.inj hstep
      exact h.process postcard
  | handler event => exact h.handler hstep
  | account action =>
      obtain ⟨account', haccount, rfl⟩ := Option.map_eq_some_iff.mp hstep
      exact h.setAccount haccount

end

/-- Every navigation is answered once and from its flags alone, in the order they came; no login
starts or goes on because of one, and the toasts are shown once or wait. -/
theorem answers_of_run [DecidableEq ω] [DecidableEq ο] [DecidableEq ρ]
    {context : Login.Context ω} {now : ℕ} {lifecycle : ω → Lifecycle}
    {preference : Option String} {actions : List (Action ω ο ρ)} {s : State ω ο ρ}
    (hrun : run step (start context now lifecycle preference) actions = some s) :
    s.answers = (actions.filterMap Action.postcard).map (fun p ↦ (p, p.verdict)) ∧
      run Login.step { lifecycle := lifecycle, preference := preference }
        (actions.filterMap Action.login) = some s.account ∧
      (s.toasts ++ (waiting s.handler.queue).filterMap Runnable.message).Perm
        ((actions.filterMap Action.postcard).filterMap Postcard.toast) := by
  have hstart : Answered { lifecycle := lifecycle, preference := preference }
      [] (start context now lifecycle preference : State ω ο ρ) :=
    ⟨rfl, rfl, by simp [Unobserved, ObservedBy, start], .refl _⟩
  have hanswered := run_history (fun _ _ _ _ h hstep ↦ h.step hstep) hstart hrun
  refine ⟨hanswered.answers, hanswered.account, ?_⟩
  have hshown : ∀ messages : List String,
      (messages.map Runnable.showToast).filterMap (Runnable.message (ρ := ρ)) = messages := by
    intro messages
    rw [List.filterMap_map]
    exact List.filterMap_some
  have hown : ((waiting s.handler.queue).filter Runnable.isOwn).filterMap Runnable.message =
      (waiting s.handler.queue).filterMap Runnable.message := by
    rw [List.filterMap_filter]
    congr 1
    funext runnable
    cases runnable <;> rfl
  have htoasts := hanswered.toasts.filterMap Runnable.message
  rwa [List.filterMap_append, hshown, hown, hshown] at htoasts

/-- A page for members, one for which somebody logs in meanwhile, and a free one. -/
def threeNavigations : List (Action (Fin 1) (Fin 1) (Fin 1)) :=
  [.process ⟨0, 4⟩, .process ⟨1, 3⟩, .account (.login .application 0), .handler (.post 0),
    .handler .dispatch, .handler .dispatch, .account (.loginSuccess "pass"), .process ⟨2, 8⟩]

theorem answers_of_run_threeNavigations :
    ∃ s, run step (start .application 5 (fun _ ↦ .active) none) threeNavigations = some s ∧
      s.answers = [(⟨0, 4⟩, .onInterrupt "need become vip"), (⟨1, 3⟩, .onInterrupt "need login"),
        (⟨2, 8⟩, .onContinue)] := by
  have hsome : (run step (start .application 5 (fun _ ↦ .active) none)
    threeNavigations).isSome := by decide
  obtain ⟨s, hrun⟩ := Option.isSome_iff_exists.mp hsome
  refine ⟨s, hrun, (answers_of_run hrun).1.trans ?_⟩
  decide

end HiApp.Route
