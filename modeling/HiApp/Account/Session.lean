import HiApp.Account.Login
import HiApp.Restful.Convert

/-!
# The session

The login page puts the boarding pass of a login into the preferences and into memory, and every
request of the app carries it.  The process may die in between; what is left are the preferences.
-/

namespace HiApp.Account

open Runs LiveData Restful

variable {ω ο : Type*}

namespace Login

/-- What is not in memory is looked up in the preferences and kept. -/
def getBoardingPass (s : State ω ο) : State ω ο × Option String :=
  if s.boardingPass.getD "" = "" then
    ({ s with boardingPass := s.preference }, s.preference)
  else (s, s.boardingPass)

def isLogin (s : State ω ο) : State ω ο × Bool :=
  ((getBoardingPass s).1, (getBoardingPass s).2.getD "" ≠ "")

end Login

/-- `boardingPass` is what the login page itself keeps in the preferences, and `sent` are the
requests of the app. -/
structure Session (ω ο : Type*) where
  account : Login.State ω ο
  boardingPass : Option String := none
  sent : List (HiRequest LinkedHashMap) := []

namespace Session

/-- In a new process the owners are where they are. -/
inductive Action (ω ο : Type*) where
  | login (context : Login.Context ω) (observer : ο)
  | onStateChanged (owner : ω) (state : Lifecycle)
  | onLoginResponse (response : HiResponse String)
  | send (request : HiRequest LinkedHashMap)
  | restart (lifecycle : ω → Lifecycle)

/-- `onSuccess` in `goLogin`, which throws for a success without data. -/
def onLoginResponse [DecidableEq ο] (s : Session ω ο) (response : HiResponse String) :
    Option (Session ω ο) :=
  if response.code = HiResponse.success then
    response.data.map fun data ↦
      { s with account := Login.loginSuccess s.account data, boardingPass := some data }
  else some s

/-- The interceptors of the app see to the headers. -/
def send (s : Session ω ο) (request : HiRequest LinkedHashMap) : Session ω ο :=
  let pass := Login.getBoardingPass s.account
  { s with
    account := pass.1
    sent := s.sent ++ [(ApiFactory.call (V := Unit) pass.2 request).sent] }

def restart (s : Session ω ο) (lifecycle : ω → Lifecycle) : Session ω ο :=
  { s with account := { lifecycle := lifecycle, preference := s.account.preference } }

/-- A process that finds a pass in the preferences, or none. -/
def start (lifecycle : ω → Lifecycle) (pass : Option String) : Session ω ο :=
  { account := { lifecycle := lifecycle, preference := pass }, boardingPass := pass }

def step [DecidableEq ω] [DecidableEq ο] (s : Session ω ο) : Action ω ο → Option (Session ω ο)
  | .login context observer =>
      some { s with account := (Login.login s.account context observer).1 }
  | .onStateChanged owner state =>
      if s.account.lifecycle owner = .destroyed then none
      else some { s with account := Login.onStateChanged s.account owner state }
  | .onLoginResponse response => s.onLoginResponse response
  | .send request => some (s.send request)
  | .restart lifecycle => some (s.restart lifecycle)

end Session

/-! ## What a session is for -/

/-- One boarding pass, and those that the requests should carry. -/
structure Credential where
  pass : Option String
  carried : List String := []

/-- A login replaces the pass, and nothing else does. -/
def Credential.step (c : Credential) : Session.Action ω ο → Credential
  | .onLoginResponse response =>
      if response.code = HiResponse.success then { c with pass := response.data } else c
  | .send _ => { c with carried := c.carried ++ [c.pass.getD ""] }
  | .login _ _ | .onStateChanged _ _ | .restart _ => c

/-- The value of a header. -/
def header (request : HiRequest LinkedHashMap) (name : String) : Option String :=
  (request.headers.getD []).lookup name

/-! ## Headers -/

theorem header_addHeader (request : HiRequest LinkedHashMap) (key value name : String) :
    header (request.addHeader key value) name =
      if name = key then some value else header request name :=
  LinkedHashMap.lookup_put _ _ _ _

theorem header_sent (pass : Option String) (request : HiRequest LinkedHashMap) :
    header (ApiFactory.call (V := Unit) pass request).sent "boarding-pass" =
      some (pass.getD "") := by
  have hsent : (ApiFactory.call (V := Unit) pass request).sent =
      (request.addHeader "boarding-pass" (pass.getD "")).addHeader
        "auth-token" "MTU5Mjg1MDg3NDcwNw==" := rfl
  rw [hsent, header_addHeader, if_neg (by decide), header_addHeader, if_pos rfl]

/-! ## Steps without a login -/

namespace Login

/-- The pass is left alone, and nobody is called before a value was set. -/
structure KeepsPass (s s' : State ω ο) : Prop where
  boardingPass : s'.boardingPass = s.boardingPass
  preference : s'.preference = s.preference
  data : s'.loginLiveData.data = s.loginLiveData.data
  calls : s.loginLiveData.data = none → s'.calls = s.calls

section

variable [DecidableEq ω] [DecidableEq ο]

theorem keepsPass_login (s : State ω ο) (context : Context ω) (observer : ο) :
    KeepsPass s (login s context observer).1 := by
  have hpass : (login s context observer).1.boardingPass = s.boardingPass ∧
      (login s context observer).1.preference = s.preference := by
    unfold login observeLogin
    cases context with
    | lifecycleOwner owner =>
        dsimp only
        cases s.loginLiveData.observe owner (s.lifecycle owner) observer <;> exact ⟨rfl, rfl⟩
    | null | application | other =>
        dsimp only
        cases s.loginLiveData.observeForever observer <;> exact ⟨rfl, rfl⟩
  refine ⟨hpass.1, hpass.2, ?_, ?_⟩
  · obtain ⟨_, _, hlive, -⟩ | ⟨hlive, -⟩ := login_cases s context observer
    · rw [hlive, register_data]
    · rw [hlive]
  · intro hdata
    obtain ⟨owner, active, -, hcalls, -⟩ | ⟨-, hcalls, -⟩ := login_cases s context observer
    · rw [hcalls, LiveData.register, notify_calls_of_data_eq_none, List.append_nil]
      exact hdata
    · exact hcalls

omit [DecidableEq ο] in
theorem keepsPass_onStateChanged (s : State ω ο) (owner : ω) (state : Lifecycle) :
    KeepsPass s (onStateChanged s owner state) := by
  refine ⟨rfl, rfl, ?_, ?_⟩
  · cases state with
    | active => exact notify_data
    | inactive | destroyed => rfl
  · intro hdata
    cases state with
    | active =>
        simp only [onStateChanged, State.deliver, LiveData.onStateChanged,
          notify_calls_of_data_eq_none hdata, List.append_nil]
    | inactive | destroyed => exact List.append_nil _

end

end Login

/-! ## Runs -/

/-- Memory and preferences hold the one pass, and the requests carried it. -/
structure Follows (c : Credential) (s : Session ω ο) : Prop where
  preference : s.account.preference = c.pass
  boardingPass : s.boardingPass = c.pass
  memory : s.account.boardingPass.getD "" = "" ∨ s.account.boardingPass = c.pass
  sent : s.sent.map (header · "boarding-pass") = c.carried.map some
  told : s.account.loginLiveData.data ≠ none ∨ s.account.calls ≠ [] → c.pass ≠ none

section

variable {c : Credential} {s s' : Session ω ο} {a : Session.Action ω ο}

theorem Follows.getBoardingPass (h : Follows c s) :
    (Login.getBoardingPass s.account).2 = c.pass := by
  unfold Login.getBoardingPass
  split
  · exact h.preference
  · exact h.memory.resolve_left ‹_›

theorem Follows.keepsPass (h : Follows c s) {account : Login.State ω ο}
    (hkeeps : Login.KeepsPass s.account account) : Follows c { s with account := account } := by
  refine ⟨hkeeps.preference.trans h.preference, h.boardingPass, ?_, h.sent, ?_⟩
  · rw [hkeeps.boardingPass]
    exact h.memory
  · rintro (hdata | hcalls)
    · exact h.told (.inl (hkeeps.data ▸ hdata))
    · by_cases hdata : s.account.loginLiveData.data = none
      · exact h.told (.inr (hkeeps.calls hdata ▸ hcalls))
      · exact h.told (.inl hdata)

theorem Follows.send (h : Follows c s) (request : HiRequest LinkedHashMap) :
    Follows { c with carried := c.carried ++ [c.pass.getD ""] } (s.send request) := by
  have hsent : (s.send request).sent = s.sent ++
      [(ApiFactory.call (V := Unit) (Login.getBoardingPass s.account).2 request).sent] := rfl
  have haccount : (s.send request).account = (Login.getBoardingPass s.account).1 := rfl
  refine ⟨?_, h.boardingPass, ?_, ?_, ?_⟩
  · rw [haccount, Login.getBoardingPass]
    split <;> exact h.preference
  · rw [haccount, Login.getBoardingPass]
    split
    · exact .inr h.preference
    · exact h.memory
  · rw [hsent, List.map_append, h.sent, List.map_append, List.map_singleton, header_sent,
      h.getBoardingPass, List.map_singleton]
  · rw [haccount, Login.getBoardingPass]
    split <;> exact h.told

variable [DecidableEq ω] [DecidableEq ο]

theorem Follows.step (h : Follows c s) (hstep : s.step a = some s') :
    Follows (c.step a) s' := by
  cases a with
  | login context observer =>
      obtain rfl := Option.some.inj hstep
      exact h.keepsPass (Login.keepsPass_login s.account context observer)
  | onStateChanged owner state =>
      obtain ⟨-, hs'⟩ := Option.ite_none_left_eq_some.mp hstep
      obtain rfl := Option.some.inj hs'
      exact h.keepsPass (Login.keepsPass_onStateChanged s.account owner state)
  | onLoginResponse response =>
      simp only [Session.step, Session.onLoginResponse] at hstep
      simp only [Credential.step]
      split at hstep
      · obtain ⟨data, hdata, rfl⟩ := Option.map_eq_some_iff.mp hstep
        rw [if_pos ‹_›, hdata]
        exact ⟨rfl, rfl, .inr rfl, h.sent, fun _ ↦ Option.some_ne_none data⟩
      · obtain rfl := Option.some.inj hstep
        rw [if_neg ‹_›]
        exact h
  | send request =>
      obtain rfl := Option.some.inj hstep
      exact h.send request
  | restart lifecycle =>
      obtain rfl := Option.some.inj hstep
      exact ⟨h.preference, h.boardingPass, .inl rfl, h.sent, by simp [Session.restart]⟩

end

/-- Whatever logins, requests and deaths of the process a run has: the requests carried the pass
of the last login before them, and it is that pass which says whether there is a login. -/
theorem session_follows [DecidableEq ω] [DecidableEq ο] {lifecycle : ω → Lifecycle}
    {pass : Option String} {actions : List (Session.Action ω ο)} {s : Session ω ο}
    {c : Credential} (hc : c = actions.foldl Credential.step ⟨pass, []⟩)
    (hrun : run Session.step (Session.start lifecycle pass) actions = some s) :
    s.sent.map (header · "boarding-pass") = c.carried.map some ∧
      (Login.getBoardingPass s.account).2 = c.pass ∧
      ((Login.isLogin s.account).2 = true ↔ c.pass.getD "" ≠ "") ∧
      s.boardingPass = c.pass ∧
      (s.account.calls ≠ [] → c.pass ≠ none) := by
  have hstart : Follows ⟨pass, []⟩ (Session.start (ο := ο) lifecycle pass) :=
    ⟨rfl, rfl, .inl rfl, rfl, by simp [Session.start]⟩
  have hfollows : Follows c s :=
    hc ▸ run_simulation (fun _ _ _ _ h hstep ↦ h.step hstep) hstart hrun
  refine ⟨hfollows.sent, hfollows.getBoardingPass, ?_, hfollows.boardingPass, ?_⟩
  · rw [Login.isLogin, hfollows.getBoardingPass, decide_eq_true_eq]
  · exact fun hcalls ↦ hfollows.told (.inr hcalls)

/-- A first login, a request, a new process and a request, and the same for a second login. -/
def twoLogins : List (Session.Action (Fin 1) (Fin 1)) :=
  [.send {}, .login .application 0, .onLoginResponse { data := some "first" }, .send {},
    .restart fun _ ↦ .active, .send {}, .onLoginResponse { code := 5003 },
    .onLoginResponse { data := some "second" }, .restart fun _ ↦ .inactive, .send {}]

theorem session_follows_twoLogins :
    ∃ s, run Session.step (Session.start (fun _ ↦ .active) none) twoLogins = some s ∧
      s.sent.map (header · "boarding-pass") =
        [some "", some "first", some "first", some "second"] := by
  have hsome : (run Session.step (Session.start (fun _ ↦ .active) none) twoLogins).isSome := rfl
  obtain ⟨s, hrun⟩ := Option.isSome_iff_exists.mp hsome
  have hc : ⟨some "second", ["", "first", "first", "second"]⟩ =
      twoLogins.foldl Credential.step ⟨none, []⟩ := rfl
  exact ⟨s, hrun, (session_follows hc hrun).1⟩

end HiApp.Account
