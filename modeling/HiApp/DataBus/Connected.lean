import HiApp.DataBus.HiDataBus

/-!
# Subscribers that stay connected

The map entry of an event name is shared by all its subscribers, but it is removed
when any one of them is destroyed; the next `with` makes a new object that the
others are not registered with.
-/

namespace HiApp.DataBus

open Runs LiveData

variable {ω ο ν : Type*}

/-- An owner that lives has subscribed to an event with an observer. -/
structure Subscription (ω ο : Type*) where
  eventName : String
  owner : ω
  observer : ο
  deriving DecidableEq

/-- The bus, with what its users may expect of it: the subscriptions of live owners,
and the values that were posted and that a subscription is still to be given. -/
structure Monitor (ω ο ν : Type*) where
  bus : HiDataBus ω ο ν := {}
  subscriptions : List (Subscription ω ο) := []
  owed : List (Subscription ω ο × ν) := []

namespace Monitor

variable [DecidableEq ω] [DecidableEq ο]

/-- What the observers are given by a step. -/
def given (b : HiDataBus ω ο ν) (a : Action ω ο ν) : List (String × ο × ν) :=
  ((b.step a).map fun b' ↦ b'.received.drop b.received.length).getD []

def subscribe (m : Monitor ω ο ν) (eventName : String) (owner : ω) (observer : ο) :
    List (Subscription ω ο) :=
  if m.bus.destroyed owner then m.subscriptions
  else m.subscriptions ++ [⟨eventName, owner, observer⟩]

def subscriptionsAfter (m : Monitor ω ο ν) : Action ω ο ν → List (Subscription ω ο)
  | .observe eventName owner observer | .observerSticky eventName owner _ observer =>
      m.subscribe eventName owner observer
  | .destroy owner => m.subscriptions.filter fun sub ↦ sub.owner ≠ owner
  | _ => m.subscriptions

section

variable [DecidableEq ν]

def owedAfter (m : Monitor ω ο ν) : Action ω ο ν → List (Subscription ω ο × ν)
  | .postValue eventName value | .postStickyData eventName value =>
      m.owed ++ (m.subscriptions.filter fun sub ↦ sub.eventName = eventName).map (·, value)
  | .runPosted index =>
      m.owed.filter fun x ↦
        (x.1.eventName, x.1.observer, x.2) ∉ given m.bus (.runPosted index)
  | .destroy owner => m.owed.filter fun x ↦ x.1.owner ≠ owner
  | _ => m.owed

def step (m : Monitor ω ο ν) (a : Action ω ο ν) : Option (Monitor ω ο ν) :=
  (m.bus.step a).map fun bus ↦
    { bus, subscriptions := m.subscriptionsAfter a, owed := m.owedAfter a }

end

/-- A value sent now is given to every subscriber of its event at once, and a value
that was posted is still to come. -/
structure Served (m : Monitor ω ο ν) : Prop where
  setValue : ∀ sub ∈ m.subscriptions, ∀ value, (sub.eventName, sub.observer, value) ∈
    given m.bus (.setValue sub.eventName value)
  setStickyData : ∀ sub ∈ m.subscriptions, ∀ value, (sub.eventName, sub.observer, value) ∈
    given m.bus (.setStickyData sub.eventName value)
  posted : ∀ x ∈ m.owed, ∃ index d, m.bus.liveDatas[index]? = some d ∧
    d.eventName = x.1.eventName ∧ d.pending = some x.2 ∧
    (x.1.eventName, x.1.observer, x.2) ∈ given m.bus (.runPosted index)

omit [DecidableEq ω] [DecidableEq ο] in
/-- An owner is destroyed only when no other live owner has subscribed to one of its
events, and no value is posted while a subscriber waits for another one. -/
def Considerate (m : Monitor ω ο ν) : Action ω ο ν → Prop
  | .destroy owner => ∀ sub ∈ m.subscriptions, sub.owner = owner →
      ∀ other ∈ m.subscriptions, other.owner ≠ owner → other.eventName ≠ sub.eventName
  | .postValue eventName value | .postStickyData eventName value =>
      ∀ x ∈ m.owed, x.1.eventName = eventName → x.2 = value
  | _ => True

/-- Every subscription is registered with the object that the map leads to, and
nothing is registered elsewhere. -/
structure Connected (m : Monitor ω ο ν) : Prop where
  valid : m.bus.Valid
  linked : ∀ sub ∈ m.subscriptions, ∃ w ∈ (m.bus.object sub.eventName).live.observers,
    w.owner = some sub.owner ∧
      (m.bus.object sub.eventName).caller w.observer = some sub.observer
  owned : ∀ d ∈ m.bus.liveDatas, ∀ w ∈ d.live.observers, ∃ sub ∈ m.subscriptions,
    sub.eventName = d.eventName ∧ w.owner = some sub.owner
  mapped : ∀ index d, m.bus.liveDatas[index]? = some d → d.live.observers ≠ [] →
    m.bus.eventMap d.eventName = some index
  hooked : ∀ owner eventName, (owner, eventName) ∈ m.bus.hooks ↔
    ∃ sub ∈ m.subscriptions, sub.owner = owner ∧ sub.eventName = eventName
  owed : ∀ x ∈ m.owed, x.1 ∈ m.subscriptions ∧
    (m.bus.object x.1.eventName).pending = some x.2

omit [DecidableEq ω] [DecidableEq ο] in
/-- Every registered observer is given a value that is set. -/
theorem mem_setValue {d : StickyLiveData ω ο ν} (h : d.Valid)
    {w : Wrapper ω (Target ο)} (hw : w ∈ d.live.observers) {observer : ο}
    (hcaller : d.caller w.observer = some observer) (value : ν) :
    (observer, value) ∈ (d.setValue value).2 := by
  rw [h.setValue_received, List.mem_flatMap]
  exact ⟨w, hw, by simp [hcaller]⟩

section

variable {b : HiDataBus ω ο ν} {a : Action ω ο ν}

theorem given_of_step {b' : HiDataBus ω ο ν} (hstep : b.step a = some b')
    {new : List (String × ο × ν)} (hreceived : b'.received = b.received ++ new) :
    given b a = new := by
  simp [given, hstep, hreceived]

theorem given_setValue (h : b.Valid) (eventName : String) (value : ν) :
    given b (.setValue eventName value) =
      ((b.object eventName).setValue value).2.map (eventName, ·) :=
  given_of_step rfl h.onEvent_received

theorem given_setStickyData (h : b.Valid) (eventName : String) (value : ν) :
    given b (.setStickyData eventName value) =
      ((b.object eventName).setStickyData value).2.map (eventName, ·) :=
  given_of_step rfl h.onEvent_received

theorem given_runPosted {index : ℕ} {d : StickyLiveData ω ο ν} {value : ν}
    (hget : b.liveDatas[index]? = some d) (hpending : d.pending = some value) :
    given b (.runPosted index) =
      (StickyLiveData.setValue { d with pending := none } value).2.map (d.eventName, ·) := by
  have hstep : b.step (.runPosted index) = some (b.on index StickyLiveData.runPosted) := by
    simp [HiDataBus.step, hget, hpending]
  refine given_of_step hstep ?_
  simp [HiDataBus.on, hget, StickyLiveData.runPosted, hpending]

end

variable {m m' : Monitor ω ο ν} {a : Action ω ο ν}

/-- Who is registered with the object that the map leads to is served. -/
theorem Connected.served (h : m.Connected) : m.Served := by
  refine ⟨fun sub hsub value ↦ ?_, fun sub hsub value ↦ ?_, fun x hx ↦ ?_⟩
  · obtain ⟨w, hw, -, hcaller⟩ := h.linked sub hsub
    rw [given_setValue h.valid]
    exact List.mem_map_of_mem (mem_setValue (h.valid.object _).1 hw hcaller value)
  · obtain ⟨w, hw, -, hcaller⟩ := h.linked sub hsub
    rw [given_setStickyData h.valid]
    exact List.mem_map_of_mem
      (mem_setValue ((h.valid.object _).1.withStickyData (some value)) hw hcaller value)
  · obtain ⟨hsub, hpending⟩ := h.owed x hx
    obtain ⟨w, hw, -, hcaller⟩ := h.linked x.1 hsub
    obtain ⟨index, hget⟩ : ∃ index,
        m.bus.liveDatas[index]? = some (m.bus.object x.1.eventName) := by
      cases hmap : m.bus.eventMap x.1.eventName with
      | none => simp [HiDataBus.object, hmap] at hw
      | some index => exact ⟨index, h.valid.getElem?_of_eventMap hmap⟩
    refine ⟨index, _, hget, (h.valid.object _).2, hpending, ?_⟩
    rw [given_runPosted hget hpending, List.mem_map]
    exact ⟨_, mem_setValue ((h.valid.object _).1.withPending none) hw hcaller x.2,
      by rw [(h.valid.object _).2]⟩

omit [DecidableEq ω] [DecidableEq ο] in
/-- The observers of the object that a name leads to are there for subscriptions of the
name. -/
theorem Connected.owned_object (h : m.Connected) {eventName : String}
    {w : Wrapper ω (Target ο)} (hw : w ∈ (m.bus.object eventName).live.observers) :
    ∃ sub ∈ m.subscriptions, sub.eventName = eventName ∧ w.owner = some sub.owner := by
  cases hindex : m.bus.eventMap eventName with
  | none => simp [HiDataBus.object, hindex] at hw
  | some index =>
      have hmem := List.mem_of_getElem? (h.valid.getElem?_of_eventMap hindex)
      have hsub := h.owned _ hmem w hw
      rwa [(h.valid.object eventName).2] at hsub

omit [DecidableEq ω] [DecidableEq ο] in
/-- What a method of the object of a name must do to keep the subscribers of the
name connected: keep their registrations, and make the new ones. -/
theorem Connected.onEvent (h : m.Connected) {eventName : String}
    {f : StickyLiveData ω ο ν → StickyLiveData ω ο ν × List (ο × ν)}
    {b : HiDataBus ω ο ν} (hmap : b.eventMap = m.bus.eventMap)
    (hdatas : b.liveDatas = m.bus.liveDatas)
    {subscriptions : List (Subscription ω ο)} (extra : List (Subscription ω ο))
    (hsubscriptions : subscriptions = m.subscriptions ++ extra)
    (hhooks : ∀ owner name, (owner, name) ∈ b.hooks ↔
      ∃ sub ∈ subscriptions, sub.owner = owner ∧ sub.eventName = name)
    (hname : (f (m.bus.object eventName)).1.eventName = eventName)
    (hvalid : (f (m.bus.object eventName)).1.Valid)
    (hkeep : ∀ w ∈ (m.bus.object eventName).live.observers,
      ∃ w' ∈ (f (m.bus.object eventName)).1.live.observers,
        w'.owner = w.owner ∧ w'.observer = w.observer)
    (hcaller : ∀ t observer, (m.bus.object eventName).caller t = some observer →
      (f (m.bus.object eventName)).1.caller t = some observer)
    (hnew : ∀ w ∈ (f (m.bus.object eventName)).1.live.observers,
      (∃ w₀ ∈ (m.bus.object eventName).live.observers, w₀.owner = w.owner) ∨
        ∃ sub ∈ extra, w.owner = some sub.owner)
    (hextra : ∀ sub ∈ extra, sub.eventName = eventName ∧
      ∃ w ∈ (f (m.bus.object eventName)).1.live.observers, w.owner = some sub.owner ∧
        (f (m.bus.object eventName)).1.caller w.observer = some sub.observer)
    {owed : List (Subscription ω ο × ν)}
    (howed : ∀ x ∈ owed, x.1 ∈ subscriptions ∧
      (Function.update m.bus.object eventName (f (m.bus.object eventName)).1
        x.1.eventName).pending = some x.2) :
    Connected { bus := b.onEvent eventName f, subscriptions, owed } := by
  have hobject : b.object = m.bus.object := by
    funext name
    simp only [HiDataBus.object, hmap, hdatas]
  have hb : b.Valid := ⟨hmap ▸ hdatas ▸ h.valid.mapped, hdatas ▸ h.valid.objects⟩
  subst hsubscriptions
  refine ⟨?_, ?_, ?_, ?_, ?_, ?_⟩
  · exact hb.onEvent (by rw [hobject]; exact hname) (by rw [hobject]; exact hvalid)
  · intro sub hsub
    simp only [hb.onEvent_object, hobject]
    rcases List.mem_append.mp hsub with hold | hnew
    · obtain ⟨w, hw, howner, hcall⟩ := h.linked sub hold
      by_cases heq : sub.eventName = eventName
      · rw [heq, Function.update_self]
        rw [heq] at hw hcall
        obtain ⟨w', hw', howner', hobserver'⟩ := hkeep w hw
        exact ⟨w', hw', howner'.trans howner, hobserver' ▸ hcaller _ _ hcall⟩
      · rw [Function.update_of_ne heq]
        exact ⟨w, hw, howner, hcall⟩
    · obtain ⟨heq, hw⟩ := hextra sub hnew
      rwa [heq, Function.update_self]
  · intro d hd w hw
    obtain ⟨index, hindex⟩ := List.mem_iff_getElem?.mp hd
    simp only [hb.onEvent_getElem?, hobject] at hindex
    split at hindex
    · obtain rfl := Option.some.inj hindex
      rw [hname]
      rcases hnew w hw with ⟨w₀, hw₀, howner⟩ | ⟨sub, hsub, howner⟩
      · obtain ⟨sub, hsub, heq, howner₀⟩ := h.owned_object hw₀
        exact ⟨sub, List.mem_append_left _ hsub, heq, howner ▸ howner₀⟩
      · exact ⟨sub, List.mem_append_right _ hsub, (hextra sub hsub).1, howner⟩
    · obtain ⟨sub, hsub, heq⟩ := h.owned d (hdatas ▸ List.mem_of_getElem? hindex) w hw
      exact ⟨sub, List.mem_append_left _ hsub, heq⟩
  · intro index d hindex hne
    simp only [hb.onEvent_getElem?, hobject] at hindex
    simp only [hb.onEvent_eventMap, hmap]
    split at hindex
    · rename_i heq
      obtain rfl := Option.some.inj hindex
      rw [hname, Function.update_self, heq]
    · rename_i hindex'
      have hold := h.mapped index d (hdatas ▸ hindex) hne
      by_cases heq : d.eventName = eventName
      · -- the object is the one of the name, so it is the one that was changed
        exfalso
        apply hindex'
        rw [heq, ← hmap] at hold
        simp [HiDataBus.withEvent, hold]
      · rwa [Function.update_of_ne heq]
  · simpa only [hb.onEvent_hooks] using hhooks
  · intro x hx
    simpa only [hb.onEvent_object, hobject] using howed x hx

omit [DecidableEq ω] [DecidableEq ο] in
/-- A method that leaves the registrations as they are. -/
theorem Connected.send (h : m.Connected) {eventName : String}
    {f : StickyLiveData ω ο ν → StickyLiveData ω ο ν × List (ο × ν)}
    (hname : (f (m.bus.object eventName)).1.eventName = eventName)
    (hvalid : (f (m.bus.object eventName)).1.Valid)
    (hobservers : ((f (m.bus.object eventName)).1.live.observers.map
        fun w ↦ (w.observer, w.owner)) =
      (m.bus.object eventName).live.observers.map fun w ↦ (w.observer, w.owner))
    (hcaller : ∀ t, (f (m.bus.object eventName)).1.caller t = (m.bus.object eventName).caller t)
    {owed : List (Subscription ω ο × ν)}
    (howed : ∀ x ∈ owed, x.1 ∈ m.subscriptions ∧
      (Function.update m.bus.object eventName (f (m.bus.object eventName)).1
        x.1.eventName).pending = some x.2) :
    Connected { bus := m.bus.onEvent eventName f, subscriptions := m.subscriptions, owed } := by
  have hmem : ∀ {ws ws' : List (Wrapper ω (Target ο))},
      (ws'.map fun w ↦ (w.observer, w.owner)) = ws.map (fun w ↦ (w.observer, w.owner)) →
      ∀ w ∈ ws, ∃ w' ∈ ws', w'.owner = w.owner ∧ w'.observer = w.observer := by
    intro ws ws' hmap w hw
    have hpair := List.mem_map_of_mem (f := fun w ↦ (w.observer, w.owner)) hw
    rw [← hmap, List.mem_map] at hpair
    obtain ⟨w', hw', heq⟩ := hpair
    exact ⟨w', hw', congrArg Prod.snd heq, congrArg Prod.fst heq⟩
  refine h.onEvent rfl rfl [] (List.append_nil _).symm h.hooked hname hvalid
    (hmem hobservers) (fun t observer ht ↦ (hcaller t).trans ht) ?_ (by simp) howed
  intro w hw
  obtain ⟨w', hw', howner, -⟩ := hmem hobservers.symm w hw
  exact .inl ⟨w', hw', howner⟩

omit [DecidableEq ω] [DecidableEq ο] in
/-- A method that also leaves the pending value. -/
theorem Connected.owed_of_pending (h : m.Connected) {eventName : String}
    {d : StickyLiveData ω ο ν} (hpending : d.pending = (m.bus.object eventName).pending) :
    ∀ x ∈ m.owed, x.1 ∈ m.subscriptions ∧
      (Function.update m.bus.object eventName d x.1.eventName).pending = some x.2 := by
  intro x hx
  obtain ⟨hsub, hold⟩ := h.owed x hx
  refine ⟨hsub, ?_⟩
  by_cases heq : x.1.eventName = eventName
  · rw [heq, Function.update_self, hpending, ← heq, hold]
  · rw [Function.update_of_ne heq, hold]

omit [DecidableEq ω] [DecidableEq ο] in
theorem Connected.withEvent (h : m.Connected) (eventName : String) :
    Connected { m with bus := (m.bus.withEvent eventName).1 } := by
  rw [h.valid.withEvent_eq_onEvent]
  exact h.send (h.valid.object eventName).2 (h.valid.object eventName).1 rfl (fun _ ↦ rfl)
    (h.owed_of_pending rfl)

omit [DecidableEq ω] [DecidableEq ο] in
/-- `setValue` and `setStickyData`. -/
theorem Connected.setValue (h : m.Connected) (eventName : String)
    (stickyData : StickyLiveData ω ο ν → Option ν) (value : ν) :
    Connected { m with bus := m.bus.onEvent eventName fun d ↦
      StickyLiveData.setValue { d with mStickyData := stickyData d } value } := by
  obtain ⟨hvalid, hname⟩ := h.valid.object eventName
  refine h.send ?_ ?_ ?_ ?_ (h.owed_of_pending ?_)
  · exact (StickyLiveData.setValue_eventName value).trans hname
  · exact (hvalid.withStickyData _).setValue value
  · exact StickyLiveData.setValue_observers_map value
  · exact StickyLiveData.setValue_caller value
  · exact StickyLiveData.setValue_pending value

omit [DecidableEq ω] [DecidableEq ο] in
/-- `postValue` and `postStickyData`. -/
theorem Connected.postValue (h : m.Connected) (eventName : String)
    (stickyData : StickyLiveData ω ο ν → Option ν) (value : ν)
    {owed : List (Subscription ω ο × ν)}
    (howed : ∀ x ∈ owed, x.1 ∈ m.subscriptions ∧
      if x.1.eventName = eventName then x.2 = value
      else (m.bus.object x.1.eventName).pending = some x.2) :
    Connected
      { bus := m.bus.onEvent eventName fun d ↦
          (StickyLiveData.postValue { d with mStickyData := stickyData d } value, [])
        subscriptions := m.subscriptions, owed } := by
  obtain ⟨hvalid, hname⟩ := h.valid.object eventName
  refine h.send hname ?_ rfl (fun _ ↦ rfl) ?_
  · exact ⟨hvalid.live, hvalid.distinct, hvalid.active, hvalid.index_lt,
      fun ob hob ↦ (hvalid.lastVersion_le ob hob).trans (Nat.le_succ _)⟩
  · intro x hx
    obtain ⟨hsub, hvalue⟩ := howed x hx
    refine ⟨hsub, ?_⟩
    split at hvalue
    · rename_i heq
      rw [heq, Function.update_self, hvalue]
      rfl
    · rename_i hne
      rw [Function.update_of_ne hne, hvalue]

omit [DecidableEq ω] [DecidableEq ο] in
/-- The posted value is what the subscribers of the name wait for. -/
theorem Connected.forall_owed (h : m.Connected) {eventName : String} {value : ν}
    (hconsiderate : ∀ x ∈ m.owed, x.1.eventName = eventName → x.2 = value) :
    ∀ x ∈ m.owed ++
        (m.subscriptions.filter fun sub ↦ sub.eventName = eventName).map (·, value),
      x.1 ∈ m.subscriptions ∧
        if x.1.eventName = eventName then x.2 = value
        else (m.bus.object x.1.eventName).pending = some x.2 := by
  simp only [List.forall_mem_append, List.forall_mem_map, List.mem_filter, decide_eq_true_eq]
  constructor
  · intro x hx
    obtain ⟨hsub, hpending⟩ := h.owed x hx
    refine ⟨hsub, ?_⟩
    split
    · rename_i heq
      exact hconsiderate x hx heq
    · exact hpending
  · rintro sub ⟨hsub, heq⟩
    exact ⟨hsub, by simp [heq]⟩

omit [DecidableEq ω] [DecidableEq ο] in
/-- A method that adds registrations of one subscription, or none. -/
theorem Connected.extends (h : m.Connected) {eventName : String}
    {f : StickyLiveData ω ο ν → StickyLiveData ω ο ν × List (ο × ν)}
    {b : HiDataBus ω ο ν} (hmap : b.eventMap = m.bus.eventMap)
    (hdatas : b.liveDatas = m.bus.liveDatas) (extra : List (Subscription ω ο))
    (hhooks : ∀ owner name, (owner, name) ∈ b.hooks ↔
      ∃ sub ∈ m.subscriptions ++ extra, sub.owner = owner ∧ sub.eventName = name)
    (hvalid : (f (m.bus.object eventName)).1.Valid)
    (hext : StickyLiveData.Extends (m.bus.object eventName) (f (m.bus.object eventName)).1)
    (hnew : ∀ w ∈ (f (m.bus.object eventName)).1.live.observers,
      w ∈ (m.bus.object eventName).live.observers ∨ ∃ sub ∈ extra, w.owner = some sub.owner)
    (hextra : ∀ sub ∈ extra, sub.eventName = eventName ∧
      ∃ w ∈ (f (m.bus.object eventName)).1.live.observers, w.owner = some sub.owner ∧
        (f (m.bus.object eventName)).1.caller w.observer = some sub.observer) :
    Connected
      { bus := b.onEvent eventName f, subscriptions := m.subscriptions ++ extra
        owed := m.owed } := by
  refine h.onEvent hmap hdatas extra rfl hhooks
    (hext.eventName.trans (h.valid.object eventName).2) hvalid
    (fun w hw ↦ ⟨w, hext.observers.subset hw, rfl, rfl⟩) hext.caller ?_ hextra ?_
  · intro w hw
    rcases hnew w hw with hold | hsub
    · exact .inl ⟨w, hold, rfl⟩
    · exact .inr hsub
  · intro x hx
    obtain ⟨hsub, hpending⟩ := h.owed_of_pending hext.pending x hx
    exact ⟨List.mem_append_left _ hsub, hpending⟩

omit [DecidableEq ω] [DecidableEq ο] in
theorem Connected.addHook (h : m.Connected) {owner : ω} (halive : m.bus.destroyed owner = false)
    (eventName : String) (observer : ο) :
    ∀ owner' name, (owner', name) ∈ (m.bus.addHook owner eventName).hooks ↔
      ∃ sub ∈ m.subscriptions ++ [⟨eventName, owner, observer⟩],
        sub.owner = owner' ∧ sub.eventName = name := by
  intro owner' name
  simp only [HiDataBus.addHook, halive, Bool.false_eq_true, if_false, List.mem_append,
    h.hooked, List.mem_singleton, Prod.mk.injEq]
  constructor
  · rintro (⟨sub, hsub, hsame⟩ | ⟨rfl, rfl⟩)
    · exact ⟨sub, .inl hsub, hsame⟩
    · exact ⟨_, .inr rfl, rfl, rfl⟩
  · rintro ⟨sub, hsub | rfl, hsame⟩
    · exact .inl ⟨sub, hsub, hsame⟩
    · exact .inr ⟨hsame.1.symm, hsame.2.symm⟩

omit [DecidableEq ω] [DecidableEq ο] in
/-- A live owner's call that registers it. -/
theorem Connected.subscribe (h : m.Connected) {owner : ω}
    (halive : m.bus.destroyed owner = false) {eventName : String} {observer : ο}
    {f : StickyLiveData ω ο ν → StickyLiveData ω ο ν × List (ο × ν)}
    (hvalid : (f (m.bus.object eventName)).1.Valid)
    (hext : StickyLiveData.Extends (m.bus.object eventName) (f (m.bus.object eventName)).1)
    (hnew : ∀ w ∈ (f (m.bus.object eventName)).1.live.observers,
      w ∈ (m.bus.object eventName).live.observers ∨ w.owner = some owner)
    (hmem : ∃ w ∈ (f (m.bus.object eventName)).1.live.observers, w.owner = some owner ∧
      (f (m.bus.object eventName)).1.caller w.observer = some observer) :
    Connected
      { bus := (m.bus.addHook owner eventName).onEvent eventName f
        subscriptions := m.subscriptions ++ [⟨eventName, owner, observer⟩]
        owed := m.owed } := by
  refine h.extends ?_ ?_ [⟨eventName, owner, observer⟩] (h.addHook halive eventName observer)
    hvalid hext (by simpa using hnew) (by simpa using hmem)
  · simp [HiDataBus.addHook, halive]
  · simp [HiDataBus.addHook, halive]

omit [DecidableEq ω] [DecidableEq ο] in
/-- A destroyed owner's call makes a wrapper that is registered nowhere. -/
theorem Connected.subscribe_destroyed (h : m.Connected) {eventName : String}
    (sticky : Bool) (observer : ο) :
    Connected { m with bus := m.bus.onEvent eventName fun d ↦
      (d.newStickyObserver sticky observer, []) } := by
  have hext := StickyLiveData.extends_newStickyObserver (m.bus.object eventName) sticky observer
  have hvalid := (h.valid.object eventName).1.newStickyObserver sticky observer
  have hstay := h.extends (f := fun d ↦ (d.newStickyObserver sticky observer, [])) rfl rfl []
    (by simpa using h.hooked) hvalid hext (fun w hw ↦ .inl hw) (by simp)
  simpa using hstay

theorem Connected.observe (h : m.Connected) (eventName : String) (owner : ω) (observer : ο) :
    Connected
      { bus := (m.bus.addHook owner eventName).onEvent eventName
          fun d ↦ d.observe owner (m.bus.currentState owner) observer
        subscriptions := m.subscribe eventName owner observer, owed := m.owed } := by
  have hvalid := (h.valid.object eventName).1
  cases halive : m.bus.destroyed owner with
  | false =>
      simp only [Monitor.subscribe, HiDataBus.currentState, halive, Bool.false_eq_true, if_false]
      obtain ⟨⟨w, hw, howner, -, hcaller⟩, -⟩ := hvalid.mem_observe owner observer
      exact h.subscribe halive (hvalid.observe _ _) (hvalid.extends_observe _ _)
        (fun w hw ↦ hvalid.mem_or_owner_of_observe hw) ⟨w, hw, howner, hcaller⟩
  | true =>
      simp only [Monitor.subscribe, HiDataBus.currentState, HiDataBus.addHook, halive, if_true]
      exact h.subscribe_destroyed false observer

theorem Connected.observerSticky (h : m.Connected) (eventName : String) (owner : ω)
    (sticky : Bool) (observer : ο) :
    Connected
      { bus := (m.bus.addHook owner eventName).onEvent eventName
          fun d ↦ d.observerSticky owner (m.bus.currentState owner) sticky observer
        subscriptions := m.subscribe eventName owner observer, owed := m.owed } := by
  have hvalid := (h.valid.object eventName).1
  cases halive : m.bus.destroyed owner with
  | false =>
      simp only [Monitor.subscribe, HiDataBus.currentState, halive, Bool.false_eq_true, if_false]
      obtain ⟨w, hw, howner, -, hcaller⟩ := hvalid.mem_observerSticky owner sticky
        observer
      exact h.subscribe halive (hvalid.observerSticky _ _ _)
        (hvalid.extends_observerSticky _ _ _)
        (fun w hw ↦ hvalid.mem_or_owner_of_observerSticky hw) ⟨w, hw, howner, hcaller⟩
  | true =>
      simp only [Monitor.subscribe, HiDataBus.currentState, HiDataBus.addHook, halive, if_true]
      exact h.subscribe_destroyed sticky observer

section RunPosted

variable {index : ℕ} {d : StickyLiveData ω ο ν} {value : ν}

omit [DecidableEq ω] [DecidableEq ο] in
/-- A value that was posted to the object of its name is set there, and nobody waits
for it any longer. -/
theorem Connected.runPosted_mapped (h : m.Connected)
    (hmap : m.bus.eventMap d.eventName = some index)
    (hget : m.bus.liveDatas[index]? = some d) (hpending : d.pending = some value)
    {owed : List (Subscription ω ο × ν)}
    (howed : ∀ x ∈ owed, x ∈ m.owed ∧ x.1.eventName ≠ d.eventName) :
    Connected
      { bus := m.bus.on index StickyLiveData.runPosted
        subscriptions := m.subscriptions, owed } := by
  have hobject : m.bus.object d.eventName = d := by
    have hget' := h.valid.getElem?_of_eventMap hmap
    rw [hget, Option.some.injEq] at hget'
    exact hget'.symm
  have hon : m.bus.on index StickyLiveData.runPosted =
      m.bus.onEvent d.eventName StickyLiveData.runPosted := by
    simp [HiDataBus.onEvent, HiDataBus.withEvent, hmap]
  have hrun : d.runPosted = StickyLiveData.setValue { d with pending := none } value := by
    simp [StickyLiveData.runPosted, hpending]
  have hvalid : d.Valid := h.valid.objects d (List.mem_of_getElem? hget)
  rw [hon]
  refine h.send ?_ ?_ ?_ ?_ ?_
  · rw [hobject, hrun]
    exact StickyLiveData.setValue_eventName value
  · rw [hobject, hrun]
    exact (hvalid.withPending none).setValue value
  · rw [hobject, hrun]
    exact StickyLiveData.setValue_observers_map value
  · rw [hobject, hrun]
    exact StickyLiveData.setValue_caller value
  · intro x hx
    obtain ⟨hold, hne⟩ := howed x hx
    rw [Function.update_of_ne hne]
    exact h.owed x hold

omit [DecidableEq ω] [DecidableEq ο] in
/-- A value that was posted to an object that the map has forgotten reaches nobody. -/
theorem Connected.runPosted_forgotten (h : m.Connected)
    (hmap : m.bus.eventMap d.eventName ≠ some index)
    (hget : m.bus.liveDatas[index]? = some d) (hpending : d.pending = some value)
    {owed : List (Subscription ω ο × ν)} (howed : ∀ x ∈ owed, x ∈ m.owed) :
    Connected
      { bus := m.bus.on index StickyLiveData.runPosted
        subscriptions := m.subscriptions, owed } := by
  have hvalid : d.Valid := h.valid.objects d (List.mem_of_getElem? hget)
  have hnobody : d.live.observers = [] := by
    by_contra hne
    exact hmap (h.mapped index d hget hne)
  have hrun : d.runPosted = StickyLiveData.setValue { d with pending := none } value := by
    simp [StickyLiveData.runPosted, hpending]
  have hnobody' : d.runPosted.1.live.observers = [] := by
    rw [hrun, StickyLiveData.setValue_live, LiveData.setValue_observers, hnobody]
    rfl
  have hdatas : (m.bus.on index StickyLiveData.runPosted).liveDatas =
      m.bus.liveDatas.set index d.runPosted.1 := by
    simp [HiDataBus.on, hget]
  have hmap' : (m.bus.on index StickyLiveData.runPosted).eventMap = m.bus.eventMap := by
    simp [HiDataBus.on, hget]
  have hhooks : (m.bus.on index StickyLiveData.runPosted).hooks = m.bus.hooks := by
    simp [HiDataBus.on, hget]
  have hother : ∀ name index', m.bus.eventMap name = some index' → index ≠ index' := by
    rintro name index' hname rfl
    obtain ⟨d', hget', heq⟩ := h.valid.mapped name index hname
    rw [hget, Option.some.injEq] at hget'
    subst hget' heq
    exact hmap hname
  have hobject : (m.bus.on index StickyLiveData.runPosted).object = m.bus.object := by
    funext name
    simp only [HiDataBus.object, hdatas, hmap']
    cases hname : m.bus.eventMap name with
    | none => rfl
    | some index' =>
        simp [List.getElem?_set_ne (hother name index' hname)]
  refine ⟨⟨?_, ?_⟩, ?_, ?_, ?_, ?_, ?_⟩
  · intro name index' hname
    rw [hmap'] at hname
    rw [hdatas, List.getElem?_set_ne (hother name index' hname)]
    exact h.valid.mapped name index' hname
  · intro d' hd'
    rw [hdatas] at hd'
    rcases List.mem_or_eq_of_mem_set hd' with hold | rfl
    · exact h.valid.objects d' hold
    · rw [hrun]
      exact (hvalid.withPending none).setValue value
  · simpa only [hobject] using h.linked
  · intro d' hd' w hw
    simp only [hdatas] at hd'
    rcases List.mem_or_eq_of_mem_set hd' with hold | rfl
    · exact h.owned d' hold w hw
    · simp [hnobody'] at hw
  · intro index' d' hget' hne
    simp only [hdatas, List.getElem?_set] at hget'
    simp only [hmap']
    split at hget'
    · split at hget'
      · obtain rfl := Option.some.inj hget'
        exact absurd hnobody' hne
      · cases hget'
    · exact h.mapped index' d' hget' hne
  · simpa only [hhooks] using h.hooked
  · intro x hx
    simpa only [hobject] using h.owed x (howed x hx)

/-- A posted value that is set is given to all who wait for it. -/
theorem Connected.mem_given_runPosted (h : m.Connected)
    (hmap : m.bus.eventMap d.eventName = some index)
    {x : Subscription ω ο × ν} (hx : x ∈ m.owed) (hname : x.1.eventName = d.eventName) :
    (x.1.eventName, x.1.observer, x.2) ∈ given m.bus (.runPosted index) := by
  obtain ⟨hsub, hpending⟩ := h.owed x hx
  obtain ⟨w, hw, -, hcaller⟩ := h.linked x.1 hsub
  have hget' := h.valid.getElem?_of_eventMap hmap
  rw [← hname] at hget'
  rw [given_runPosted hget' hpending, List.mem_map]
  exact ⟨_, mem_setValue ((h.valid.object _).1.withPending none) hw hcaller x.2,
    by rw [(h.valid.object _).2]⟩

theorem Connected.runPosted [DecidableEq ν] (h : m.Connected)
    (hget : m.bus.liveDatas[index]? = some d) (hpending : d.pending = some value) :
    Connected
      { bus := m.bus.on index StickyLiveData.runPosted
        subscriptions := m.subscriptions
        owed := m.owed.filter fun x ↦
          (x.1.eventName, x.1.observer, x.2) ∉ given m.bus (.runPosted index) } := by
  by_cases hmap : m.bus.eventMap d.eventName = some index
  · refine h.runPosted_mapped hmap hget hpending fun x hx ↦ ?_
    rw [List.mem_filter, decide_eq_true_eq] at hx
    exact ⟨hx.1, fun hname ↦ hx.2 (h.mem_given_runPosted hmap hx.1 hname)⟩
  · exact h.runPosted_forgotten hmap hget hpending fun x hx ↦ List.mem_of_mem_filter hx

end RunPosted

section Destroy

variable {b : HiDataBus ω ο ν} {owner : ω}

omit [DecidableEq ο] in
theorem onDestroy_observers (d : StickyLiveData ω ο ν) (owner : ω) :
    (d.onDestroy owner).live.observers =
      d.live.observers.filter fun w ↦ w.owner ≠ some owner := rfl

omit [DecidableEq ο] in
theorem valid_onDestroy {d : StickyLiveData ω ο ν} (h : d.Valid) (owner : ω) :
    (d.onDestroy owner).Valid where
  live := h.live.onStateChanged .destroyed
  distinct := h.distinct.sublist List.filter_sublist
  active w hw := h.active w (List.mem_of_mem_filter hw)
  index_lt w hw := h.index_lt w (List.mem_of_mem_filter hw)
  lastVersion_le := h.lastVersion_le

omit [DecidableEq ο] in
theorem valid_destroy (h : b.Valid) (owner : ω) : (b.destroy owner).Valid := by
  constructor
  · intro eventName index hmap
    simp only [HiDataBus.destroy] at hmap ⊢
    split at hmap
    · cases hmap
    · obtain ⟨d, hd, hname⟩ := h.mapped eventName index hmap
      exact ⟨d.onDestroy owner, by simp [hd], hname⟩
  · intro d hd
    simp only [HiDataBus.destroy, List.mem_map] at hd
    obtain ⟨d₀, hd₀, rfl⟩ := hd
    exact valid_onDestroy (h.objects d₀ hd₀) owner

omit [DecidableEq ο] in
/-- The owner's events start from a new object; the others lose the owner only. -/
theorem destroy_object (h : b.Valid) (eventName : String) :
    (b.destroy owner).object eventName =
      if (owner, eventName) ∈ b.hooks then { eventName }
      else (b.object eventName).onDestroy owner := by
  simp only [HiDataBus.object, HiDataBus.destroy]
  split
  · rfl
  · cases hmap : b.eventMap eventName with
    | none => rfl
    | some index =>
        obtain ⟨d, hd, -⟩ := h.mapped eventName index hmap
        simp [hd]

omit [DecidableEq ο] in
/-- Whoever else is still subscribed has events of its own. -/
theorem Connected.destroy (h : m.Connected)
    (hconsiderate : ∀ sub ∈ m.subscriptions, sub.owner = owner →
      ∀ other ∈ m.subscriptions, other.owner ≠ owner → other.eventName ≠ sub.eventName) :
    Connected
      { bus := m.bus.destroy owner
        subscriptions := m.subscriptions.filter fun sub ↦ sub.owner ≠ owner
        owed := m.owed.filter fun x ↦ x.1.owner ≠ owner } := by
  have hunhooked : ∀ other ∈ m.subscriptions, other.owner ≠ owner →
      (owner, other.eventName) ∉ m.bus.hooks := by
    intro other hother hne hhook
    obtain ⟨sub, hsub, howner, hname⟩ := (h.hooked _ _).mp hhook
    exact hconsiderate sub hsub howner other hother hne hname.symm
  have hobject : ∀ other ∈ m.subscriptions, other.owner ≠ owner →
      (m.bus.destroy owner).object other.eventName =
        (m.bus.object other.eventName).onDestroy owner := by
    intro other hother hne
    rw [destroy_object h.valid, if_neg (hunhooked other hother hne)]
  -- a registration that is left belongs to a subscription that is left
  have howned : ∀ d ∈ m.bus.liveDatas, ∀ w ∈ (d.onDestroy owner).live.observers,
      ∃ sub ∈ m.subscriptions, sub.owner ≠ owner ∧ sub.eventName = d.eventName ∧
        w.owner = some sub.owner := by
    intro d hd w hw
    rw [onDestroy_observers, List.mem_filter, decide_eq_true_eq] at hw
    obtain ⟨sub, hsub, hname, howner⟩ := h.owned d hd w hw.1
    refine ⟨sub, hsub, ?_, hname, howner⟩
    rintro rfl
    exact hw.2 howner
  refine ⟨valid_destroy h.valid owner, ?_, ?_, ?_, ?_, ?_⟩
  · intro sub hsub
    rw [List.mem_filter, decide_eq_true_eq] at hsub
    obtain ⟨w, hw, howner, hcaller⟩ := h.linked sub hsub.1
    simp only [hobject sub hsub.1 hsub.2]
    refine ⟨w, ?_, howner, hcaller⟩
    rw [onDestroy_observers, List.mem_filter, decide_eq_true_eq]
    exact ⟨hw, by simpa [howner] using hsub.2⟩
  · intro d hd w hw
    simp only [HiDataBus.destroy, List.mem_map] at hd
    obtain ⟨d₀, hd₀, rfl⟩ := hd
    obtain ⟨sub, hsub, hne, hname, howner⟩ := howned d₀ hd₀ w hw
    exact ⟨sub, List.mem_filter.mpr ⟨hsub, decide_eq_true hne⟩, hname, howner⟩
  · intro index d hget hne
    simp only [HiDataBus.destroy, List.getElem?_map, Option.map_eq_some_iff] at hget
    obtain ⟨d₀, hget₀, rfl⟩ := hget
    obtain ⟨w, hw⟩ := List.exists_mem_of_ne_nil _ hne
    obtain ⟨sub, hsub, hother, hname, -⟩ := howned d₀ (List.mem_of_getElem? hget₀) w hw
    have hunhooked₀ := hunhooked sub hsub hother
    rw [hname] at hunhooked₀
    have hmap := h.mapped index d₀ hget₀ (List.ne_nil_of_mem (List.mem_of_mem_filter hw))
    simpa [HiDataBus.destroy, StickyLiveData.onDestroy, hunhooked₀] using hmap
  · intro owner' eventName
    simp only [HiDataBus.destroy, List.mem_filter, decide_eq_true_eq, h.hooked]
    constructor
    · rintro ⟨⟨sub, hsub, rfl, rfl⟩, hne⟩
      exact ⟨sub, ⟨hsub, hne⟩, rfl, rfl⟩
    · rintro ⟨sub, ⟨hsub, hne⟩, rfl, rfl⟩
      exact ⟨⟨sub, hsub, rfl, rfl⟩, hne⟩
  · intro x hx
    rw [List.mem_filter, decide_eq_true_eq] at hx
    obtain ⟨hsub, hpending⟩ := h.owed x hx.1
    simp only [hobject x.1 hsub hx.2, List.mem_filter, decide_eq_true_eq]
    exact ⟨⟨hsub, hx.2⟩, hpending⟩

end Destroy

section Step

variable [DecidableEq ν]

/-- A considerate step keeps all subscribers connected. -/
theorem Connected.step (h : m.Connected) (hconsiderate : m.Considerate a)
    (hstep : m.step a = some m') : m'.Connected := by
  obtain ⟨bus, hbus, rfl⟩ := Option.map_eq_some_iff.mp hstep
  cases a with
  | withEvent eventName =>
      obtain rfl := Option.some.inj hbus
      exact h.withEvent eventName
  | observe eventName owner observer =>
      obtain rfl := Option.some.inj hbus
      exact h.observe eventName owner observer
  | observerSticky eventName owner sticky observer =>
      obtain rfl := Option.some.inj hbus
      exact h.observerSticky eventName owner sticky observer
  | setValue eventName value =>
      obtain rfl := Option.some.inj hbus
      exact h.setValue eventName StickyLiveData.mStickyData value
  | setStickyData eventName value =>
      obtain rfl := Option.some.inj hbus
      exact h.setValue eventName (fun _ ↦ some value) value
  | postValue eventName value =>
      obtain rfl := Option.some.inj hbus
      exact h.postValue eventName StickyLiveData.mStickyData value (h.forall_owed hconsiderate)
  | postStickyData eventName value =>
      obtain rfl := Option.some.inj hbus
      exact h.postValue eventName (fun _ ↦ some value) value (h.forall_owed hconsiderate)
  | runPosted index =>
      simp only [HiDataBus.step, Option.ite_none_right_eq_some, Option.any_eq_true] at hbus
      obtain ⟨⟨d, hget, hpending⟩, hbus⟩ := hbus
      obtain rfl := Option.some.inj hbus
      obtain ⟨value, hvalue⟩ := Option.isSome_iff_exists.mp hpending
      exact h.runPosted hget hvalue
  | destroy owner =>
      simp only [HiDataBus.step, Option.ite_none_left_eq_some] at hbus
      obtain rfl := Option.some.inj hbus.2
      exact h.destroy hconsiderate

omit [DecidableEq ν] in
/-- The object that another subscriber is registered with is out of reach when a
subscriber of the same event has been destroyed. -/
theorem Connected.not_served_destroy [Nonempty ν] (h : m.Connected) {owner : ω}
    {sub other : Subscription ω ο} (hsub : sub ∈ m.subscriptions) (howner : sub.owner = owner)
    (hother : other ∈ m.subscriptions) (hne : other.owner ≠ owner)
    (hname : other.eventName = sub.eventName) {owed : List (Subscription ω ο × ν)} :
    ¬ Served
      { bus := m.bus.destroy owner
        subscriptions := m.subscriptions.filter fun sub ↦ sub.owner ≠ owner, owed } := by
  intro hserved
  obtain ⟨value⟩ := ‹Nonempty ν›
  have hhook : (owner, other.eventName) ∈ m.bus.hooks :=
    (h.hooked _ _).mpr ⟨sub, hsub, howner, hname.symm⟩
  have hgiven := hserved.setValue other
    (List.mem_filter.mpr ⟨hother, decide_eq_true hne⟩) value
  rw [given_setValue (valid_destroy h.valid owner), destroy_object h.valid, if_pos hhook,
    (StickyLiveData.valid_new _).setValue_received] at hgiven
  simp at hgiven

omit [DecidableEq ν] in
/-- The value that a subscriber waits for is lost when another one is posted. -/
theorem Connected.not_served_post (h : m.Connected) {eventName : String}
    (stickyData : StickyLiveData ω ο ν → Option ν) {value : ν} {x : Subscription ω ο × ν}
    (hname : x.1.eventName = eventName) (hne : x.2 ≠ value)
    {owed : List (Subscription ω ο × ν)} (hx : x ∈ owed) :
    ¬ Served
      { bus := m.bus.onEvent eventName fun d ↦
          (StickyLiveData.postValue { d with mStickyData := stickyData d } value, [])
        subscriptions := m.subscriptions, owed } := by
  intro hserved
  have hpost := h.postValue eventName stickyData value (List.forall_mem_nil _)
  obtain ⟨index, d, hget, hd, hpending, hgiven⟩ := hserved.posted x hx
  have hobservers : d.live.observers ≠ [] := by
    intro hnil
    rw [given_runPosted hget hpending,
      ((hpost.valid.objects d (List.mem_of_getElem? hget)).withPending none).setValue_received,
      hnil] at hgiven
    simp at hgiven
  -- who is registered is registered with the object that the value was posted to
  have hmap := hpost.mapped index d hget hobservers
  have hget' := hpost.valid.getElem?_of_eventMap hmap
  simp only [hget, Option.some.injEq, h.valid.onEvent_object, hd, hname,
    Function.update_self] at hget'
  rw [hget'] at hpending
  exact hne (Option.some.inj hpending).symm

/-- A step serves all subscribers exactly when it is considerate. -/
theorem Connected.served_iff_considerate [Nonempty ν] (h : m.Connected)
    (hstep : m.step a = some m') : m'.Served ↔ m.Considerate a := by
  refine ⟨fun hserved ↦ ?_, fun hconsiderate ↦ (h.step hconsiderate hstep).served⟩
  obtain ⟨bus, hbus, rfl⟩ := Option.map_eq_some_iff.mp hstep
  cases a with
  | destroy owner =>
      simp only [HiDataBus.step, Option.ite_none_left_eq_some] at hbus
      obtain rfl := Option.some.inj hbus.2
      intro sub hsub howner other hother hne hname
      exact h.not_served_destroy hsub howner hother hne hname hserved
  | postValue eventName value =>
      obtain rfl := Option.some.inj hbus
      intro x hx hname
      by_contra hne
      exact h.not_served_post StickyLiveData.mStickyData hname hne
        (List.mem_append_left _ hx) hserved
  | postStickyData eventName value =>
      obtain rfl := Option.some.inj hbus
      intro x hx hname
      by_contra hne
      exact h.not_served_post (fun _ ↦ some value) hname hne
        (List.mem_append_left _ hx) hserved
  | withEvent | observe | observerSticky | setValue | setStickyData | runPosted => trivial

omit [DecidableEq ω] [DecidableEq ο] [DecidableEq ν] in
theorem connected_new : Connected ({} : Monitor ω ο ν) := by
  refine ⟨HiDataBus.valid_new, ?_, ?_, ?_, ?_, ?_⟩ <;> simp

end Step

end Monitor

/-- In every run of the bus, all subscribers whose owners live are served after every
step if and only if every step is considerate. -/
theorem allServed_iff_considerate [DecidableEq ω] [DecidableEq ο] [DecidableEq ν] [Nonempty ν]
    {as : List (Action ω ο ν)} {m : Monitor ω ο ν} (hrun : run Monitor.step {} as = some m) :
    StatesMeet Monitor.step Monitor.Served {} as ↔
      StepsMeet Monitor.step Monitor.Considerate {} as := by
  refine statesMeet_iff_stepsMeet (I := Monitor.Connected) (D := fun _ _ ↦ True) ?_ ?_
    Monitor.connected_new Monitor.connected_new.served stepsMeet_true hrun
  · intro u a v hu _ hv _ hstep
    exact hu.step ((hu.served_iff_considerate hstep).mp hv) hstep
  · intro u a v hu _ _ hstep
    exact hu.served_iff_considerate hstep

/-- Two owners subscribe to one event, and the first is destroyed. -/
def sharedRun : List (Action (Fin 2) (Fin 2) ℕ) :=
  [.observe "news" 0 0, .observe "news" 1 1, .destroy 0, .setValue "news" 7]

theorem allServed_iff_considerate_shared :
    (∃ m, run Monitor.step {} sharedRun = some m) ∧
      (StatesMeet Monitor.step Monitor.Served {} sharedRun ↔
        StepsMeet Monitor.step Monitor.Considerate {} sharedRun) :=
  ⟨⟨_, rfl⟩, allServed_iff_considerate rfl⟩

/-- The second owner still lives, and is not given the value. -/
theorem value_lost_after_destroy :
    (∃ m, run Monitor.step {} sharedRun = some m ∧
      m.subscriptions = [⟨"news", 1, 1⟩] ∧ m.bus.received = []) ∧
      ¬ StatesMeet Monitor.step Monitor.Served {} sharedRun := by
  refine ⟨⟨_, rfl, by decide, by decide⟩, fun hserved ↦ ?_⟩
  have hgiven := (hserved (sharedRun.take 3) (List.take_prefix 3 _) _ rfl).setValue
    ⟨"news", 1, 1⟩ (by decide) 7
  revert hgiven
  decide

end HiApp.DataBus
