import HiApp.DataBus.HiDataBus

/-!
# What a subscriber is given

`observe` is for values that are set after it.  It registers the caller's observer
twice: through a wrapper that keeps older values away, and then as it is.
-/

namespace HiApp.DataBus

open Runs LiveData

variable {ω ο ν : Type*}

namespace Action

/-- The calls made on the main thread by owners that stay active. -/
def Basic : Action ω ο ν → Prop
  | .observe _ _ _ | .setValue _ _ | .setStickyData _ _ => True
  | _ => False

def Observes (eventName : String) : Action ω ο ν → Prop
  | .observe name _ _ => name = eventName
  | _ => False

/-- The value that is set for the event. -/
def sets (eventName : String) : Action ω ο ν → Option ν
  | .setValue name value | .setStickyData name value =>
      if name = eventName then some value else none
  | _ => none

/-- The object that a call is about, and what the call does to it. -/
def call [DecidableEq ω] [DecidableEq ο] : Action ω ο ν →
    Option (String × (StickyLiveData ω ο ν → StickyLiveData ω ο ν × List (ο × ν)))
  | .observe name owner observer => some (name, fun d ↦ d.observe owner .active observer)
  | .setValue name value => some (name, fun d ↦ d.setValue value)
  | .setStickyData name value => some (name, fun d ↦ d.setStickyData value)
  | _ => none

instance (eventName : String) (a : Action ω ο ν) : Decidable (a.Observes eventName) :=
  match a with
  | .observe name _ _ => inferInstanceAs (Decidable (name = eventName))
  | .withEvent _ | .observerSticky _ _ _ _ | .setValue _ _ | .setStickyData _ _
  | .postValue _ _ | .postStickyData _ _ | .runPosted _ | .destroy _ => isFalse id

end Action

/-- The values an observer was given for an event. -/
def receivedBy [DecidableEq ο] (eventName : String) (observer : ο)
    (log : List (String × ο × ν)) : List ν :=
  log.filterMap fun r ↦ if r.1 = eventName ∧ r.2.1 = observer then some r.2.2 else none

variable [DecidableEq ω] [DecidableEq ο]

/-- From every call of `observe` on, the observer is given the values that are set
after the call, each once and in their order, and no other. -/
def OnceInOrder (as : List (Action ω ο ν)) : Prop :=
  ∀ eventName owner observer before after,
    as = before ++ .observe eventName owner observer :: after →
    ∀ b b' : HiDataBus ω ο ν, run HiDataBus.step {} before = some b →
      run HiDataBus.step {} as = some b' →
      receivedBy eventName observer (b'.received.drop b.received.length) =
        after.filterMap (Action.sets eventName)

namespace HiDataBus

variable {b b' : HiDataBus ω ο ν} {a : Action ω ο ν} {eventName : String}

/-- A call registers an observer, or sets a value. -/
theorem call_cases {f : StickyLiveData ω ο ν → StickyLiveData ω ο ν × List (ο × ν)}
    (hcall : a.call = some (eventName, f)) :
    (∃ owner observer, a = .observe eventName owner observer ∧
      f = fun d ↦ d.observe owner .active observer) ∨
    ∃ (value : ν) (stickyData : StickyLiveData ω ο ν → Option ν),
      (∀ name, a.sets name = if eventName = name then some value else none) ∧
        f = fun d ↦ StickyLiveData.setValue { d with mStickyData := stickyData d } value := by
  cases a with
  | observe name owner observer =>
      obtain ⟨rfl, rfl⟩ := Prod.mk.inj (Option.some.inj hcall)
      exact .inl ⟨owner, observer, rfl, rfl⟩
  | setValue name value =>
      obtain ⟨rfl, rfl⟩ := Prod.mk.inj (Option.some.inj hcall)
      exact .inr ⟨value, StickyLiveData.mStickyData, fun _ ↦ rfl, rfl⟩
  | setStickyData name value =>
      obtain ⟨rfl, rfl⟩ := Prod.mk.inj (Option.some.inj hcall)
      exact .inr ⟨value, fun _ ↦ some value, fun _ ↦ rfl, rfl⟩
  | withEvent | observerSticky | postValue | postStickyData | runPosted | destroy => cases hcall

/-- A call keeps the objects valid and their names. -/
theorem valid_call {d : StickyLiveData ω ο ν} (h : d.Valid)
    {f : StickyLiveData ω ο ν → StickyLiveData ω ο ν × List (ο × ν)}
    (hcall : a.call = some (eventName, f)) :
    (f d).1.Valid ∧ (f d).1.eventName = d.eventName := by
  rcases call_cases hcall with ⟨owner, observer, -, rfl⟩ | ⟨value, stickyData, -, rfl⟩
  · exact ⟨h.observe owner observer, (h.extends_observe owner observer).eventName⟩
  · exact ⟨(h.withStickyData _).setValue _, (StickyLiveData.frame_deliver _ _).eventName⟩

/-- The map is as it should be and all owners live. -/
structure Quiet (b : HiDataBus ω ο ν) : Prop where
  valid : b.Valid
  alive : ∀ owner, b.destroyed owner = false

/-- The step lemma: a call is a call on one object. -/
theorem Quiet.step (h : b.Quiet) (ha : a.Basic) :
    ∃ name f b', a.call = some (name, f) ∧ b.step a = some b' ∧ b'.Quiet ∧
      b'.object = Function.update b.object name (f (b.object name)).1 ∧
      b'.received = b.received ++ (f (b.object name)).2.map (name, ·) := by
  have hspec : ∀ {name f} {b₀ : HiDataBus ω ο ν}, a.call = some (name, f) → b₀.Quiet →
      b₀.object = b.object → b₀.received = b.received →
      (b₀.onEvent name f).Quiet ∧
        (b₀.onEvent name f).object = Function.update b.object name (f (b.object name)).1 ∧
        (b₀.onEvent name f).received = b.received ++ (f (b.object name)).2.map (name, ·) := by
    intro name f b₀ hcall h₀ hobject hreceived
    obtain ⟨hvalid, hname⟩ := valid_call (h₀.valid.object name).1 hcall
    have hvalid' := h₀.valid.onEvent (hname.trans (h₀.valid.object name).2) hvalid
    refine ⟨⟨hvalid', fun owner ↦ ?_⟩, ?_, ?_⟩
    · rw [h₀.valid.onEvent_destroyed, h₀.alive owner]
    · rw [h₀.valid.onEvent_object, hobject]
    · rw [h₀.valid.onEvent_received, hobject, hreceived]
  cases a with
  | observe name owner observer =>
      have hhook : (b.addHook owner name).Quiet ∧ (b.addHook owner name).object = b.object ∧
          (b.addHook owner name).received = b.received := by
        simp only [addHook, h.alive owner]
        exact ⟨⟨⟨h.valid.mapped, h.valid.objects⟩, h.alive⟩, rfl, rfl⟩
      obtain ⟨hquiet, hobject, hreceived⟩ := hhook
      refine ⟨name, _, _, rfl, ?_, hspec rfl hquiet hobject hreceived⟩
      simp [HiDataBus.step, currentState, h.alive owner]
  | setValue name value => exact ⟨name, _, _, rfl, rfl, hspec rfl h rfl rfl⟩
  | setStickyData name value => exact ⟨name, _, _, rfl, rfl, hspec rfl h rfl rfl⟩
  | withEvent | observerSticky | postValue | postStickyData | runPosted | destroy =>
      exact absurd ha id

theorem Quiet.run {as : List (Action ω ο ν)} (h : b.Quiet) (has : ∀ a ∈ as, a.Basic) :
    ∃ b', run HiDataBus.step b as = some b' ∧ b'.Quiet ∧ b.received <+: b'.received := by
  induction as generalizing b with
  | nil => exact ⟨b, rfl, h, List.prefix_rfl⟩
  | cons a as ih =>
      obtain ⟨name, f, b₁, -, hstep, hquiet, -, hreceived⟩ := h.step (has a List.mem_cons_self)
      obtain ⟨b', hrun, hquiet', hprefix⟩ :=
        ih hquiet fun a ha ↦ has a (List.mem_cons_of_mem _ ha)
      refine ⟨b', by simp [Runs.run, hstep, hrun], hquiet', ?_⟩
      exact (hreceived ▸ List.prefix_append _ _ : b.received <+: b₁.received).trans hprefix

/-- Nothing was ever set for the event. -/
structure Silent (eventName : String) (b : HiDataBus ω ο ν) : Prop where
  quiet : b.Quiet
  data : (b.object eventName).live.data = none
  received : ∀ r ∈ b.received, r.1 ≠ eventName

theorem Silent.step (h : b.Silent eventName) (ha : a.Basic) (hsets : a.sets eventName = none)
    (hstep : b.step a = some b') : b'.Silent eventName := by
  obtain ⟨name, f, b₁, hcall, hstep₁, hquiet, hobject, hreceived⟩ := h.quiet.step ha
  obtain rfl := Option.some.inj (hstep₁.symm.trans hstep)
  by_cases hname : name = eventName
  · -- only `observe` is about this event, and there is nothing to give
    subst hname
    have hvalid := (h.quiet.valid.object name).1
    rcases call_cases hcall with ⟨owner, observer, -, rfl⟩ | ⟨value, -, hvalue, -⟩
    · refine ⟨hquiet, ?_, ?_⟩
      · rw [hobject, Function.update_self, (hvalid.extends_observe _ _).data, h.data]
      · rw [hreceived, hvalid.observe_received_of_data_eq_none h.data]
        simpa using h.received
    · simp [hvalue] at hsets
  · refine ⟨hquiet, ?_, ?_⟩
    · rw [hobject, Function.update_of_ne (Ne.symm hname), h.data]
    · rw [hreceived]
      simp only [List.forall_mem_append, List.forall_mem_map]
      exact ⟨h.received, fun _ _ ↦ hname⟩

omit [DecidableEq ω] in
theorem receivedBy_eq_nil {log : List (String × ο × ν)} {observer : ο}
    (h : ∀ r ∈ log, r.1 ≠ eventName) : receivedBy eventName observer log = [] := by
  rw [receivedBy, List.filterMap_eq_nil_iff]
  intro r hr
  simp [h r hr]

omit [DecidableEq ω] in
@[simp] theorem receivedBy_append (observer : ο) (log log' : List (String × ο × ν)) :
    receivedBy eventName observer (log ++ log') =
      receivedBy eventName observer log ++ receivedBy eventName observer log' :=
  List.filterMap_append

end HiDataBus

namespace StickyLiveData

variable {d d' : StickyLiveData ω ο ν} {observer : ο}

/-- The observer is registered as it is and behind a wrapper. -/
def Twice (observer : ο) (d : StickyLiveData ω ο ν) : Prop :=
  (∃ w ∈ d.live.observers, w.observer = .plain observer) ∧
    ∃ w ∈ d.live.observers, ∃ index, w.observer = .sticky index ∧
      d.caller (.sticky index) = some observer

theorem Valid.twice_observe (h : d.Valid) (owner : ω) :
    Twice observer (d.observe owner .active observer).1 := by
  obtain ⟨⟨w, hw, -, htarget, hcaller⟩, hplain⟩ := h.mem_observe owner observer
  exact ⟨hplain, w, hw, _, htarget, htarget ▸ hcaller⟩

omit [DecidableEq ω] [DecidableEq ο] in
theorem Twice.extends (h : Twice observer d) (hext : Extends d d') : Twice observer d' := by
  obtain ⟨⟨w, hw, hplain⟩, w', hw', index, hsticky, hcaller⟩ := h
  exact ⟨⟨w, hext.observers.subset hw, hplain⟩, w', hext.observers.subset hw', index,
    hsticky, hext.caller _ _ hcaller⟩

omit [DecidableEq ω] [DecidableEq ο] in
theorem Twice.setValue (h : Twice observer d) (stickyData : Option ν) (value : ν) :
    Twice observer (StickyLiveData.setValue { d with mStickyData := stickyData } value).1 := by
  have hmem : ∀ w ∈ d.live.observers, ∃ w' ∈
      (StickyLiveData.setValue { d with mStickyData := stickyData } value).1.live.observers,
      w'.observer = w.observer := by
    intro w hw
    have hmap := setValue_observers_map (d := { d with mStickyData := stickyData }) value
    have hpair : (w.observer, w.owner) ∈
        d.live.observers.map fun w ↦ (w.observer, w.owner) := List.mem_map_of_mem hw
    rw [← hmap, List.mem_map] at hpair
    obtain ⟨w', hw', heq⟩ := hpair
    exact ⟨w', hw', congrArg Prod.fst heq⟩
  obtain ⟨⟨w, hw, hplain⟩, w', hw', index, hsticky, hcaller⟩ := h
  obtain ⟨v, hv, heq⟩ := hmem w hw
  obtain ⟨v', hv', heq'⟩ := hmem w' hw'
  exact ⟨⟨v, hv, heq.trans hplain⟩, v', hv', index, heq'.trans hsticky,
    (setValue_caller value _).trans hcaller⟩

omit [DecidableEq ω] [DecidableEq ο] in
theorem two_le_length_of_mem {α : Type*} {l : List α} {x y : α} (hx : x ∈ l) (hy : y ∈ l)
    (hne : x ≠ y) : 2 ≤ l.length := by
  match l, hx, hy with
  | [z], hx, hy =>
      rw [List.mem_singleton] at hx hy
      exact absurd (hx.trans hy.symm) hne
  | _ :: _ :: _, _, _ => simp

omit [DecidableEq ω] in
/-- Such an observer is given every value at least twice. -/
theorem Twice.two_le_received (h : Twice observer d) (hvalid : d.Valid) (eventName : String)
    (stickyData : Option ν) (value : ν) :
    2 ≤ (receivedBy eventName observer
      ((StickyLiveData.setValue { d with mStickyData := stickyData } value).2.map
        (eventName, ·))).length := by
  obtain ⟨⟨w, hw, hplain⟩, w', hw', index, hsticky, hcaller⟩ := h
  have hreceived := (hvalid.withStickyData stickyData).setValue_received value
  have hlist : receivedBy eventName observer
      ((StickyLiveData.setValue { d with mStickyData := stickyData } value).2.map
        (eventName, ·)) =
      (d.live.observers.filter fun w ↦ d.caller w.observer = some observer).map
        fun _ ↦ value := by
    rw [hreceived]
    simp only [receivedBy, List.filterMap_map]
    induction d.live.observers with
    | nil => rfl
    | cons v vs ih =>
        rw [List.flatMap_cons, List.filterMap_append, ih, List.filter_cons]
        have hsame : StickyLiveData.caller { d with mStickyData := stickyData } v.observer =
            d.caller v.observer := rfl
        rw [hsame]
        cases hv : d.caller v.observer with
        | none => simp
        | some observer' =>
            by_cases heq : observer' = observer
            · simp [heq]
            · simp [heq]
  rw [hlist, List.length_map]
  apply two_le_length_of_mem (x := w) (y := w')
  · simpa [hplain] using ⟨hw, rfl⟩
  · simpa [hsticky, hcaller] using hw'
  · rintro rfl
    simp [hplain] at hsticky

end StickyLiveData

namespace HiDataBus

variable {b b' : HiDataBus ω ο ν} {a : Action ω ο ν} {eventName : String} {observer : ο}

/-- Once registered, the observer is given twice as many values as are set. -/
theorem Quiet.step_twice (h : b.Quiet) (htwice : (b.object eventName).Twice observer)
    (ha : a.Basic) (hstep : b.step a = some b') :
    b'.Quiet ∧ (b'.object eventName).Twice observer ∧
      (receivedBy eventName observer b.received).length +
          2 * (a.sets eventName).toList.length ≤
        (receivedBy eventName observer b'.received).length := by
  obtain ⟨name, f, b₁, hcall, hstep₁, hquiet, hobject, hreceived⟩ := h.step ha
  obtain rfl := Option.some.inj (hstep₁.symm.trans hstep)
  rw [hobject, hreceived, receivedBy_append, List.length_append]
  refine ⟨hquiet, ?_⟩
  rcases call_cases hcall with ⟨owner, observer', rfl, rfl⟩ | ⟨value, stickyData, hvalue, rfl⟩
  · refine ⟨?_, by simp [Action.sets]⟩
    by_cases hname : name = eventName
    · subst hname
      rw [Function.update_self]
      exact htwice.extends ((h.valid.object name).1.extends_observe owner observer')
    · rwa [Function.update_of_ne (Ne.symm hname)]
  · rw [hvalue]
    by_cases hname : name = eventName
    · subst hname
      rw [Function.update_self]
      refine ⟨htwice.setValue _ value, ?_⟩
      have htwo := htwice.two_le_received (h.valid.object name).1 name
        (stickyData (b.object name)) value
      simpa using htwo
    · rw [Function.update_of_ne (Ne.symm hname)]
      exact ⟨htwice, by simp [hname]⟩

theorem Quiet.run_twice {as : List (Action ω ο ν)} (h : b.Quiet)
    (htwice : (b.object eventName).Twice observer) (has : ∀ a ∈ as, a.Basic)
    (hrun : Runs.run HiDataBus.step b as = some b') :
    (receivedBy eventName observer b.received).length +
        2 * (as.filterMap (Action.sets eventName)).length ≤
      (receivedBy eventName observer b'.received).length := by
  induction as generalizing b with
  | nil =>
      obtain rfl := Option.some.inj hrun
      simp
  | cons a as ih =>
      obtain ⟨b₁, hstep, hrest⟩ := Option.bind_eq_some_iff.mp hrun
      obtain ⟨hquiet, htwice', hle⟩ :=
        h.step_twice htwice (has a List.mem_cons_self) hstep
      have hle' := ih hquiet htwice' (fun a ha ↦ has a (List.mem_cons_of_mem _ ha)) hrest
      cases hsets : a.sets eventName with
      | none =>
          rw [hsets] at hle
          simp only [List.filterMap_cons, hsets]
          simp only [Option.toList_none, List.length_nil] at hle
          omega
      | some value =>
          rw [hsets] at hle
          simp only [List.filterMap_cons, hsets, List.length_cons]
          simp only [Option.toList_some, List.length_singleton] at hle
          omega

/-- No subscription to the event, but a value of it. -/
structure Unobserved (eventName : String) (b : HiDataBus ω ο ν) : Prop where
  quiet : b.Quiet
  observers : (b.object eventName).live.observers = []

theorem Unobserved.step (h : b.Unobserved eventName) (ha : a.Basic)
    (hobserves : ¬ a.Observes eventName) (hstep : b.step a = some b') :
    b'.Unobserved eventName ∧
      ((a.sets eventName).isSome ∨ (b.object eventName).live.data ≠ none →
        (b'.object eventName).live.data ≠ none) := by
  obtain ⟨name, f, b₁, hcall, hstep₁, hquiet, hobject, -⟩ := h.quiet.step ha
  obtain rfl := Option.some.inj (hstep₁.symm.trans hstep)
  rcases call_cases hcall with ⟨owner, observer', rfl, rfl⟩ | ⟨value, stickyData, hvalue, rfl⟩
  · have hname : eventName ≠ name := fun heq ↦ hobserves heq.symm
    have hsame : b₁.object eventName = b.object eventName := by
      rw [hobject, Function.update_of_ne hname]
    refine ⟨⟨hquiet, by rw [hsame, h.observers]⟩, ?_⟩
    rw [hsame]
    simp [Action.sets]
  · by_cases hname : name = eventName
    · subst hname
      have hmap := StickyLiveData.setValue_observers_map
        (d := { b.object name with mStickyData := stickyData (b.object name) }) value
      refine ⟨⟨hquiet, ?_⟩, fun _ ↦ ?_⟩
      · rw [hobject, Function.update_self]
        simpa [h.observers] using hmap
      · rw [hobject, Function.update_self, StickyLiveData.setValue_live]
        exact Option.some_ne_none value
    · have hsame : b₁.object eventName = b.object eventName := by
        rw [hobject, Function.update_of_ne (Ne.symm hname)]
      refine ⟨⟨hquiet, by rw [hsame, h.observers]⟩, ?_⟩
      rw [hsame, hvalue]
      simp [hname]

theorem Unobserved.run {as : List (Action ω ο ν)} (h : b.Unobserved eventName)
    (has : ∀ a ∈ as, a.Basic) (hobserves : ∀ a ∈ as, ¬ a.Observes eventName)
    (hrun : Runs.run HiDataBus.step b as = some b') :
    b'.Unobserved eventName ∧
      ((∃ a ∈ as, (a.sets eventName).isSome) ∨ (b.object eventName).live.data ≠ none →
        (b'.object eventName).live.data ≠ none) := by
  induction as generalizing b with
  | nil =>
      obtain rfl := Option.some.inj hrun
      exact ⟨h, by simp⟩
  | cons a as ih =>
      obtain ⟨b₁, hstep, hrest⟩ := Option.bind_eq_some_iff.mp hrun
      rw [List.forall_mem_cons] at has hobserves
      obtain ⟨h₁, hdata₁⟩ := h.step has.1 hobserves.1 hstep
      obtain ⟨h', hdata'⟩ := ih h₁ has.2 hobserves.2 hrest
      refine ⟨h', ?_⟩
      rw [List.exists_mem_cons_iff]
      rintro ((ha | has) | hdata)
      · exact hdata' (.inr (hdata₁ (.inl ha)))
      · exact hdata' (.inl has)
      · exact hdata' (.inr (hdata₁ (.inr hdata)))

omit [DecidableEq ω] [DecidableEq ο] in
theorem quiet_new : Quiet ({} : HiDataBus ω ο ν) := ⟨valid_new, fun _ ↦ rfl⟩

/-- Where nothing is set for an observed event, nothing is given. -/
theorem receivedBy_eq_nil_of_run {as : List (Action ω ο ν)} (has : ∀ a ∈ as, a.Basic)
    (hsets : ∀ a ∈ as, a.sets eventName = none)
    (hrun : Runs.run HiDataBus.step {} as = some b) : ∀ r ∈ b.received, r.1 ≠ eventName := by
  have hsilent : b.Silent eventName := by
    refine run_invariant (I := Silent eventName)
      (C := fun _ a ↦ a.Basic ∧ a.sets eventName = none) ?_ ⟨quiet_new, rfl, by simp⟩
      (stepsMeet_of_forall_mem fun a ha ↦ ⟨has a ha, hsets a ha⟩) hrun
    rintro u a v hu ⟨ha, hnone⟩ hstep
    exact hu.step ha hnone hstep
  exact hsilent.received

/-- From the first subscription on, the observer is given twice what is set, and
the value that was there before. -/
theorem sets_eq_none_of_onceInOrder {as : List (Action ω ο ν)} (has : ∀ a ∈ as, a.Basic)
    (honce : OnceInOrder as) {a : Action ω ο ν} (ha : a ∈ as)
    (hobserves : a.Observes eventName) : ∀ a ∈ as, a.sets eventName = none := by
  obtain ⟨first, hfirst⟩ : ∃ first, as.find? (fun a ↦ a.Observes eventName) = some first := by
    rw [← Option.isSome_iff_exists, List.find?_isSome]
    exact ⟨a, ha, by simpa using hobserves⟩
  obtain ⟨hobserves₁, before, after, rfl, hbefore⟩ := List.find?_eq_some_iff_append.mp hfirst
  have hbefore' : ∀ a ∈ before, ¬ a.Observes eventName := by simpa using hbefore
  rw [decide_eq_true_eq] at hobserves₁
  have hsplit := has
  rw [List.forall_mem_append, List.forall_mem_cons] at hsplit
  obtain ⟨hbasic, hbasic₁, hbasic'⟩ := hsplit
  cases first <;> try exact absurd hobserves₁ id
  rename_i name owner observer
  obtain rfl : name = eventName := hobserves₁
  obtain ⟨b, hb, hquiet, -⟩ := quiet_new.run hbasic
  obtain ⟨hunobserved, hdata⟩ :=
    Unobserved.run ⟨quiet_new, rfl⟩ hbasic hbefore' hb
  obtain ⟨_, f, b₁, hcall, hstep, hquiet₁, hobject, hreceived⟩ := hquiet.step hbasic₁
  obtain ⟨rfl, rfl⟩ := Prod.mk.inj (Option.some.inj hcall)
  obtain ⟨b', hb', -, new, hnew⟩ := hquiet₁.run hbasic'
  have hvalid := (hquiet.valid.object name).1
  have hfind : ∀ w ∈ (b.object name).live.observers, w.observer ≠ .plain observer := by
    simp [hunobserved.observers]
  have htwice : (b₁.object name).Twice observer := by
    rw [hobject, Function.update_self]
    exact hvalid.twice_observe owner
  have hle := hquiet₁.run_twice htwice hbasic' hb'
  have hrun : Runs.run HiDataBus.step {} (before ++ .observe name owner observer :: after) =
      some b' := by
    rw [run_append, hb]
    simp [Runs.run, hstep, hb']
  have hgiven := honce name owner observer before after rfl b b' hb hrun
  rw [← hnew, hreceived, List.append_assoc, List.drop_left, receivedBy_append,
    hvalid.observe_received hfind] at hgiven
  rw [← hnew, hreceived, hvalid.observe_received hfind] at hle
  have hlength := congrArg List.length hgiven
  simp only [receivedBy_append, List.length_append] at hle hlength
  have hnone : (b.object name).live.data = none := by
    have hzero : (receivedBy name observer (((b.object name).live.data.toList.map
        (observer, ·)).map (name, ·))).length = 0 := by omega
    cases hvalue : (b.object name).live.data with
    | none => rfl
    | some value =>
        rw [hvalue] at hzero
        simp [receivedBy] at hzero
  have hafter : after.filterMap (Action.sets name) = [] :=
    List.eq_nil_of_length_eq_zero (by omega)
  rw [List.forall_mem_append, List.forall_mem_cons]
  refine ⟨fun a ha ↦ ?_, rfl, List.filterMap_eq_nil_iff.mp hafter⟩
  by_contra hsome
  exact hdata (.inl ⟨a, ha, Option.isSome_iff_ne_none.mpr hsome⟩) hnone

end HiDataBus

/-- In a run of subscriptions and sends every subscriber is given what it should,
if and only if no event is both subscribed to and sent. -/
theorem onceInOrder_iff_nothingSent {as : List (Action ω ο ν)} (has : ∀ a ∈ as, a.Basic) :
    OnceInOrder as ↔
      ∀ eventName, (∀ a ∈ as, ¬ a.Observes eventName) ∨
        ∀ a ∈ as, a.sets eventName = none := by
  constructor
  · intro honce eventName
    by_cases hobserves : ∃ a ∈ as, a.Observes eventName
    · obtain ⟨a, ha, hobserves⟩ := hobserves
      exact .inr (HiDataBus.sets_eq_none_of_onceInOrder has honce ha hobserves)
    · push Not at hobserves
      exact .inl hobserves
  · rintro hnothing eventName owner observer before after rfl b b' - hrun
    rcases hnothing eventName with hobserves | hsets
    · exact absurd rfl (hobserves (.observe eventName owner observer) (by simp))
    · have hreceived := HiDataBus.receivedBy_eq_nil_of_run has hsets hrun
      rw [HiDataBus.receivedBy_eq_nil fun r hr ↦ hreceived r (List.mem_of_mem_drop hr), eq_comm,
        List.filterMap_eq_nil_iff]
      exact fun a ha ↦ hsets a (by simp [ha])

def helloRun : List (Action (Fin 1) (Fin 1) ℕ) := [.observe "hello" 0 0, .setValue "hello" 7]

theorem onceInOrder_iff_nothingSent_hello :
    (∀ a ∈ helloRun, a.Basic) ∧
      (OnceInOrder helloRun ↔
        ∀ eventName, (∀ a ∈ helloRun, ¬ a.Observes eventName) ∨
          ∀ a ∈ helloRun, a.sets eventName = none) := by
  have hbasic : ∀ a ∈ helloRun, a.Basic := by simp [helloRun, Action.Basic]
  exact ⟨hbasic, onceInOrder_iff_nothingSent hbasic⟩

/-- The one value that is set arrives twice. -/
theorem value_received_twice :
    (∃ b, run HiDataBus.step {} helloRun = some b ∧
      b.received = [("hello", 0, 7), ("hello", 0, 7)]) ∧ ¬ OnceInOrder helloRun := by
  refine ⟨⟨_, rfl, by decide⟩, fun honce ↦ ?_⟩
  have hgiven := honce "hello" 0 0 [] [.setValue "hello" 7] rfl _ _ rfl rfl
  revert hgiven
  decide

end HiApp.DataBus
