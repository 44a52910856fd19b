import HiApp.Lib.LiveData
import HiApp.Lib.Runs

/-!
# The message bus

`HiDataBus` keeps a `StickyLiveData` for every event name.  A subscription is
registered with it through a `StickyObserver`, which compares versions to keep old
values away; the map entry of a name is removed when an owner that subscribed to
it is destroyed.  Owners are active until then.
-/

namespace HiApp.DataBus

open Runs LiveData

variable {ω ο ν : Type*}

/-- What is registered with the underlying `LiveData`: the caller's own observer,
or one of the wrappers, by its number. -/
inductive Target (ο : Type*) where
  | plain (observer : ο)
  | sticky (index : ℕ)
  deriving DecidableEq

structure StickyObserver (ο : Type*) where
  sticky : Bool
  observer : ο
  lastVersion : ℕ
  deriving DecidableEq

/-- `mVersion` is a field beside the version that `LiveData` keeps for itself;
`pending` is the value of a `postValue` that the main thread has yet to set. -/
structure StickyLiveData (ω ο ν : Type*) where
  eventName : String
  live : LiveData ω (Target ο) ν := {}
  mStickyData : Option ν := none
  mVersion : ℕ := 0
  stickyObservers : List (StickyObserver ο) := []
  pending : Option ν := none

namespace StickyObserver

/-- What `onChanged` passes on to the caller's observer. -/
def passes (ob : StickyObserver ο) (mVersion : ℕ) (mStickyData : Option ν) (value : ν) :
    Option ν :=
  if mVersion ≤ ob.lastVersion then if ob.sticky then mStickyData else none
  else some value

def onChanged (ob : StickyObserver ο) (mVersion : ℕ) : StickyObserver ο :=
  if mVersion ≤ ob.lastVersion then ob else { ob with lastVersion := mVersion }

end StickyObserver

namespace StickyLiveData

/-- A call that `LiveData` makes, and what the callers' observers get of it. -/
def onChanged (d : StickyLiveData ω ο ν) (c : Call ω (Target ο) ν) :
    StickyLiveData ω ο ν × List (ο × ν) :=
  match c.wrapper.observer with
  | .plain observer => (d, [(observer, c.value)])
  | .sticky index =>
      match d.stickyObservers[index]? with
      | none => (d, [])
      | some ob =>
          ({ d with stickyObservers := d.stickyObservers.set index (ob.onChanged d.mVersion) },
            (ob.passes d.mVersion d.mStickyData c.value).toList.map (ob.observer, ·))

def deliver (d : StickyLiveData ω ο ν) :
    List (Call ω (Target ο) ν) → StickyLiveData ω ο ν × List (ο × ν)
  | [] => (d, [])
  | c :: cs =>
      let r := d.onChanged c
      let rs := r.1.deliver cs
      (rs.1, r.2 ++ rs.2)

def setValue (d : StickyLiveData ω ο ν) (value : ν) : StickyLiveData ω ο ν × List (ο × ν) :=
  let r := d.live.setValue value
  deliver { d with mVersion := d.mVersion + 1, live := r.1 } r.2

def setStickyData (d : StickyLiveData ω ο ν) (value : ν) :
    StickyLiveData ω ο ν × List (ο × ν) :=
  setValue { d with mStickyData := some value } value

/-- A value that is posted while another one is pending takes its place. -/
def postValue (d : StickyLiveData ω ο ν) (value : ν) : StickyLiveData ω ο ν :=
  { d with mVersion := d.mVersion + 1, pending := some value }

def postStickyData (d : StickyLiveData ω ο ν) (value : ν) : StickyLiveData ω ο ν :=
  postValue { d with mStickyData := some value } value

/-- The task that `postValue` leaves to the main thread. -/
def runPosted (d : StickyLiveData ω ο ν) : StickyLiveData ω ο ν × List (ο × ν) :=
  match d.pending with
  | none => (d, [])
  | some value => setValue { d with pending := none } value

/-- The constructor of `StickyObserver` aligns its version with `mVersion`. -/
def newStickyObserver (d : StickyLiveData ω ο ν) (sticky : Bool) (observer : ο) :
    StickyLiveData ω ο ν :=
  { d with stickyObservers :=
      d.stickyObservers ++ [{ sticky, observer, lastVersion := d.mVersion }] }

variable [DecidableEq ω] [DecidableEq ο]

def superObserve (d : StickyLiveData ω ο ν) (owner : ω) (state : Lifecycle)
    (target : Target ο) : StickyLiveData ω ο ν × List (ο × ν) :=
  match d.live.observe owner state target with
  | .error _ => (d, [])
  | .ok r => deliver { d with live := r.1 } r.2

def observerSticky (d : StickyLiveData ω ο ν) (owner : ω) (state : Lifecycle) (sticky : Bool)
    (observer : ο) : StickyLiveData ω ο ν × List (ο × ν) :=
  (d.newStickyObserver sticky observer).superObserve owner state
    (.sticky d.stickyObservers.length)

/-- Both the wrapper and the observer itself are registered. -/
def observe (d : StickyLiveData ω ο ν) (owner : ω) (state : Lifecycle) (observer : ο) :
    StickyLiveData ω ο ν × List (ο × ν) :=
  let r := d.observerSticky owner state false observer
  let rs := r.1.superObserve owner state (.plain observer)
  (rs.1, r.2 ++ rs.2)

def onDestroy (d : StickyLiveData ω ο ν) (owner : ω) : StickyLiveData ω ο ν :=
  { d with live := (d.live.onStateChanged owner .destroyed).1 }

end StickyLiveData

/-- `eventMap` holds numbers of the objects in `liveDatas`, which are never
forgotten here; `hooks` are the lifecycle observers that wait for `ON_DESTROY`,
and `received` what the callers' observers were given, with the event name. -/
structure HiDataBus (ω ο ν : Type*) where
  eventMap : String → Option ℕ := fun _ ↦ none
  liveDatas : List (StickyLiveData ω ο ν) := []
  hooks : List (ω × String) := []
  destroyed : ω → Bool := fun _ ↦ false
  received : List (String × ο × ν) := []

inductive Action (ω ο ν : Type*) where
  | withEvent (eventName : String)
  | observe (eventName : String) (owner : ω) (observer : ο)
  | observerSticky (eventName : String) (owner : ω) (sticky : Bool) (observer : ο)
  | setValue (eventName : String) (value : ν)
  | setStickyData (eventName : String) (value : ν)
  | postValue (eventName : String) (value : ν)
  | postStickyData (eventName : String) (value : ν)
  | runPosted (index : ℕ)
  | destroy (owner : ω)

namespace HiDataBus

/-- `with`, which makes a new object when the map has none. -/
def withEvent (b : HiDataBus ω ο ν) (eventName : String) : HiDataBus ω ο ν × ℕ :=
  match b.eventMap eventName with
  | some index => (b, index)
  | none =>
      ({ b with
          eventMap := Function.update b.eventMap eventName (some b.liveDatas.length)
          liveDatas := b.liveDatas ++ [{ eventName }] },
        b.liveDatas.length)

/-- A method of the object with a number. -/
def on (b : HiDataBus ω ο ν) (index : ℕ)
    (f : StickyLiveData ω ο ν → StickyLiveData ω ο ν × List (ο × ν)) : HiDataBus ω ο ν :=
  match b.liveDatas[index]? with
  | none => b
  | some d =>
      { b with
        liveDatas := b.liveDatas.set index (f d).1
        received := b.received ++ (f d).2.map (d.eventName, ·) }

def onEvent (b : HiDataBus ω ο ν) (eventName : String)
    (f : StickyLiveData ω ο ν → StickyLiveData ω ο ν × List (ο × ν)) : HiDataBus ω ο ν :=
  (b.withEvent eventName).1.on (b.withEvent eventName).2 f

def currentState (b : HiDataBus ω ο ν) (owner : ω) : Lifecycle :=
  if b.destroyed owner then .destroyed else .active

/-- The lifecycle observer of a subscription; a destroyed owner never calls it. -/
def addHook (b : HiDataBus ω ο ν) (owner : ω) (eventName : String) : HiDataBus ω ο ν :=
  if b.destroyed owner then b else { b with hooks := b.hooks ++ [(owner, eventName)] }

variable [DecidableEq ω] [DecidableEq ο]

def destroy (b : HiDataBus ω ο ν) (owner : ω) : HiDataBus ω ο ν :=
  { b with
    eventMap := fun eventName ↦
      if (owner, eventName) ∈ b.hooks then none else b.eventMap eventName
    liveDatas := b.liveDatas.map fun d ↦ d.onDestroy owner
    hooks := b.hooks.filter fun h ↦ h.1 ≠ owner
    destroyed := Function.update b.destroyed owner true }

def step (b : HiDataBus ω ο ν) : Action ω ο ν → Option (HiDataBus ω ο ν)
  | .withEvent eventName => some (b.withEvent eventName).1
  | .observe eventName owner observer =>
      some ((b.addHook owner eventName).onEvent eventName
        fun d ↦ d.observe owner (b.currentState owner) observer)
  | .observerSticky eventName owner sticky observer =>
      some ((b.addHook owner eventName).onEvent eventName
        fun d ↦ d.observerSticky owner (b.currentState owner) sticky observer)
  | .setValue eventName value => some (b.onEvent eventName fun d ↦ d.setValue value)
  | .setStickyData eventName value => some (b.onEvent eventName fun d ↦ d.setStickyData value)
  | .postValue eventName value => some (b.onEvent eventName fun d ↦ (d.postValue value, []))
  | .postStickyData eventName value =>
      some (b.onEvent eventName fun d ↦ (d.postStickyData value, []))
  | .runPosted index =>
      if (b.liveDatas[index]?).any fun d ↦ d.pending.isSome then
        some (b.on index StickyLiveData.runPosted)
      else none
  | .destroy owner => if b.destroyed owner then none else some (b.destroy owner)

end HiDataBus

namespace StickyLiveData

variable {d d' : StickyLiveData ω ο ν}

/-- The caller's observer behind a registration. -/
def caller (d : StickyLiveData ω ο ν) : Target ο → Option ο
  | .plain observer => some observer
  | .sticky index => (d.stickyObservers[index]?).map StickyObserver.observer

/-- Only the versions that the wrappers have seen may differ. -/
structure Frame (d d' : StickyLiveData ω ο ν) : Prop where
  eventName : d'.eventName = d.eventName
  live : d'.live = d.live
  mStickyData : d'.mStickyData = d.mStickyData
  mVersion : d'.mVersion = d.mVersion
  pending : d'.pending = d.pending
  length : d'.stickyObservers.length = d.stickyObservers.length
  caller : ∀ t, d'.caller t = d.caller t
  lastVersion_le : (∀ ob ∈ d.stickyObservers, ob.lastVersion ≤ d.mVersion) →
    ∀ ob ∈ d'.stickyObservers, ob.lastVersion ≤ d.mVersion

theorem Frame.refl (d : StickyLiveData ω ο ν) : Frame d d :=
  ⟨rfl, rfl, rfl, rfl, rfl, rfl, fun _ ↦ rfl, id⟩

theorem Frame.trans {d'' : StickyLiveData ω ο ν} (h : Frame d d') (h' : Frame d' d'') :
    Frame d d'' where
  eventName := h'.eventName.trans h.eventName
  live := h'.live.trans h.live
  mStickyData := h'.mStickyData.trans h.mStickyData
  mVersion := h'.mVersion.trans h.mVersion
  pending := h'.pending.trans h.pending
  length := h'.length.trans h.length
  caller t := (h'.caller t).trans (h.caller t)
  lastVersion_le hle := by
    have hle' := h'.lastVersion_le
    rw [h.mVersion] at hle'
    exact hle' (h.lastVersion_le hle)

theorem frame_onChanged (d : StickyLiveData ω ο ν) (c : Call ω (Target ο) ν) :
    Frame d (d.onChanged c).1 := by
  unfold onChanged
  split
  · exact .refl d
  · rename_i index _
    split
    · exact .refl d
    · rename_i ob hob
      refine ⟨rfl, rfl, rfl, rfl, rfl, List.length_set, fun t ↦ ?_, fun hle ob' hob' ↦ ?_⟩
      · cases t with
        | plain observer => rfl
        | sticky index' =>
            have hsame : (ob.onChanged d.mVersion).observer = ob.observer := by
              unfold StickyObserver.onChanged
              split <;> rfl
            simp only [caller, List.getElem?_set]
            split
            · rename_i heq
              subst heq
              obtain ⟨hlt, hget⟩ := List.getElem?_eq_some_iff.mp hob
              simp [hlt, hget, hsame]
            · rfl
      · rcases List.mem_or_eq_of_mem_set hob' with hmem | rfl
        · exact hle ob' hmem
        · unfold StickyObserver.onChanged
          split
          · exact hle ob (List.mem_of_getElem? hob)
          · exact le_rfl

theorem frame_deliver (d : StickyLiveData ω ο ν) (cs : List (Call ω (Target ο) ν)) :
    Frame d (d.deliver cs).1 := by
  induction cs generalizing d with
  | nil => exact .refl d
  | cons c cs ih => exact (frame_onChanged d c).trans (ih _)

/-- The registration is the caller's own or a wrapper with an older version. -/
def Behind (d : StickyLiveData ω ο ν) : Target ο → Prop
  | .plain _ => True
  | .sticky index => ∃ ob, d.stickyObservers[index]? = some ob ∧ ob.lastVersion < d.mVersion

theorem Behind.onChanged {c : Call ω (Target ο) ν} {t : Target ο} (h : d.Behind t)
    (hne : c.wrapper.observer ≠ t) : (d.onChanged c).1.Behind t := by
  cases t with
  | plain observer => trivial
  | sticky index =>
      obtain ⟨ob, hob, hlt⟩ := h
      unfold StickyLiveData.onChanged
      split
      · exact ⟨ob, hob, hlt⟩
      · rename_i index' hindex
        split
        · exact ⟨ob, hob, hlt⟩
        · have hindex' : index' ≠ index := by
            rintro rfl
            exact hne hindex
          exact ⟨ob, by simpa [hindex'] using hob, hlt⟩

theorem onChanged_received_of_behind {c : Call ω (Target ο) ν}
    (h : d.Behind c.wrapper.observer) :
    (d.onChanged c).2 = (d.caller c.wrapper.observer).toList.map (·, c.value) := by
  unfold onChanged
  cases htarget : c.wrapper.observer with
  | plain observer => rfl
  | sticky index =>
      rw [htarget] at h
      obtain ⟨ob, hob, hlt⟩ := h
      simp [caller, hob, StickyObserver.passes, hlt.not_ge]

/-- Registrations that are behind pass the value on, each once. -/
theorem deliver_received {cs : List (Call ω (Target ο) ν)}
    (hbehind : ∀ c ∈ cs, d.Behind c.wrapper.observer)
    (hdistinct : cs.Pairwise fun c c' ↦ c.wrapper.observer ≠ c'.wrapper.observer) :
    (d.deliver cs).2 =
      cs.flatMap fun c ↦ (d.caller c.wrapper.observer).toList.map (·, c.value) := by
  induction cs generalizing d with
  | nil => rfl
  | cons c cs ih =>
      obtain ⟨hne, htail⟩ := List.pairwise_cons.mp hdistinct
      have hrest := ih (d := (d.onChanged c).1)
        (fun c' hc' ↦ (hbehind c' (List.mem_cons_of_mem c hc')).onChanged (hne c' hc')) htail
      simp only [deliver, hrest, List.flatMap_cons, (frame_onChanged d c).caller,
        onChanged_received_of_behind (hbehind c List.mem_cons_self)]

/-- Every registration is active and belongs to an owner, and no two of them are of
one observer or wrapper. -/
structure Valid (d : StickyLiveData ω ο ν) : Prop where
  live : d.live.Valid
  distinct : d.live.observers.Pairwise fun w w' ↦ w.observer ≠ w'.observer
  active : ∀ w ∈ d.live.observers, w.active = true
  index_lt : ∀ w ∈ d.live.observers, ∀ index, w.observer = .sticky index →
    index < d.stickyObservers.length
  lastVersion_le : ∀ ob ∈ d.stickyObservers, ob.lastVersion ≤ d.mVersion

theorem valid_new (eventName : String) :
    Valid ({ eventName } : StickyLiveData ω ο ν) := by
  refine ⟨LiveData.valid_new, ?_, ?_, ?_, ?_⟩ <;> simp

theorem Valid.frame (h : d.Valid) (hframe : Frame d d') : d'.Valid where
  live := hframe.live ▸ h.live
  distinct := hframe.live ▸ h.distinct
  active := hframe.live ▸ h.active
  index_lt := by
    rw [hframe.live, hframe.length]
    exact h.index_lt
  lastVersion_le := by
    rw [hframe.mVersion]
    exact hframe.lastVersion_le h.lastVersion_le

/-- What the observers are given when a value is set. -/
theorem Valid.setValue_received (h : d.Valid) (value : ν) :
    (d.setValue value).2 =
      d.live.observers.flatMap fun w ↦ (d.caller w.observer).toList.map (·, value) := by
  have hcalls : (d.live.setValue value).2 =
      d.live.observers.map fun w ↦ ⟨w, d.live.version + 1, value⟩ := by
    simp only [LiveData.setValue, notify]
    rw [List.filter_eq_self.mpr]
    intro w hw
    rw [decide_eq_true_iff]
    exact ⟨h.active w hw, Nat.lt_succ_of_le (h.live.lastVersion_le w hw)⟩
  simp only [setValue]
  rw [hcalls, deliver_received, List.flatMap_map]
  · rfl
  · simp only [List.forall_mem_map]
    intro w hw
    cases htarget : w.observer with
    | plain observer => trivial
    | sticky index =>
        have hlt := h.index_lt w hw index htarget
        refine ⟨_, List.getElem?_eq_getElem hlt, ?_⟩
        exact Nat.lt_succ_of_le (h.lastVersion_le _ (List.getElem_mem hlt))
  · rw [List.pairwise_map]
    exact h.distinct

/-- A send changes none of the registrations. -/
theorem Valid.setValue (h : d.Valid) (value : ν) : (d.setValue value).1.Valid := by
  refine Valid.frame ?_ (frame_deliver _ _)
  refine ⟨h.live.setValue value, ?_, ?_, ?_, ?_⟩
  · simpa [setValue_observers, List.pairwise_map] using h.distinct
  · simpa [setValue_observers] using h.active
  · simpa [setValue_observers] using h.index_lt
  · exact fun ob hob ↦ (h.lastVersion_le ob hob).trans (Nat.le_succ _)

/-- The stored sticky value plays no part in a send. -/
theorem Valid.withStickyData (h : d.Valid) (value : Option ν) :
    Valid { d with mStickyData := value } :=
  ⟨h.live, h.distinct, h.active, h.index_lt, h.lastVersion_le⟩

theorem Valid.withPending (h : d.Valid) (value : Option ν) :
    Valid { d with pending := value } :=
  ⟨h.live, h.distinct, h.active, h.index_lt, h.lastVersion_le⟩

theorem setValue_caller (value : ν) (t : Target ο) :
    (d.setValue value).1.caller t = d.caller t :=
  (frame_deliver _ _).caller t

theorem setValue_pending (value : ν) : (d.setValue value).1.pending = d.pending :=
  (frame_deliver _ _).pending

theorem setValue_eventName (value : ν) : (d.setValue value).1.eventName = d.eventName :=
  (frame_deliver _ _).eventName

theorem setValue_live (value : ν) :
    (d.setValue value).1.live = (d.live.setValue value).1 :=
  (frame_deliver _ _).live

theorem setValue_observers_map (value : ν) :
    ((d.setValue value).1.live.observers.map fun w ↦ (w.observer, w.owner)) =
      d.live.observers.map fun w ↦ (w.observer, w.owner) := by
  rw [setValue_live, LiveData.setValue_observers, List.map_map]
  simp [Function.comp_def]

/-- What a subscription does to the object: registrations and wrappers may be added
to those that are there. -/
structure Extends (d d' : StickyLiveData ω ο ν) : Prop where
  eventName : d'.eventName = d.eventName
  data : d'.live.data = d.live.data
  pending : d'.pending = d.pending
  observers : d.live.observers <+: d'.live.observers
  caller : ∀ t observer, d.caller t = some observer → d'.caller t = some observer

theorem Extends.refl (d : StickyLiveData ω ο ν) : Extends d d :=
  ⟨rfl, rfl, rfl, List.prefix_rfl, fun _ _ ↦ id⟩

theorem Extends.trans {d'' : StickyLiveData ω ο ν} (h : Extends d d') (h' : Extends d' d'') :
    Extends d d'' where
  eventName := h'.eventName.trans h.eventName
  data := h'.data.trans h.data
  pending := h'.pending.trans h.pending
  observers := h.observers.trans h'.observers
  caller t observer ht := h'.caller t observer (h.caller t observer ht)

theorem Valid.newStickyObserver (h : d.Valid) (sticky : Bool) (observer : ο) :
    (d.newStickyObserver sticky observer).Valid := by
  refine ⟨h.live, h.distinct, h.active, fun w hw index htarget ↦ ?_, ?_⟩
  · simpa [StickyLiveData.newStickyObserver] using
      (h.index_lt w hw index htarget).trans (Nat.lt_succ_self _)
  · simpa [StickyLiveData.newStickyObserver, or_imp, forall_and] using h.lastVersion_le

theorem extends_newStickyObserver (d : StickyLiveData ω ο ν) (sticky : Bool) (observer : ο) :
    Extends d (d.newStickyObserver sticky observer) := by
  refine ⟨rfl, rfl, rfl, List.prefix_rfl, fun t observer ht ↦ ?_⟩
  cases t with
  | plain observer' => exact ht
  | sticky index =>
      simp only [StickyLiveData.caller, Option.map_eq_some_iff] at ht ⊢
      obtain ⟨ob, hob, hobserver⟩ := ht
      have hlt := (List.getElem?_eq_some_iff.mp hob).1
      refine ⟨ob, ?_, hobserver⟩
      rwa [newStickyObserver, List.getElem?_append_left hlt]

section Observe

variable [DecidableEq ω] [DecidableEq ο] {owner : ω} {target : Target ο}

theorem superObserve_of_find? {state : Lifecycle} {w : Wrapper ω (Target ο)}
    (hfind : d.live.find? target = some w) :
    d.superObserve owner state target = (d, []) := by
  unfold superObserve
  rcases observe_of_find? owner state hfind with hok | herror
  · rw [hok]
    rfl
  · rw [herror]

theorem superObserve_of_find?_eq_none (hfind : d.live.find? target = none) :
    d.superObserve owner .active target =
      deliver { d with live := (d.live.register (some owner) true target).1 }
        (d.live.register (some owner) true target).2 := by
  unfold superObserve
  rw [observe_of_find?_eq_none (by decide) hfind]
  rfl

/-- An active owner's registration is there afterwards, old or new. -/
theorem superObserve_cases (d : StickyLiveData ω ο ν) (owner : ω) (target : Target ο) :
    (∃ w ∈ d.live.observers, w.observer = target) ∧
      d.superObserve owner .active target = (d, []) ∨
    d.live.find? target = none ∧
      (d.superObserve owner .active target).1.live =
        (d.live.register (some owner) true target).1 ∧
      Frame { d with live := (d.live.register (some owner) true target).1 }
        (d.superObserve owner .active target).1 := by
  cases hfind : d.live.find? target with
  | some w =>
      have hw := List.find?_some hfind
      exact .inl ⟨⟨w, List.mem_of_find?_eq_some hfind, by simpa using hw⟩,
        superObserve_of_find? hfind⟩
  | none =>
      rw [superObserve_of_find?_eq_none hfind]
      exact .inr ⟨rfl, (frame_deliver _ _).live, frame_deliver _ _⟩

theorem Valid.extends_superObserve (h : d.Valid) (owner : ω) (target : Target ο) :
    Extends d (d.superObserve owner .active target).1 := by
  rcases superObserve_cases d owner target with
    ⟨-, heq⟩ | ⟨-, hlive, hframe⟩
  · rw [heq]
    exact .refl d
  · refine ⟨hframe.eventName, ?_, hframe.pending, ?_, fun t observer ht ↦ ?_⟩
    · rw [hlive, register_data]
    · rw [hlive, h.live.register_observers]
      exact List.prefix_append _ _
    · rw [hframe.caller]
      exact ht

theorem Valid.superObserve (h : d.Valid)
    (hlt : ∀ index, target = .sticky index → index < d.stickyObservers.length) :
    (d.superObserve owner .active target).1.Valid := by
  rcases superObserve_cases d owner target with
    ⟨-, heq⟩ | ⟨hfind, -, hframe⟩
  · rw [heq]
    exact h
  · refine Valid.frame ?_ hframe
    rw [find?_eq_none_iff] at hfind
    refine ⟨h.live.register, ?_, ?_, ?_, h.lastVersion_le⟩
    · rw [h.live.register_observers, List.pairwise_append]
      refine ⟨h.distinct, List.pairwise_singleton _ _, ?_⟩
      simpa [newWrapper] using hfind
    · rw [h.live.register_observers, List.forall_mem_append]
      exact ⟨h.active, by simp [newWrapper]⟩
    · rw [h.live.register_observers, List.forall_mem_append]
      exact ⟨h.index_lt, by simpa [newWrapper] using hlt⟩

theorem Valid.mem_or_owner_of_superObserve (h : d.Valid) {w : Wrapper ω (Target ο)}
    (hw : w ∈ (d.superObserve owner .active target).1.live.observers) :
    w ∈ d.live.observers ∨ w.owner = some owner := by
  rcases superObserve_cases d owner target with ⟨-, heq⟩ | ⟨-, hlive, -⟩
  · rw [heq] at hw
    exact .inl hw
  · rw [hlive, h.live.register_observers, List.mem_append, List.mem_singleton] at hw
    rcases hw with hw | rfl
    · exact .inl hw
    · exact .inr rfl

variable {sticky : Bool} {observer : ο}

omit [DecidableEq ω] in
theorem Valid.find?_next (h : d.Valid) :
    d.live.find? (.sticky d.stickyObservers.length) = none := by
  rw [find?_eq_none_iff]
  intro w hw htarget
  exact lt_irrefl _ (h.index_lt w hw _ htarget)

theorem Valid.observerSticky (h : d.Valid) (owner : ω) (sticky : Bool) (observer : ο) :
    (d.observerSticky owner .active sticky observer).1.Valid :=
  (h.newStickyObserver sticky observer).superObserve
    (by simp [StickyLiveData.newStickyObserver])

theorem Valid.extends_observerSticky (h : d.Valid) (owner : ω) (sticky : Bool) (observer : ο) :
    Extends d (d.observerSticky owner .active sticky observer).1 :=
  (extends_newStickyObserver d sticky observer).trans
    ((h.newStickyObserver sticky observer).extends_superObserve owner _)

theorem Valid.observerSticky_live (h : d.Valid) :
    (d.observerSticky owner .active sticky observer).1.live =
      (d.live.register (some owner) true (.sticky d.stickyObservers.length)).1 := by
  rcases superObserve_cases (d.newStickyObserver sticky observer) owner
      (.sticky d.stickyObservers.length) with ⟨⟨w, hw, htarget⟩, -⟩ | ⟨-, hlive, -⟩
  · exact absurd htarget (find?_eq_none_iff.mp h.find?_next w hw)
  · exact hlive

theorem Valid.mem_or_owner_of_observerSticky (h : d.Valid) {w : Wrapper ω (Target ο)}
    (hw : w ∈ (d.observerSticky owner .active sticky observer).1.live.observers) :
    w ∈ d.live.observers ∨ w.owner = some owner :=
  (h.newStickyObserver sticky observer).mem_or_owner_of_superObserve hw

/-- The new wrapper is registered for its owner. -/
theorem Valid.mem_observerSticky (h : d.Valid) (owner : ω) (sticky : Bool) (observer : ο) :
    ∃ w ∈ (d.observerSticky owner .active sticky observer).1.live.observers,
      w.owner = some owner ∧ w.observer = .sticky d.stickyObservers.length ∧
      (d.observerSticky owner .active sticky observer).1.caller w.observer = some observer := by
  have hext := (h.newStickyObserver sticky observer).extends_superObserve owner
    (.sticky d.stickyObservers.length)
  rw [h.observerSticky_live, h.live.register_observers]
  refine ⟨_, List.mem_append_right _ List.mem_cons_self, rfl, rfl, ?_⟩
  apply hext.caller
  simp [StickyLiveData.caller, newWrapper, StickyLiveData.newStickyObserver]

/-- A wrapper that is not sticky passes nothing on when it is registered. -/
theorem Valid.observerSticky_received (h : d.Valid) :
    (d.observerSticky owner .active false observer).2 = [] := by
  unfold StickyLiveData.observerSticky
  rw [superObserve_of_find?_eq_none (by exact h.find?_next)]
  simp only [StickyLiveData.newStickyObserver, h.live.register_calls]
  cases d.live.data with
  | none => rfl
  | some value =>
      simp [deliver, StickyLiveData.onChanged, newWrapper, StickyObserver.passes]

theorem Valid.observe (h : d.Valid) (owner : ω) (observer : ο) :
    (d.observe owner .active observer).1.Valid :=
  (h.observerSticky owner false observer).superObserve (by simp)

theorem Valid.extends_observe (h : d.Valid) (owner : ω) (observer : ο) :
    Extends d (d.observe owner .active observer).1 :=
  (h.extends_observerSticky owner false observer).trans
    ((h.observerSticky owner false observer).extends_superObserve owner (.plain observer))

theorem Valid.mem_or_owner_of_observe (h : d.Valid) {w : Wrapper ω (Target ο)}
    (hw : w ∈ (d.observe owner .active observer).1.live.observers) :
    w ∈ d.live.observers ∨ w.owner = some owner := by
  rcases (h.observerSticky _ _ _).mem_or_owner_of_superObserve hw with hw | howner
  · exact h.mem_or_owner_of_observerSticky hw
  · exact .inr howner

/-- The wrapper and the observer are both registered. -/
theorem Valid.mem_observe (h : d.Valid) (owner : ω) (observer : ο) :
    (∃ w ∈ (d.observe owner .active observer).1.live.observers,
      w.owner = some owner ∧ w.observer = .sticky d.stickyObservers.length ∧
      (d.observe owner .active observer).1.caller w.observer = some observer) ∧
    ∃ w ∈ (d.observe owner .active observer).1.live.observers,
      w.observer = .plain observer := by
  have hext :=
    (h.observerSticky owner false observer).extends_superObserve owner (.plain observer)
  constructor
  · obtain ⟨w, hw, howner, htarget, hcaller⟩ :=
      h.mem_observerSticky owner false observer
    exact ⟨w, hext.observers.subset hw, howner, htarget, hext.caller _ _ hcaller⟩
  · rcases superObserve_cases (d.observerSticky owner .active false observer).1 owner
      (.plain observer) with ⟨⟨w, hw, htarget⟩, -⟩ | ⟨-, hlive, -⟩
    · exact ⟨w, hext.observers.subset hw, htarget⟩
    · simp only [StickyLiveData.observe]
      rw [hlive, (h.observerSticky owner false observer).live.register_observers]
      exact ⟨_, List.mem_append_right _ List.mem_cons_self, rfl⟩

/-- An observer that is not registered yet is given the present value. -/
theorem Valid.observe_received (h : d.Valid)
    (hfind : ∀ w ∈ d.live.observers, w.observer ≠ .plain observer) :
    (d.observe owner .active observer).2 = d.live.data.toList.map (observer, ·) := by
  have hvalid := h.observerSticky owner false observer
  have hdata := (h.extends_observerSticky owner false observer).data
  have hfind' : (d.observerSticky owner .active false observer).1.live.find?
      (.plain observer) = none := by
    rw [find?_eq_none_iff, h.observerSticky_live, h.live.register_observers,
      List.forall_mem_append]
    exact ⟨hfind, by simp [newWrapper]⟩
  simp only [StickyLiveData.observe]
  rw [h.observerSticky_received, List.nil_append, superObserve_of_find?_eq_none hfind',
    hvalid.live.register_calls, hdata]
  cases d.live.data with
  | none => rfl
  | some value => simp [deliver, StickyLiveData.onChanged, newWrapper]

/-- Without a value, nobody is given anything at a subscription. -/
theorem Valid.observe_received_of_data_eq_none (h : d.Valid) (hdata : d.live.data = none) :
    (d.observe owner .active observer).2 = [] := by
  by_cases hfind : ∀ w ∈ d.live.observers, w.observer ≠ .plain observer
  · rw [h.observe_received hfind, hdata]
    rfl
  · push Not at hfind
    obtain ⟨w, hw, htarget⟩ := hfind
    have hw' := (h.extends_observerSticky owner false observer).observers.subset hw
    simp only [StickyLiveData.observe]
    rw [h.observerSticky_received, List.nil_append]
    rcases superObserve_cases (d.observerSticky owner .active false observer).1 owner
      (.plain observer) with ⟨-, heq⟩ | ⟨hnone, -, -⟩
    · rw [heq]
    · exact absurd htarget (find?_eq_none_iff.mp hnone w hw')

end Observe

end StickyLiveData

namespace HiDataBus

variable {b : HiDataBus ω ο ν} {eventName : String}

/-- The object a caller of `with` gets. -/
def object (b : HiDataBus ω ο ν) (eventName : String) : StickyLiveData ω ο ν :=
  ((b.eventMap eventName).bind (b.liveDatas[·]?)).getD { eventName }

/-- The map leads to objects of the right name. -/
structure Valid (b : HiDataBus ω ο ν) : Prop where
  mapped : ∀ eventName index, b.eventMap eventName = some index →
    ∃ d, b.liveDatas[index]? = some d ∧ d.eventName = eventName
  objects : ∀ d ∈ b.liveDatas, d.Valid

theorem valid_new : Valid ({} : HiDataBus ω ο ν) := by
  constructor <;> simp

theorem Valid.object (h : b.Valid) (eventName : String) :
    (b.object eventName).Valid ∧ (b.object eventName).eventName = eventName := by
  unfold HiDataBus.object
  cases hmap : b.eventMap eventName with
  | none => exact ⟨StickyLiveData.valid_new eventName, rfl⟩
  | some index =>
      obtain ⟨d, hd, hname⟩ := h.mapped eventName index hmap
      simpa [hd] using ⟨h.objects d (List.mem_of_getElem? hd), hname⟩

theorem Valid.getElem?_of_eventMap (h : b.Valid) {index : ℕ}
    (hmap : b.eventMap eventName = some index) :
    b.liveDatas[index]? = some (b.object eventName) := by
  obtain ⟨d, hd, -⟩ := h.mapped eventName index hmap
  rw [HiDataBus.object, hmap, Option.bind_some, hd, Option.getD_some]

/-- `with` leads to the object, and what was there stays. -/
theorem Valid.withEvent_spec (h : b.Valid) (eventName : String) :
    (b.withEvent eventName).1.eventMap =
        Function.update b.eventMap eventName (some (b.withEvent eventName).2) ∧
      (b.withEvent eventName).1.liveDatas[(b.withEvent eventName).2]? =
        some (b.object eventName) ∧
      b.liveDatas <+: (b.withEvent eventName).1.liveDatas ∧
      (∀ d ∈ (b.withEvent eventName).1.liveDatas, d ∈ b.liveDatas ∨ d = { eventName }) ∧
      (b.withEvent eventName).1.received = b.received ∧
      (b.withEvent eventName).1.hooks = b.hooks ∧
      (b.withEvent eventName).1.destroyed = b.destroyed := by
  unfold withEvent HiDataBus.object
  cases hmap : b.eventMap eventName with
  | some index =>
      obtain ⟨d, hd, -⟩ := h.mapped eventName index hmap
      refine ⟨?_, by simp [hd], List.prefix_rfl, fun d hd ↦ .inl hd, rfl, rfl, rfl⟩
      exact (Function.update_eq_self_iff.mpr hmap.symm).symm
  | none =>
      refine ⟨rfl, by simp, List.prefix_append _ _, ?_, rfl, rfl, rfl⟩
      simp

theorem withEvent_getElem?_of_ne {index : ℕ} (hne : index ≠ (b.withEvent eventName).2) :
    (b.withEvent eventName).1.liveDatas[index]? = b.liveDatas[index]? := by
  unfold withEvent at hne ⊢
  cases hmap : b.eventMap eventName with
  | some index' => rfl
  | none =>
      simp only [hmap] at hne
      simp only [List.getElem?_append]
      split
      · rfl
      · rename_i hlt
        rw [List.getElem?_eq_none (by simpa using by omega), List.getElem?_eq_none (by omega)]

section OnEvent

variable {f : StickyLiveData ω ο ν → StickyLiveData ω ο ν × List (ο × ν)}

/-- A method of the object of a name changes this object and nothing else. -/
theorem Valid.onEvent_eq (h : b.Valid) :
    b.onEvent eventName f =
      { (b.withEvent eventName).1 with
        liveDatas := (b.withEvent eventName).1.liveDatas.set (b.withEvent eventName).2
          (f (b.object eventName)).1
        received := b.received ++ (f (b.object eventName)).2.map (eventName, ·) } := by
  obtain ⟨-, hget, -, -, hreceived, -, -⟩ := h.withEvent_spec eventName
  simp only [onEvent, on, hget, hreceived, (h.object eventName).2]

theorem Valid.withEvent_eq_onEvent (h : b.Valid) :
    (b.withEvent eventName).1 = b.onEvent eventName fun d ↦ (d, []) := by
  obtain ⟨-, hget, -, -, hreceived, -, -⟩ := h.withEvent_spec eventName
  obtain ⟨hlt, heq⟩ := List.getElem?_eq_some_iff.mp hget
  rw [h.onEvent_eq, ← heq, List.set_getElem_self, List.map_nil, List.append_nil, ← hreceived]

theorem Valid.onEvent_eventMap (h : b.Valid) :
    (b.onEvent eventName f).eventMap =
      Function.update b.eventMap eventName (some (b.withEvent eventName).2) := by
  rw [h.onEvent_eq]
  exact (h.withEvent_spec eventName).1

theorem Valid.onEvent_getElem? (h : b.Valid) (index : ℕ) :
    (b.onEvent eventName f).liveDatas[index]? =
      if index = (b.withEvent eventName).2 then some (f (b.object eventName)).1
      else b.liveDatas[index]? := by
  obtain ⟨-, hget, -⟩ := h.withEvent_spec eventName
  have hlt := (List.getElem?_eq_some_iff.mp hget).1
  rw [h.onEvent_eq]
  split
  · rename_i heq
    simp [heq, hlt]
  · rename_i hne
    simp only [List.getElem?_set_ne (Ne.symm hne)]
    exact withEvent_getElem?_of_ne hne

theorem Valid.onEvent_received (h : b.Valid) :
    (b.onEvent eventName f).received =
      b.received ++ (f (b.object eventName)).2.map (eventName, ·) := by
  rw [h.onEvent_eq]

theorem Valid.onEvent_hooks (h : b.Valid) : (b.onEvent eventName f).hooks = b.hooks := by
  obtain ⟨-, -, -, -, -, hhooks, -⟩ := h.withEvent_spec eventName
  rw [h.onEvent_eq, ← hhooks]

theorem Valid.onEvent_destroyed (h : b.Valid) :
    (b.onEvent eventName f).destroyed = b.destroyed := by
  obtain ⟨-, -, -, -, -, -, hdestroyed⟩ := h.withEvent_spec eventName
  rw [h.onEvent_eq, ← hdestroyed]

/-- Another name never leads to the same object. -/
theorem Valid.index_ne (h : b.Valid) {other : String} {index : ℕ} (hne : other ≠ eventName)
    (hother : b.eventMap other = some index) : index ≠ (b.withEvent eventName).2 := by
  obtain ⟨d, hd, hname⟩ := h.mapped other index hother
  obtain ⟨-, hget, ⟨new, hnew⟩, -⟩ := h.withEvent_spec eventName
  rintro rfl
  rw [← hnew, List.getElem?_append_left (List.getElem?_eq_some_iff.mp hd).1, hd,
    Option.some.injEq] at hget
  exact hne (by rw [← hname, hget, (h.object eventName).2])

theorem Valid.onEvent_object (h : b.Valid) :
    (b.onEvent eventName f).object =
      Function.update b.object eventName (f (b.object eventName)).1 := by
  funext other
  simp only [HiDataBus.object, h.onEvent_eventMap, Function.update_apply]
  split
  · simp [h.onEvent_getElem?, HiDataBus.object]
  · rename_i hne
    cases hother : b.eventMap other with
    | none => rfl
    | some index => simp [h.onEvent_getElem?, h.index_ne hne hother]

theorem Valid.onEvent (h : b.Valid)
    (hname : (f (b.object eventName)).1.eventName = eventName)
    (hvalid : (f (b.object eventName)).1.Valid) : (b.onEvent eventName f).Valid := by
  constructor
  · intro other index hother
    rw [h.onEvent_eventMap, Function.update_apply] at hother
    rw [h.onEvent_getElem?]
    split at hother
    · rename_i heq
      obtain rfl := Option.some.inj hother
      exact ⟨_, if_pos rfl, hname.trans heq.symm⟩
    · rename_i hne
      obtain ⟨d, hd, hdname⟩ := h.mapped other index hother
      exact ⟨d, by rw [if_neg (h.index_ne hne hother), hd], hdname⟩
  · intro d hd
    obtain ⟨index, hindex⟩ := List.mem_iff_getElem?.mp hd
    rw [h.onEvent_getElem?] at hindex
    split at hindex
    · obtain rfl := Option.some.inj hindex
      exact hvalid
    · exact h.objects d (List.mem_of_getElem? hindex)

end OnEvent

end HiDataBus

end HiApp.DataBus
